import Octane.Lib.UnorderedMap

/-- What an implementation of a hash table is free to choose: the bucket of a hash code among so
many buckets, how many buckets hold so many entries, and whether a lookup compares the codes
before it compares the keys. -/
structure Layout (Code : Type) where
  bucket : Nat → Code → Nat
  resize : Nat → Nat → Nat
  comparesCodes : Bool
  bucket_lt : ∀ {count} code, 0 < count → bucket count code < count
  resize_pos : ∀ count size, 0 < resize count size

/-- A chained hash table: every entry lies in the bucket of its hash code. -/
structure HashTable {K Code : Type} (hash : K → Code) (layout : Layout Code) (V : Type) where
  buckets : List (List (K × V))
  nonempty : 0 < buckets.length
  placed : ∀ {i bucket}, buckets[i]? = some bucket →
    ∀ entry ∈ bucket, layout.bucket buckets.length (hash entry.1) = i

/-- Two keys that compare equal have one hash code. -/
structure Respects {K Code : Type} (hash : K → Code) (eqv : K → K → Bool) : Prop where
  lawful : UnorderedMap.LawfulKeys eqv
  congr : ∀ {k l}, eqv k l = true → hash k = hash l

namespace HashTable

variable {K Code V : Type} {hash : K → Code} {layout : Layout Code}

def entries (table : HashTable hash layout V) : List (K × V) := table.buckets.flatten

variable (hash layout) in
/-- The entries dealt out to so many buckets. -/
def distribute (count : Nat) (hcount : 0 < count) (entries : List (K × V)) : HashTable hash layout V where
  buckets := (List.range count).map fun i =>
    entries.filter fun entry => layout.bucket count (hash entry.1) == i
  nonempty := by simpa using hcount
  placed := by
    intro i bucket hbucket entry hentry
    simp only [List.getElem?_map, Option.map_eq_some_iff] at hbucket
    obtain ⟨j, hj, rfl⟩ := hbucket
    obtain ⟨_, rfl⟩ := List.getElem?_eq_some_iff.mp hj
    simpa using (List.mem_filter.mp hentry).2

variable (hash layout) in
def empty : HashTable hash layout V :=
  distribute hash layout (layout.resize 0 0) (layout.resize_pos 0 0) []

/-- Room for one more entry; the entries stay where they are if the buckets suffice. -/
def rehash (table : HashTable hash layout V) : HashTable hash layout V :=
  let count := layout.resize table.buckets.length (table.entries.length + 1)
  if count = table.buckets.length then table
  else distribute hash layout count (layout.resize_pos _ _) table.entries

/-- The bucket that a key belongs to. -/
def bucketOf (table : HashTable hash layout V) (k : K) : List (K × V) :=
  (table.buckets[layout.bucket table.buckets.length (hash k)]?).getD []

/-- The entry put in front of its bucket. -/
def place (table : HashTable hash layout V) (entry : K × V) : HashTable hash layout V where
  buckets := table.buckets.modify (layout.bucket table.buckets.length (hash entry.1)) (entry :: ·)
  nonempty := by simpa using table.nonempty
  placed := by
    intro i bucket hbucket other hother
    rw [List.length_modify]
    simp only [List.getElem?_modify, Option.map_eq_map, Option.map_eq_some_iff] at hbucket
    obtain ⟨old, hold, rfl⟩ := hbucket
    split at hother
    · next hi =>
      obtain rfl | hmem := List.mem_cons.mp hother
      · exact hi
      · exact table.placed hold other hmem
    · exact table.placed hold other hother

/-- A bucket holds the entries of the table whose hash codes lead to it. -/
theorem mem_bucketOf {table : HashTable hash layout V} {k : K} {entry : K × V} :
    entry ∈ table.bucketOf k ↔ entry ∈ table.entries ∧
      layout.bucket table.buckets.length (hash entry.1) = layout.bucket table.buckets.length (hash k) := by
  rw [entries, List.mem_flatten, bucketOf]
  constructor
  · intro hentry
    cases hbucket : table.buckets[layout.bucket table.buckets.length (hash k)]? with
    | none => simp [hbucket] at hentry
    | some bucket =>
      rw [hbucket, Option.getD_some] at hentry
      exact ⟨⟨bucket, List.mem_of_getElem? hbucket, hentry⟩, table.placed hbucket entry hentry⟩
  · rintro ⟨⟨bucket, hbucket, hentry⟩, hsame⟩
    obtain ⟨i, hi⟩ := List.mem_iff_getElem?.mp hbucket
    have hplace := table.placed hi entry hentry
    rw [← hsame, hplace, hi]
    exact hentry

/-- Dealing a list out by an index below the count loses no element and doubles none:
each one is in the bucket of its index, and in no other. -/
theorem flatMap_filter_perm {α : Type} (index : α → Nat) (count : Nat) (l : List α) :
    ((List.range count).flatMap fun i => l.filter fun a => index a == i).Perm
      (l.filter fun a => decide (index a < count)) := by
  induction count with
  | zero => simp
  | succ count ih =>
    rw [List.range_succ, List.flatMap_append, List.flatMap_singleton]
    have hcut := List.filter_append_perm (fun a => decide (index a < count))
      (l.filter fun a => decide (index a < count + 1))
    rw [List.filter_filter, List.filter_filter] at hcut
    have hbelow : ∀ a, (decide (index a < count) && decide (index a < count + 1)) =
        decide (index a < count) := by
      intro a
      rw [Bool.eq_iff_iff]
      simp only [Bool.and_eq_true, decide_eq_true_eq]
      omega
    have hhere : ∀ a, (!decide (index a < count) && decide (index a < count + 1)) =
        (index a == count) := by
      intro a
      rw [Bool.eq_iff_iff]
      simp only [Bool.and_eq_true, Bool.not_eq_true', decide_eq_false_iff_not, decide_eq_true_eq,
        beq_iff_eq]
      omega
    simp only [hbelow, hhere] at hcut
    exact (ih.append_right _).trans hcut

/-- Sorting entries into buckets loses none and makes none, whatever the layout says
about where each one goes. -/
theorem distribute_entries_perm {count : Nat} (hcount : 0 < count) (entries : List (K × V)) :
    (distribute hash layout count hcount entries).entries.Perm entries := by
  have hdealt := flatMap_filter_perm (fun entry => layout.bucket count (hash entry.1)) count entries
  have hall : (entries.filter fun entry => decide (layout.bucket count (hash entry.1) < count)) = entries := by
    rw [List.filter_eq_self]
    intro entry _
    exact decide_eq_true (layout.bucket_lt (hash entry.1) hcount)
  rw [hall] at hdealt
  rwa [HashTable.entries, distribute, ← List.flatMap_def]

/-- A rehash moves entries between buckets and changes nothing else. -/
theorem rehash_entries_perm (table : HashTable hash layout V) : table.rehash.entries.Perm table.entries := by
  rw [rehash]
  split_ifs with hsame
  · exact List.Perm.refl _
  · exact distribute_entries_perm _ table.entries

theorem flatten_modify_cons_perm {α : Type} (a : α) {buckets : List (List α)} {i : Nat}
    (hi : i < buckets.length) : (buckets.modify i (a :: ·)).flatten.Perm (a :: buckets.flatten) := by
  induction buckets generalizing i with
  | nil => exact absurd hi (Nat.not_lt_zero i)
  | cons bucket rest ih =>
    cases i with
    | zero => exact List.Perm.refl _
    | succ i =>
      rw [List.modify_succ_cons, List.flatten_cons, List.flatten_cons]
      exact ((ih (Nat.lt_of_succ_lt_succ hi)).append_left bucket).trans List.perm_middle

/-- Placing an entry adds it and nothing else; only the order of iteration depends
on the layout. -/
theorem place_entries_perm (table : HashTable hash layout V) (entry : K × V) :
    (table.place entry).entries.Perm (entry :: table.entries) :=
  flatten_modify_cons_perm entry (layout.bucket_lt _ table.nonempty)

/-- The table holds the entries of a map, in whatever order its buckets have them. -/
structure Holds (eqv : K → K → Bool) (table : HashTable hash layout V) (m : UnorderedMap K V) : Prop where
  entries : table.entries.Perm m.entries
  unique : m.Unique eqv

variable {eqv : K → K → Bool}

/-- The empty table holds the empty map. -/
theorem Holds.empty : (HashTable.empty hash layout : HashTable hash layout V).Holds eqv {} where
  entries := distribute_entries_perm _ []
  unique := UnorderedMap.unique_empty

/-- A new entry comes in front of its bucket, and at the end of the map. -/
theorem Holds.insertion_perm {table : HashTable hash layout V} {m : UnorderedMap K V} (h : table.Holds eqv m)
    (k : K) (v : V) : (table.rehash.place (k, v)).entries.Perm (m.entries ++ [(k, v)]) := by
  calc List.Perm (table.rehash.place (k, v)).entries ((k, v) :: table.rehash.entries) :=
        place_entries_perm _ _
    List.Perm _ ((k, v) :: m.entries) := ((rehash_entries_perm table).trans h.entries).cons _
    List.Perm _ (m.entries ++ [(k, v)]) := (List.perm_append_singleton _ _).symm

variable [DecidableEq Code]

variable (hash layout) in
def matchesKey (eqv : K → K → Bool) (k : K) (entry : K × V) : Bool :=
  (!layout.comparesCodes || hash entry.1 == hash k) && eqv entry.1 k

def find (eqv : K → K → Bool) (table : HashTable hash layout V) (k : K) : Option (K × V) :=
  (table.bucketOf k).find? (matchesKey hash layout eqv k)

/-- Inserts the entry unless its key is there; the flag tells whether it did. -/
def try_emplace (eqv : K → K → Bool) (table : HashTable hash layout V) (k : K) (v : V) :
    HashTable hash layout V × Bool :=
  match table.find eqv k with
  | some _ => (table, false)
  | none => (table.rehash.place (k, v), true)

/-- `try_emplace` reports an insertion exactly when the lookup of the key fails. -/
theorem try_emplace_inserted (table : HashTable hash layout V) (k : K) (v : V) :
    (table.try_emplace eqv k v).2 = true ↔ table.find eqv k = none := by
  cases hfind : table.find eqv k <;> simp [try_emplace, hfind]

/-- A lookup sees what the map holds under the key. It searches one bucket, which is
enough because equal keys have equal hashes. -/
theorem Holds.find_eq (hrespects : Respects hash eqv) {table : HashTable hash layout V} {m : UnorderedMap K V}
    (h : table.Holds eqv m) (k : K) : table.find eqv k = m.find eqv k := by
  have hfound : ∀ entry, table.find eqv k = some entry → m.find eqv k = some entry := by
    intro entry hfind
    have hmatch : matchesKey hash layout eqv k entry = true := List.find?_some hfind
    have hbucket := mem_bucketOf.mp (List.mem_of_find?_eq_some hfind)
    rw [matchesKey, Bool.and_eq_true] at hmatch
    exact h.unique.find_of_mem hrespects.lawful (h.entries.mem_iff.mp hbucket.1) hmatch.2
  cases hfind : table.find eqv k with
  | some entry => exact (hfound entry hfind).symm
  | none =>
    symm
    rw [UnorderedMap.find_eq_none_iff]
    intro entry hentry
    by_contra hne
    rw [Bool.not_eq_false] at hne
    -- an entry with an equal key has the same code, so the search has passed it
    have hcode := hrespects.congr hne
    have hbucket : entry ∈ table.bucketOf k :=
      mem_bucketOf.mpr ⟨h.entries.mem_iff.mpr hentry, by rw [hcode]⟩
    have hpassed := List.find?_eq_none.mp hfind entry hbucket
    simp [matchesKey, hcode, hne] at hpassed

/-- The table inserts when the map does, and holds it afterwards. -/
theorem Holds.try_emplace (hrespects : Respects hash eqv) {table : HashTable hash layout V}
    {m : UnorderedMap K V} (h : table.Holds eqv m) (k : K) (v : V) :
    (table.try_emplace eqv k v).2 = (m.try_emplace eqv k v).2 ∧
      (table.try_emplace eqv k v).1.Holds eqv (m.try_emplace eqv k v).1 := by
  have hunique := h.unique.try_emplace k v
  have hfind := h.find_eq hrespects k
  cases hold : m.find eqv k with
  | some entry => simpa [HashTable.try_emplace, UnorderedMap.try_emplace, hfind, hold] using h
  | none =>
    simp only [UnorderedMap.try_emplace, hold] at hunique
    simp only [HashTable.try_emplace, UnorderedMap.try_emplace, hfind, hold, true_and]
    exact ⟨h.insertion_perm k v, hunique⟩

/-- The table after insertions, one after the other. -/
theorem Holds.foldl_try_emplace (hrespects : Respects hash eqv) (inserted : List (K × V))
    {table : HashTable hash layout V} {m : UnorderedMap K V} (h : table.Holds eqv m) :
    (inserted.foldl (fun table entry => (table.try_emplace eqv entry.1 entry.2).1) table).Holds eqv
      (inserted.foldl (fun m entry => (m.try_emplace eqv entry.1 entry.2).1) m) := by
  induction inserted generalizing table m with
  | nil => exact h
  | cons entry inserted ih => exact ih (h.try_emplace hrespects entry.1 entry.2).2

/-- The value under a key is replaced where it lies. -/
def setValue (eqv : K → K → Bool) (table : HashTable hash layout V) (k : K) (v : V) :
    HashTable hash layout V where
  buckets := table.buckets.modify (layout.bucket table.buckets.length (hash k)) fun bucket =>
    bucket.map fun entry => if matchesKey hash layout eqv k entry then (entry.1, v) else entry
  nonempty := by simpa using table.nonempty
  placed := by
    intro i bucket hbucket other hother
    rw [List.length_modify]
    simp only [List.getElem?_modify, Option.map_eq_map, Option.map_eq_some_iff] at hbucket
    obtain ⟨old, hold, rfl⟩ := hbucket
    split at hother
    · next hi =>
      obtain ⟨entry, hentry, rfl⟩ := List.mem_map.mp hother
      have hplace := table.placed hold entry hentry
      split_ifs <;> exact hplace
    · exact table.placed hold other hother

/-- `table[k] = v`: the first key inserted stays, its value is replaced. -/
def assign (eqv : K → K → Bool) (table : HashTable hash layout V) (k : K) (v : V) :
    HashTable hash layout V :=
  match table.find eqv k with
  | some _ => table.setValue eqv k v
  | none => table.rehash.place (k, v)

/-- Equal keys lie in one bucket, so a change in that bucket is one of the whole table. -/
theorem setValue_entries (hrespects : Respects hash eqv) (table : HashTable hash layout V) (k : K) (v : V) :
    (table.setValue eqv k v).entries =
      table.entries.map fun entry => if eqv entry.1 k then (entry.1, v) else entry := by
  rw [entries, entries, setValue, List.map_flatten]
  refine congrArg List.flatten (List.ext_getElem? fun i => ?_)
  rw [List.getElem?_modify, List.getElem?_map]
  cases hbucket : table.buckets[i]? with
  | none => rfl
  | some bucket =>
    simp only [Option.map_eq_map, Option.map_some, Option.some.injEq]
    split_ifs with hi
    · refine List.map_congr_left fun entry _ => ?_
      by_cases hkey : eqv entry.1 k
      · simp [matchesKey, hkey, hrespects.congr hkey]
      · simp [matchesKey, hkey]
    · have hother : ∀ entry ∈ bucket, (if eqv entry.1 k then (entry.1, v) else entry) = entry := by
        intro entry hentry
        have hplace := table.placed hbucket entry hentry
        refine if_neg fun hkey => hi ?_
        rwa [hrespects.congr hkey] at hplace
      rw [List.map_congr_left hother, List.map_id']

/-- An assignment to the table is the assignment to the map that it holds. The hash
must respect the equality, or the bucket that is searched would not be the one that
holds the key. -/
theorem Holds.assign (hrespects : Respects hash eqv) {table : HashTable hash layout V} {m : UnorderedMap K V}
    (h : table.Holds eqv m) (k : K) (v : V) : (table.assign eqv k v).Holds eqv (m.assign eqv k v) := by
  refine ⟨?_, h.unique.assign k v⟩
  have hfind := h.find_eq hrespects k
  cases hold : m.find eqv k with
  | some entry =>
    simp only [HashTable.assign, UnorderedMap.assign, hfind, hold]
    rw [setValue_entries hrespects]
    exact h.entries.map _
  | none =>
    simp only [HashTable.assign, UnorderedMap.assign, hfind, hold]
    exact h.insertion_perm k v

/-- Comparisons that agree on the keys of the table find the same. -/
theorem find_congr {other : K → K → Bool} {table : HashTable hash layout V} {k : K}
    (h : ∀ entry ∈ table.entries, other entry.1 k = eqv entry.1 k) :
    table.find other k = table.find eqv k := by
  have hbucket : ∀ entry ∈ table.bucketOf k, matchesKey hash layout other k entry =
      matchesKey hash layout eqv k entry := by
    intro entry hentry
    rw [matchesKey, matchesKey, h entry (mem_bucketOf.mp hentry).1]
  rw [find, find, ← List.head?_filter, ← List.head?_filter, List.filter_congr hbucket]

/-- An assignment only compares its key with the keys that are there, so that two
equalities which agree on those do the same. -/
theorem assign_congr {other : K → K → Bool} {table : HashTable hash layout V} {k : K}
    (h : ∀ entry ∈ table.entries, other entry.1 k = eqv entry.1 k) (v : V) :
    table.assign other k v = table.assign eqv k v := by
  rw [assign, assign, find_congr h]
  cases table.find eqv k with
  | none => rfl
  | some found =>
    have hbuckets : (table.setValue other k v).buckets = (table.setValue eqv k v).buckets := by
      refine List.ext_getElem? fun i => ?_
      rw [setValue, setValue, List.getElem?_modify, List.getElem?_modify]
      cases hbucket : table.buckets[i]? with
      | none => rfl
      | some bucket =>
        simp only [Option.map_eq_map, Option.map_some, Option.some.injEq]
        split_ifs
        · refine List.map_congr_left fun entry hentry => ?_
          have hmem : entry ∈ table.entries :=
            List.mem_flatten.mpr ⟨bucket, List.mem_of_getElem? hbucket, hentry⟩
          rw [matchesKey, matchesKey, h entry hmem]
        · rfl
    rw [setValue, setValue, HashTable.mk.injEq]
    exact hbuckets

end HashTable
