import Mathlib

/-- A hash map seen through its contents: the entries in some iteration order.
The key equality is a parameter of the operations, as it is of the C++ type. -/
structure UnorderedMap (K V : Type) where
  entries : List (K × V) := []
deriving DecidableEq

namespace UnorderedMap

variable {K V : Type} (eqv : K → K → Bool)

/-- A key equality that a hash table may use. -/
structure LawfulKeys : Prop where
  refl : ∀ k, eqv k k = true
  symm : ∀ {k l}, eqv k l = true → eqv l k = true
  trans : ∀ {k l m}, eqv k l = true → eqv l m = true → eqv k m = true

/-- No two entries have equal keys. -/
def Unique (m : UnorderedMap K V) : Prop :=
  m.entries.Pairwise (fun a b => eqv a.1 b.1 = false)

def find (m : UnorderedMap K V) (k : K) : Option (K × V) :=
  m.entries.find? (fun entry => eqv entry.1 k)

def get (m : UnorderedMap K V) (k : K) : Option V :=
  (m.find eqv k).map Prod.snd

/-- Inserts the entry unless its key is there; the flag tells whether it did. -/
def try_emplace (m : UnorderedMap K V) (k : K) (v : V) : UnorderedMap K V × Bool :=
  match m.find eqv k with
  | some _ => (m, false)
  | none => (⟨m.entries ++ [(k, v)]⟩, true)

/-- `m[k] = v`: the first key inserted stays, its value is replaced. -/
def assign (m : UnorderedMap K V) (k : K) (v : V) : UnorderedMap K V :=
  match m.find eqv k with
  | some _ => ⟨m.entries.map fun entry => if eqv entry.1 k then (entry.1, v) else entry⟩
  | none => ⟨m.entries ++ [(k, v)]⟩

def erase (m : UnorderedMap K V) (k : K) : UnorderedMap K V :=
  ⟨m.entries.filter fun entry => !eqv entry.1 k⟩

def size (m : UnorderedMap K V) : Nat := m.entries.length

/-- The map with its keys and values replaced where they stand. -/
def mapEntries {L W : Type} (f : K → L) (g : V → W) (m : UnorderedMap K V) : UnorderedMap L W :=
  ⟨m.entries.map fun entry => (f entry.1, g entry.2)⟩

variable {eqv}

@[simp] theorem get_empty (k : K) : get eqv ({} : UnorderedMap K V) k = none := rfl

theorem unique_empty : Unique eqv ({} : UnorderedMap K V) := List.Pairwise.nil

/-- Keys that are equal are equal to the same keys. -/
theorem LawfulKeys.congr_right (heqv : LawfulKeys eqv) {k l : K} (h : eqv k l = true) (other : K) :
    eqv other k = eqv other l := by
  rw [Bool.eq_iff_iff]
  exact ⟨fun hk => heqv.trans hk h, fun hl => heqv.trans hl (heqv.symm h)⟩

/-- Looking an equal key up finds the same entry. -/
theorem LawfulKeys.find_congr (heqv : LawfulKeys eqv) {k l : K} (h : eqv k l = true)
    (m : UnorderedMap K V) : m.find eqv k = m.find eqv l := by
  simp only [find, heqv.congr_right h]

/-- A key is missing exactly where no entry has an equal one. -/
theorem find_eq_none_iff {m : UnorderedMap K V} {k : K} :
    m.find eqv k = none ↔ ∀ entry ∈ m.entries, eqv entry.1 k = false := by
  simp [find]

/-- The entry found has the key asked for. -/
theorem eqv_of_find {m : UnorderedMap K V} {k : K} {entry : K × V}
    (h : m.find eqv k = some entry) : eqv entry.1 k = true := by
  simpa using List.find?_some h

/-- What a lookup finds is an entry of the map. -/
theorem mem_of_find {m : UnorderedMap K V} {k : K} {entry : K × V}
    (h : m.find eqv k = some entry) : entry ∈ m.entries :=
  List.mem_of_find?_eq_some h

/-- After `try_emplace` an old entry still wins over the new one. -/
theorem find_try_emplace (heqv : LawfulKeys eqv) (m : UnorderedMap K V) (k : K) (v : V) (l : K) :
    (m.try_emplace eqv k v).1.find eqv l =
      (m.find eqv l).or (if eqv k l then some (k, v) else none) := by
  cases hfind : m.find eqv k with
  | none =>
    simp only [try_emplace, hfind]
    by_cases hkl : eqv k l <;> simp [find, List.find?_append, hkl]
  | some entry =>
    simp only [try_emplace, hfind]
    by_cases hkl : eqv k l
    · rw [← heqv.find_congr hkl, hfind, Option.some_or]
    · simp [hkl]

/-- `try_emplace` reports an insertion exactly when the key was absent. -/
theorem try_emplace_inserted (m : UnorderedMap K V) (k : K) (v : V) :
    (m.try_emplace eqv k v).2 = true ↔ m.find eqv k = none := by
  cases hfind : m.find eqv k <;> simp [try_emplace, hfind]

/-- The entries after `try_emplace` are the old ones and perhaps the new one; no old
value is replaced. -/
theorem mem_try_emplace {m : UnorderedMap K V} {k : K} {v : V} {entry : K × V}
    (h : entry ∈ (m.try_emplace eqv k v).1.entries) : entry ∈ m.entries ∨ entry = (k, v) := by
  cases hfind : m.find eqv k with
  | none => simpa [try_emplace, hfind] using h
  | some old => exact .inl (by simpa [try_emplace, hfind] using h)

/-- An entry after `m[k] = v` is an old one, the new one, or an old key with the new value. -/
theorem mem_assign {m : UnorderedMap K V} {k : K} {v : V} {entry : K × V}
    (h : entry ∈ (m.assign eqv k v).entries) :
    entry ∈ m.entries ∨ entry = (k, v) ∨ ∃ old ∈ m.entries, entry = (old.1, v) := by
  cases hfind : m.find eqv k with
  | none =>
    have hmem : entry ∈ m.entries ∨ entry = (k, v) := by simpa [assign, hfind] using h
    exact hmem.imp_right .inl
  | some found =>
    simp only [assign, hfind, List.mem_map] at h
    obtain ⟨old, hold, hentry⟩ := h
    by_cases hkey : eqv old.1 k
    · exact .inr (.inr ⟨old, hold, by simpa [hkey] using hentry.symm⟩)
    · have hsame : old = entry := by simpa [hkey] using hentry
      exact .inl (hsame ▸ hold)

private theorem find?_map_value (k : K) (v : V) (l : K) (entries : List (K × V)) :
    ((entries.map fun entry => if eqv entry.1 k then (entry.1, v) else entry).find?
        fun entry => eqv entry.1 l) =
      (entries.find? fun entry => eqv entry.1 l).map
        (fun entry => if eqv entry.1 k then (entry.1, v) else entry) := by
  induction entries with
  | nil => rfl
  | cons entry rest ih =>
    by_cases hk : eqv entry.1 k <;> by_cases hl : eqv entry.1 l <;> simp [hk, hl, ih]

/-- Assignment is seen under every equal key and under no other. -/
theorem get_assign (heqv : LawfulKeys eqv) (m : UnorderedMap K V) (k : K) (v : V) (l : K) :
    (m.assign eqv k v).get eqv l = if eqv k l then some v else m.get eqv l := by
  cases hfind : m.find eqv k with
  | none =>
    simp only [assign, hfind, get]
    by_cases hkl : eqv k l
    · have hnone : m.find eqv l = none := by rwa [← heqv.find_congr hkl]
      simp only [find] at hnone
      simp [find, List.find?_append, hnone, hkl]
    · simp [find, List.find?_append, hkl]
  | some found =>
    simp only [assign, hfind, get]
    by_cases hkl : eqv k l
    · have hfound : m.find eqv l = some found := by rwa [← heqv.find_congr hkl]
      have hkey := eqv_of_find hfind
      simp only [find] at hfound
      simp only [find, find?_map_value, hfound]
      simp [hkey, hkl]
    · cases hother : m.find eqv l with
      | none =>
        simp only [find] at hother
        simp only [find, find?_map_value, hother]
        simp [hkl]
      | some other =>
        have hne : ¬ eqv other.1 k = true := fun hother' =>
          hkl (heqv.trans (heqv.symm hother') (eqv_of_find hother))
        simp only [find] at hother
        simp only [find, find?_map_value, hother]
        simp [hne, hkl]

/-- Erasing a key removes the entries under it and no others. -/
theorem mem_erase {m : UnorderedMap K V} {k : K} {entry : K × V} :
    entry ∈ (m.erase eqv k).entries ↔ entry ∈ m.entries ∧ eqv entry.1 k = false := by
  simp [erase]

/-- An entry under a key that is missing leaves the keys distinct. -/
theorem unique_append {m : UnorderedMap K V} (h : m.Unique eqv) {k : K} (hk : m.find eqv k = none)
    (v : V) : Unique eqv ⟨m.entries ++ [(k, v)]⟩ := by
  have hall := find_eq_none_iff.mp hk
  exact List.pairwise_append.mpr ⟨h, List.pairwise_singleton _ _, by simpa using hall⟩

/-- An assignment changes a value or adds a missing key, so that no key comes twice. -/
theorem Unique.assign {m : UnorderedMap K V} (h : m.Unique eqv) (k : K) (v : V) :
    (m.assign eqv k v).Unique eqv := by
  cases hfind : m.find eqv k with
  | none => simpa [UnorderedMap.assign, hfind] using unique_append h hfind v
  | some found =>
    simp only [UnorderedMap.assign, hfind, Unique]
    rw [List.pairwise_map]
    refine h.imp fun {a b} hab => ?_
    by_cases ha : eqv a.1 k <;> by_cases hb : eqv b.1 k <;> simpa [ha, hb] using hab

/-- `try_emplace` adds only what is missing, so that no key comes twice. -/
theorem Unique.try_emplace {m : UnorderedMap K V} (h : m.Unique eqv) (k : K) (v : V) :
    (m.try_emplace eqv k v).1.Unique eqv := by
  cases hfind : m.find eqv k with
  | none => simpa [UnorderedMap.try_emplace, hfind] using unique_append h hfind v
  | some found => simpa [UnorderedMap.try_emplace, hfind] using h

theorem Unique.erase {m : UnorderedMap K V} (h : m.Unique eqv) (k : K) : (m.erase eqv k).Unique eqv :=
  List.Pairwise.filter _ h

/-- At most one entry has the key that is erased. -/
theorem Unique.size_le_erase (heqv : LawfulKeys eqv) {m : UnorderedMap K V} (h : m.Unique eqv) (k : K) :
    m.size ≤ (m.erase eqv k).size + 1 := by
  have hsplit := m.entries.length_eq_length_filter_add fun entry => !eqv entry.1 k
  have hone : (m.entries.filter fun entry => !!eqv entry.1 k).length ≤ 1 := by
    have hpairs := List.Pairwise.filter (fun entry => !!eqv entry.1 k) h
    have hkeys : ∀ entry ∈ m.entries.filter (fun entry => !!eqv entry.1 k), eqv entry.1 k = true := by
      intro entry hentry
      simpa using (List.mem_filter.mp hentry).2
    generalize m.entries.filter (fun entry => !!eqv entry.1 k) = same at hpairs hkeys
    obtain _ | ⟨first, _ | ⟨second, rest⟩⟩ := same
    · exact Nat.zero_le 1
    · exact Nat.le_refl 1
    · have hdiffer := (List.pairwise_cons.mp hpairs).1 second (by simp)
      have hequal := heqv.trans (hkeys first (by simp)) (heqv.symm (hkeys second (by simp)))
      rw [hdiffer] at hequal
      cases hequal
  rw [size, size, hsplit]
  exact Nat.add_le_add_left hone _

theorem size_erase_le (m : UnorderedMap K V) (k : K) : (m.erase eqv k).size ≤ m.size :=
  List.length_filter_le _ _

/-- `try_emplace` adds one entry at most. -/
theorem size_try_emplace_le (m : UnorderedMap K V) (k : K) (v : V) :
    (m.try_emplace eqv k v).1.size ≤ m.size + 1 := by
  cases hfind : m.find eqv k with
  | none => simp [UnorderedMap.try_emplace, size, hfind]
  | some found => simp [UnorderedMap.try_emplace, hfind]

theorem assign_entries_ne_nil (m : UnorderedMap K V) (k : K) (v : V) :
    (m.assign eqv k v).entries ≠ [] := by
  cases hfind : m.find eqv k with
  | none => simp [assign, hfind]
  | some found =>
    have hne := List.ne_nil_of_mem (mem_of_find hfind)
    simpa [assign, hfind] using hne

/-- In a map with unique keys a search ends at the entry that has an equal key. -/
theorem Unique.find_of_mem (heqv : LawfulKeys eqv) {m : UnorderedMap K V} (h : m.Unique eqv) {entry : K × V}
    (hmem : entry ∈ m.entries) {k : K} (hkey : eqv entry.1 k = true) : m.find eqv k = some entry := by
  have hsymm : Std.Symm fun a b : K × V => eqv a.1 b.1 = false :=
    ⟨fun a b hab => Bool.eq_false_of_not_eq_true fun hba => by simp [heqv.symm hba] at hab⟩
  cases hfind : m.find eqv k with
  | none =>
    have hother := find_eq_none_iff.mp hfind entry hmem
    rw [hkey] at hother
    cases hother
  | some found =>
    have hequal := heqv.trans (eqv_of_find hfind) (heqv.symm hkey)
    by_cases hsame : found = entry
    · rw [hsame]
    · rw [List.Pairwise.forall h (mem_of_find hfind) hmem hsame] at hequal
      cases hequal

/-- In a map with unique keys an entry is what its key leads to. -/
theorem Unique.get_of_mem (heqv : LawfulKeys eqv) {m : UnorderedMap K V} (h : m.Unique eqv) {k : K} {v : V}
    (hmem : (k, v) ∈ m.entries) : m.get eqv k = some v := by
  rw [get, h.find_of_mem heqv hmem (heqv.refl k)]
  rfl

/-- Assignments one after the other: the last one to a key counts. -/
theorem get_foldl_assign (heqv : LawfulKeys eqv) (entries : List (K × V)) (m : UnorderedMap K V) (k : K) :
    (entries.foldl (fun m entry => m.assign eqv entry.1 entry.2) m).get eqv k =
      ((entries.reverse.find? fun entry => eqv entry.1 k).map Prod.snd).or (m.get eqv k) := by
  induction entries generalizing m with
  | nil => rfl
  | cons entry entries ih =>
    rw [List.foldl_cons, ih, get_assign heqv, List.reverse_cons, List.find?_append]
    cases entries.reverse.find? fun entry => eqv entry.1 k with
    | some found => rfl
    | none => by_cases hkey : eqv entry.1 k <;> simp [hkey]

/-- Keys replaced by others that compare alike are found alike. -/
theorem find_mapEntries {L W : Type} {eqvL : L → L → Bool} {f : K → L} (hf : ∀ k l, eqvL (f k) (f l) = eqv k l)
    (g : V → W) (m : UnorderedMap K V) (k : K) :
    (m.mapEntries f g).find eqvL (f k) = (m.find eqv k).map fun entry => (f entry.1, g entry.2) := by
  simp only [find, mapEntries, List.find?_map]
  congr 2
  funext entry
  exact hf entry.1 k

/-- An assignment can be followed in a map of the images, where the keys of the
images are compared as the keys are. -/
theorem mapEntries_assign {L W : Type} {eqvL : L → L → Bool} {f : K → L}
    (hf : ∀ k l, eqvL (f k) (f l) = eqv k l) (g : V → W) (m : UnorderedMap K V) (k : K) (v : V) :
    (m.assign eqv k v).mapEntries f g = (m.mapEntries f g).assign eqvL (f k) (g v) := by
  have hfind := find_mapEntries hf g m k
  cases hold : m.find eqv k with
  | none =>
    rw [hold, Option.map_none] at hfind
    simp only [assign, hold, hfind]
    simp [mapEntries]
  | some old =>
    rw [hold, Option.map_some] at hfind
    simp only [assign, hold, hfind]
    simp only [mapEntries, List.map_map, mk.injEq]
    refine List.map_congr_left fun entry _ => ?_
    simp only [Function.comp, hf]
    split_ifs <;> rfl

/-- Insertions one after the other: the first one under a key counts. -/
theorem find_foldl_try_emplace (heqv : LawfulKeys eqv) (entries : List (K × V)) (m : UnorderedMap K V) (k : K) :
    (entries.foldl (fun m entry => (m.try_emplace eqv entry.1 entry.2).1) m).find eqv k =
      (m.find eqv k).or (entries.find? fun entry => eqv entry.1 k) := by
  induction entries generalizing m with
  | nil => simp
  | cons entry entries ih =>
    rw [List.foldl_cons, ih, find_try_emplace heqv, Option.or_assoc, List.find?_cons]
    by_cases hkey : eqv entry.1 k <;> simp [hkey]

/-- Entries with new keys are all inserted, in their order. -/
theorem foldl_try_emplace (entries : List (K × V)) {start : UnorderedMap K V}
    (hunique : Unique eqv ⟨start.entries ++ entries⟩) :
    entries.foldl (fun m entry => (m.try_emplace eqv entry.1 entry.2).1) start = ⟨start.entries ++ entries⟩ := by
  induction entries generalizing start with
  | nil => simp
  | cons entry entries ih =>
    have hnone : start.find eqv entry.1 = none := by
      rw [find_eq_none_iff]
      intro old hold
      exact (List.pairwise_append.mp hunique).2.2 old hold entry List.mem_cons_self
    have hnew : (start.try_emplace eqv entry.1 entry.2).1 = ⟨start.entries ++ [entry]⟩ := by
      rw [try_emplace, hnone]
    rw [List.append_cons] at hunique
    rw [List.foldl_cons, hnew, ih hunique, List.append_assoc]
    rfl

end UnorderedMap
