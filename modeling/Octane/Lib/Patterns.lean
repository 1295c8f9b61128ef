import Mathlib

/-- A segment of a pattern: a text to be met, or a parameter that any text fills. -/
inductive Segment (S N : Type) where
  | literal (text : S)
  | parameter (name : N)
deriving DecidableEq

abbrev Pattern (S N : Type) := List (Segment S N)

/-- Patterns and what they lead to, in the order in which they were added. -/
abbrev PatternTable (S N H : Type) := List (Pattern S N × H)

namespace Segment

variable {S N : Type}

/-- A segment up to parameter names. -/
def shape : Segment S N → Option S
  | literal text => some text
  | parameter _ => none

def name? : Segment S N → Option N
  | literal _ => none
  | parameter name => some name

def rename (seg : Segment S N) (name : Option N) : Segment S N :=
  match seg with
  | literal text => literal text
  | parameter old => parameter (name.getD old)

def Accepts (seg : Segment S N) (text : S) : Prop := seg.shape = none ∨ seg.shape = some text

instance [DecidableEq S] (seg : Segment S N) (text : S) : Decidable (seg.Accepts text) :=
  inferInstanceAs (Decidable (_ ∨ _))

end Segment

namespace Pattern

variable {S N V : Type}

def shape (pattern : Pattern S N) : List (Option S) := pattern.map Segment.shape

/-- As many segments as the path has, each of which accepts its text. -/
def Matches (pattern : Pattern S N) (path : List S) : Prop :=
  List.Forall₂ Segment.Accepts pattern path

/-- The parameters with what fills them, first one first. -/
def bindings (pattern : Pattern S N) (path : List V) : List (N × V) :=
  (pattern.zip path).filterMap fun pair => pair.1.name?.map fun name => (name, pair.2)

/-- What a list of bindings says about a name: the last one made. -/
def valueOf [DecidableEq N] (bindings : List (N × V)) (name : N) : Option V :=
  (bindings.reverse.find? fun binding => binding.1 = name).map Prod.snd

/-- A pattern binds by position, so that the bindings of a mapped path are the
mapped bindings: views and the bytes they show bind alike. -/
theorem bindings_map {W : Type} (f : V → W) (pattern : Pattern S N) (path : List V) :
    pattern.bindings (path.map f) = (pattern.bindings path).map fun binding => (binding.1, f binding.2) := by
  simp only [bindings, List.zip_map_right, List.filterMap_map, List.map_filterMap]
  refine List.filterMap_congr fun pair _ => ?_
  cases hname : pair.1.name? <;> simp [hname]

theorem valueOf_map {W : Type} [DecidableEq N] (f : V → W) (bindings : List (N × V)) (name : N) :
    valueOf (bindings.map fun binding => (binding.1, f binding.2)) name =
      (valueOf bindings name).map f := by
  rw [valueOf, ← List.map_reverse, List.find?_map, Option.map_map, valueOf, Option.map_map]
  rfl

/-- A later binding of a name hides the earlier ones. -/
theorem valueOf_append [DecidableEq N] (first second : List (N × V)) (name : N) :
    valueOf (first ++ second) name = (valueOf second name).or (valueOf first name) := by
  rw [valueOf, List.reverse_append, List.find?_append, valueOf, valueOf]
  cases second.reverse.find? fun binding => binding.1 = name <;> rfl

theorem valueOf_cons [DecidableEq N] (binding : N × V) (bindings : List (N × V)) (name : N) :
    valueOf (binding :: bindings) name =
      (valueOf bindings name).or (if binding.1 = name then some binding.2 else none) := by
  by_cases hname : binding.1 = name
  · simp [valueOf, List.find?_append, hname]
  · simp [valueOf, List.find?_append, hname]

theorem mem_of_valueOf [DecidableEq N] {bindings : List (N × V)} {name : N} {value : V}
    (h : valueOf bindings name = some value) : (name, value) ∈ bindings := by
  obtain ⟨⟨found, result⟩, hfind, rfl⟩ := Option.map_eq_some_iff.mp h
  obtain rfl : found = name := by simpa using List.find?_some hfind
  exact List.mem_reverse.mp (List.mem_of_find?_eq_some hfind)

/-- Names that are told apart are looked up as before. -/
theorem valueOf_map_name {M : Type} [DecidableEq N] [DecidableEq M] {f : N → M}
    (hf : Function.Injective f) (bindings : List (N × V)) (name : N) :
    valueOf (bindings.map fun binding => (f binding.1, binding.2)) (f name) = valueOf bindings name := by
  simp only [valueOf, ← List.map_reverse, List.find?_map, Option.map_map, Function.comp_def, hf.eq_iff]

end Pattern

/-- The last value that a list is mapped to comes from an entry behind which there is none. -/
theorem getLast?_filterMap_eq_some_iff {A B : Type} {f : A → Option B} {l : List A} {b : B} :
    (l.filterMap f).getLast? = some b ↔
      ∃ before a after, l = before ++ a :: after ∧ f a = some b ∧ ∀ other ∈ after, f other = none := by
  rw [List.getLast?_filterMap, List.findSome?_eq_some_iff]
  constructor
  · rintro ⟨after, a, before, hreverse, hvalue, hnone⟩
    refine ⟨before.reverse, a, after.reverse, ?_, hvalue, by simpa using hnone⟩
    rw [← l.reverse_reverse, hreverse]
    simp
  · rintro ⟨before, a, after, rfl, hvalue, hnone⟩
    exact ⟨after.reverse, a, before.reverse, by simp, hvalue, by simpa using hnone⟩

namespace PatternTable

variable {S N H V : Type} [DecidableEq S]

/-- What is left of an entry behind a first segment of a given shape. -/
def tail (first : Option S) : Pattern S N × H → Option (Pattern S N × H)
  | ([], _) => none
  | (seg :: rest, result) => if seg.shape = first then some (rest, result) else none

def tails (table : PatternTable S N H) (first : Option S) : PatternTable S N H :=
  table.filterMap (tail first)

def finished : Pattern S N × H → Option H
  | ([], result) => some result
  | (_ :: _, _) => none

/-- The last result added under the empty pattern. -/
def result (table : PatternTable S N H) : Option H := (table.filterMap finished).getLast?

/-- The name that an entry gives to a parameter behind `before`. -/
def nameBehind (before : Pattern S N) (entry : Pattern S N × H) : Option N :=
  if Pattern.shape (entry.1.take before.length) = before.shape then
    (entry.1[before.length]?).bind Segment.name?
  else none

/-- The name last given to the parameter that stands behind `before`. -/
def lastName (table : PatternTable S N H) (before : Pattern S N) : Option N :=
  (table.filterMap (nameBehind before)).getLast?

/-- A descent without way back: a literal is preferred to a parameter, and the
parameters it passes are recorded whether or not it arrives. -/
def descent (key : V → S) : PatternTable S N H → List V → List (N × V) × Option H
  | table, [] => ([], table.result)
  | table, part :: path =>
    if (table.tails (some (key part))).isEmpty then
      match table.lastName [] with
      | none => ([], none)
      | some name =>
        let deeper := descent key (table.tails none) path
        ((name, part) :: deeper.1, deeper.2)
    else descent key (table.tails (some (key part))) path

/-- The entry is the last one added under its pattern, up to parameter names. -/
def Latest (table : PatternTable S N H) (entry : Pattern S N × H) : Prop :=
  ∃ before after, table = before ++ entry :: after ∧
    ∀ other ∈ after, Pattern.shape other.1 ≠ Pattern.shape entry.1

/-- Wherever the pattern has a parameter, no entry that agrees with it so far
has the text of the path as a literal. -/
def Unshadowed (table : PatternTable S N H) (pattern : Pattern S N) (path : List S) : Prop :=
  ∀ i name, pattern[i]? = some (.parameter name) → ∀ entry ∈ table,
    Pattern.shape (entry.1.take i) = Pattern.shape (pattern.take i) →
      ∀ text, entry.1[i]? = some (.literal text) → path[i]? ≠ some text

/-- Some entry has a parameter to which the path leads. -/
def PassesParameter (table : PatternTable S N H) (path : List S) : Prop :=
  ∃ entry ∈ table, ∃ before name, before ++ [.parameter name] <+: entry.1 ∧
    Pattern.Matches (before ++ [.parameter name]) (path.take (before.length + 1)) ∧
    table.Unshadowed (before ++ [.parameter name]) path

/-- The pattern with the names that its parameters were last given. -/
def renamed (table : PatternTable S N H) (pattern : Pattern S N) : Pattern S N :=
  pattern.mapIdx fun i seg => seg.rename (table.lastName (pattern.take i))

/-- The entries that a step into the table keeps are those that begin with a segment
of its shape. -/
theorem tail_eq_some_iff {first : Option S} {entry : Pattern S N × H} {rest : Pattern S N} {value : H} :
    tail first entry = some (rest, value) ↔ ∃ seg, seg.shape = first ∧ entry = (seg :: rest, value) := by
  obtain ⟨pattern, found⟩ := entry
  cases pattern with
  | nil => simp [tail]
  | cons seg pattern =>
    by_cases hfirst : seg.shape = first
    · simp [tail, hfirst]
    · simp only [tail, hfirst, if_false, reduceCtorEq, false_iff, not_exists, not_and]
      intro other hother heq
      simp only [Prod.mk.injEq, List.cons.injEq] at heq
      exact hfirst (heq.1.1 ▸ hother)

/-- What lies below a step is what lies behind such a first segment. -/
theorem mem_tails {table : PatternTable S N H} {first : Option S} {rest : Pattern S N} {value : H} :
    (rest, value) ∈ table.tails first ↔ ∃ seg, seg.shape = first ∧ (seg :: rest, value) ∈ table := by
  simp only [tails, List.mem_filterMap, tail_eq_some_iff]
  constructor
  · rintro ⟨entry, hentry, seg, hseg, rfl⟩
    exact ⟨seg, hseg, hentry⟩
  · rintro ⟨seg, hseg, hentry⟩
    exact ⟨_, hentry, seg, hseg, rfl⟩

/-- Adding an entry adds its remainder behind the first segment it has. -/
theorem tails_append (table : PatternTable S N H) (seg : Segment S N) (rest : Pattern S N) (value : H)
    (first : Option S) :
    PatternTable.tails (table ++ [(seg :: rest, value)]) first =
      table.tails first ++ if seg.shape = first then [(rest, value)] else [] := by
  by_cases hfirst : seg.shape = first <;> simp [tails, tail, hfirst]

/-- An entry for the empty path lies below no step. -/
theorem tails_append_nil (table : PatternTable S N H) (value : H) (first : Option S) :
    PatternTable.tails (table ++ [([], value)]) first = table.tails first := by
  simp [tails, tail]

omit [DecidableEq S] in
/-- An entry that goes on does not change what the empty path leads to. -/
theorem result_append_cons (table : PatternTable S N H) (seg : Segment S N) (rest : Pattern S N)
    (value : H) : PatternTable.result (table ++ [(seg :: rest, value)]) = table.result := by
  simp [result, finished]

omit [DecidableEq S] in
/-- The last entry for the empty path is what it leads to. -/
theorem result_append_nil (table : PatternTable S N H) (value : H) :
    PatternTable.result (table ++ [([], value)]) = some value := by
  simp [result, finished]

/-- The last pattern that begins with a parameter names it. -/
theorem lastName_append (table : PatternTable S N H) (entry : Pattern S N × H) :
    PatternTable.lastName (table ++ [entry]) [] =
      ((entry.1.head?).bind Segment.name?).or (table.lastName []) := by
  have hname : nameBehind [] entry = (entry.1.head?).bind Segment.name? := by
    simp [nameBehind, Pattern.shape, List.head?_eq_getElem?]
  simp only [lastName, List.filterMap_append, List.filterMap_cons, List.filterMap_nil, hname]
  cases (entry.1.head?).bind Segment.name? <;> simp

/-- A parameter stands first somewhere exactly when there are entries behind one. -/
theorem lastName_eq_none_iff {table : PatternTable S N H} :
    table.lastName [] = none ↔ table.tails none = [] := by
  simp only [lastName, List.getLast?_eq_none_iff, tails, List.filterMap_eq_nil_iff]
  refine forall₂_congr fun entry _ => ?_
  obtain ⟨pattern, value⟩ := entry
  cases pattern with
  | nil => simp [nameBehind, tail]
  | cons seg rest => cases seg <;> simp [nameBehind, tail, Segment.name?, Segment.shape, Pattern.shape]

/-- Below a step, the names are those of the patterns below it. -/
theorem lastName_cons (table : PatternTable S N H) (seg : Segment S N) (before : Pattern S N) :
    table.lastName (seg :: before) = (table.tails seg.shape).lastName before := by
  simp only [lastName, tails, List.filterMap_filterMap]
  congr 1
  refine List.filterMap_congr fun entry _ => ?_
  obtain ⟨pattern, value⟩ := entry
  cases pattern with
  | nil => simp [nameBehind, tail, Pattern.shape]
  | cons first rest =>
    by_cases hfirst : first.shape = seg.shape <;>
      simp [nameBehind, tail, Pattern.shape, hfirst]

/-- A pattern is renamed segment by segment, each from the table at its level. -/
theorem renamed_cons (table : PatternTable S N H) (seg : Segment S N) (pattern : Pattern S N) :
    table.renamed (seg :: pattern) =
      seg.rename (table.lastName []) :: (table.tails seg.shape).renamed pattern := by
  simp [renamed, List.mapIdx_cons, lastName_cons]

omit [DecidableEq S] in
theorem Latest.mem {table : PatternTable S N H} {entry : Pattern S N × H} (h : table.Latest entry) :
    entry ∈ table := by
  obtain ⟨before, after, rfl, _⟩ := h
  simp

/-- Being the latest entry passes to what is left behind the first segment: entries
that begin in another way cannot come between. -/
theorem latest_tails {table : PatternTable S N H} {first : Option S} {rest : Pattern S N} {value : H} :
    (∃ seg : Segment S N, seg.shape = first ∧ table.Latest (seg :: rest, value)) ↔
      (table.tails first).Latest (rest, value) := by
  constructor
  · rintro ⟨seg, hseg, before, after, rfl, hafter⟩
    refine ⟨before.filterMap (tail first), after.filterMap (tail first), ?_, ?_⟩
    · simp [tails, tail, hseg]
    · rintro ⟨pattern, other⟩ hother hsame
      obtain ⟨seg', hseg', hmem⟩ := mem_tails.mp hother
      refine hafter _ hmem ?_
      simp only [Pattern.shape, List.map_cons, hseg, hseg'] at hsame ⊢
      rw [hsame]
  · rintro ⟨before, after, htails, hafter⟩
    obtain ⟨front, back, rfl, _, hback⟩ := List.filterMap_eq_append_iff.mp htails
    obtain ⟨skipped, entry, last, rfl, _, hentry, hlast⟩ := List.filterMap_eq_cons_iff.mp hback
    obtain ⟨seg, hseg, rfl⟩ := tail_eq_some_iff.mp hentry
    refine ⟨seg, hseg, front ++ skipped, last, by simp, ?_⟩
    rintro ⟨pattern, other⟩ hother hsame
    cases pattern with
    | nil => simp [Pattern.shape] at hsame
    | cons seg' pattern =>
      simp only [Pattern.shape, List.map_cons, List.cons.injEq] at hsame
      have hmem : (pattern, other) ∈ after :=
        hlast ▸ List.mem_filterMap.mpr
          ⟨_, hother, tail_eq_some_iff.mpr ⟨seg', hsame.1.trans hseg, rfl⟩⟩
      exact hafter _ hmem hsame.2

omit [DecidableEq S] in
/-- What the empty path leads to is the last entry for it. -/
theorem result_eq_some_iff {table : PatternTable S N H} {value : H} :
    table.result = some value ↔ table.Latest ([], value) := by
  rw [result, getLast?_filterMap_eq_some_iff]
  constructor
  · rintro ⟨before, ⟨pattern, found⟩, after, rfl, hentry, hafter⟩
    cases pattern with
    | cons seg pattern => cases hentry
    | nil =>
      obtain rfl : found = value := by simpa [finished] using hentry
      refine ⟨before, after, rfl, ?_⟩
      rintro ⟨pattern, other⟩ hother hsame
      obtain rfl : pattern = [] := by simpa [Pattern.shape] using hsame
      cases hafter _ hother
  · rintro ⟨before, after, rfl, hafter⟩
    refine ⟨before, _, after, rfl, rfl, ?_⟩
    rintro ⟨pattern, other⟩ hother
    cases pattern with
    | nil => exact absurd rfl (hafter ([], other) hother)
    | cons seg pattern => rfl

omit [DecidableEq S] in
/-- The empty pattern passes no segment that a literal could take. -/
theorem unshadowed_nil (table : PatternTable S N H) (path : List S) : table.Unshadowed [] path := by
  intro i name hname
  simp at hname

/-- A descent passes the first segment, then what is left decides. At a parameter no
literal of the table may have the text of the path. -/
theorem unshadowed_cons {table : PatternTable S N H} {seg : Segment S N} {pattern : Pattern S N}
    {text : S} {path : List S} :
    table.Unshadowed (seg :: pattern) (text :: path) ↔
      (seg.shape = none → table.tails (some text) = []) ∧
        (table.tails seg.shape).Unshadowed pattern path := by
  constructor
  · intro h
    refine ⟨fun hseg => ?_, ?_⟩
    · rw [List.eq_nil_iff_forall_not_mem]
      rintro ⟨rest, value⟩ hmem
      obtain ⟨first, hfirst, hentry⟩ := mem_tails.mp hmem
      cases seg with
      | literal other => cases hseg
      | parameter name =>
        cases first with
        | parameter other => cases hfirst
        | literal other =>
          obtain rfl : other = text := by simpa [Segment.shape] using hfirst
          exact h 0 name rfl _ hentry rfl other rfl rfl
    · rintro i name hname ⟨rest, value⟩ hmem hsame other hother
      obtain ⟨first, hfirst, hentry⟩ := mem_tails.mp hmem
      refine h (i + 1) name hname _ hentry ?_ other hother
      simp only [Pattern.shape, List.take_succ_cons, List.map_cons, hfirst] at hsame ⊢
      rw [hsame]
  · rintro ⟨hhead, hrest⟩ i name hname ⟨other, value⟩ hentry hsame literal hliteral
    cases i with
    | zero =>
      obtain rfl : seg = .parameter name := by simpa using hname
      intro htext
      obtain rfl : text = literal := by simpa using htext
      cases other with
      | nil => simp at hliteral
      | cons first other =>
        obtain rfl : first = .literal text := by simpa using hliteral
        have hmem : (other, value) ∈ table.tails (some text) := mem_tails.mpr ⟨_, rfl, hentry⟩
        rw [hhead rfl] at hmem
        cases hmem
    | succ i =>
      cases other with
      | nil => simp at hliteral
      | cons first other =>
        simp only [Pattern.shape, List.take_succ_cons, List.map_cons, List.cons.injEq] at hsame
        exact hrest i name hname _ (mem_tails.mpr ⟨first, hsame.1, hentry⟩) hsame.2 literal hliteral

omit [DecidableEq S] in
/-- Matching is a matter of the shape. -/
theorem matches_of_shape {pattern other : Pattern S N} (hshape : other.shape = pattern.shape)
    {path : List S} (h : pattern.Matches path) : other.Matches path := by
  have hmatches : ∀ p : Pattern S N, p.Matches path ↔
      List.Forall₂ (fun first text => first = none ∨ first = some text) p.shape path := by
    intro p
    rw [Pattern.shape, List.forall₂_map_left_iff]
    rfl
  rw [hmatches, hshape, ← hmatches]
  exact h

omit [DecidableEq S] in
/-- Only the literals and the places of the parameters decide what shadows a pattern. -/
theorem Unshadowed.of_shape {table : PatternTable S N H} {pattern other : Pattern S N}
    (hshape : other.shape = pattern.shape) {path : List S} (h : table.Unshadowed pattern path) :
    table.Unshadowed other path := by
  intro i name hname entry hentry hsame text htext
  have hget : (pattern[i]?).map Segment.shape = some none := by
    have hother : other.shape[i]? = some none := by
      simp [Pattern.shape, hname, Segment.shape]
    rw [hshape] at hother
    simpa [Pattern.shape] using hother
  obtain ⟨seg, hseg, hnone⟩ := Option.map_eq_some_iff.mp hget
  cases seg with
  | literal text => cases hnone
  | parameter own =>
    refine h i own hseg entry hentry ?_ text htext
    simp only [Pattern.shape, List.map_take] at hsame hshape ⊢
    rw [hsame, hshape]

/-- The latest entry of a shape is the last one in the table. -/
theorem latest_iff_getLast? {table : PatternTable S N H} {entry : Pattern S N × H} :
    table.Latest entry ↔
      (table.filter fun other => Pattern.shape other.1 = Pattern.shape entry.1).getLast? = some entry := by
  rw [← List.filterMap_eq_filter, getLast?_filterMap_eq_some_iff]
  constructor
  · rintro ⟨before, after, rfl, hafter⟩
    exact ⟨before, entry, after, rfl, by simp, fun other hother => by simpa using hafter other hother⟩
  · rintro ⟨before, found, after, rfl, hfound, hafter⟩
    obtain rfl : found = entry := by simpa using (Option.guard_eq_some_iff.mp hfound).1
    exact ⟨before, after, rfl, fun other hother => by simpa using hafter other hother⟩

omit [DecidableEq S] in
/-- Every entry has a latest one of its shape. -/
theorem exists_latest {table : PatternTable S N H} {entry : Pattern S N × H} (h : entry ∈ table) :
    ∃ latest, table.Latest latest ∧ latest.1.shape = entry.1.shape := by
  induction table generalizing entry with
  | nil => cases h
  | cons first table ih =>
    have hlater : ∀ latest, PatternTable.Latest table latest →
        PatternTable.Latest (first :: table) latest := by
      rintro latest ⟨before, after, rfl, hafter⟩
      exact ⟨first :: before, after, rfl, hafter⟩
    by_cases hagain : ∃ other ∈ table, other.1.shape = entry.1.shape
    · obtain ⟨other, hother, hshape⟩ := hagain
      obtain ⟨latest, hlatest, hsame⟩ := ih hother
      exact ⟨latest, hlater latest hlatest, hsame.trans hshape⟩
    · obtain rfl : entry = first := by
        cases h with
        | head => rfl
        | tail _ hmem => exact absurd ⟨entry, hmem, rfl⟩ hagain
      exact ⟨entry, ⟨[], table, rfl, fun other hother hshape => hagain ⟨other, hother, hshape⟩⟩, rfl⟩

/-- Whatever the table has for a shape, the other one has for it, too. -/
def Covers (table other : PatternTable S N H) : Prop :=
  ∀ pattern value, table.Latest (pattern, value) →
    ∃ same : Pattern S N, same.shape = pattern.shape ∧ other.Latest (same, value)

/-- A table that covers another does so below each step: the descent can be followed in both. -/
theorem Covers.tails {table other : PatternTable S N H} (h : table.Covers other) (first : Option S) :
    (table.tails first).Covers (other.tails first) := by
  intro rest value hlatest
  obtain ⟨seg, rfl, hwhole⟩ := latest_tails.mpr hlatest
  obtain ⟨same, hshape, hsame⟩ := h _ value hwhole
  cases same with
  | nil => simp [Pattern.shape] at hshape
  | cons other_seg same =>
    simp only [Pattern.shape, List.map_cons, List.cons.injEq] at hshape
    exact ⟨same, hshape.2, latest_tails.mp ⟨other_seg, hshape.1, hsame⟩⟩

omit [DecidableEq S] in
theorem Covers.ne_nil {table other : PatternTable S N H} (h : table.Covers other) (htable : table ≠ []) :
    other ≠ [] := by
  obtain ⟨entry, hentry⟩ := List.exists_mem_of_ne_nil table htable
  obtain ⟨latest, hlatest, _⟩ := exists_latest hentry
  obtain ⟨same, _, hsame⟩ := h latest.1 latest.2 hlatest
  exact List.ne_nil_of_mem hsame.mem

/-- Where a descent arrives depends on what the table has for each shape, and neither
on the order in which the shapes were added nor on what has been replaced. -/
theorem descent_congr (key : V → S) {table other : PatternTable S N H} (h : table.Covers other)
    (h' : other.Covers table) (path : List V) : (descent key table path).2 = (descent key other path).2 := by
  induction path generalizing table other with
  | nil =>
    refine Option.ext fun value => ?_
    rw [descent, descent, result_eq_some_iff, result_eq_some_iff]
    constructor
    · intro hlatest
      obtain ⟨same, hshape, hsame⟩ := h [] value hlatest
      rwa [List.map_eq_nil_iff.mp hshape] at hsame
    · intro hlatest
      obtain ⟨same, hshape, hsame⟩ := h' [] value hlatest
      rwa [List.map_eq_nil_iff.mp hshape] at hsame
  | cons part path ih =>
    have hempty : ∀ first, table.tails first = [] ↔ other.tails first = [] := fun first =>
      not_iff_not.mp ⟨(h.tails first).ne_nil, (h'.tails first).ne_nil⟩
    rw [descent, descent]
    by_cases hliteral : table.tails (some (key part)) = []
    · rw [hliteral, (hempty _).mp hliteral, if_pos List.isEmpty_nil, if_pos List.isEmpty_nil]
      have hbehind := ih (h.tails none) (h'.tails none)
      cases hname : table.lastName [] with
      | none =>
        rw [lastName_eq_none_iff.mpr ((hempty none).mp (lastName_eq_none_iff.mp hname))]
      | some name =>
        cases hother : other.lastName [] with
        | none =>
          rw [lastName_eq_none_iff, ← hempty, ← lastName_eq_none_iff, hname] at hother
          cases hother
        | some _ => exact hbehind
    · rw [if_neg (by simpa using hliteral), if_neg (by simpa using mt (hempty _).mpr hliteral)]
      exact ih (h.tails _) (h'.tails _)

/-- A latest entry that matches and is shadowed nowhere is where the descent arrives,
with the names that the table gave last to the parameters on the way. -/
theorem descent_of_unshadowed {key : V → S} {table : PatternTable S N H} {pattern : Pattern S N}
    {value : H} {path : List V} (hlatest : table.Latest (pattern, value))
    (hmatches : pattern.Matches (path.map key)) (hclear : table.Unshadowed pattern (path.map key)) :
    descent key table path = ((table.renamed pattern).bindings path, some value) := by
  induction path generalizing table pattern with
  | nil =>
    obtain rfl : pattern = [] := by simpa [Pattern.Matches] using hmatches
    rw [descent, result_eq_some_iff.mpr hlatest]
    rfl
  | cons part path ih =>
    cases pattern with
    | nil => simp [Pattern.Matches] at hmatches
    | cons seg pattern =>
      rw [Pattern.Matches, List.map_cons, List.forall₂_cons] at hmatches
      rw [List.map_cons, unshadowed_cons] at hclear
      have hdeeper := ih (latest_tails.mp ⟨seg, rfl, hlatest⟩) hmatches.2 hclear.2
      have hmem : (pattern, value) ∈ table.tails seg.shape := mem_tails.mpr ⟨seg, rfl, hlatest.mem⟩
      rw [descent, renamed_cons]
      cases seg with
      | literal text =>
        obtain rfl : text = key part := by simpa [Segment.Accepts, Segment.shape] using hmatches.1
        have hsome : (table.tails (some (key part))).isEmpty = false := by
          rw [List.isEmpty_eq_false_iff_exists_mem]
          exact ⟨_, hmem⟩
        rw [hsome, if_neg (by simp)]
        exact hdeeper
      | parameter name =>
        have hnone : (table.tails (some (key part))).isEmpty = true := by
          rw [hclear.1 rfl]
          rfl
        rw [hnone, if_pos rfl]
        cases hname : table.lastName [] with
        | none =>
          have hbehind : (pattern, value) ∈ table.tails none := hmem
          rw [lastName_eq_none_iff.mp hname] at hbehind
          cases hbehind
        | some last =>
          simp only [Segment.shape] at hdeeper
          simp only [hdeeper]
          rfl

/-- A descent that arrives does so at such an entry: it is the converse, by induction
on the path. -/
theorem exists_of_descent {key : V → S} {table : PatternTable S N H} {value : H} {path : List V}
    (h : (descent key table path).2 = some value) :
    ∃ pattern, table.Latest (pattern, value) ∧ pattern.Matches (path.map key) ∧
      table.Unshadowed pattern (path.map key) := by
  induction path generalizing table with
  | nil => exact ⟨[], result_eq_some_iff.mp h, .nil, unshadowed_nil table _⟩
  | cons part path ih =>
    rw [descent] at h
    by_cases hempty : (table.tails (some (key part))).isEmpty
    · rw [if_pos hempty] at h
      cases hname : table.lastName [] with
      | none =>
        rw [hname] at h
        cases h
      | some name =>
        rw [hname] at h
        obtain ⟨pattern, hlatest, hmatches, hclear⟩ := ih h
        obtain ⟨seg, hseg, hlatest⟩ := latest_tails.mpr hlatest
        refine ⟨seg :: pattern, hlatest, .cons (.inl hseg) hmatches, unshadowed_cons.mpr ⟨fun _ => ?_, ?_⟩⟩
        · simpa using hempty
        · rwa [hseg]
    · rw [if_neg hempty] at h
      obtain ⟨pattern, hlatest, hmatches, hclear⟩ := ih h
      obtain ⟨seg, hseg, hlatest⟩ := latest_tails.mpr hlatest
      refine ⟨seg :: pattern, hlatest, .cons (.inr hseg) hmatches, unshadowed_cons.mpr ⟨fun hnone => ?_, ?_⟩⟩
      · rw [hnone] at hseg
        cases hseg
      · rwa [hseg]

omit [DecidableEq S] in
/-- A pattern of literals matches the path that spells it out. -/
theorem matches_literals_iff {pattern : Pattern S N} (hliteral : ∀ seg ∈ pattern, seg.shape ≠ none)
    {path : List S} : pattern.Matches path ↔ pattern.shape = path.map some := by
  induction pattern generalizing path with
  | nil => cases path <;> simp [Pattern.Matches, Pattern.shape]
  | cons seg pattern ih =>
    have hseg := hliteral seg List.mem_cons_self
    cases path with
    | nil => simp [Pattern.Matches, Pattern.shape]
    | cons text path =>
      have hrest : Pattern.Matches pattern path ↔ Pattern.shape pattern = path.map some :=
        ih fun other hother => hliteral other (List.mem_cons_of_mem seg hother)
      rw [Pattern.Matches] at hrest ⊢
      rw [List.forall₂_cons, hrest, Segment.Accepts, or_iff_right hseg,
        Pattern.shape, Pattern.shape, List.map_cons, List.map_cons, List.cons.injEq]

/-- In a table without parameters a path leads to the last entry that spells it out,
and nothing is bound. -/
theorem descent_literals {table : PatternTable S N H}
    (hliteral : ∀ entry ∈ table, ∀ seg ∈ entry.1, seg.shape ≠ none) (key : V → S) (path : List V) :
    (descent key table path).2 =
      ((table.filter fun entry => Pattern.shape entry.1 = (path.map key).map some).getLast?).map Prod.snd := by
  ext value
  rw [Option.map_eq_some_iff]
  constructor
  · intro hfound
    obtain ⟨pattern, hlatest, hmatches, _⟩ := exists_of_descent hfound
    rw [matches_literals_iff (hliteral _ hlatest.mem)] at hmatches
    refine ⟨(pattern, value), ?_, rfl⟩
    rw [← hmatches]
    exact latest_iff_getLast?.mp hlatest
  · rintro ⟨⟨pattern, found⟩, hlast, rfl⟩
    obtain ⟨hmem, hshape⟩ := List.mem_filter.mp (List.mem_of_getLast? hlast)
    have hspelled : Pattern.shape pattern = (path.map key).map some := by simpa using hshape
    have hlatest : table.Latest (pattern, found) := by
      rw [latest_iff_getLast?, hspelled]
      exact hlast
    have hclear : table.Unshadowed pattern (path.map key) := by
      intro i name hname
      exact absurd rfl (hliteral _ hmem _ (List.mem_of_getElem? hname))
    rw [descent_of_unshadowed hlatest ((matches_literals_iff (hliteral _ hmem)).mpr hspelled) hclear]

omit [DecidableEq S] in
/-- No parameter is passed on an empty path. -/
theorem not_passesParameter_nil (table : PatternTable S N H) : ¬ table.PassesParameter [] := by
  simp [PassesParameter, Pattern.Matches]

/-- The first text fills a parameter, or one is passed behind it as a literal; a
literal of the table that has the text comes first. -/
theorem passesParameter_cons {table : PatternTable S N H} {text : S} {path : List S} :
    table.PassesParameter (text :: path) ↔
      (table.tails (some text) = [] ∧ table.tails none ≠ []) ∨
        (table.tails (some text)).PassesParameter path := by
  constructor
  · rintro ⟨⟨pattern, value⟩, hentry, before, name, ⟨after, hpattern⟩, hmatches, hclear⟩
    simp only at hpattern
    subst hpattern
    cases before with
    | nil =>
      have hmem : (after, value) ∈ table.tails none :=
        mem_tails.mpr ⟨.parameter name, rfl, hentry⟩
      exact .inl ⟨(unshadowed_cons.mp hclear).1 rfl, List.ne_nil_of_mem hmem⟩
    | cons seg before =>
      have hmem : (before ++ [.parameter name] ++ after, value) ∈ table.tails seg.shape :=
        mem_tails.mpr ⟨seg, rfl, hentry⟩
      rw [List.cons_append, unshadowed_cons] at hclear
      rw [List.cons_append, List.length_cons, List.take_succ_cons, Pattern.Matches,
        List.forall₂_cons] at hmatches
      obtain hparameter | hliteral := hmatches.1
      · exact .inl ⟨hclear.1 hparameter, hparameter ▸ List.ne_nil_of_mem hmem⟩
      · rw [hliteral] at hmem hclear
        exact .inr ⟨_, hmem, before, name, ⟨after, rfl⟩, hmatches.2, hclear.2⟩
  · rintro (⟨hnil, hsome⟩ | ⟨⟨pattern, value⟩, hmem, before, name, ⟨after, hpattern⟩, hmatches, hclear⟩)
    · obtain ⟨⟨after, value⟩, hmem⟩ := List.exists_mem_of_ne_nil _ hsome
      obtain ⟨seg, hseg, hentry⟩ := mem_tails.mp hmem
      cases seg with
      | literal text => cases hseg
      | parameter own =>
        refine ⟨_, hentry, [], own, ⟨after, rfl⟩, .cons (.inl rfl) (by simp), ?_⟩
        exact unshadowed_cons.mpr ⟨fun _ => hnil, unshadowed_nil _ _⟩
    · obtain ⟨seg, hseg, hentry⟩ := mem_tails.mp hmem
      refine ⟨_, hentry, seg :: before, name, ⟨after, by simpa using hpattern⟩, ?_, ?_⟩
      · exact .cons (.inr hseg) hmatches
      · refine unshadowed_cons.mpr ⟨fun hnone => ?_, ?_⟩
        · rw [hnone] at hseg
          cases hseg
        · rwa [hseg]

/-- A parameter is recorded exactly when the descent passes one, whether or
not it arrives. -/
theorem descent_bindings_ne_nil_iff {key : V → S} {table : PatternTable S N H} {path : List V} :
    (descent key table path).1 ≠ [] ↔ table.PassesParameter (path.map key) := by
  induction path generalizing table with
  | nil => simp [descent, not_passesParameter_nil]
  | cons part path ih =>
    rw [descent, List.map_cons, passesParameter_cons]
    by_cases hempty : (table.tails (some (key part))).isEmpty
    · have hnil : table.tails (some (key part)) = [] := by simpa using hempty
      have hnever : ¬ (table.tails (some (key part))).PassesParameter (path.map key) := by
        rintro ⟨entry, hentry, _⟩
        simp [hnil] at hentry
      rw [if_pos hempty, or_iff_left hnever, and_iff_right hnil, ne_eq (table.tails none),
        ← lastName_eq_none_iff]
      cases table.lastName [] with
      | none => simp
      | some name => simp
    · have hsome : ¬ table.tails (some (key part)) = [] := by simpa using hempty
      rw [if_neg hempty, ih, or_iff_right fun h => hsome h.1]

/-- The table with its results replaced. -/
def mapResults {K : Type} (f : H → K) (table : PatternTable S N H) : PatternTable S N K :=
  table.map fun entry => (entry.1, f entry.2)

omit [DecidableEq S] in
/-- Relabelling the results moves no entry: the latest one stays the latest. -/
theorem latest_mapResults {K : Type} {f : H → K} {table : PatternTable S N H} {pattern : Pattern S N}
    {value : K} :
    (table.mapResults f).Latest (pattern, value) ↔ ∃ own, table.Latest (pattern, own) ∧ f own = value := by
  constructor
  · rintro ⟨before, after, htable, hafter⟩
    obtain ⟨front, back, rfl, _, hback⟩ := List.map_eq_append_iff.mp htable
    obtain ⟨⟨_, own⟩, last, rfl, hentry, rfl⟩ := List.map_eq_cons_iff.mp hback
    cases hentry
    exact ⟨own, ⟨front, last, rfl, fun other hother => hafter _ (List.mem_map_of_mem hother)⟩, rfl⟩
  · rintro ⟨own, ⟨before, after, rfl, hafter⟩, rfl⟩
    refine ⟨before.map _, after.map _, List.map_append.trans rfl, fun other hother => ?_⟩
    obtain ⟨entry, hentry, rfl⟩ := List.mem_map.mp hother
    exact hafter entry hentry

/-- Relabelling and stepping down commute. -/
theorem tails_mapResults {K : Type} (f : H → K) (table : PatternTable S N H) (first : Option S) :
    (table.mapResults f).tails first = (table.tails first).mapResults f := by
  simp only [tails, mapResults, List.filterMap_map, List.map_filterMap]
  refine List.filterMap_congr fun entry _ => ?_
  obtain ⟨pattern, value⟩ := entry
  cases pattern with
  | nil => rfl
  | cons seg rest => by_cases hfirst : seg.shape = first <;> simp [tail, hfirst]

omit [DecidableEq S] in
theorem result_mapResults {K : Type} (f : H → K) (table : PatternTable S N H) :
    (table.mapResults f).result = table.result.map f := by
  have hfinished : ∀ entry : Pattern S N × H, finished (entry.1, f entry.2) = (finished entry).map f := by
    rintro ⟨pattern, value⟩
    cases pattern <;> rfl
  rw [result, result, List.getLast?_map.symm, mapResults, List.filterMap_map, List.map_filterMap]
  congr 2
  funext entry
  exact hfinished entry

theorem lastName_mapResults {K : Type} (f : H → K) (table : PatternTable S N H) (before : Pattern S N) :
    (table.mapResults f).lastName before = table.lastName before := by
  simp only [lastName, mapResults, List.filterMap_map]
  rfl

/-- The descent looks at patterns only. -/
theorem descent_mapResults {K : Type} (f : H → K) (key : V → S) (table : PatternTable S N H)
    (path : List V) :
    descent key (table.mapResults f) path =
      ((descent key table path).1, (descent key table path).2.map f) := by
  induction path generalizing table with
  | nil => rw [descent, descent, result_mapResults]
  | cons part path ih =>
    have hempty : ((table.mapResults f).tails (some (key part))).isEmpty =
        (table.tails (some (key part))).isEmpty := by
      rw [tails_mapResults]
      exact List.isEmpty_map
    rw [descent, descent, hempty, lastName_mapResults, tails_mapResults, tails_mapResults, ih, ih]
    split_ifs
    · cases table.lastName [] <;> rfl
    · rfl

end PatternTable
