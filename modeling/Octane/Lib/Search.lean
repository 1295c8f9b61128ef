import Mathlib

namespace search

variable {α : Type} [DecidableEq α]

/-- The position of the first occurrence of `needle`, if there is one. -/
def findSub (needle : List α) : List α → Option Nat
  | [] => if needle = [] then some 0 else none
  | c :: rest => if needle <+: c :: rest then some 0 else (findSub needle rest).map (· + 1)

/-- A reported position holds the needle, and no earlier one does. By induction on
what is searched: a round drops one byte. -/
theorem findSub_eq_some_iff {needle hay : List α} {i : Nat} :
    findSub needle hay = some i ↔
      i ≤ hay.length ∧ needle <+: hay.drop i ∧ ∀ j < i, ¬ needle <+: hay.drop j := by
  induction hay generalizing i with
  | nil =>
    by_cases hneedle : needle = []
    · constructor
      · intro h
        have hzero : i = 0 := by simpa [findSub, hneedle] using h.symm
        simp [hzero, hneedle]
      · rintro ⟨hle, _⟩
        have hzero : i = 0 := by simpa using hle
        simp [findSub, hneedle, hzero]
    · simp [findSub, hneedle]
  | cons c rest ih =>
    by_cases hhere : needle <+: c :: rest
    · simp only [findSub, hhere, if_true, Option.some.injEq]
      constructor
      · rintro rfl
        exact ⟨by omega, by simpa using hhere, by omega⟩
      · rintro ⟨_, _, hfirst⟩
        by_contra hne
        exact hfirst 0 (by omega) (by simpa using hhere)
    · simp only [findSub, hhere, if_false, Option.map_eq_some_iff]
      constructor
      · rintro ⟨k, hk, rfl⟩
        obtain ⟨hle, hat, hfirst⟩ := ih.mp hk
        refine ⟨by simp only [List.length_cons]; omega, by simpa using hat, ?_⟩
        intro j hj
        cases j with
        | zero => simpa using hhere
        | succ j => simpa using hfirst j (by omega)
      · rintro ⟨hle, hat, hfirst⟩
        cases i with
        | zero => exact absurd (by simpa using hat) hhere
        | succ k =>
          refine ⟨k, ih.mpr ⟨by simpa using hle, by simpa using hat, ?_⟩, rfl⟩
          intro j hj
          simpa using hfirst (j + 1) (by omega)

/-- Nothing is found exactly where the needle begins at no position. -/
theorem findSub_eq_none_iff {needle hay : List α} :
    findSub needle hay = none ↔ ∀ j ≤ hay.length, ¬ needle <+: hay.drop j := by
  induction hay with
  | nil => simp [findSub]
  | cons c rest ih =>
    by_cases hhere : needle <+: c :: rest
    · simp only [findSub, hhere, if_true, reduceCtorEq, false_iff, not_forall]
      exact ⟨0, by omega, by simpa using hhere⟩
    · simp only [findSub, hhere, if_false, Option.map_eq_none_iff, ih]
      constructor
      · intro hrest j hj
        cases j with
        | zero => simpa using hhere
        | succ j => simpa using hrest j (by simpa using hj)
      · intro hall j hj
        simpa using hall (j + 1) (by simpa using hj)

/-- An occurrence lies inside the string. -/
theorem findSub_add_length_le {needle hay : List α} {i : Nat} (h : findSub needle hay = some i) :
    i + needle.length ≤ hay.length := by
  obtain ⟨hle, hat, _⟩ := findSub_eq_some_iff.mp h
  have hlength := hat.length_le
  simp only [List.length_drop] at hlength
  omega

/-- Cutting at the occurrence leaves what precedes it, the needle and what follows it. -/
theorem findSub_split {needle hay : List α} {i : Nat} (h : findSub needle hay = some i) :
    hay = hay.take i ++ (needle ++ hay.drop (i + needle.length)) := by
  obtain ⟨_, ⟨tail, htail⟩, _⟩ := findSub_eq_some_iff.mp h
  have hrest : hay.drop (i + needle.length) = tail := by
    rw [← List.drop_drop, ← htail, List.drop_left]
  rw [hrest, htail, List.take_append_drop]

/-- The first occurrence in a string stays the first one when the string grows. -/
theorem findSub_append {needle hay : List α} {i : Nat} (h : findSub needle hay = some i)
    (tail : List α) : findSub needle (hay ++ tail) = some i := by
  have hroom := findSub_add_length_le h
  obtain ⟨hle, hat, hfirst⟩ := findSub_eq_some_iff.mp h
  rw [findSub_eq_some_iff]
  refine ⟨by simp only [List.length_append]; omega, ?_, ?_⟩
  · rw [List.drop_append_of_le_length hle]
    exact hat.trans (List.prefix_append _ _)
  · intro j hj hearly
    rw [List.drop_append_of_le_length (by omega)] at hearly
    refine hfirst j hj (List.prefix_of_prefix_length_le hearly (List.prefix_append _ _) ?_)
    simp only [List.length_drop]
    omega

/-- A needle that only appears once the string has grown ends in the new part. -/
theorem length_lt_of_findSub_append {needle hay tail : List α} {i : Nat}
    (hnone : findSub needle hay = none) (h : findSub needle (hay ++ tail) = some i) :
    hay.length < i + needle.length := by
  by_contra hfits
  obtain ⟨_, hat, _⟩ := findSub_eq_some_iff.mp h
  rw [List.drop_append_of_le_length (by omega)] at hat
  refine findSub_eq_none_iff.mp hnone i (by omega)
    (List.prefix_of_prefix_length_le hat (List.prefix_append _ _) ?_)
  simp only [List.length_drop]
  omega

/-- Before the first needle the needle does not start, so its first symbol need
only be absent from what precedes it. -/
theorem findSub_of_not_mem {c : α} {needle before : List α} (hc : c ∉ before) (tail : List α) :
    findSub (c :: needle) (before ++ (c :: needle ++ tail)) = some before.length := by
  induction before with
  | nil => simp [findSub]
  | cons b before ih =>
    have hne : c ≠ b := fun heq => hc (by simp [heq])
    have hrest := ih (fun hmem => hc (List.mem_cons_of_mem _ hmem))
    have hnot : ¬ c :: needle <+: b :: (before ++ (c :: needle ++ tail)) := by
      rw [List.cons_prefix_cons]
      exact fun hboth => hne hboth.1
    rw [List.cons_append, findSub, if_neg hnot, hrest]
    rfl

/-- A list is cut in one way at the first place of a symbol. -/
theorem append_cons_inj {c : α} {before before' tail tail' : List α} (hc : c ∉ before) (hc' : c ∉ before')
    (h : before ++ c :: tail = before' ++ c :: tail') : before = before' ∧ tail = tail' := by
  have hfirst : findSub [c] (before ++ c :: tail) = some before.length := findSub_of_not_mem hc tail
  have hsecond : findSub [c] (before' ++ c :: tail') = some before'.length := findSub_of_not_mem hc' tail'
  rw [h, hsecond] at hfirst
  obtain ⟨hbefore, hrest⟩ := List.append_inj h (Option.some.inj hfirst).symm
  exact ⟨hbefore, List.tail_eq_of_cons_eq hrest⟩

/-- A single byte is not found exactly where it does not occur. -/
theorem findSub_singleton_eq_none_iff {c : α} {hay : List α} :
    findSub [c] hay = none ↔ c ∉ hay := by
  induction hay with
  | nil => simp [findSub]
  | cons b rest ih =>
    by_cases hb : c = b
    · simp [findSub, hb]
    · simp [findSub, hb, ih]

/-- The byte that was searched for stands where it was found. -/
theorem getElem?_of_findSub_singleton {c : α} {hay : List α} {i : Nat} (h : findSub [c] hay = some i) :
    hay[i]? = some c := by
  obtain ⟨_, ⟨tail, htail⟩, _⟩ := findSub_eq_some_iff.mp h
  have hhead := congrArg List.head? htail
  simpa [List.head?_drop] using hhead.symm

/-- Cutting at the first occurrence of a symbol leaves a part without it. -/
theorem not_mem_take_of_findSub {c : α} {hay : List α} {i : Nat}
    (h : findSub [c] hay = some i) : c ∉ hay.take i := by
  obtain ⟨hle, _, hfirst⟩ := findSub_eq_some_iff.mp h
  intro hmem
  obtain ⟨j, hj, hget⟩ := List.mem_take_iff_getElem.mp hmem
  refine hfirst j (by omega) ?_
  rw [List.drop_eq_getElem_cons (by omega), hget]
  simp

/-- What occurs is found, though perhaps at an earlier place. -/
theorem exists_findSub_of_infix {needle hay : List α} (h : needle <:+: hay) : ∃ i, findSub needle hay = some i := by
  obtain ⟨before, behind, rfl⟩ := h
  cases hfind : findSub needle (before ++ needle ++ behind) with
  | some i => exact ⟨i, rfl⟩
  | none =>
    refine absurd ?_ (findSub_eq_none_iff.mp hfind before.length (by simp))
    rw [List.append_assoc, List.drop_left]
    exact List.prefix_append _ _

/-- What precedes the first occurrence of a needle does not hold the needle. -/
theorem not_infix_take_of_findSub {needle hay : List α} {i : Nat} (hne : needle ≠ [])
    (h : findSub needle hay = some i) : ¬ needle <:+: hay.take i := by
  obtain ⟨_, _, hfirst⟩ := findSub_eq_some_iff.mp h
  rintro ⟨before, behind, hsplit⟩
  have hlength := congrArg List.length hsplit
  simp only [List.length_append, List.length_take] at hlength
  have hpos := List.length_pos_iff.mpr hne
  have hhay : hay = before ++ (needle ++ (behind ++ hay.drop i)) := by
    calc hay = hay.take i ++ hay.drop i := (List.take_append_drop i hay).symm
      _ = before ++ needle ++ behind ++ hay.drop i := by rw [hsplit]
      _ = before ++ (needle ++ (behind ++ hay.drop i)) := by simp only [List.append_assoc]
  have hat : needle <+: hay.drop before.length := by
    rw [hhay, List.drop_left]
    exact List.prefix_append _ _
  exact hfirst before.length (by omega) hat

omit [DecidableEq α] in
/-- A needle cannot occur where its first byte does not. -/
theorem not_infix_of_not_mem {c : α} {needle line : List α} (hc : c ∉ line) : ¬ c :: needle <:+: line :=
  fun h => hc (h.subset (List.mem_cons_self ..))

/-- A pair of different symbols does not overlap itself: behind a string that does
not hold it, it is first met where that string ends. -/
theorem findSub_pair {x y : α} (hxy : x ≠ y) {line : List α} (hline : ¬ [x, y] <:+: line) (tail : List α) :
    findSub [x, y] (line ++ ([x, y] ++ tail)) = some line.length := by
  induction line with
  | nil => simp [findSub]
  | cons b line ih =>
    have hrest := ih fun h => hline (h.trans (List.suffix_cons b line).isInfix)
    have hnot : ¬ [x, y] <+: b :: (line ++ ([x, y] ++ tail)) := by
      intro h
      rw [List.cons_prefix_cons] at h
      obtain ⟨rfl, hsecond⟩ := h
      cases line with
      | nil => exact hxy (List.cons_prefix_cons.mp hsecond).1.symm
      | cons c line =>
        rw [List.cons_append, List.cons_prefix_cons] at hsecond
        exact hline ⟨[], line, by simp [hsecond.1]⟩
    rw [List.cons_append, findSub, if_neg hnot, hrest]
    rfl

/-- The pieces of a string that end in the separator; what follows the last
separator belongs to no piece. -/
def terminated (sep : List α) (hsep : sep ≠ []) (s : List α) : List (List α) :=
  match _h : findSub sep s with
  | none => []
  | some i => s.take i :: terminated sep hsep (s.drop (i + sep.length))
termination_by s.length
decreasing_by
  have hroom := findSub_add_length_le _h
  have hpos := List.length_pos_iff.mpr hsep
  simp only [List.length_drop]
  omega

/-- One line is cut off at the first terminator, wherever that has been found. -/
theorem terminated_of_findSub {sep line tail : List α} (hsep : sep ≠ [])
    (h : findSub sep (line ++ (sep ++ tail)) = some line.length) :
    terminated sep hsep (line ++ (sep ++ tail)) = line :: terminated sep hsep tail := by
  rw [terminated]
  split
  · next hnone =>
    rw [h] at hnone
    cases hnone
  · next i hsome =>
    rw [h, Option.some.injEq] at hsome
    subst i
    rw [List.take_left, ← List.append_assoc, List.drop_left' (by simp)]

/-- Lines that each end at the separator behind them, joined with their
separators, are cut into the same lines again. -/
theorem terminated_lines {sep : List α} (hsep : sep ≠ []) (lines : List (List α))
    (h : ∀ line ∈ lines, ∀ tail, findSub sep (line ++ (sep ++ tail)) = some line.length) (tail : List α) :
    terminated sep hsep (lines.flatMap (· ++ sep) ++ tail) = lines ++ terminated sep hsep tail := by
  induction lines with
  | nil => rfl
  | cons line lines ih =>
    have hrest := ih fun l hl => h l (List.mem_cons_of_mem _ hl)
    rw [List.flatMap_cons, List.append_assoc, List.append_assoc,
      terminated_of_findSub hsep (h line (by simp) _), hrest]
    rfl

/-- Lines that do not hold the first byte of their terminator are cut apart again,
with whatever stands behind the last of them. -/
theorem terminated_flatMap {c : α} {sep : List α} (lines : List (List α))
    (hc : ∀ line ∈ lines, c ∉ line) (tail : List α) :
    terminated (c :: sep) (by simp) (lines.flatMap (· ++ c :: sep) ++ tail) =
      lines ++ terminated (c :: sep) (by simp) tail :=
  terminated_lines _ lines (fun line hline tail => findSub_of_not_mem (hc line hline) tail) tail

/-- Nothing is cut off an empty string, not even an empty line. -/
theorem terminated_nil {sep : List α} (hsep : sep ≠ []) : terminated sep hsep [] = [] := by
  rw [terminated]
  split
  · rfl
  · next i h => simp [findSub, hsep] at h

/-- A string that ends in the separator is nothing but its pieces, and none of
them holds the separator. -/
theorem terminated_closed {x y : α} (hxy : x ≠ y) (s : List α) :
    (terminated [x, y] (by simp) (s ++ [x, y])).flatMap (· ++ [x, y]) = s ++ [x, y] ∧
      ∀ line ∈ terminated [x, y] (by simp) (s ++ [x, y]), ¬ [x, y] <:+: line := by
  induction hlength : s.length using Nat.strong_induction_on generalizing s with
  | _ n ih =>
    by_cases hpair : [x, y] <:+: s
    · obtain ⟨i, hfind⟩ := exists_findSub_of_infix hpair
      have hline : ¬ [x, y] <:+: s.take i := not_infix_take_of_findSub (by simp) hfind
      have hroom := findSub_add_length_le hfind
      have hsplit : s ++ [x, y] = s.take i ++ ([x, y] ++ (s.drop (i + 2) ++ [x, y])) := by
        conv_lhs => rw [findSub_split hfind]
        simp only [List.append_assoc, List.length_cons, List.length_nil]
      obtain ⟨hjoined, hpieces⟩ := ih (s.drop (i + 2)).length (by
        simp only [List.length_drop, List.length_cons, List.length_nil] at hroom ⊢
        omega) (s.drop (i + 2)) rfl
      rw [hsplit, terminated_of_findSub (by simp) (findSub_pair hxy hline _)]
      refine ⟨?_, fun line hmem => ?_⟩
      · rw [List.flatMap_cons, hjoined, List.append_assoc]
      · obtain rfl | hrest := List.mem_cons.mp hmem
        · exact hline
        · exact hpieces line hrest
    · have hwhole : terminated [x, y] (by simp) (s ++ [x, y]) = [s] := by
        have hcut := terminated_of_findSub (by simp) (findSub_pair hxy hpair [])
        rwa [List.append_nil, terminated_nil] at hcut
      rw [hwhole]
      refine ⟨by simp, fun line hmem => ?_⟩
      rw [List.mem_singleton.mp hmem]
      exact hpair

omit [DecidableEq α] in
/-- In a block of non-empty lines that is closed by one more terminator, two
terminators in a row stand at the end only. -/
theorem double_terminator_at_end {x y : α} (hxy : x ≠ y) (lines : List (List α))
    (hlines : ∀ line ∈ lines, line ≠ [] ∧ ¬ [x, y] <:+: line) {j : Nat}
    (h : [x, y, x, y] <+: (lines.flatMap (· ++ [x, y]) ++ [x, y]).drop j) :
    j + 4 = (lines.flatMap (· ++ [x, y]) ++ [x, y]).length := by
  induction lines generalizing j with
  | nil =>
    have hroom := h.length_le
    simp only [List.flatMap_nil, List.nil_append, List.length_drop, List.length_cons,
      List.length_nil] at hroom
    omega
  | cons line rest ih =>
    obtain ⟨hne, hpair⟩ := hlines line (by simp)
    have hrest : ∀ l ∈ rest, l ≠ [] ∧ ¬ [x, y] <:+: l := fun l hl => hlines l (List.mem_cons_of_mem _ hl)
    simp only [List.flatMap_cons, List.append_assoc] at h ⊢
    rcases Nat.lt_trichotomy j line.length with hinside | hend | hpast
    · -- the pair would begin in the line and either end in it or in its terminator
      rw [List.drop_append_of_le_length (by omega)] at h
      cases hdrop : line.drop j with
      | nil => exact absurd (List.drop_eq_nil_iff.mp hdrop) (by omega)
      | cons b behind =>
        rw [hdrop, List.cons_append, List.cons_prefix_cons] at h
        cases behind with
        | nil => exact absurd (List.cons_prefix_cons.mp h.2).1.symm hxy
        | cons c behind =>
          rw [List.cons_append, List.cons_prefix_cons] at h
          refine absurd ⟨line.take j, behind, ?_⟩ hpair
          rw [h.1, h.2.1, List.append_assoc, List.cons_append, List.cons_append, List.nil_append, ← hdrop,
            List.take_append_drop]
    · rw [hend, List.drop_left] at h
      cases rest with
      | nil => simp [hend]
      | cons next rest =>
        obtain ⟨hnext, hpairnext⟩ := hrest next (by simp)
        cases next with
        | nil => exact absurd rfl hnext
        | cons b next =>
          simp only [List.flatMap_cons, List.cons_append, List.nil_append,
            List.cons_prefix_cons] at h
          obtain ⟨_, _, hb, hsecond⟩ := h
          cases next with
          | nil => exact absurd (List.cons_prefix_cons.mp hsecond).1.symm hxy
          | cons c next =>
            simp only [List.cons_append, List.cons_prefix_cons] at hsecond
            exact absurd ⟨[], next, by simp [hb, hsecond.1]⟩ hpairnext
    · obtain ⟨k, rfl⟩ : ∃ k, j = line.length + (k + 1) := ⟨j - line.length - 1, by omega⟩
      rw [← List.drop_drop, List.drop_left] at h
      cases k with
      | zero =>
        simp only [List.cons_append, List.nil_append, Nat.zero_add, List.drop_succ_cons,
          List.drop_zero, List.cons_prefix_cons] at h
        exact absurd h.1 hxy
      | succ k =>
        have htail := ih hrest (j := k) (by simpa using h)
        simp only [List.length_append, List.length_cons, List.length_nil] at htail ⊢
        omega

/-- The first double terminator of such a block is the one at its end, because no line
of it is empty or holds a terminator. -/
theorem findSub_double_terminator {x y : α} (hxy : x ≠ y) {lines : List (List α)}
    (hne : lines ≠ []) (hlines : ∀ line ∈ lines, line ≠ [] ∧ ¬ [x, y] <:+: line) (tail : List α) :
    findSub [x, y, x, y] (lines.flatMap (· ++ [x, y]) ++ [x, y] ++ tail) =
      some ((lines.flatMap (· ++ [x, y])).length - 2) := by
  apply findSub_append
  obtain ⟨before, last, rfl⟩ := (List.eq_nil_or_concat' lines).resolve_left hne
  have hshape : (before ++ [last]).flatMap (· ++ [x, y]) ++ [x, y] =
      (before.flatMap (· ++ [x, y]) ++ last) ++ [x, y, x, y] := by simp
  have hlength : ((before ++ [last]).flatMap (· ++ [x, y])).length - 2 =
      (before.flatMap (· ++ [x, y]) ++ last).length := by
    simp only [List.flatMap_append, List.flatMap_singleton, List.length_append, List.length_cons,
      List.length_nil]
    omega
  rw [hlength, findSub_eq_some_iff]
  refine ⟨?_, ?_, ?_⟩
  · simp only [hshape, List.length_append]
    omega
  · rw [hshape, List.drop_left]
  · intro j hj hat
    have hend := double_terminator_at_end hxy _ hlines hat
    rw [hshape, List.length_append] at hend
    simp only [List.length_cons, List.length_nil] at hend
    omega

end search
