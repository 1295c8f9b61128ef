import Mathlib

/-- The elements of a list from one index up to another all have a property. -/
def AllBetween {α : Type} (p : α → Prop) (l : List α) (start stop : Nat) : Prop :=
  ∀ i a, start ≤ i → i < stop → l[i]? = some a → p a

/-- A stretch of a list whose elements have a property and which no longer one contains. -/
structure IsRun {α : Type} (p : α → Prop) (l : List α) (first last : Nat) : Prop where
  nonempty : first < last
  inside : last ≤ l.length
  all : AllBetween p l first last
  maximal : ∀ start stop, start ≤ first → last ≤ stop → stop ≤ l.length → AllBetween p l start stop →
    start = first ∧ stop = last

variable {α : Type} {p : α → Prop} {l : List α} {first last : Nat}

/-- A stretch is a run when the elements next to it do not have the property. -/
theorem IsRun.of_edges (hnonempty : first < last) (hinside : last ≤ l.length)
    (hall : AllBetween p l first last) (hfront : ∀ i a, i + 1 = first → l[i]? = some a → ¬ p a) (hback : ∀ a, l[last]? = some a → ¬ p a) :
    IsRun p l first last where
  nonempty := hnonempty
  inside := hinside
  all := hall
  maximal start stop hstart hstop hlength hwider := by
    constructor
    · by_contra hne
      have hlt : first - 1 < l.length := by omega
      have hget : l[first - 1]? = some l[first - 1] := List.getElem?_eq_getElem hlt
      exact hfront (first - 1) _ (by omega) hget (hwider _ _ (by omega) (by omega) hget)
    · by_contra hne
      have hlt : last < l.length := by omega
      have hget : l[last]? = some l[last] := List.getElem?_eq_getElem hlt
      exact hback _ hget (hwider _ _ (by omega) (by omega) hget)

/-- Runs that overlap are the same one. -/
theorem IsRun.eq_of_overlap (h : IsRun p l first last) {first' last' : Nat} (h' : IsRun p l first' last')
    (hbefore : first < last') (hbefore' : first' < last) : first' = first ∧ last' = last := by
  have hunion : AllBetween p l (min first first') (max last last') := by
    intro i a hi hilast hget
    by_cases hin : first ≤ i ∧ i < last
    · exact h.all i a hin.1 hin.2 hget
    · exact h'.all i a (by omega) (by omega) hget
  have hroom : max last last' ≤ l.length := max_le h.inside h'.inside
  have hfirst := h.maximal _ _ (min_le_left _ _) (le_max_left _ _) hroom hunion
  have hsecond := h'.maximal _ _ (min_le_right _ _) (le_max_right _ _) hroom hunion
  omega
