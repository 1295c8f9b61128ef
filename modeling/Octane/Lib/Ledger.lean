import Mathlib

/-- The resources that a system has given out and not taken back, and whether one
was ever given back that it had not given out. -/
structure Ledger (R : Type) where
  live : List R := []
  misused : Bool := false

namespace Ledger

variable {R ι : Type}

def acquire (ledger : Ledger R) (r : R) : Ledger R := { ledger with live := r :: ledger.live }

def release [DecidableEq R] (ledger : Ledger R) (r : R) : Ledger R :=
  if r ∈ ledger.live then { ledger with live := ledger.live.erase r } else { ledger with misused := true }

/-- The owners hold what is live, each resource one of them and once. -/
structure Balanced (ledger : Ledger R) (held : ι → List R) : Prop where
  unmisused : ledger.misused = false
  unique : ledger.live.Nodup
  once : ∀ i, (held i).Nodup
  live_iff : ∀ r, r ∈ ledger.live ↔ ∃ i, r ∈ held i
  single : ∀ i j r, r ∈ held i → r ∈ held j → i = j

/-- Nothing is live at first and nobody holds anything. -/
theorem balanced_empty : Balanced ({} : Ledger R) (fun _ : ι => []) := by
  refine ⟨rfl, List.nodup_nil, fun _ => List.nodup_nil, ?_, ?_⟩ <;> simp

/-- A live resource has one owner, by which exactly one can give it back. -/
theorem Balanced.existsUnique {ledger : Ledger R} {held : ι → List R} (h : Balanced ledger held) {r : R}
    (hr : r ∈ ledger.live) : ∃! i, r ∈ held i := by
  obtain ⟨i, hi⟩ := (h.live_iff r).mp hr
  exact ⟨i, hi, fun j hj => h.single j i r hj hi⟩

/-- Where nobody holds anything, nothing has leaked. -/
theorem Balanced.live_eq_nil {ledger : Ledger R} {held : ι → List R} (h : Balanced ledger held)
    (hnone : ∀ i, held i = []) : ledger.live = [] := by
  rw [List.eq_nil_iff_forall_not_mem]
  intro r hr
  obtain ⟨i, hi⟩ := (h.live_iff r).mp hr
  rw [hnone i] at hi
  cases hi

variable [DecidableEq ι]

/-- An owner takes a resource that was not live. Nobody held it before, so that it
still has one owner. -/
theorem Balanced.acquire {ledger : Ledger R} {held : ι → List R} (h : Balanced ledger held) {r : R}
    (hfresh : r ∉ ledger.live) (i : ι) :
    Balanced (ledger.acquire r) (Function.update held i (r :: held i)) := by
  have hnobody : ∀ j, r ∉ held j := fun j hj => hfresh ((h.live_iff r).mpr ⟨j, hj⟩)
  have hmem : ∀ j other, other ∈ Function.update held i (r :: held i) j ↔
      (j = i ∧ other = r) ∨ other ∈ held j := by
    intro j other
    by_cases hj : j = i
    · subst hj
      simp
    · simp [hj]
  refine ⟨h.unmisused, List.nodup_cons.mpr ⟨hfresh, h.unique⟩, fun j => ?_, fun other => ?_, ?_⟩
  · by_cases hj : j = i
    · subst hj
      rw [Function.update_self]
      exact List.nodup_cons.mpr ⟨hnobody j, h.once j⟩
    · rw [Function.update_of_ne hj]
      exact h.once j
  · simp only [hmem, Ledger.acquire, List.mem_cons, h.live_iff, exists_or, exists_eq_left]
  · intro j k other hj hk
    rw [hmem] at hj hk
    obtain ⟨rfl, rfl⟩ | hj := hj
    · obtain ⟨rfl, _⟩ | hk := hk
      · rfl
      · exact absurd hk (hnobody k)
    · obtain ⟨rfl, rfl⟩ | hk := hk
      · exact absurd hj (hnobody j)
      · exact h.single j k other hj hk

/-- An owner gives back a resource that it holds. It is live and held once, so that
the ledger is not misused and nobody is left with it. -/
theorem Balanced.release [DecidableEq R] {ledger : Ledger R} {held : ι → List R} (h : Balanced ledger held)
    {i : ι} {r : R} {rest : List R} (hheld : held i = r :: rest) :
    Balanced (ledger.release r) (Function.update held i rest) := by
  have hr : r ∈ held i := by simp [hheld]
  have hlive : r ∈ ledger.live := (h.live_iff r).mpr ⟨i, hr⟩
  have hnodup := h.once i
  rw [hheld, List.nodup_cons] at hnodup
  have hmem : ∀ j other, other ∈ Function.update held i rest j ↔ other ∈ held j ∧ other ≠ r := by
    intro j other
    by_cases hj : j = i
    · subst hj
      rw [Function.update_self, hheld, List.mem_cons]
      constructor
      · intro hother
        exact ⟨.inr hother, fun hsame => hnodup.1 (hsame ▸ hother)⟩
      · rintro ⟨hsame | hother, hne⟩
        · exact absurd hsame hne
        · exact hother
    · rw [Function.update_of_ne hj]
      refine ⟨fun hother => ⟨hother, ?_⟩, And.left⟩
      rintro rfl
      exact hj (h.single j i other hother hr)
  rw [Ledger.release, if_pos hlive]
  refine ⟨h.unmisused, h.unique.erase r, fun j => ?_, fun other => ?_, ?_⟩
  · by_cases hj : j = i
    · subst hj
      rw [Function.update_self]
      exact hnodup.2
    · rw [Function.update_of_ne hj]
      exact h.once j
  · simp only [hmem, h.unique.mem_erase_iff, h.live_iff, exists_and_right]
    exact and_comm
  · intro j k other hj hk
    exact h.single j k other ((hmem j other).mp hj).1 ((hmem k other).mp hk).1

/-- An owner gives back all that it holds. -/
theorem Balanced.releaseAll [DecidableEq R] {ledger : Ledger R} {held : ι → List R} (h : Balanced ledger held)
    {i : ι} {resources : List R} (hheld : held i = resources) :
    Balanced (resources.foldl Ledger.release ledger) (Function.update held i []) := by
  induction resources generalizing ledger held with
  | nil =>
    have hsame : Function.update held i [] = held := by
      simpa only [hheld] using Function.update_eq_self i held
    rw [hsame]
    exact h
  | cons r rest ih =>
    have hrest := ih (h.release hheld) (Function.update_self i rest held)
    rwa [Function.update_idem] at hrest

omit [DecidableEq ι] in
/-- It does not matter who the owners are. -/
theorem Balanced.comp {ledger : Ledger R} {held : ι → List R} (h : Balanced ledger held)
    (owners : Equiv.Perm ι) : Balanced ledger (held ∘ owners) := by
  refine ⟨h.unmisused, h.unique, fun i => h.once (owners i), fun r => ?_, fun i j r hi hj => ?_⟩
  · rw [h.live_iff]
    exact owners.surjective.exists
  · exact owners.injective (h.single (owners i) (owners j) r hi hj)

/-- An owner hands over all that it holds to one that holds nothing. -/
theorem Balanced.transfer {ledger : Ledger R} {held : ι → List R} (h : Balanced ledger held) {i j : ι}
    (hne : i ≠ j) (hempty : held i = []) :
    Balanced ledger (Function.update (Function.update held i (held j)) j []) := by
  have hswap : Function.update (Function.update held i (held j)) j [] = held ∘ Equiv.swap i j := by
    funext k
    by_cases hj : k = j
    · rw [hj, Function.update_self, Function.comp_apply, Equiv.swap_apply_right, hempty]
    · by_cases hi : k = i
      · rw [hi, Function.update_of_ne hne, Function.update_self, Function.comp_apply, Equiv.swap_apply_left]
      · rw [Function.update_of_ne hj, Function.update_of_ne hi, Function.comp_apply,
          Equiv.swap_apply_of_ne_of_ne hi hj]
  rw [hswap]
  exact h.comp (Equiv.swap i j)

/-- An owner hands over a part of what it holds. The live resources stay as they are,
and each part has one owner before and after. -/
theorem Balanced.give {ledger : Ledger R} {held : ι → List R} (h : Balanced ledger held) {i j : ι}
    (hne : i ≠ j) {kept given : List R} (hheld : (kept ++ given).Perm (held i)) :
    Balanced ledger (Function.update (Function.update held i kept) j (given ++ held j)) := by
  have hsplit : ∀ r, r ∈ held i ↔ r ∈ kept ∨ r ∈ given := fun r => by
    rw [← hheld.mem_iff, List.mem_append]
  obtain ⟨hkept, hgiven, hdisjoint⟩ := List.nodup_append.mp (hheld.nodup_iff.mpr (h.once i))
  have hi : Function.update (Function.update held i kept) j (given ++ held j) i = kept := by
    rw [Function.update_of_ne hne, Function.update_self]
  have hother : ∀ k, k ≠ i → k ≠ j →
      Function.update (Function.update held i kept) j (given ++ held j) k = held k := by
    intro k hki hkj
    rw [Function.update_of_ne hkj, Function.update_of_ne hki]
  -- whoever holds a resource afterwards held it before, or was given it
  have hbefore : ∀ k r, r ∈ Function.update (Function.update held i kept) j (given ++ held j) k →
      (k = j ∧ r ∈ given) ∨ (r ∈ held k ∧ (k = i → r ∈ kept)) := by
    intro k r hr
    by_cases hkj : k = j
    · subst hkj
      rw [Function.update_self, List.mem_append] at hr
      exact hr.imp (⟨rfl, ·⟩) fun hold => ⟨hold, fun hki => absurd hki.symm hne⟩
    · by_cases hki : k = i
      · subst hki
        rw [hi] at hr
        exact .inr ⟨(hsplit r).mpr (.inl hr), fun _ => hr⟩
      · rw [hother k hki hkj] at hr
        exact .inr ⟨hr, fun hsame => absurd hsame hki⟩
  refine ⟨h.unmisused, h.unique, fun k => ?_, fun r => ?_, fun k l r hk hl => ?_⟩
  · by_cases hkj : k = j
    · subst hkj
      rw [Function.update_self, List.nodup_append]
      refine ⟨hgiven, h.once k, fun r hr other hother hsame => ?_⟩
      subst hsame
      exact hne (h.single i k r ((hsplit r).mpr (.inr hr)) hother)
    · by_cases hki : k = i
      · subst hki
        rw [hi]
        exact hkept
      · rw [hother k hki hkj]
        exact h.once k
  · rw [h.live_iff]
    constructor
    · rintro ⟨k, hk⟩
      by_cases hkj : k = j
      · subst hkj
        exact ⟨k, by rw [Function.update_self]; exact List.mem_append_right _ hk⟩
      · by_cases hki : k = i
        · subst hki
          obtain hr | hr := (hsplit r).mp hk
          · exact ⟨k, by rwa [hi]⟩
          · exact ⟨j, by rw [Function.update_self]; exact List.mem_append_left _ hr⟩
        · exact ⟨k, by rwa [hother k hki hkj]⟩
    · rintro ⟨k, hk⟩
      obtain ⟨_, hr⟩ | ⟨hr, _⟩ := hbefore k r hk
      · exact ⟨i, (hsplit r).mpr (.inr hr)⟩
      · exact ⟨k, hr⟩
  · have hapart : ∀ m, r ∈ given → r ∈ held m → (m = i → r ∈ kept) → False := by
      intro m hr hm hstill
      have hmi := h.single m i r hm ((hsplit r).mpr (.inr hr))
      exact hdisjoint r (hstill hmi) r hr rfl
    obtain ⟨hkj, hgiven⟩ | ⟨hold, hkept⟩ := hbefore k r hk
    · obtain ⟨hlj, _⟩ | ⟨hold, hkept⟩ := hbefore l r hl
      · rw [hkj, hlj]
      · exact (hapart l hgiven hold hkept).elim
    · obtain ⟨_, hgiven⟩ | ⟨hold', _⟩ := hbefore l r hl
      · exact (hapart k hgiven hold hkept).elim
      · exact h.single k l r hold hold'

end Ledger
