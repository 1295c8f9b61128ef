namespace transition

variable {State Label : Type}

/-- A finite run of a labelled step relation, with its labels in order. -/
inductive Run (step : State → Label → State → Prop) (start : State) : List Label → State → Prop where
  | nil : Run step start [] start
  | snoc {labels : List Label} {before after : State} {label : Label}
      (run : Run step start labels before) (next : step before label after) :
      Run step start (labels ++ [label]) after

/-- The steps of a relation that are taken under a guard on what precedes them. -/
def Guarded (guard : State → Label → Prop) (step : State → Label → State → Prop) :
    State → Label → State → Prop :=
  fun before label after => guard before label ∧ step before label after

/-- What holds at the start and survives every step holds of every run, with
the labels taken so far. -/
theorem Run.invariant {step : State → Label → State → Prop} {start : State}
    (inv : List Label → State → Prop) (hstart : inv [] start)
    (hstep : ∀ labels before label after, inv labels before → step before label after →
      inv (labels ++ [label]) after)
    {labels : List Label} {final : State} (hrun : Run step start labels final) :
    inv labels final := by
  induction hrun with
  | nil => exact hstart
  | snoc _ next ih => exact hstep _ _ _ _ ih next

/-- A run goes on from where another has ended. -/
theorem Run.append {step : State → Label → State → Prop} {start middle final : State}
    {labels labels' : List Label} (h : Run step start labels middle) (h' : Run step middle labels' final) :
    Run step start (labels ++ labels') final := by
  induction h' with
  | nil => rwa [List.append_nil]
  | snoc _ next ih =>
    rw [← List.append_assoc]
    exact .snoc ih next

theorem Run.single {step : State → Label → State → Prop} {start final : State} {label : Label}
    (h : step start label final) : Run step start [label] final :=
  Run.snoc Run.nil h

theorem Run.nil_inv {step : State → Label → State → Prop} {start final : State} (h : Run step start [] final) :
    final = start := by
  generalize hnone : ([] : List Label) = labels at h
  cases h with
  | nil => rfl
  | snoc run next => simp at hnone

/-- The last step of a run, and the state before it. -/
theorem Run.snoc_inv {step : State → Label → State → Prop} {start final : State} {labels : List Label}
    {label : Label} (h : Run step start (labels ++ [label]) final) :
    ∃ before, Run step start labels before ∧ step before label final := by
  generalize hall : labels ++ [label] = all at h
  cases h with
  | nil => simp at hall
  | snoc run next =>
    obtain ⟨rfl, hlabel⟩ := List.append_inj' hall rfl
    obtain rfl : label = _ := List.head_eq_of_cons_eq hlabel
    exact ⟨_, run, next⟩

theorem Run.single_inv {step : State → Label → State → Prop} {start final : State} {label : Label}
    (h : Run step start [label] final) : step start label final := by
  have hlast : Run step start ([] ++ [label]) final := h
  obtain ⟨before, hbefore, hnext⟩ := hlast.snoc_inv
  obtain rfl := hbefore.nil_inv
  exact hnext

/-- A run passes through the states that the first of its labels lead to. -/
theorem Run.of_prefix {step : State → Label → State → Prop} {start final : State} {first labels : List Label}
    (h : Run step start labels final) (hinitial : first <+: labels) : ∃ middle, Run step start first middle := by
  induction h with
  | nil => exact ⟨start, List.prefix_nil.mp hinitial ▸ .nil⟩
  | snoc run next ih =>
    obtain rfl | hshorter := List.prefix_concat_iff.mp hinitial
    · exact ⟨_, run.snoc next⟩
    · exact ih hshorter

/-- A guard that holds before every step that is taken with these labels. -/
def Throughout (guard : State → Label → Prop) (step : State → Label → State → Prop) (start : State)
    (labels : List Label) : Prop :=
  ∀ earlier label before, earlier ++ [label] <+: labels → Run step start earlier before → guard before label

/-- A run is guarded when its guard holds throughout. -/
theorem Run.guarded {guard : State → Label → Prop} {step : State → Label → State → Prop} {start final : State}
    {labels : List Label} (h : Run step start labels final) (hguard : Throughout guard step start labels) :
    Run (Guarded guard step) start labels final := by
  induction h with
  | nil => exact .nil
  | snoc run next ih =>
    refine (ih fun earlier label before hearlier => ?_).snoc ⟨hguard _ _ _ (List.prefix_refl _) run, next⟩
    exact hguard earlier label before (hearlier.trans (List.prefix_append _ _))

/-- A run under a guard is one under any weaker guard; this is how a guard that can
be evaluated stands for one that cannot. -/
theorem Run.guarded_mono {guard other : State → Label → Prop} {step : State → Label → State → Prop}
    {start final : State} {labels : List Label} (h : Run (Guarded guard step) start labels final)
    (hguard : ∀ before label, guard before label → other before label) :
    Run (Guarded other step) start labels final := by
  induction h with
  | nil => exact .nil
  | snoc _ next ih => exact ih.snoc ⟨hguard _ _ next.1, next.2⟩

/-- Without its guard a run is a run of the relation itself. -/
theorem Run.unguarded {guard : State → Label → Prop} {step : State → Label → State → Prop} {start final : State}
    {labels : List Label} (h : Run (Guarded guard step) start labels final) : Run step start labels final := by
  induction h with
  | nil => exact .nil
  | snoc _ next ih => exact ih.snoc next.2

/-- Where a label leads to one state, the labels of a run decide where it ends. -/
theorem Run.unique {step : State → Label → State → Prop}
    (hstep : ∀ before label after other, step before label after → step before label other → after = other)
    {start final other : State} {labels : List Label} (h : Run step start labels final)
    (h' : Run step start labels other) : final = other := by
  induction h generalizing other with
  | nil => exact h'.nil_inv.symm
  | snoc run next ih =>
    obtain ⟨before, hrun, hnext⟩ := h'.snoc_inv
    obtain rfl := ih hrun
    exact hstep _ _ _ _ next hnext

/-- Where a label leads to one state, the guard of a guarded run holds throughout. -/
theorem Run.throughout {guard : State → Label → Prop} {step : State → Label → State → Prop}
    (hstep : ∀ before label after other, step before label after → step before label other → after = other)
    {start final : State} {labels : List Label} (h : Run (Guarded guard step) start labels final) :
    Throughout guard step start labels := by
  intro earlier label before hearlier hrun
  obtain ⟨_, hguarded⟩ := h.of_prefix hearlier
  obtain ⟨reached, hreached, hguard, _⟩ := hguarded.snoc_inv
  obtain rfl := hrun.unique hstep hreached.unguarded
  exact hguard

end transition
