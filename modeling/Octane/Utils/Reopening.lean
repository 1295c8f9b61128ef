import Octane.Utils.Ownership

open transition

namespace octane.utils

variable {i j : Nat} {file : MappedFile} {lost : List Resource}

/-- A descriptor taken and given back at once leaves the ledger as it was. -/
theorem release_acquire (ledger : Ledger Resource) (r : Resource) : (ledger.acquire r).release r = ledger := by
  rw [Ledger.release, if_pos (show r ∈ (ledger.acquire r).live from List.mem_cons_self)]
  simp [Ledger.acquire]

/-- An `open` that fails leaves an object with a part of what it held at most, and the
ledger as it was: what it had opened it has closed again. -/
theorem MappedFile.open_held (self : MappedFile) (answers : Answers) (ledger : Ledger Resource) :
    ((self.open answers ledger).2.2 = ledger ∧ (self.open answers ledger).2.1.held <+: self.held) ∨
      ∃ address st_size, answers.mapped = some address ∧
        (self.open answers ledger).2.1.held = [.mapping address st_size, .descriptor answers.opened] ∧
        (self.open answers ledger).2.2 =
          (ledger.acquire (.descriptor answers.opened)).acquire (.mapping address st_size) := by
  have hfewer : ∀ size data, (data = self.data ∧ size = self.size) ∨ data = none →
      ({ data, size, fd := -1 } : MappedFile).held <+: self.held := by
    rintro size data (⟨rfl, rfl⟩ | rfl)
    · exact ⟨if self.fd ≠ -1 then [.descriptor self.fd] else [], by simp [held]⟩
    · exact List.nil_prefix
  rw [«open»]
  dsimp only
  by_cases hopened : answers.opened = -1
  · rw [if_pos hopened, hopened]
    exact .inl ⟨rfl, hfewer _ _ (.inl ⟨rfl, rfl⟩)⟩
  · rw [if_neg hopened]
    cases hsize : answers.st_size with
    | none => exact .inl ⟨release_acquire ledger _, hfewer _ _ (.inl ⟨rfl, rfl⟩)⟩
    | some st_size =>
      cases st_size with
      | zero => exact .inl ⟨release_acquire ledger _, hfewer _ _ (.inl ⟨rfl, rfl⟩)⟩
      | succ n =>
        cases hmapped : answers.mapped with
        | none => exact .inl ⟨release_acquire ledger _, hfewer _ _ (.inr rfl)⟩
        | some address => exact .inr ⟨address, n + 1, rfl, by simp [held, hopened], rfl⟩

namespace Files

variable {files after : Files} {operation : Operation}

/-- The objects hold what is live, but for what has been lost. -/
def Accounted (files : Files) (lost : List Resource) : Prop :=
  files.ledger.Balanced fun owner : Option Nat => owner.elim lost (held files.objects)

/-- What one object holds changes, what is lost does not. -/
theorem update_owner (lost : List Resource) (held : Nat → List Resource) (i : Nat) (resources : List Resource) :
    Function.update (fun owner : Option Nat => owner.elim lost held) (some i) resources =
      fun owner => owner.elim lost (Function.update held i resources) := by
  funext owner
  cases owner with
  | none => rfl
  | some j =>
    by_cases hj : j = i
    · rw [hj, Function.update_self, Option.elim_some, Function.update_self]
    · rw [Function.update_of_ne (by simpa using hj), Option.elim_some, Option.elim_some, Function.update_of_ne hj]

/-- What is lost changes, what the objects hold does not. -/
theorem update_lost (lost : List Resource) (held : Nat → List Resource) (resources : List Resource) :
    Function.update (fun owner : Option Nat => owner.elim lost held) none resources =
      fun owner => owner.elim resources held := by
  funext owner
  cases owner <;> rfl

/-- A place with an object holds what that holds. -/
theorem held_of_object (hfile : files.objects i = some file) : held files.objects i = file.held := by
  rw [held, hfile]
  rfl

/-- A place without an object holds nothing. -/
theorem held_of_none (hnone : files.objects i = none) : held files.objects i = [] := by
  rw [held, hnone]
  rfl

/-- At first nothing is held and nothing is lost. -/
theorem accounted_empty : ({} : Files).Accounted [] := by
  have hnobody : (fun owner : Option Nat => owner.elim [] (held ({} : Files).objects)) = fun _ => [] := by
    funext owner
    cases owner <;> rfl
  rw [Accounted, hnobody]
  exact Ledger.balanced_empty

/-- What an object stops holding without giving it back is lost. -/
theorem Accounted.lose (h : files.Accounted lost) {kept given : List Resource}
    (hheld : held files.objects i = kept ++ given) :
    files.ledger.Balanced fun owner : Option Nat =>
      owner.elim (given ++ lost) (Function.update (held files.objects) i kept) := by
  have hpart : (kept ++ given).Perm ((some i).elim lost (held files.objects)) := by
    rw [Option.elim_some, hheld]
  have hgiven := Ledger.Balanced.give h (Option.some_ne_none i) hpart
  rwa [update_owner, update_lost] at hgiven

/-- An `open` that overwrites an open object loses what it held; the ledger stays
balanced with that among what is lost. -/
theorem Accounted.opened (h : files.Accounted lost) (hfile : files.objects i = some file) {answers : Answers}
    (hallowed : answers.Allowed files.ledger) : ∃ given,
      Accounted { objects := Function.update files.objects i (some (file.open answers files.ledger).2.1)
                  ledger := (file.open answers files.ledger).2.2 } (given ++ lost) := by
  have hheld := held_of_object hfile
  obtain ⟨hledger, given, hgiven⟩ | ⟨address, st_size, hmapped, hnew, hledger⟩ :=
    file.open_held answers files.ledger
  · refine ⟨given, ?_⟩
    rw [Accounted, hledger, held_update]
    exact h.lose (hheld.trans hgiven.symm)
  · have hall : held files.objects i = [] ++ file.held := hheld
    have hlost := h.lose hall
    have hdescriptor := hlost.acquire hallowed.opened (some i)
    have hfresh : Resource.mapping address st_size ∉
        (files.ledger.acquire (.descriptor answers.opened)).live := by
      rw [Ledger.acquire, List.mem_cons, not_or]
      exact ⟨by simp, hallowed.mapped address hmapped st_size⟩
    have hmapping := hdescriptor.acquire hfresh (some i)
    rw [Function.update_self, Function.update_idem, Option.elim_some, Function.update_self, update_owner,
      Function.update_idem] at hmapping
    refine ⟨file.held, ?_⟩
    rw [Accounted, hledger, held_update, Option.elim_some, hnew]
    exact hmapping

/-- An object gives back what it holds, and nothing or an empty object is in its place. -/
theorem Accounted.ended (h : files.Accounted lost) (hfile : files.objects i = some file)
    {object : Option MappedFile} (hempty : object.elim [] MappedFile.held = []) :
    Accounted { objects := Function.update files.objects i object, ledger := file.destroy files.ledger } lost := by
  have hheld : (some i).elim lost (held files.objects) = file.held := held_of_object hfile
  have hreleased := Ledger.Balanced.releaseAll h hheld
  rw [update_owner] at hreleased
  rw [Accounted, held_update, hempty, MappedFile.destroy_eq]
  exact hreleased

/-- What an object holds moves to one that holds nothing. -/
theorem Accounted.moved (h : files.Accounted lost) (hne : i ≠ j) (hempty : held files.objects i = [])
    (ho : files.objects j = some file) :
    Accounted { files with
      objects := Function.update (Function.update files.objects i (some file)) j
        (some { data := none, size := 0, fd := -1 }) } lost := by
  have hmoved := Ledger.Balanced.transfer h (fun hsame => hne (Option.some.inj hsame) : some i ≠ some j) hempty
  rw [update_owner, update_owner, Option.elim_some, held_of_object ho] at hmoved
  rw [Accounted, held_update, held_update]
  exact hmoved

/-- No operation takes anything back from what is lost. -/
theorem Accounted.step (h : files.Accounted lost) (hstep : files.Step operation after) :
    ∃ given, after.Accounted (given ++ lost) := by
  cases hstep with
  | construct i hnew =>
    refine ⟨[], ?_⟩
    have hsame : held (Function.update files.objects i (some {})) = held files.objects := by
      rw [held_update]
      exact Function.update_eq_self_iff.mpr (held_of_none hnew).symm
    rw [Accounted, hsame]
    exact h
  | «open» i answers file hfile hallowed => exact h.opened hfile hallowed
  | move_construct i j o hnew ho =>
    have hne : i ≠ j := by
      rintro rfl
      rw [hnew] at ho
      cases ho
    exact ⟨[], h.moved hne (held_of_none hnew) ho⟩
  | assign_self i file hfile => exact ⟨[], h⟩
  | move_assign i j file o hne hfile ho =>
    have hnothing : (some ({} : MappedFile)).elim [] MappedFile.held = [] := rfl
    have hended := h.ended hfile hnothing
    have hempty : held (Function.update files.objects i (some {})) i = [] := by
      rw [held, Function.update_self]
      rfl
    have hother : Function.update files.objects i (some {}) j = some o :=
      (Function.update_of_ne hne.symm _ _).trans ho
    have hmoved := hended.moved hne hempty hother
    rw [Function.update_idem] at hmoved
    exact ⟨[], hmoved⟩
  | destroy i file hfile => exact ⟨[], h.ended hfile rfl⟩

/-- By induction on the run, everything live is held or lost. -/
theorem accounted_of_run {operations : List Operation} (hrun : Run Step {} operations files) :
    ∃ lost, files.Accounted lost := by
  refine hrun.invariant (fun _ files => ∃ lost, files.Accounted lost) ⟨[], accounted_empty⟩ ?_
  rintro _ before operation after ⟨lost, hbefore⟩ hstep
  obtain ⟨given, hafter⟩ := hbefore.step hstep
  exact ⟨given ++ lost, hafter⟩

/-- The operations after which an object no longer has what it held: its end, or the
assignment of another object to it. -/
def Ends (operation : Operation) (i : Nat) : Prop :=
  operation = .destroy i ∨ ∃ j, i ≠ j ∧ operation = .move_assign i j

/-- Only what the object held leaves the ledger with it. -/
theorem mem_destroy {ledger : Ledger Resource} {r : Resource} (hlive : r ∈ ledger.live) (hother : r ∉ file.held) :
    r ∈ (file.destroy ledger).live := by
  rw [MappedFile.destroy_eq]
  generalize file.held = resources at hother
  induction resources generalizing ledger with
  | nil => exact hlive
  | cons first rest ih =>
    rw [List.mem_cons, not_or] at hother
    refine ih ?_ hother.2
    rw [Ledger.release]
    split_ifs
    · exact (List.mem_erase_of_ne hother.1).mpr hlive
    · exact hlive

/-- A step gives back a resource only where it ends an object that holds it. -/
theorem Step.live (hstep : files.Step operation after) {r : Resource} (hlive : r ∈ files.ledger.live) :
    r ∈ after.ledger.live ∨ ∃ i file, Ends operation i ∧ files.objects i = some file ∧ r ∈ file.held := by
  cases hstep with
  | construct => exact .inl hlive
  | «open» i answers file hfile hallowed =>
    left
    obtain ⟨hledger, _⟩ | ⟨address, st_size, _, _, hledger⟩ := file.open_held answers files.ledger
    · rw [hledger]
      exact hlive
    · rw [hledger]
      exact List.mem_cons_of_mem _ (List.mem_cons_of_mem _ hlive)
  | move_construct => exact .inl hlive
  | assign_self => exact .inl hlive
  | move_assign i j file o hne hfile ho =>
    by_cases hheld : r ∈ file.held
    · exact .inr ⟨i, file, .inr ⟨j, hne, rfl⟩, hfile, hheld⟩
    · exact .inl (mem_destroy hlive hheld)
  | destroy i file hfile =>
    by_cases hheld : r ∈ file.held
    · exact .inr ⟨i, file, .inl rfl, hfile, hheld⟩
    · exact .inl (mem_destroy hlive hheld)

/-- What is live stays so until an object that holds it then is ended. -/
theorem live_of_run {first final : Files} {later : List Operation} (hrun : Run Step first later final)
    {r : Resource} (hlive : r ∈ first.ledger.live) :
    r ∈ final.ledger.live ∨ ∃ done operation rest state i file, later = done ++ operation :: rest ∧
      Run Step first done state ∧ Ends operation i ∧ state.objects i = some file ∧ r ∈ file.held := by
  induction hrun with
  | nil => exact .inl hlive
  | @snoc labels before after operation run next ih =>
    obtain hstill | ⟨done, ending, rest, state, i, file, rfl, hdone, hends⟩ := ih
    · obtain hafter | ⟨i, file, hends⟩ := next.live hstill
      · exact .inl hafter
      · exact .inr ⟨labels, operation, [], before, i, file, rfl, run, hends⟩
    · refine .inr ⟨done, ending, rest ++ [operation], state, i, file, ?_, hdone, hends⟩
      rw [List.append_assoc, List.cons_append]

/-- A view that is not empty shows the mapping of its object. -/
theorem view_eq_some {address size : Nat} (hview : file.view = some (address, size)) :
    .mapping address size ∈ file.held := by
  rw [MappedFile.view] at hview
  cases hdata : file.data with
  | none => simp [hdata] at hview
  | some data =>
    simp only [hdata] at hview
    split_ifs at hview
    obtain ⟨rfl, rfl⟩ := Prod.mk.inj (Option.some.inj hview)
    simp [MappedFile.held, hdata]

/-- Whatever a program does with its objects, opening them again included: nothing is
closed or unmapped that is not live, with the size it was mapped with, a view shows
the whole of a live mapping that no other object holds, and a mapping lives on, also
where its object has been opened again, until an object that holds it is destroyed or
assigned to. -/
theorem views_never_dangle {operations : List Operation} (hrun : Run Step {} operations files) :
    files.ledger.misused = false ∧
    (∀ i file address size, files.objects i = some file → file.view = some (address, size) →
      .mapping address size ∈ files.ledger.live ∧
      ∀ j other, files.objects j = some other → .mapping address size ∈ other.held → j = i) ∧
    ∀ later final r, Run Step files later final → r ∈ files.ledger.live → r ∉ final.ledger.live →
      ∃ done operation rest state i file, later = done ++ operation :: rest ∧ Run Step files done state ∧
        Ends operation i ∧ state.objects i = some file ∧ r ∈ file.held := by
  obtain ⟨lost, haccounted⟩ := accounted_of_run hrun
  refine ⟨haccounted.unmisused, fun i file address size hfile hview => ?_, fun later final r hlater hlive => ?_⟩
  · have hheld : .mapping address size ∈ (some i).elim lost (held files.objects) :=
      mem_held_iff.mpr ⟨file, hfile, view_eq_some hview⟩
    refine ⟨(haccounted.live_iff _).mpr ⟨some i, hheld⟩, fun j other hother hsame => ?_⟩
    have hshared : .mapping address size ∈ (some j).elim lost (held files.objects) :=
      mem_held_iff.mpr ⟨other, hother, hsame⟩
    exact Option.some.inj (haccounted.single (some j) (some i) _ hshared hheld)
  · exact (live_of_run hlater hlive).resolve_left

/-- Another file, opened in the object that still holds the first. -/
def reopened : Files where
  objects := Function.update mapped.objects 0 (some ⟨some 8192, 20, 4⟩)
  ledger := { live := [.mapping 8192 20, .descriptor 4, .mapping 4096 10, .descriptor 3] }

/-- An object is opened twice and destroyed: its view is the second mapping, which
nothing else holds and the destructor ends; the first mapping stays. -/
theorem views_never_dangle_reopened :
    ∃ final, Run Step {} [.construct 0, .open 0 ⟨3, some 10, some 4096⟩, .open 0 ⟨4, some 20, some 8192⟩] reopened ∧
      Run Step reopened [.destroy 0] final ∧ final.ledger.misused = false ∧
      .mapping 8192 20 ∈ reopened.ledger.live ∧
      (∀ j other, reopened.objects j = some other → .mapping 8192 20 ∈ other.held → j = 0) ∧
      (∃ done operation rest state i file, [.destroy 0] = done ++ operation :: rest ∧
        Run Step reopened done state ∧ Ends operation i ∧ state.objects i = some file ∧
          .mapping 8192 20 ∈ file.held) ∧
      final.ledger.live = [.mapping 4096 10, .descriptor 3] := by
  have hallowed : Answers.Allowed ⟨4, some 20, some 8192⟩ mapped.ledger := ⟨by decide, by simp [mapped]⟩
  have hagain : Step mapped (.open 0 ⟨4, some 20, some 8192⟩) reopened := .open 0 _ _ rfl hallowed
  have hrun := ((Run.single construct_step).snoc open_step).snoc hagain
  have hended := Run.single (Step.destroy 0 ⟨some 8192, 20, 4⟩ rfl : Step reopened _ _)
  obtain ⟨_, hviews, hlives⟩ := views_never_dangle hrun
  obtain ⟨hlive, hsingle⟩ := hviews 0 ⟨some 8192, 20, 4⟩ 8192 20 rfl rfl
  have hfinal := (views_never_dangle (hrun.append hended)).1
  exact ⟨_, hrun, hended, hfinal, hlive, hsingle, hlives _ _ _ hended hlive (by decide), rfl⟩

end Files

end octane.utils
