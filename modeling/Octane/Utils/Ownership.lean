import Octane.Lib.Transition
import Octane.Utils.FileHandle

open transition

namespace octane.utils

namespace MappedFile

/-- What the members of an object refer to. -/
def held (self : MappedFile) : List Resource :=
  (self.data.map fun data => Resource.mapping data self.size).toList ++
    if self.fd ≠ -1 then [.descriptor self.fd] else []

/-- A descriptor and a mapping, or neither. -/
def Paired (file : MappedFile) : Prop := file.fd = -1 ↔ file.data = none

/-- The destructor gives back what the object holds. -/
theorem destroy_eq (self : MappedFile) (ledger : Ledger Resource) :
    self.destroy ledger = self.held.foldl Ledger.release ledger := by
  rw [destroy, held]
  cases self.data <;> by_cases hfd : self.fd = -1 <;> simp [hfd]

/-- An object holds its descriptor, unless that is `-1`. -/
theorem descriptor_mem_held {file : MappedFile} {fd : Int} :
    .descriptor fd ∈ file.held ↔ file.fd = fd ∧ fd ≠ -1 := by
  rw [held]
  by_cases hfd : file.fd = -1
  · simp only [hfd, ne_eq, not_true_eq_false, if_false, List.append_nil, Option.mem_toList, Option.map_eq_some_iff,
      reduceCtorEq, and_false, exists_false, false_iff, not_and, not_not]
    exact fun hsame => hsame.symm
  · simp only [hfd, ne_eq, not_false_eq_true, if_true, List.mem_append, Option.mem_toList, Option.map_eq_some_iff,
      reduceCtorEq, and_false, exists_false, List.mem_singleton, Resource.descriptor.injEq, false_or]
    constructor
    · rintro rfl
      exact ⟨rfl, hfd⟩
    · exact fun hsame => hsame.1.symm

/-- An object without a descriptor holds nothing: data and descriptor come and go together. -/
theorem held_empty {file : MappedFile} (hpaired : file.Paired) (hfd : file.fd = -1) : file.held = [] := by
  rw [held, hpaired.mp hfd, hfd]
  rfl

/-- What an `open` can come to: nothing is opened, a descriptor is opened and closed
again, or the file is mapped. -/
inductive Opened (self : MappedFile) (answers : Answers) (ledger : Ledger Resource) :
    Bool × MappedFile × Ledger Resource → Prop where
  | nothing (hopened : answers.opened = -1) :
    Opened self answers ledger (false, { self with fd := -1 }, ledger)
  | closed (size : Nat) (data : Option Nat) (hopened : answers.opened ≠ -1)
      (hdata : data = self.data ∨ data = none) :
    Opened self answers ledger (false, { data, size, fd := -1 },
      (ledger.acquire (.descriptor answers.opened)).release (.descriptor answers.opened))
  | mapped (address st_size : Nat) (hopened : answers.opened ≠ -1) (hsize : answers.st_size = some st_size)
      (hmapped : answers.mapped = some address) (hpos : 0 < st_size) :
    Opened self answers ledger (true, { data := some address, size := st_size, fd := answers.opened },
      (ledger.acquire (.descriptor answers.opened)).acquire (.mapping address st_size))

/-- What `open` can do, failures included: a failed call has closed what it had opened. -/
theorem open_cases (self : MappedFile) (answers : Answers) (ledger : Ledger Resource) :
    Opened self answers ledger (self.open answers ledger) := by
  rw [«open»]
  dsimp only
  by_cases hopened : answers.opened = -1
  · rw [if_pos hopened, hopened]
    exact .nothing hopened
  · rw [if_neg hopened]
    cases hsize : answers.st_size with
    | none => exact .closed self.size self.data hopened (.inl rfl)
    | some st_size =>
      cases st_size with
      | zero => exact .closed self.size self.data hopened (.inl rfl)
      | succ n =>
        cases hmapped : answers.mapped with
        | none => exact .closed (n + 1) none hopened (.inr rfl)
        | some address => exact .mapped address (n + 1) hopened hsize hmapped (Nat.succ_pos n)

/-- After a successful `open` the view is the whole mapping of the file. -/
theorem view_of_open {self : MappedFile} {answers : Answers} {ledger : Ledger Resource}
    (h : (self.open answers ledger).1 = true) :
    ∃ address st_size, answers.mapped = some address ∧ answers.st_size = some st_size ∧
      (self.open answers ledger).2.1.view = some (address, st_size) ∧
        .mapping address st_size ∈ (self.open answers ledger).2.2.live := by
  have hcases := self.open_cases answers ledger
  generalize self.open answers ledger = result at h hcases
  cases hcases with
  | nothing => cases h
  | closed => cases h
  | mapped address st_size _ hsize hmapped hpos =>
    refine ⟨address, st_size, hmapped, hsize, ?_, List.mem_cons_self⟩
    exact if_neg (Nat.ne_of_gt hpos)

end MappedFile

namespace Files

/-- What each object holds. -/
def held (objects : Nat → Option MappedFile) (i : Nat) : List Resource := (objects i).elim [] MappedFile.held

/-- What the system has given out is held by the objects, each resource by one of
them, and nothing was given back that was not given out. -/
structure OwnsOnce (files : Files) : Prop where
  held_once : ∀ r ∈ files.ledger.live, ∃! i, ∃ file, files.objects i = some file ∧ r ∈ file.held
  no_misuse : files.ledger.misused = false
  none_left : (∀ i, files.objects i = none) → files.ledger.live = []
  view : ∀ i file answers, files.objects i = some file → (file.open answers files.ledger).1 = true →
    ∃ address st_size, answers.mapped = some address ∧ answers.st_size = some st_size ∧
      (file.open answers files.ledger).2.1.view = some (address, st_size) ∧
        .mapping address st_size ∈ (file.open answers files.ledger).2.2.live

/-- The operation opens an object that holds a descriptor. -/
def Reopens (files : Files) (operation : Operation) : Prop :=
  ∃ i answers file, operation = .open i answers ∧ files.objects i = some file ∧ file.fd ≠ -1

/-- The ledger balances, and no object holds one resource without the other. -/
structure Consistent (files : Files) : Prop where
  balanced : files.ledger.Balanced (held files.objects)
  paired : ∀ i file, files.objects i = some file → file.Paired

/-- What a place holds is what the object there holds. -/
theorem mem_held_iff {objects : Nat → Option MappedFile} {i : Nat} {r : Resource} :
    r ∈ held objects i ↔ ∃ file, objects i = some file ∧ r ∈ file.held := by
  rw [held]
  cases objects i with
  | none => simp
  | some file => simp

/-- Replacing one object changes what its place holds and no other. -/
theorem held_update (objects : Nat → Option MappedFile) (i : Nat) (object : Option MappedFile) :
    held (Function.update objects i object) = Function.update (held objects) i (object.elim [] MappedFile.held) := by
  funext k
  by_cases hk : k = i
  · subst hk
    rw [held, Function.update_self, Function.update_self]
  · rw [held, Function.update_of_ne hk, Function.update_of_ne hk, held]

/-- In a consistent state every live resource has one owner. -/
theorem Consistent.ownsOnce {files : Files} (h : files.Consistent) : files.OwnsOnce := by
  refine ⟨fun r hr => ?_, h.balanced.unmisused, fun hnone => ?_, fun i file answers _ => MappedFile.view_of_open⟩
  · simpa only [mem_held_iff] using h.balanced.existsUnique hr
  · refine h.balanced.live_eq_nil fun i => ?_
    rw [held, hnone i]
    rfl

theorem consistent_empty : ({} : Files).Consistent :=
  ⟨Ledger.balanced_empty, fun i file hfile => by cases hfile⟩

/-- Objects stay paired when one paired object takes the place of another. -/
theorem paired_update {objects : Nat → Option MappedFile}
    (h : ∀ i file, objects i = some file → file.Paired) {i : Nat} {object : Option MappedFile}
    (hobject : ∀ file, object = some file → file.Paired) :
    ∀ k file, Function.update objects i object k = some file → file.Paired := by
  intro k file hfile
  by_cases hk : k = i
  · subst hk
    rw [Function.update_self] at hfile
    exact hobject file hfile
  · rw [Function.update_of_ne hk] at hfile
    exact h k file hfile

/-- An object that holds nothing is opened. Where a call of the system fails the
source closes what it has opened so far, and the object stays empty. -/
theorem Consistent.opened {files : Files} (h : files.Consistent) {i : Nat} {file : MappedFile}
    (hfile : files.objects i = some file) (hfd : file.fd = -1) {answers : Answers}
    (hallowed : answers.Allowed files.ledger) :
    Consistent { objects := Function.update files.objects i (some (file.open answers files.ledger).2.1)
                 ledger := (file.open answers files.ledger).2.2 } := by
  have hpaired := h.paired i file hfile
  have hnothing : held files.objects i = [] := by
    rw [held, hfile]
    exact MappedFile.held_empty hpaired hfd
  have hacquired := h.balanced.acquire hallowed.opened i
  rw [hnothing] at hacquired
  have hcases := file.open_cases answers files.ledger
  generalize file.open answers files.ledger = result at hcases
  cases hcases with
  | nothing hopened =>
    have hafter : ({ file with fd := -1 } : MappedFile).Paired := by
      rw [MappedFile.Paired, hpaired.mp hfd]
      exact Iff.intro (fun _ => rfl) (fun _ => rfl)
    refine ⟨?_, paired_update h.paired fun other hother => Option.some.inj hother ▸ hafter⟩
    rw [held_update, Option.elim_some, MappedFile.held_empty hafter rfl, ← hnothing, Function.update_eq_self]
    exact h.balanced
  | closed size data hopened hdata =>
    have hafter : ({ data, size, fd := -1 } : MappedFile).Paired := by
      refine Iff.intro (fun _ => ?_) (fun _ => rfl)
      obtain hsame | hnone := hdata
      · exact hsame.trans (hpaired.mp hfd)
      · exact hnone
    refine ⟨?_, paired_update h.paired fun other hother => Option.some.inj hother ▸ hafter⟩
    have hreleased := hacquired.release (Function.update_self i _ _)
    rw [Function.update_idem] at hreleased
    rw [held_update, Option.elim_some, MappedFile.held_empty hafter rfl]
    exact hreleased
  | mapped address st_size hopened hsize hmapped hpos =>
    have hafter : ({ data := some address, size := st_size, fd := answers.opened } : MappedFile).Paired :=
      Iff.intro (fun hnone => absurd hnone hopened) (fun hnone => by cases hnone)
    refine ⟨?_, paired_update h.paired fun other hother => Option.some.inj hother ▸ hafter⟩
    have hfresh : Resource.mapping address st_size ∉
        (files.ledger.acquire (.descriptor answers.opened)).live := by
      rw [Ledger.acquire, List.mem_cons, not_or]
      exact ⟨by simp, hallowed.mapped address hmapped st_size⟩
    have hboth := hacquired.acquire hfresh i
    rw [Function.update_self, Function.update_idem] at hboth
    have hheld : ({ data := some address, size := st_size, fd := answers.opened } : MappedFile).held =
        [.mapping address st_size, .descriptor answers.opened] := by
      simp [MappedFile.held, hopened]
    rw [held_update, Option.elim_some, hheld]
    exact hboth

/-- An object gives back what it holds, and nothing or an empty object is in its place. -/
theorem Consistent.ended {files : Files} (h : files.Consistent) {i : Nat} {file : MappedFile}
    (hfile : files.objects i = some file) {object : Option MappedFile}
    (hempty : object.elim [] MappedFile.held = []) (hpaired : ∀ file, object = some file → file.Paired) :
    Consistent { objects := Function.update files.objects i object, ledger := file.destroy files.ledger } := by
  have hheld : held files.objects i = file.held := by
    rw [held, hfile]
    rfl
  refine ⟨?_, paired_update h.paired hpaired⟩
  rw [held_update, hempty, MappedFile.destroy_eq]
  exact h.balanced.releaseAll hheld

/-- What an object holds moves to one that holds nothing. -/
theorem Consistent.moved {files : Files} (h : files.Consistent) {i j : Nat} {o : MappedFile} (hne : i ≠ j)
    (hempty : held files.objects i = []) (ho : files.objects j = some o) :
    Consistent { files with
      objects := Function.update (Function.update files.objects i (some o)) j
        (some { data := none, size := 0, fd := -1 }) } := by
  have hleft : ({ data := none, size := 0, fd := -1 } : MappedFile).Paired :=
    Iff.intro (fun _ => rfl) (fun _ => rfl)
  have hheld : held files.objects j = o.held := by
    rw [held, ho]
    rfl
  refine ⟨?_, paired_update (paired_update h.paired fun other hother => ?_) fun other hother => ?_⟩
  · rw [held_update, held_update, Option.elim_some, Option.elim_some, MappedFile.held_empty hleft rfl, ← hheld]
    exact h.balanced.transfer hne hempty
  · exact Option.some.inj hother ▸ h.paired j o ho
  · exact Option.some.inj hother ▸ hleft

/-- Every operation but an `open` of an object that is already open keeps the state consistent. -/
theorem Consistent.step {files after : Files} {operation : Operation} (h : files.Consistent)
    (hkeeps : ¬ files.Reopens operation) (hstep : files.Step operation after) : after.Consistent := by
  have hunused : ({} : MappedFile).Paired := Iff.intro (fun _ => rfl) (fun _ => rfl)
  have hnobody : ∀ i, files.objects i = none → held files.objects i = [] := by
    intro i hnew
    rw [held, hnew]
    rfl
  cases hstep with
  | construct i hnew =>
    refine ⟨?_, paired_update h.paired fun other hother => Option.some.inj hother ▸ hunused⟩
    rw [held_update, Option.elim_some, MappedFile.held_empty hunused rfl, ← hnobody i hnew,
      Function.update_eq_self]
    exact h.balanced
  | «open» i answers file hfile hallowed =>
    refine h.opened hfile ?_ hallowed
    by_contra hfd
    exact hkeeps ⟨i, answers, file, rfl, hfile, hfd⟩
  | move_construct i j o hnew ho =>
    have hne : i ≠ j := by
      rintro rfl
      rw [hnew] at ho
      cases ho
    exact h.moved hne (hnobody i hnew) ho
  | assign_self i file hfile => exact h
  | move_assign i j file o hne hfile ho =>
    have hended : Consistent { objects := Function.update files.objects i (some {}),
                               ledger := file.destroy files.ledger } :=
      h.ended hfile (MappedFile.held_empty hunused rfl) fun other hother => Option.some.inj hother ▸ hunused
    have hempty : held (Function.update files.objects i (some {})) i = [] := by
      rw [held, Function.update_self]
      exact MappedFile.held_empty hunused rfl
    have hother : Function.update files.objects i (some {}) j = some o :=
      (Function.update_of_ne hne.symm _ _).trans ho
    have hmoved := hended.moved hne hempty hother
    rw [Function.update_idem] at hmoved
    exact hmoved
  | destroy i file hfile => exact h.ended hfile rfl fun other hother => by cases hother

/-- An object that is opened again loses the descriptor that it held: nobody has it,
and it is still live. -/
theorem Consistent.not_ownsOnce {files after : Files} {operation : Operation} (h : files.Consistent)
    (hreopens : files.Reopens operation) (hstep : files.Step operation after) : ¬ after.OwnsOnce := by
  obtain ⟨i, answers, file, rfl, hfile, hfd⟩ := hreopens
  cases hstep with
  | «open» _ _ other hother hallowed =>
    obtain rfl : file = other := Option.some.inj (hfile.symm.trans hother)
    have hheld : Resource.descriptor file.fd ∈ held files.objects i :=
      mem_held_iff.mpr ⟨file, hfile, MappedFile.descriptor_mem_held.mpr ⟨rfl, hfd⟩⟩
    have hlive : Resource.descriptor file.fd ∈ files.ledger.live := (h.balanced.live_iff _).mpr ⟨i, hheld⟩
    have hnew : answers.opened ≠ file.fd := fun hsame => hallowed.opened (hsame ▸ hlive)
    have hafter : Resource.descriptor file.fd ∈ (file.open answers files.ledger).2.2.live ∧
        (file.open answers files.ledger).2.1.fd ≠ file.fd := by
      have hcases := file.open_cases answers files.ledger
      generalize file.open answers files.ledger = result at hcases
      cases hcases with
      | nothing => exact ⟨hlive, fun hsame => hfd hsame.symm⟩
      | closed size data =>
        refine ⟨?_, fun hsame => hfd hsame.symm⟩
        simpa [Ledger.acquire, Ledger.release] using hlive
      | mapped address st_size =>
        exact ⟨List.mem_cons_of_mem _ (List.mem_cons_of_mem _ hlive), hnew⟩
    intro howns
    obtain ⟨k, ⟨owner, howner, hmem⟩, _⟩ := howns.held_once _ hafter.1
    by_cases hk : k = i
    · subst hk
      dsimp only at howner
      rw [Function.update_self] at howner
      obtain rfl := Option.some.inj howner
      exact hafter.2 (MappedFile.descriptor_mem_held.mp hmem).1
    · dsimp only at howner
      rw [Function.update_of_ne hk] at howner
      exact hk (h.balanced.single k i _ (mem_held_iff.mpr ⟨owner, howner, hmem⟩) hheld)

/-- An operation leads to one state: the answers of the system are part of it. -/
theorem Step.unique {files after other : Files} {operation : Operation} (h : files.Step operation after)
    (h' : files.Step operation other) : after = other := by
  cases h with
  | construct i hnew =>
    cases h'
    rfl
  | «open» i answers file hfile =>
    cases h' with
    | «open» _ _ file' hfile' =>
      obtain rfl : file = file' := Option.some.inj (hfile.symm.trans hfile')
      rfl
  | move_construct i j o hnew ho =>
    cases h' with
    | move_construct _ _ o' hnew' ho' =>
      obtain rfl : o = o' := Option.some.inj (ho.symm.trans ho')
      rfl
  | assign_self i file hfile =>
    cases h' with
    | assign_self => rfl
    | move_assign _ _ _ _ hne => exact absurd rfl hne
  | move_assign i j file o hne hfile ho =>
    cases h' with
    | assign_self => exact absurd rfl hne
    | move_assign _ _ file' o' _ hfile' ho' =>
      obtain rfl : file = file' := Option.some.inj (hfile.symm.trans hfile')
      obtain rfl : o = o' := Option.some.inj (ho.symm.trans ho')
      rfl
  | destroy i file hfile =>
    cases h' with
    | destroy _ file' hfile' =>
      obtain rfl : file = file' := Option.some.inj (hfile.symm.trans hfile')
      rfl

/-- As long as no object is opened that holds a descriptor, the ledger balances. -/
theorem consistent_of_run {done : List Operation} {files : Files} (hrun : Run Step {} done files)
    (hkeeps : ∀ before operation state, before ++ [operation] <+: done → Run Step {} before state →
      ¬ state.Reopens operation) : files.Consistent := by
  induction hrun with
  | nil => exact consistent_empty
  | snoc run next ih =>
    have hbefore := ih fun before operation state hinitial =>
      hkeeps before operation state (hinitial.trans (List.prefix_append _ _))
    exact hbefore.step (hkeeps _ _ _ List.prefix_rfl run) next

/-- In every run the objects own what the system has given out, each resource once,
exactly as long as no object is opened that holds a descriptor. -/
theorem owns_once_iff {operations : List Operation} {final : Files} (hrun : Run Step {} operations final) :
    (∀ done files, done <+: operations → Run Step {} done files → files.OwnsOnce) ↔
      ∀ done operation files, done ++ [operation] <+: operations → Run Step {} done files →
        ¬ files.Reopens operation := by
  constructor
  · intro howns done operation files hinitial hdone hreopens
    -- The first operation of the kind breaks the ownership, so up to it the ledger balances.
    have hconsistent : ∀ before state, Run Step {} before state → before <+: operations → state.Consistent := by
      intro before state hbefore
      induction hbefore with
      | nil => exact fun _ => consistent_empty
      | snoc run next ih =>
        intro hlonger
        have hstate := ih ((List.prefix_append _ _).trans hlonger)
        by_contra hbroken
        refine hbroken (hstate.step (fun hopens => ?_) next)
        exact hstate.not_ownsOnce hopens next (howns _ _ hlonger (run.snoc next))
    obtain ⟨after, hafter⟩ := hrun.of_prefix hinitial
    obtain ⟨before, hbefore, hstep⟩ := hafter.snoc_inv
    obtain rfl := Run.unique (fun _ _ _ _ hone hother => hone.unique hother) hdone hbefore
    exact (hconsistent done files hdone ((List.prefix_append _ _).trans hinitial)).not_ownsOnce hreopens hstep
      (howns _ after hinitial hafter)
  · intro hkeeps done files hinitial hdone
    exact (consistent_of_run hdone fun before operation state hbefore =>
      hkeeps before operation state (hbefore.trans hinitial)).ownsOnce

theorem allowed_empty (answers : Answers) : answers.Allowed {} where
  opened := by simp
  mapped := by simp

/-- One object that was never opened. -/
def unused : Files := { objects := Function.update (fun _ => none) 0 (some {}) }

/-- The object after its first `open`. -/
def mapped : Files where
  objects := Function.update unused.objects 0 (some ⟨some 4096, 10, 3⟩)
  ledger := { live := [.mapping 4096 10, .descriptor 3] }

theorem construct_step : Step {} (.construct 0) unused := .construct 0 rfl

theorem open_step : Step unused (.open 0 ⟨3, some 10, some 4096⟩) mapped := .open 0 _ {} rfl (allowed_empty _)

/-- A file is mapped, its object moved to another, and both are destroyed. -/
def handOver : List Operation :=
  [.construct 0, .open 0 ⟨3, some 10, some 4096⟩, .move_construct 1 0, .destroy 0, .destroy 1]

theorem owns_once_iff_handOver : ∃ final, Run Step {} handOver final ∧
    ∀ done files, done <+: handOver → Run Step {} done files → files.OwnsOnce := by
  have hmoved := ((Run.single construct_step).snoc open_step).snoc (.move_construct 1 0 _ rfl rfl)
  have hrun := (hmoved.snoc (.destroy 0 _ rfl)).snoc (.destroy 1 _ rfl)
  refine ⟨_, hrun, (owns_once_iff hrun).mpr ?_⟩
  rintro done _ files ⟨rest, hrest⟩ hdone ⟨i, answers, file, rfl, hfile, hfd⟩
  have hfirst : done = [.construct 0] ∧ i = 0 := by
    obtain _ | ⟨one, _ | ⟨two, _ | ⟨three, _ | ⟨four, _ | ⟨five, more⟩⟩⟩⟩⟩ := done <;> simp at hrest
    · exact ⟨by rw [hrest.1], hrest.2.1.1⟩
  obtain ⟨rfl, rfl⟩ := hfirst
  obtain rfl := Run.unique (fun _ _ _ _ hone hother => hone.unique hother) hdone (.single construct_step)
  cases hfile
  exact hfd rfl

/-- One object opens a file and then another: nothing holds the first descriptor any more. -/
theorem reopened_leaks : ∃ final, Run Step {}
    [.construct 0, .open 0 ⟨3, some 10, some 4096⟩, .open 0 ⟨4, some 20, some 8192⟩] final ∧
      final.ledger.live = [.mapping 8192 20, .descriptor 4, .mapping 4096 10, .descriptor 3] ∧
        ¬ final.OwnsOnce := by
  have hallowed : Answers.Allowed ⟨4, some 20, some 8192⟩ mapped.ledger := by
    constructor <;> simp [mapped]
  have hagain := Step.open 0 _ ⟨some 4096, 10, 3⟩ rfl hallowed
  have hunused := consistent_empty.step (by rintro ⟨i, answers, file, hoperation, _⟩; cases hoperation)
    construct_step
  have hmapped := hunused.step (by
    rintro ⟨i, answers, file, hoperation, hfile, hfd⟩
    cases hoperation
    cases hfile
    exact hfd rfl) open_step
  exact ⟨_, ((Run.single construct_step).snoc open_step).snoc hagain, rfl,
    hmapped.not_ownsOnce ⟨0, _, _, rfl, rfl, by decide⟩ hagain⟩

end Files

end octane.utils
