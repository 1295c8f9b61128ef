import Octane.Transport.Admission

open transition

namespace octane.transport

namespace WorkerContext

variable {H : Type}

/-- Calls of `on_close` change the map of connections and nothing else of the worker. -/
theorem on_close_frame (ids : List Nat) (worker : WorkerContext H) :
    ids.foldl on_close worker =
      { worker with connections := (ids.foldl on_close worker).connections } := by
  induction ids generalizing worker with
  | nil => rfl
  | cons id ids ih =>
    rw [List.foldl_cons, ih]
    rfl

/-- A connection that goes on leaves the acceptor as it is. -/
theorem settle_frame (worker : WorkerContext H) (object : Nat) (before after : TcpConnection H) :
    worker.settle object before after =
      { worker with
        objects := worker.objects.set object after
        connections := (worker.settle object before after).connections } :=
  on_close_frame _ _

/-- A turn of the stop loop changes the connections, never the acceptor or the accepts. -/
theorem stop_each_frame (worker : WorkerContext H) (entry : Nat × Nat) :
    worker.stop_each entry =
      { worker with
        objects := (worker.stop_each entry).objects
        connections := (worker.stop_each entry).connections
        invalidated := (worker.stop_each entry).invalidated } := by
  rw [stop_each]
  cases worker.objects[entry.2]? with
  | none => rfl
  | some conn =>
    dsimp only
    rw [settle_frame]

/-- The stop loop changes the connections only, by induction on the entries that it
walks over. -/
theorem stop_loop_frame (entries : List (Nat × Nat)) (worker : WorkerContext H) :
    entries.foldl stop_each worker =
      { worker with
        objects := (entries.foldl stop_each worker).objects
        connections := (entries.foldl stop_each worker).connections
        invalidated := (entries.foldl stop_each worker).invalidated } := by
  induction entries generalizing worker with
  | nil => rfl
  | cons entry entries ih =>
    rw [List.foldl_cons, ih, stop_each_frame]

/-- The stop task stops the acceptor once. -/
theorem stop_acceptor {worker : WorkerContext H} (hgoing : worker.stopping = false) :
    worker.stop.stopping = true ∧ worker.stop.is_open = false ∧
      worker.stop.accepts = worker.accepts.map Accept.cancel := by
  rw [stop, if_neg (by simp [hgoing]), stop_loop_frame]
  exact ⟨rfl, rfl, rfl⟩

/-- Nothing is left in the map behind the stop task. -/
theorem Slots.stop_empty {worker : WorkerContext H} (h : Slots worker) (hgoing : worker.stopping = false) :
    worker.stop.connections.size = 0 := by
  obtain ⟨hslots, hsettled⟩ := h.stop
  rw [UnorderedMap.size, List.length_eq_zero_iff, List.eq_nil_iff_forall_not_mem]
  intro entry hentry
  obtain ⟨hsame, conn, hconn, hopen⟩ := (hslots.held entry).mp hentry
  have hless := (List.getElem?_eq_some_iff.mp hconn).1
  rw [hsettled.length] at hless
  have hbefore := List.getElem?_eq_getElem hless
  obtain ⟨conn', effects, hconn', hreleased⟩ := hsettled.kept entry.2 _ hbefore
  obtain rfl : conn = conn' := Option.some.inj (hconn.symm.trans hconn')
  have hvisited : entry ∈ worker.connections.entries :=
    (h.held entry).mpr ⟨hsame, _, hbefore, fun hclosed => hopen (hreleased.closed hclosed)⟩
  rw [WorkerContext.stop, if_neg (by simp [hgoing])] at hconn
  have hbegin : Slots { worker with
      stopping := true, is_open := false, accepts := worker.accepts.map Accept.cancel } :=
    h.congr rfl rfl rfl
  exact hopen ((hbegin.stop_loop worker.connections.entries).2.2 entry hvisited conn hconn)

/-- The worker is stopping, and whatever accept is under way has failed. -/
def Refusing (worker : WorkerContext H) : Prop :=
  worker.stopping = true ∧ ∀ accept ∈ worker.accepts, accept = .failed

/-- A worker that goes on has one accept under way. -/
def Accepting (worker : WorkerContext H) : Prop :=
  worker.stopping = false → worker.is_open = true ∧ ∃ accept, worker.accepts = [accept]

theorem NoAdmission.of_same {worker after : WorkerContext H} (hobjects : after.objects = worker.objects)
    (hconnections : after.connections = worker.connections) : NoAdmission worker after :=
  ⟨congrArg List.length hobjects, fun _ hentry => hconnections ▸ hentry⟩

/-- A connection that closes leaves the map; none enters it. -/
theorem mem_on_close (ids : List Nat) (worker : WorkerContext H) {entry : Nat × Nat}
    (h : entry ∈ (ids.foldl on_close worker).connections.entries) : entry ∈ worker.connections.entries := by
  induction ids generalizing worker with
  | nil => exact h
  | cons id ids ih => exact (UnorderedMap.mem_erase.mp (ih (worker.on_close id) h)).1

/-- A connection that goes on admits no other. -/
theorem settle_no_admission (worker : WorkerContext H) (object : Nat) (before after : TcpConnection H) :
    NoAdmission worker (worker.settle object before after) := by
  refine ⟨?_, fun entry hentry => ?_⟩
  · rw [settle_frame]
    exact List.length_set
  · rw [settle] at hentry
    exact mem_on_close _ { worker with objects := worker.objects.set object after } hentry

/-- A refusing worker takes nothing in and goes on refusing: its accepts have failed
or are gone, and it starts no other. -/
theorem Refusing.moved {server : TcpServer H} {worker after : WorkerContext H} {event : TcpServer.Event H}
    (h : Refusing worker) (hmoved : TcpServer.Moved server worker event after) :
    Refusing after ∧ NoAdmission worker after := by
  obtain ⟨hstopping, hfailed⟩ := h
  cases hmoved with
  | completed ec accepts hpending =>
    have hhead := hfailed .pending (by simp [hpending])
    cases hhead
  | turned_away env accept accepts hqueued =>
    rw [start_accept, if_pos (.inl hstopping)]
    exact ⟨⟨hstopping, fun other hother => hfailed other (hqueued ▸ List.mem_cons_of_mem _ hother)⟩,
      .of_same rfl rfl⟩
  | admitted env accepts first hqueued =>
    have hhead := hfailed .succeeded (by simp [hqueued])
    cases hhead
  | advanced object label conn after =>
    have hnone := worker.settle_no_admission object conn after
    rw [settle_frame] at hnone ⊢
    exact ⟨⟨hstopping, hfailed⟩, hnone⟩
  | stopped =>
    rw [stop, if_pos hstopping]
    exact ⟨⟨hstopping, hfailed⟩, .of_same rfl rfl⟩

/-- The accept that has been taken up is replaced by a new one. -/
theorem Accepting.start_accept {worker next : WorkerContext H} (h : Accepting worker) {accept : Accept}
    {accepts : List Accept} (hqueued : worker.accepts = accept :: accepts)
    (hstopping : next.stopping = worker.stopping) (hopen : next.is_open = worker.is_open)
    (haccepts : next.accepts = accepts) : Accepting next.start_accept := by
  intro hgoing
  rw [start_accept_frame] at hgoing
  obtain ⟨hlistening, accept', hone⟩ := h (hstopping.symm.trans hgoing)
  rw [hqueued] at hone
  cases hone
  rw [TcpServer.start_accept_armed (hopen.trans hlistening) hgoing, haccepts]
  exact ⟨hopen.trans hlistening, .pending, rfl⟩

/-- A worker that is not stopping has one accept under way, after every event. -/
theorem Accepting.moved {server : TcpServer H} {worker after : WorkerContext H} {event : TcpServer.Event H}
    (h : Accepting worker) (hmoved : TcpServer.Moved server worker event after) : Accepting after := by
  cases hmoved with
  | completed ec accepts hpending =>
    intro hgoing
    obtain ⟨hopen, accept, haccepts⟩ := h hgoing
    rw [hpending] at haccepts
    cases haccepts
    exact ⟨hopen, _, rfl⟩
  | turned_away env accept accepts hqueued => exact h.start_accept hqueued rfl rfl rfl
  | admitted env accepts first hqueued => exact h.start_accept hqueued rfl rfl rfl
  | advanced object label conn after =>
    rw [settle_frame]
    exact h
  | stopped =>
    intro hgoing
    by_cases hbefore : worker.stopping = true
    · rw [stop, if_pos hbefore] at hgoing
      exact absurd hbefore (by simp [hgoing])
    · rw [(stop_acceptor (Bool.eq_false_of_not_eq_true hbefore)).1] at hgoing
      cases hgoing

theorem new_accepting : Accepting (({} : WorkerContext H).start_accept) := fun _ => ⟨rfl, .pending, rfl⟩

end WorkerContext

namespace TcpServer

variable {H : Type}

/-- Whatever happens from now on, the worker takes nothing in. -/
def AdmitsNone (self : TcpServer H) (i : Nat) : Prop :=
  ∀ labels final label next worker worker', Run Step self labels final → final.Step label next →
    final.workers_[i]? = some worker → next.workers_[i]? = some worker' →
      WorkerContext.NoAdmission worker worker'

/-- A worker that refuses goes on refusing, and its connections are those it had. -/
theorem Step.no_admission {self after : TcpServer H} {label : Label H} (h : self.Step label after) {i : Nat}
    {worker worker' : WorkerContext H} (hworker : self.workers_[i]? = some worker)
    (hrefusing : worker.Refusing) (hafter : after.workers_[i]? = some worker') :
    worker'.Refusing ∧ WorkerContext.NoAdmission worker worker' := by
  obtain hsame | ⟨before, _, hbefore, hmoved⟩ := h.worker hafter
  · obtain rfl : worker = worker' := Option.some.inj (hworker.symm.trans hsame)
    exact ⟨hrefusing, .of_same rfl rfl⟩
  · obtain rfl : worker = before := Option.some.inj (hworker.symm.trans hbefore)
    exact hrefusing.moved hmoved

/-- A worker that refuses does so in every run from there. -/
theorem admits_none_of_refusing {self : TcpServer H} {i : Nat} {worker : WorkerContext H}
    (hworker : self.workers_[i]? = some worker) (hrefusing : worker.Refusing) : AdmitsNone self i := by
  intro labels final label next worker' worker'' hrun hstep hworker' hworker''
  have hinvariant := hrun.invariant
    (fun _ (server : TcpServer H) => ∃ other, server.workers_[i]? = some other ∧ other.Refusing)
    ⟨worker, hworker, hrefusing⟩ fun _ before label after ⟨other, hother, hrefuses⟩ hnext => by
      have hinside := (List.getElem?_eq_some_iff.mp hother).1
      rw [← hnext.server.2] at hinside
      have hafter := List.getElem?_eq_getElem hinside
      exact ⟨_, hafter, (hnext.no_admission hother hrefuses hafter).1⟩
  obtain ⟨other, hother, hrefuses⟩ := hinvariant
  obtain rfl : worker' = other := Option.some.inj (hworker'.symm.trans hother)
  exact (hstep.no_admission hworker' hrefuses hworker'').2

/-- An accept that has succeeded is taken in, also where the stop task has run before. -/
theorem not_admits_none {self : TcpServer H} (hlimits : 0 < self.limits_.max_header_bytes) {i : Nat}
    {worker : WorkerContext H} (hworker : self.workers_[i]? = some worker) {accepts : List Accept}
    (hqueued : worker.accepts = .succeeded :: accepts) (hempty : worker.connections.size = 0) (env : Environment H) :
    ¬ AdmitsNone self i := by
  intro hnone
  have hroom : worker.connections.size < self.worker_limit := by
    rw [hempty]
    exact lt_of_lt_of_le (by decide) (Nat.le_max_left 1024 _)
  obtain ⟨first, _, hstep⟩ := take_in_step self hlimits hworker hqueued hroom env
  have hmade := (hnone _ _ _ _ _ _ .nil hstep hworker
    (List.getElem?_set_self (List.getElem?_eq_some_iff.mp hworker).1)).made
  rw [WorkerContext.start_accept_frame] at hmade
  simp [WorkerContext.enter] at hmade

/-- The stop task can always run. -/
theorem stop_step {self : TcpServer H} {i : Nat} {worker : WorkerContext H}
    (hworker : self.workers_[i]? = some worker) :
    self.Step ⟨i, .stop⟩ { self with workers_ := self.workers_.set i worker.stop } :=
  ⟨worker, worker.stop, hworker, rfl, rfl⟩

/-- It leads to one state, as every event does. -/
theorem stop_step_inv {self after : TcpServer H} {i : Nat} (h : self.Step ⟨i, .stop⟩ after)
    {worker : WorkerContext H} (hworker : self.workers_[i]? = some worker) :
    after = { self with workers_ := self.workers_.set i worker.stop } := by
  obtain ⟨other, moved, hother, hstep, rfl⟩ := h
  obtain rfl : worker = other := Option.some.inj (hworker.symm.trans hother)
  cases hstep
  rfl

/-- Once the stop task has run, no run takes a connection in, exactly where no
accept had succeeded by then whose handler was still to run. -/
theorem admits_none_iff {self before after : TcpServer H} (hvalid : self.limits_.validate = .ok ())
    {threads : Nat} {labels : List (Label H)} (hrun : Run Step (self.listen threads) labels before) {i : Nat}
    {worker : WorkerContext H} (hworker : before.workers_[i]? = some worker)
    (hfirst : worker.stopping = false) (hstop : before.Step ⟨i, .stop⟩ after) :
    AdmitsNone after i ↔ .succeeded ∉ worker.accepts := by
  obtain ⟨hstopping, _, haccepts⟩ := WorkerContext.stop_acceptor hfirst
  have hinside := (List.getElem?_eq_some_iff.mp hworker).1
  rw [stop_step_inv hstop hworker]
  have hstopped : (before.workers_.set i worker.stop)[i]? = some worker.stop := List.getElem?_set_self hinside
  constructor
  · intro hnone hqueued
    obtain ⟨⟨hserver, _⟩, hworkers⟩ := workers_of_run WorkerContext.Accepting WorkerContext.new_accepting
      (fun _ _ _ _ _ _ haccepting hmoved => haccepting.moved hmoved) hrun
    obtain ⟨_, accept, hone⟩ := hworkers i worker hworker hfirst
    rw [hone, List.mem_singleton] at hqueued
    subst hqueued
    rw [hone] at haccepts
    have hempty := (slots_of_run hrun hworker).stop_empty hfirst
    obtain ⟨hheader, _⟩ := HttpLimits.validate_ok hvalid
    have hlimits : 0 < before.limits_.max_header_bytes := by
      rw [hserver]
      exact lt_of_lt_of_le (by decide) hheader
    exact not_admits_none (by exact hlimits) hstopped haccepts hempty untouched hnone
  · intro hfree
    refine admits_none_of_refusing hstopped ⟨hstopping, fun accept haccept => ?_⟩
    rw [haccepts] at haccept
    obtain ⟨old, hold, rfl⟩ := List.mem_map.mp haccept
    cases old with
    | pending => rfl
    | succeeded => exact absurd hold hfree
    | failed => rfl

/-- One connection has come and gone, and the next accept still waits when the task runs. -/
theorem admits_none_iff_visited :
    ∃ before after, Run Step (defaultServer.listen 1) visitLabels before ∧ before.Step ⟨0, .stop⟩ after ∧
      AdmitsNone after 0 := by
  obtain ⟨before, worker, hrun, hworker, hgoing, haccepts, _⟩ := run_visited
  have hstop := stop_step hworker
  refine ⟨before, _, hrun, hstop, (admits_none_iff HttpLimits.validate_defaults hrun hworker hgoing hstop).mpr ?_⟩
  rw [haccepts]
  decide

/-- The accept succeeds, the stop task runs, and the handler takes the socket in. -/
theorem late_accept_admitted :
    ∃ labels before after, Run Step (defaultServer.listen 1) labels before ∧
      before.Step ⟨0, .stop⟩ after ∧ ¬ AdmitsNone after 0 := by
  have hworker : (defaultServer.listen 1).workers_[0]? =
      some ({} : WorkerContext Unit).start_accept := rfl
  have haccepted := accepted_step hworker rfl
  exact ⟨_, _, _, .single haccepted, stop_step rfl,
    not_admits_none (by decide) rfl rfl rfl untouched⟩

end TcpServer

end octane.transport
