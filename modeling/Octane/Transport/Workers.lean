import Octane.Transport.Release

open transition

namespace octane.transport

namespace WorkerContext

variable {H : Type}

/-- The worker with a connection that it has taken in. -/
def enter (self : WorkerContext H) (conn : TcpConnection H) : WorkerContext H :=
  { self with
    next_id := self.next_id + 1
    connections := (self.connections.try_emplace id_equal self.next_id self.objects.length).1
    objects := self.objects ++ [conn] }

/-- The objects after a connection has entered are the old ones and the new one. -/
theorem enter_object {self : WorkerContext H} {first conn : TcpConnection H} {k : Nat}
    (h : (self.enter first).objects[k]? = some conn) :
    self.objects[k]? = some conn ∨ (k = self.objects.length ∧ conn = first) := by
  have happended : (self.objects ++ [first])[k]? = some conn := h
  obtain hk | hk := Nat.lt_or_ge k self.objects.length
  · rw [List.getElem?_append_left hk] at happended
    exact .inl happended
  · rw [List.getElem?_append_right hk, List.getElem?_singleton] at happended
    split_ifs at happended with hlast
    exact .inr ⟨by omega, (Option.some.inj happended).symm⟩

theorem id_equal_iff {a b : Nat} : id_equal a b = true ↔ a = b := beq_iff_eq

theorem id_equal_eq_false_iff {a b : Nat} : id_equal a b = false ↔ a ≠ b := by
  rw [← Bool.not_eq_true, id_equal_iff]

/-- What a connection does is seen by the worker as the calls of `on_close`. -/
theorem settle_eq {self : WorkerContext H} {object : Nat} {before after : TcpConnection H}
    {effects : List Effect} (hlog : after.log = before.log ++ effects) :
    self.settle object before after =
      (closedIds effects).foldl on_close { self with objects := self.objects.set object after } := by
  rw [settle, hlog, List.drop_left]

/-- Nothing but the connections changes when a connection goes on. -/
theorem settle_released {self : WorkerContext H} {object : Nat} {before after : TcpConnection H}
    {effects : List Effect} (h : TcpConnection.Released before after effects) :
    self.settle object before after =
      { self with
        objects := self.objects.set object after
        connections := if before.phase_ ≠ .closed ∧ after.phase_ = .closed then
          self.connections.erase id_equal before.id_ else self.connections } := by
  rw [settle_eq h.log, h.calls]
  split_ifs <;> rfl

end WorkerContext

namespace TcpServer

variable {H : Type}

/-- The ways a worker can go on. -/
inductive Moved (self : TcpServer H) (worker : WorkerContext H) : Event H → WorkerContext H → Prop where
  | completed (ec : Bool) (accepts : List Accept) (hpending : worker.accepts = .pending :: accepts) :
      Moved self worker (.accepted ec)
        { worker with accepts := (if ec then .failed else .succeeded) :: accepts }
  | turned_away (env : Environment H) (accept : Accept) (accepts : List Accept)
      (hqueued : worker.accepts = accept :: accepts)
      (hreason : accept = .failed ∨ self.worker_limit ≤ worker.connections.size) :
      Moved self worker (.on_accept env) { worker with accepts }.start_accept
  | admitted (env : Environment H) (accepts : List Accept) (first : TcpConnection H)
      (hqueued : worker.accepts = .succeeded :: accepts)
      (hroom : worker.connections.size < self.worker_limit)
      (hstart : (self.make_connection worker.next_id).start env = .ok first) :
      Moved self worker (.on_accept env) (({ worker with accepts }.enter first).start_accept)
  | advanced (object : Nat) (label : TcpConnection.Label H) (conn after : TcpConnection H)
      (hobject : worker.objects[object]? = some conn) (hstep : conn.Step label after) :
      Moved self worker (.connection object label) (worker.settle object conn after)
  | stopped : Moved self worker .stop worker.stop

/-- The handler arms the acceptor again under the conditions of `start_accept` itself. -/
theorem rearm_eq (worker : WorkerContext H) :
    (if ¬ worker.stopping ∧ worker.is_open then worker.start_accept else worker) =
      worker.start_accept := by
  by_cases harmed : ¬ worker.stopping ∧ worker.is_open
  · rw [if_pos harmed]
  · rw [if_neg harmed, WorkerContext.start_accept, if_pos ((not_and_or.mp harmed).imp_left not_not.mp)]

/-- A socket that is taken in becomes a connection that is started. -/
theorem take_in_eq (env : Environment H) (self : TcpServer H) (worker : WorkerContext H) :
    self.take_in env worker = ((self.make_connection worker.next_id).start env).map worker.enter := by
  rw [take_in]
  dsimp only
  cases hstart : (self.make_connection worker.next_id).start env with
  | error e => rfl
  | ok first =>
    obtain ⟨_, _, _, effects, hlog, hcalls⟩ := (TcpConnection.start_turn hstart).released
    have hbegin : first.log = (self.make_connection worker.next_id).log ++ effects := hlog
    rw [bind_ok, WorkerContext.settle_eq hbegin, hcalls, Except.map, WorkerContext.enter]
    simp

/-- The accept handler in one equation: it takes the connection in while there is
room, and starts the next accept. -/
theorem on_accept_eq (env : Environment H) (self : TcpServer H) (worker : WorkerContext H) (ec : Bool) :
    self.on_accept env worker ec =
      if ec = false ∧ worker.connections.size < self.worker_limit then
        ((self.make_connection worker.next_id).start env).map fun first => (worker.enter first).start_accept
      else .ok worker.start_accept := by
  rw [on_accept]
  by_cases hroom : ec = false ∧ worker.connections.size < self.worker_limit
  · rw [if_pos (by simpa using hroom), if_pos hroom, take_in_eq]
    cases (self.make_connection worker.next_id).start env with
    | error e => rfl
    | ok first => exact congrArg Except.ok (rearm_eq (worker.enter first))
  · rw [if_neg (by simpa using hroom), if_neg hroom]
    exact congrArg Except.ok (rearm_eq worker)

/-- Every event of a worker, by what it does to it; the results about the server go
through these cases. -/
theorem worker_step_cases {self : TcpServer H} {worker after : WorkerContext H} {event : Event H}
    (h : self.worker_step worker event = some (.ok after)) : Moved self worker event after := by
  unfold worker_step at h
  split at h
  · next ec accepts hpending =>
    cases h
    exact .completed ec accepts hpending
  · next env accepts hqueued =>
    rw [on_accept_eq] at h
    dsimp only at h
    by_cases hroom : worker.connections.size < self.worker_limit
    · rw [if_pos ⟨rfl, hroom⟩] at h
      cases hstart : (self.make_connection worker.next_id).start env with
      | error e =>
        rw [hstart] at h
        cases h
      | ok first =>
        rw [hstart] at h
        cases h
        exact .admitted env accepts first hqueued hroom hstart
    · rw [if_neg fun hboth => hroom hboth.2] at h
      cases h
      exact .turned_away env .succeeded accepts hqueued (.inr (Nat.le_of_not_lt hroom))
  · next env accepts hqueued =>
    rw [on_accept_eq, if_neg (by simp)] at h
    cases h
    exact .turned_away env .failed accepts hqueued (.inl rfl)
  · next object label =>
    split at h
    · cases h
    · next conn hobject =>
      obtain ⟨result, hresult, hafter⟩ := Option.map_eq_some_iff.mp h
      cases result with
      | error e => cases hafter
      | ok conn' =>
        cases hafter
        exact .advanced object label conn conn' hobject hresult
  · cases h
    exact .stopped
  · cases h

/-- The next accept is started while the worker goes on. -/
theorem start_accept_armed {worker : WorkerContext H} (hopen : worker.is_open = true)
    (hgoing : worker.stopping = false) :
    worker.start_accept = { worker with accepts := worker.accepts ++ [.pending] } := by
  rw [WorkerContext.start_accept, if_neg (by simp [hopen, hgoing])]

/-- A pending accept can succeed. -/
theorem accepted_step {self : TcpServer H} {i : Nat} {worker : WorkerContext H}
    (hworker : self.workers_[i]? = some worker) {accepts : List Accept}
    (hpending : worker.accepts = .pending :: accepts) :
    self.Step ⟨i, .accepted false⟩
      { self with workers_ := self.workers_.set i { worker with accepts := .succeeded :: accepts } } := by
  refine ⟨worker, _, hworker, ?_, rfl⟩
  unfold worker_step
  rw [hpending]
  rfl

/-- The accept handler takes a socket in wherever there is room, whether or not the
worker is stopping. -/
theorem take_in_step (self : TcpServer H) (hlimits : 0 < self.limits_.max_header_bytes) {i : Nat}
    {worker : WorkerContext H} (hworker : self.workers_[i]? = some worker) {accepts : List Accept}
    (hqueued : worker.accepts = .succeeded :: accepts)
    (hroom : worker.connections.size < self.worker_limit) (env : Environment H) :
    ∃ first, (self.make_connection worker.next_id).start env = .ok first ∧
      self.Step ⟨i, .on_accept env⟩
        { self with workers_ := self.workers_.set i ({ worker with accepts }.enter first).start_accept } := by
  have hstart := TcpConnection.start_reading env { router_ := self.router_ } self.limits_ hlimits worker.next_id
  refine ⟨_, hstart, worker, _, hworker, ?_, rfl⟩
  have hhandler := on_accept_eq env self { worker with accepts } false
  rw [if_pos ⟨rfl, hroom⟩] at hhandler
  unfold worker_step
  rw [hqueued]
  dsimp only
  rw [hhandler]
  exact congrArg (fun started : Result (TcpConnection H) => some (started.map fun first =>
    (WorkerContext.enter { worker with accepts } first).start_accept)) hstart

/-- What a connection can do, the server can. -/
theorem connection_step {self : TcpServer H} {i k : Nat} {worker : WorkerContext H}
    {conn after : TcpConnection H} {label : TcpConnection.Label H} (hworker : self.workers_[i]? = some worker)
    (hconn : worker.objects[k]? = some conn) (hstep : conn.Step label after) :
    self.Step ⟨i, .connection k label⟩
      { self with workers_ := self.workers_.set i (worker.settle k conn after) } := by
  refine ⟨worker, _, hworker, ?_, rfl⟩
  unfold worker_step
  dsimp only
  rw [hconn]
  dsimp only
  rw [hstep]
  rfl

/-- A worker after a step of the server is as before, or it has taken the step. -/
theorem Step.worker {self after : TcpServer H} {label : Label H} (h : self.Step label after) {i : Nat}
    {worker' : WorkerContext H} (hafter : after.workers_[i]? = some worker') :
    self.workers_[i]? = some worker' ∨ ∃ worker, i = label.worker ∧ self.workers_[i]? = some worker ∧
      Moved self worker label.event worker' := by
  obtain ⟨worker, moved, hworker, hstep, rfl⟩ := h
  by_cases hi : label.worker = i
  · rw [← hi, List.getElem?_set_self (List.getElem?_eq_some_iff.mp hworker).1] at hafter
    cases hafter
    exact .inr ⟨worker, hi.symm, hi ▸ hworker, worker_step_cases hstep⟩
  · rw [List.getElem?_set_ne hi] at hafter
    exact .inl hafter

/-- Only the workers change. -/
theorem Step.server {self after : TcpServer H} {label : Label H} (h : self.Step label after) :
    after = { self with workers_ := after.workers_ } ∧ after.workers_.length = self.workers_.length := by
  obtain ⟨worker, moved, _, _, rfl⟩ := h
  exact ⟨rfl, List.length_set⟩

/-- The state that a sequence of events on the workers leads to, where they can all happen. -/
def steps (self : TcpServer H) : List (Label H) → Option (Result (TcpServer H))
  | [] => some (.ok self)
  | label :: labels =>
    match self.workers_[label.worker]? with
    | none => none
    | some worker =>
      match self.worker_step worker label.event with
      | some (.ok worker') => steps { self with workers_ := self.workers_.set label.worker worker' } labels
      | some (.error e) => some (.error e)
      | none => none

theorem run_steps {first self final : TcpServer H} {before labels : List (Label H)}
    (hrun : Run Step first before self) (h : self.steps labels = some (.ok final)) :
    Run Step first (before ++ labels) final := by
  induction labels generalizing before self with
  | nil =>
    cases h
    rwa [List.append_nil]
  | cons label labels ih =>
    rw [steps] at h
    split at h
    · cases h
    · next worker hworker =>
      split at h
      · next worker' hstep =>
        rw [List.append_cons]
        exact ih (hrun.snoc ⟨worker, worker', hworker, hstep, rfl⟩) h
      · cases h
      · cases h

/-- A property of the state a sequence of events leads to, evaluated. -/
theorem exists_run_of_check (self : TcpServer H) (labels : List (Label H)) (p : TcpServer H → Prop)
    [DecidablePred p] (h : (self.steps labels).map (·.map fun final => decide (p final)) = some (.ok true)) :
    ∃ final, Run Step self labels final ∧ p final := by
  obtain ⟨result, hresult, hcheck⟩ := Option.map_eq_some_iff.mp h
  obtain ⟨final, rfl, hp⟩ := exists_ok_of_check hcheck
  exact ⟨final, run_steps .nil hresult, hp⟩

/-- What holds of a new worker and survives every step of a worker holds of the
workers in every run. -/
theorem workers_of_run {self final : TcpServer H} {threads : Nat} {labels : List (Label H)}
    (inv : WorkerContext H → Prop) (hstart : inv (({} : WorkerContext H).start_accept))
    (hstep : ∀ (server : TcpServer H) worker event after, server = { self with workers_ := server.workers_ } →
      server.workers_.length = threads → inv worker → Moved server worker event after → inv after)
    (hrun : Run Step (self.listen threads) labels final) :
    (final = { self with workers_ := final.workers_ } ∧ final.workers_.length = threads) ∧
      ∀ (i : Nat) worker, final.workers_[i]? = some worker → inv worker := by
  refine hrun.invariant (fun _ (server : TcpServer H) =>
    (server = { self with workers_ := server.workers_ } ∧ server.workers_.length = threads) ∧
      ∀ (i : Nat) worker, server.workers_[i]? = some worker → inv worker) ?_ ?_
  · refine ⟨⟨rfl, List.length_replicate⟩, fun i worker hworker => ?_⟩
    obtain ⟨_, rfl⟩ := List.mem_replicate.mp (List.mem_of_getElem? hworker)
    exact hstart
  · rintro _ before label after ⟨⟨hserver, hlength⟩, hworkers⟩ hnext
    obtain ⟨hframe, hsame⟩ := hnext.server
    refine ⟨⟨?_, hsame.trans hlength⟩, fun i worker hworker => ?_⟩
    · rw [hframe, hserver]
    · obtain hsame | ⟨worker', rfl, hworker', hmoved⟩ := hnext.worker hworker
      · exact hworkers i worker hsame
      · exact hstep before worker' label.event worker hserver hlength (hworkers _ _ hworker') hmoved

/-- An environment where no handler does anything. -/
def untouched : Environment H := { call := fun _ req res => { req, res } }

/-- A server with the default limits and without routes. -/
def defaultServer : TcpServer Unit := { limits_ := .defaults }

/-- A connection that the first worker takes in waits for its first request. -/
theorem run_admitted (self : TcpServer H) (hlimits : 0 < self.limits_.max_header_bytes) (env : Environment H) :
    ∃ final worker, Run Step (self.listen 1) [⟨0, .accepted false⟩, ⟨0, .on_accept env⟩] final ∧
      final.workers_[0]? = some worker ∧ worker.stopping = false ∧
        worker.objects = [(self.make_connection 0).async_read_some] := by
  have hworker : (self.listen 1).workers_[0]? = some ({} : WorkerContext H).start_accept := rfl
  have haccepted := accepted_step hworker rfl
  have hreading : (self.make_connection 0).start env = .ok (self.make_connection 0).async_read_some :=
    TcpConnection.start_reading env { router_ := self.router_ } self.limits_ hlimits
  obtain ⟨first, hstart, htaken⟩ := take_in_step { self.listen 1 with
    workers_ := [{ ({} : WorkerContext H).start_accept with accepts := [.succeeded] }] } (i := 0) hlimits rfl rfl
      (lt_of_lt_of_le (by decide : 0 < 1024) (Nat.le_max_left _ _)) env
  have hfirst : Except.ok (self.make_connection 0).async_read_some = Except.ok first :=
    hreading.symm.trans hstart
  cases hfirst
  exact ⟨_, _, (Run.single haccepted).snoc htaken, rfl, rfl, rfl⟩

/-- A client that the first worker takes in and that goes away again. -/
def visitLabels : List (Label Unit) :=
  [⟨0, .accepted false⟩, ⟨0, .on_accept untouched⟩, ⟨0, .connection 0 ⟨.read_error, untouched⟩⟩]

/-- Behind the visit the worker goes on, with a connection that has closed. -/
theorem run_visited :
    ∃ final worker, Run Step (defaultServer.listen 1) visitLabels final ∧ final.workers_[0]? = some worker ∧
      worker.stopping = false ∧ worker.accepts = [.pending] ∧ worker.objects.length = 1 ∧
      ∀ conn ∈ worker.objects, conn.phase_ = .closed := by
  obtain ⟨final, hrun, worker, hworker, hvisited⟩ := exists_run_of_check (defaultServer.listen 1) visitLabels
    (fun final => ∃ worker ∈ final.workers_[0]?, worker.stopping = false ∧ worker.accepts = [.pending] ∧
      worker.objects.length = 1 ∧ ∀ conn ∈ worker.objects, conn.phase_ = .closed) (by decide +kernel)
  exact ⟨final, worker, hrun, hworker, hvisited⟩

/-- A server can take in a connection. -/
theorem exists_run_admitted (self : TcpServer H) (hlimits : 0 < self.limits_.max_header_bytes)
    (env : Environment H) : ∃ labels final worker, Run Step (self.listen 1) labels final ∧
      final.workers_[0]? = some worker ∧ worker.stopping = false ∧
        worker.objects = [(self.make_connection 0).async_read_some] :=
  ⟨_, self.run_admitted hlimits env⟩

end TcpServer

end octane.transport
