import Octane.Transport.Progress
import Octane.Transport.Rolling
import Octane.Transport.Shutdown

open transition

namespace octane.transport

/-- The connections of a worker are stopped by its stop task, and by nothing else. -/
def TcpServer.Event.unforced {H : Type} : TcpServer.Event H → Prop
  | .connection _ label => label.event.completion = true
  | _ => True

theorem id_equal_lawful : UnorderedMap.LawfulKeys id_equal where
  refl _ := WorkerContext.id_equal_iff.mpr rfl
  symm h := WorkerContext.id_equal_iff.mpr (WorkerContext.id_equal_iff.mp h).symm
  trans h h' := WorkerContext.id_equal_iff.mpr
    ((WorkerContext.id_equal_iff.mp h).trans (WorkerContext.id_equal_iff.mp h'))

namespace TcpConnection

variable {H : Type}

/-- A connection that settles when it closes waits for one operation while it is open. -/
theorem Tended.pending_length {conn : TcpConnection H} (h : conn.Tended) (hsettled : conn.Settled) :
    conn.pending.length = if conn.phase_ = .closed then 0 else 1 := by
  split_ifs with hclosed
  · rw [hsettled hclosed]
    rfl
  · exact h.open_pending hclosed

/-- A stopped connection waits for no more than before. -/
theorem Tended.stop {conn : TcpConnection H} (h : conn.Tended) (force : Bool) : (conn.stop force).Tended := by
  have hstep : conn.Step ⟨.stop force, TcpServer.untouched⟩ (conn.stop force) := rfl
  exact h.step hstep

end TcpConnection

namespace WorkerContext

variable {H : Type}

/-- How many operations the connections of a worker wait for. -/
def operations (self : WorkerContext H) : Nat := (self.objects.map fun conn => conn.pending.length).sum

/-- While it goes on a worker has a slot for every connection that it has not freed, and
at most one more connection afterwards. -/
structure Housed (limit : Nat) (worker : WorkerContext H) : Prop where
  slots : worker.Slots
  accepting : worker.Accepting
  tended : ∀ conn ∈ worker.objects, conn.Tended
  room : worker.connections.size ≤ limit
  going : worker.stopping = false →
    worker.operations ≤ worker.connections.size ∧ ∀ conn ∈ worker.objects, conn.Settled
  stopped : worker.stopping = true → worker.outstanding ≤ limit + 1

/-- What waits on a worker: its accepts and the operations of its connections. -/
theorem outstanding_eq (worker : WorkerContext H) :
    worker.outstanding = worker.accepts.length + worker.operations := rfl

/-- A worker waits for one operation at most beyond the connections that it may have. -/
theorem Housed.operations_le {limit : Nat} {worker : WorkerContext H} (h : worker.Housed limit) :
    worker.operations ≤ limit + 1 := by
  cases hstopping : worker.stopping with
  | true =>
    have hbound := h.stopped hstopping
    rw [outstanding_eq] at hbound
    omega
  | false =>
    have hbound := (h.going hstopping).1
    have hroom := h.room
    omega

theorem new_housed (limit : Nat) : (({} : WorkerContext H).start_accept).Housed limit :=
  ⟨new_slots, new_accepting, by simp [start_accept], Nat.zero_le _, fun _ => ⟨Nat.le_refl _, by simp [start_accept]⟩,
    fun hstopping => by cases hstopping⟩

/-- A connection that is taken in comes with its slot. -/
theorem Slots.size_enter {worker : WorkerContext H} (h : worker.Slots) (first : TcpConnection H) :
    (worker.enter first).connections.size = worker.connections.size + 1 := by
  simp [WorkerContext.enter, UnorderedMap.try_emplace, h.find_next, UnorderedMap.size]

/-- A connection that enters brings its first read. -/
theorem operations_enter (worker : WorkerContext H) (first : TcpConnection H) :
    (worker.enter first).operations = worker.operations + first.pending.length := by
  simp [enter, operations]

/-- The stop task leaves every operation pending. -/
theorem Slots.stop_operations {worker : WorkerContext H} (h : worker.Slots) :
    worker.stop.operations = worker.operations := by
  refine congrArg List.sum (List.ext_getElem? fun k => ?_)
  rw [List.getElem?_map, List.getElem?_map]
  cases hconn : worker.objects[k]? with
  | none =>
    rw [List.getElem?_eq_none_iff] at hconn
    rw [List.getElem?_eq_none (h.stop.2.length ▸ hconn)]
  | some conn =>
    have hinside := (List.getElem?_eq_some_iff.mp hconn).1
    rw [← h.stop.2.length] at hinside
    have hafter := List.getElem?_eq_getElem hinside
    rw [hafter, Option.map_some, Option.map_some]
    obtain hsame | hstopped := h.stop_objects hconn hafter
    · rw [hsame]
    · rw [hstopped, conn.stop_pending true]

/-- A connection that a completion closes gives back its slot. -/
theorem Slots.size_settle {worker : WorkerContext H} (h : worker.Slots) {k : Nat}
    {conn after : TcpConnection H} {effects : List Effect} (hreleased : TcpConnection.Released conn after effects) :
    worker.connections.size ≤ (worker.settle k conn after).connections.size +
      if conn.phase_ ≠ .closed ∧ after.phase_ = .closed then 1 else 0 := by
  rw [settle_released hreleased]
  dsimp only
  split_ifs
  · exact h.unique.size_le_erase id_equal_lawful conn.id_
  · exact Nat.le_refl _

theorem start_accept_going {worker : WorkerContext H} (hgoing : worker.stopping = true) :
    worker.start_accept = worker := by
  rw [start_accept, if_pos (.inl hgoing)]

/-- A connection that goes on frees no more slots than it completes operations, so
that the worker cannot take others in for operations that still wait. -/
theorem Housed.settle {limit : Nat} {worker : WorkerContext H} (h : worker.Housed limit) {k : Nat}
    {conn after : TcpConnection H} {label : TcpConnection.Label H} (hconn : worker.objects[k]? = some conn)
    (hcompletion : label.event.completion = true) (hstep : conn.Step label after) :
    (worker.settle k conn after).outstanding ≤ worker.outstanding ∧
      (worker.stopping = false → (worker.settle k conn after).operations ≤
        (worker.settle k conn after).connections.size ∧ after.Settled) := by
  have htended := h.tended conn (List.mem_of_getElem? hconn)
  have hafter := htended.step hstep
  obtain ⟨operation, hpending⟩ := htended.completed hcompletion hstep
  have hsum := settle_outstanding hconn after
  rw [hpending, List.length_singleton] at hsum
  have hone := hafter.one
  refine ⟨by omega, fun hgoing => ?_⟩
  obtain ⟨hless, hsettled⟩ := h.going hgoing
  have hconnSettled := hsettled conn (List.mem_of_getElem? hconn)
  have hopen : conn.phase_ ≠ .closed := fun hclosed => by
    rw [hconnSettled hclosed] at hpending
    cases hpending
  have hnext : after.Settled := hconnSettled.step htended.regular (fun force hstop => by
    rw [hstop] at hcompletion
    cases hcompletion) hstep
  have hlength := hafter.pending_length hnext
  obtain ⟨_, effects, hreleased⟩ := (h.slots.armed k conn hconn).step hstep
  have hsize := h.slots.size_settle hreleased (k := k)
  have haccepts : (worker.settle k conn after).accepts = worker.accepts := by rw [settle_frame]
  rw [outstanding_eq, outstanding_eq, haccepts] at hsum
  refine ⟨?_, hnext⟩
  by_cases hclosed : after.phase_ = .closed
  · rw [if_pos hclosed] at hlength
    rw [if_pos ⟨hopen, hclosed⟩] at hsize
    omega
  · rw [if_neg hclosed] at hlength
    rw [if_neg fun hboth => hclosed hboth.2] at hsize
    omega

/-- A connection that is admitted brings one operation and a slot, in place of the accept
that is taken up. -/
theorem Housed.admitted {server : TcpServer H} {worker : WorkerContext H} (h : worker.Housed server.worker_limit)
    {env : Environment H} {accepts : List Accept} {first : TcpConnection H}
    (hqueued : worker.accepts = .succeeded :: accepts) (hfree : worker.connections.size < server.worker_limit)
    (hstart : (server.make_connection worker.next_id).start env = .ok first) :
    (({ worker with accepts }.enter first).start_accept).Housed server.worker_limit := by
  have hmoved := TcpServer.Moved.admitted env accepts first hqueued hfree hstart
  have hslots := (h.slots.moved hmoved).1
  have haccepting := h.accepting.moved hmoved
  have hroom := hmoved.size_le h.room
  have hfirst := TcpConnection.tended_of_run hstart .nil
  have hone := hfirst.one
  have hentered := operations_enter { worker with accepts } first
  have hsize := h.slots.size_enter first
  have hmember : ∀ other ∈ worker.objects ++ [first], other ∈ worker.objects ∨ other = first :=
    fun other hother => (List.mem_append.mp hother).imp_right List.mem_singleton.mp
  refine ⟨hslots, haccepting, fun other hother => ?_, hroom, fun hgoing => ?_, fun hstopping => ?_⟩
  · rw [start_accept_frame] at hother
    obtain hold | rfl := hmember other hother
    · exact h.tended other hold
    · exact hfirst
  · rw [start_accept_frame] at hgoing ⊢
    obtain ⟨hless, hsettled⟩ := h.going hgoing
    refine ⟨?_, fun other hother => ?_⟩
    · exact hentered.trans_le ((Nat.add_le_add hless hone).trans_eq hsize.symm)
    · obtain hold | rfl := hmember other hother
      · exact hsettled other hold
      · exact (TcpConnection.start_turn hstart).settled
  · rw [start_accept_frame] at hstopping
    rw [start_accept_going (by exact hstopping), outstanding_eq, hentered]
    have hbound := h.stopped hstopping
    rw [outstanding_eq, hqueued, List.length_cons] at hbound
    exact le_trans (by change accepts.length + (worker.operations + _) ≤ _; omega) hbound

/-- The stop task closes what is open; all of it still waits for its operation. The
bound is therefore that of the connections before the task. -/
theorem Housed.stop_task {server : TcpServer H} {worker : WorkerContext H}
    (h : worker.Housed server.worker_limit) : worker.stop.Housed server.worker_limit := by
  have hmoved : TcpServer.Moved server worker .stop worker.stop := .stopped
  have hslots := (h.slots.moved hmoved).1
  have haccepting := h.accepting.moved hmoved
  have hroom := hmoved.size_le h.room
  refine ⟨hslots, haccepting, fun other hother => ?_, hroom, fun hgoing => ?_, fun _ => ?_⟩
  · obtain ⟨k, hother⟩ := List.mem_iff_getElem?.mp hother
    have hinside := (List.getElem?_eq_some_iff.mp hother).1
    rw [h.slots.stop.2.length] at hinside
    have hbefore := List.getElem?_eq_getElem hinside
    have htended := h.tended _ (List.mem_of_getElem? hbefore)
    obtain rfl | rfl := h.slots.stop_objects hbefore hother
    · exact htended
    · exact htended.stop true
  · cases hbefore : worker.stopping with
    | true =>
      rw [stop, if_pos hbefore, hbefore] at hgoing
      cases hgoing
    | false =>
      rw [(stop_acceptor hbefore).1] at hgoing
      cases hgoing
  · cases hbefore : worker.stopping with
    | true =>
      rw [stop, if_pos hbefore]
      exact h.stopped hbefore
    | false =>
      obtain ⟨_, accept, hone⟩ := h.accepting hbefore
      have hless := (h.going hbefore).1
      have hfull := h.room
      rw [outstanding_eq, (stop_acceptor hbefore).2.2, hone, h.slots.stop_operations]
      simp only [List.map_cons, List.map_nil, List.length_singleton]
      omega

/-- The bound is kept by every event, as long as connections are stopped by the stop task only. -/
theorem Housed.moved {server : TcpServer H} {worker after : WorkerContext H} {event : TcpServer.Event H}
    (h : worker.Housed server.worker_limit) (hmoved : TcpServer.Moved server worker event after)
    (hevent : event.unforced) : after.Housed server.worker_limit := by
  have hslots := (h.slots.moved hmoved).1
  have haccepting := h.accepting.moved hmoved
  have hroom := hmoved.size_le h.room
  cases hmoved with
  | completed ec accepts hpending =>
    refine ⟨hslots, haccepting, h.tended, hroom, h.going, fun hstopping => ?_⟩
    have hbound := h.stopped hstopping
    rw [outstanding_eq, hpending] at hbound
    exact hbound
  | turned_away env accept accepts hqueued =>
    rw [start_accept_frame] at hslots haccepting hroom ⊢
    refine ⟨hslots, haccepting, h.tended, hroom, h.going, fun hstopping => ?_⟩
    have hbound := h.stopped hstopping
    have hquiet : ({ worker with accepts } : WorkerContext H).start_accept = { worker with accepts } :=
      start_accept_going hstopping
    rw [outstanding_eq, hqueued, List.length_cons] at hbound
    rw [hquiet, outstanding_eq]
    exact le_trans (Nat.add_le_add_right (Nat.le_succ _) _) hbound
  | admitted env accepts first hqueued hfree hstart => exact h.admitted hqueued hfree hstart
  | advanced object label conn after hobject hstep =>
    obtain ⟨hless, hgoing⟩ := h.settle hobject hevent hstep
    have hobjects : (worker.settle object conn after).objects = worker.objects.set object after := by
      rw [settle_frame]
    have hstops : (worker.settle object conn after).stopping = worker.stopping := by rw [settle_frame]
    refine ⟨hslots, haccepting, fun other hother => ?_, hroom, fun hrunning => ?_, fun hstopping => ?_⟩
    · rw [hobjects] at hother
      obtain hold | rfl := List.mem_or_eq_of_mem_set hother
      · exact h.tended other hold
      · exact (h.tended conn (List.mem_of_getElem? hobject)).step hstep
    · rw [hstops] at hrunning
      obtain ⟨hsize, hsettled⟩ := hgoing hrunning
      refine ⟨hsize, fun other hother => ?_⟩
      rw [hobjects] at hother
      obtain hold | rfl := List.mem_or_eq_of_mem_set hother
      · exact (h.going hrunning).2 other hold
      · exact hsettled
    · rw [hstops] at hstopping
      exact hless.trans (h.stopped hstopping)
  | stopped => exact h.stop_task

/-- The bytes of the buffers of the connections that have not been freed. -/
def footprint (self : WorkerContext H) : Nat :=
  (self.objects.mapIdx fun k conn => if self.references k = 0 then 0 else conn.buffer_.size).sum

/-- A connection that has not been freed waits for an operation, so that the buffers
are bounded by the operations, each by what the limits need. -/
theorem Housed.footprint_le {limit : Nat} {worker : WorkerContext H} (h : worker.Housed limit) {bound : Nat}
    (hbound : ∀ conn ∈ worker.objects, conn.buffer_.size ≤ bound) :
    worker.footprint ≤ worker.operations * bound := by
  have hterms : ∀ entry ∈ worker.objects.zipIdx,
      (if worker.references entry.2 = 0 then 0 else entry.1.buffer_.size) ≤ entry.1.pending.length * bound := by
    intro entry hentry
    have hconn := List.mem_zipIdx_iff_getElem?.mp hentry
    have hmem := List.mem_of_getElem? hconn
    split_ifs with hfreed
    · exact Nat.zero_le _
    · have hwaits : 0 < entry.1.pending.length := by
        by_contra hidle
        have hnone := List.eq_nil_of_length_eq_zero (Nat.eq_zero_of_not_pos hidle)
        refine hfreed ((h.slots.gone_iff hconn).mpr ⟨?_, hnone⟩)
        by_contra hopen
        have hone := (h.tended _ hmem).open_pending hopen
        omega
      exact (hbound _ hmem).trans (Nat.le_mul_of_pos_left _ hwaits)
  have hsum := List.sum_le_sum hterms
  have hall : (worker.objects.zipIdx.map fun entry => entry.1.pending.length * bound) =
      worker.objects.map fun conn => conn.pending.length * bound := by
    have hfirsts : worker.objects.zipIdx.map Prod.fst = worker.objects := List.zipIdx_map_fst 0 worker.objects
    nth_rewrite 2 [← hfirsts]
    rw [List.map_map]
    rfl
  rw [footprint, List.mapIdx_eq_zipIdx_map, operations, ← List.sum_map_mul_right]
  exact hsum.trans_eq (congrArg List.sum hall)

end WorkerContext

namespace TcpServer

variable {H : Type}

/-- The bytes of the buffers of all workers. -/
def footprint (self : TcpServer H) : Nat := (self.workers_.map WorkerContext.footprint).sum

/-- Every worker keeps within its bound in every run in which only stop tasks stop
connections. -/
theorem housed_of_run {self final : TcpServer H} {threads : Nat} {labels : List (Label H)}
    (hrun : Run Step (self.listen threads) labels final) (hlabels : ∀ label ∈ labels, label.event.unforced) :
    ∀ worker ∈ final.workers_, worker.Housed final.worker_limit := by
  refine hrun.invariant (fun labels (server : TcpServer H) => (∀ label ∈ labels, label.event.unforced) →
    ∀ worker ∈ server.workers_, worker.Housed server.worker_limit) (fun _ worker hworker => ?_) ?_ hlabels
  · obtain ⟨_, rfl⟩ := List.mem_replicate.mp hworker
    exact WorkerContext.new_housed _
  · intro labels before label after ih hstep hall worker hworker
    have hbefore := ih fun other hother => hall other (List.mem_append_left _ hother)
    obtain ⟨hframe, hlength⟩ := hstep.server
    have hlimit : after.worker_limit = before.worker_limit := by
      rw [worker_limit, worker_limit, hlength, hframe]
    obtain ⟨i, hi⟩ := List.mem_iff_getElem?.mp hworker
    rw [hlimit]
    obtain hsame | ⟨other, rfl, hother, hmoved⟩ := hstep.worker hi
    · exact hbefore worker (List.mem_of_getElem? hsame)
    · exact (hbefore other (List.mem_of_getElem? hother)).moved hmoved
        (hall label (List.mem_append_right _ (List.mem_singleton_self label)))

/-- No connection's buffer grows beyond what the limits need. -/
theorem buffer_le_of_run {self final : TcpServer H} {threads : Nat} {labels : List (Label H)}
    (hvalid : self.limits_.validate = .ok ())
    (hsum : self.limits_.max_header_bytes + self.limits_.max_body_bytes ≤ 2 ^ 62)
    (hrun : Run Step (self.listen threads) labels final) {i k : Nat} {worker : WorkerContext H}
    {conn : TcpConnection H} (hworker : final.workers_[i]? = some worker)
    (hconn : worker.objects[k]? = some conn) :
    conn.buffer_.size ≤
      max BUFFER_SIZE (2 * (self.limits_.max_header_bytes + self.limits_.max_body_bytes)) := by
  obtain ⟨env, first, own, hstart, hhistory⟩ := connection_history hrun hworker hconn
  have hbegun := (machine.start_eq env { router_ := self.router_ } self.limits_ k).trans hstart
  have hmachine := (machine.run_iff hvalid hsum hbegun).mpr hhistory
  have hsize := (machine.bounded_of_run hvalid hsum hbegun hmachine).sized.size
  omega

/-- Whatever the clients send and however the workers take their turns, the buffers of
the connections that have not been freed take up no more than a worker's share of the
connections, and one, times what the limits need, on each worker. -/
theorem buffers_bounded {self final : TcpServer H} {threads : Nat} {labels : List (Label H)}
    (hvalid : self.limits_.validate = .ok ())
    (hsum : self.limits_.max_header_bytes + self.limits_.max_body_bytes ≤ 2 ^ 62)
    (hrun : Run Step (self.listen threads) labels final) (hlabels : ∀ label ∈ labels, label.event.unforced) :
    final.footprint ≤ threads * ((final.worker_limit + 1) *
      max BUFFER_SIZE (2 * (self.limits_.max_header_bytes + self.limits_.max_body_bytes))) := by
  have hhoused := housed_of_run hrun hlabels
  have hlength : final.workers_.length = threads :=
    (workers_of_run (fun _ => True) trivial (fun _ _ _ _ _ _ _ _ => trivial) hrun).1.2
  have hworkers : ∀ bytes ∈ final.workers_.map WorkerContext.footprint, bytes ≤ (final.worker_limit + 1) *
      max BUFFER_SIZE (2 * (self.limits_.max_header_bytes + self.limits_.max_body_bytes)) := by
    intro bytes hbytes
    obtain ⟨worker, hworker, rfl⟩ := List.mem_map.mp hbytes
    obtain ⟨i, hi⟩ := List.mem_iff_getElem?.mp hworker
    refine ((hhoused worker hworker).footprint_le fun conn hconn => ?_).trans
      (Nat.mul_le_mul_right _ (hhoused worker hworker).operations_le)
    obtain ⟨k, hk⟩ := List.mem_iff_getElem?.mp hconn
    exact buffer_le_of_run hvalid hsum hrun hi hk
  calc final.footprint ≤ (final.workers_.map WorkerContext.footprint).length •
        ((final.worker_limit + 1) *
          max BUFFER_SIZE (2 * (self.limits_.max_header_bytes + self.limits_.max_body_bytes))) :=
        List.sum_le_card_nsmul _ _ hworkers
    _ = threads * _ := by rw [List.length_map, hlength, smul_eq_mul]

theorem buffers_bounded_admitted : ∃ labels final, Run Step (defaultServer.listen 1) labels final ∧
    final.footprint ≤ 1 * ((final.worker_limit + 1) * max BUFFER_SIZE (2 * (16 * 1024 + 1024 * 1024))) := by
  obtain ⟨final, worker, hrun, _⟩ := defaultServer.run_admitted (by decide) untouched
  exact ⟨_, final, hrun, buffers_bounded HttpLimits.validate_defaults (by decide) hrun (by simp [Event.unforced])⟩

end TcpServer

end octane.transport
