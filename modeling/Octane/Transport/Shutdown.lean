import Octane.Transport.Lifetime

open transition

namespace octane.transport

/-- The event runs a handler that has waited. -/
def TcpServer.Event.handler {H : Type} : TcpServer.Event H → Bool
  | .on_accept _ => true
  | .connection _ label => label.event.completion
  | _ => false

/-- On a closed connection whatever has not completed can, with an error. -/
theorem TcpConnection.closed_progress {H : Type} {conn : TcpConnection H} (hclosed : conn.phase_ = .closed)
    (hwaits : 0 < conn.pending.length) :
    ∃ (label : TcpConnection.Label H) (after : TcpConnection H),
      label.event.completion = true ∧ conn.Step label after := by
  obtain ⟨operation, pending, hpending⟩ := List.exists_cons_of_length_pos hwaits
  cases operation with
  | read off room =>
    refine ⟨⟨.read_error, TcpServer.untouched⟩, { conn with pending }, rfl, ?_⟩
    rw [Step, TcpConnection.step, hpending]
    exact congrArg some (on_read_closed (by exact hclosed) _ _ _)
  | write =>
    refine ⟨⟨.write_error, TcpServer.untouched⟩, { conn with pending }, rfl, ?_⟩
    rw [Step, TcpConnection.step, hpending]
    exact congrArg some (on_write_closed (by exact hclosed) _ _)

namespace WorkerContext

variable {H : Type}

/-- How many handlers wait in the loop of the worker, which goes on while there are any. -/
def outstanding (self : WorkerContext H) : Nat :=
  self.accepts.length + (self.objects.map fun conn => conn.pending.length).sum

/-- The worker is stopping, whatever accept is under way has failed, and every
connection has closed. -/
structure Closing (worker : WorkerContext H) : Prop where
  slots : worker.Slots
  refusing : worker.Refusing
  closed : ∀ conn ∈ worker.objects, conn.phase_ = .closed

/-- A sum changes by what one of its terms changes by. -/
theorem sum_set {terms : List Nat} {k before : Nat} (h : terms[k]? = some before) (after : Nat) :
    (terms.set k after).sum + before = terms.sum + after := by
  induction terms generalizing k with
  | nil => cases h
  | cons term terms ih =>
    cases k with
    | zero =>
      obtain rfl : term = before := Option.some.inj h
      simp only [List.set_cons_zero, List.sum_cons]
      omega
    | succ k =>
      have hrest := ih (k := k) h
      simp only [List.set_cons_succ, List.sum_cons]
      omega

/-- What a connection does changes the handlers that wait by its own alone. -/
theorem settle_outstanding {worker : WorkerContext H} {k : Nat} {conn : TcpConnection H}
    (hconn : worker.objects[k]? = some conn) (after : TcpConnection H) :
    (worker.settle k conn after).outstanding + conn.pending.length =
      worker.outstanding + after.pending.length := by
  have hterm : (worker.objects.map fun conn => conn.pending.length)[k]? = some conn.pending.length := by
    rw [List.getElem?_map, hconn, Option.map_some]
  have hsum := sum_set hterm after.pending.length
  rw [settle_frame]
  simp only [outstanding, List.map_set]
  omega

/-- On a closed connection a handler that runs is one less to wait for: it starts no
operation. -/
theorem Closing.settle {worker : WorkerContext H} (h : worker.Closing) {k : Nat}
    {conn after : TcpConnection H} {label : TcpConnection.Label H}
    (hconn : worker.objects[k]? = some conn) (hstep : conn.Step label after) :
    after.phase_ = .closed ∧
      after.pending.length + label.event.completion.toNat = conn.pending.length := by
  have hclosed := h.closed conn (List.mem_of_getElem? hconn)
  cases (h.slots.armed k conn hconn).regular.advance hstep with
  | stopped force hevent =>
    obtain ⟨_, effects, hreleased⟩ := (h.slots.armed k conn hconn).stop force
    rw [conn.stop_pending force, hevent]
    exact ⟨hreleased.closed hclosed, rfl⟩
  | ignored mem operation pending _ hevent hpending =>
    have hcompletion : label.event.completion = true := by
      cases hkind : label.event with
      | stop force => exact absurd ⟨force, hkind⟩ hevent
      | _ => rfl
    rw [hcompletion, hpending]
    exact ⟨hclosed, rfl⟩
  | closed _ _ _ hopen => exact absurd hclosed hopen
  | turned base _ hcompletion =>
    obtain ⟨_, _, hphase⟩ | ⟨_, hphase, _⟩ := hcompletion.event
    · exact absurd hclosed (TcpConnection.open_of_reading hphase)
    · simp [hphase] at hclosed

/-- A worker that is closing goes on closing, with one handler less for each that
runs. An accept that fails is not started again, since the worker is stopping. -/
theorem Closing.moved {server : TcpServer H} {worker after : WorkerContext H} {event : TcpServer.Event H}
    (h : worker.Closing) (hmoved : TcpServer.Moved server worker event after) :
    after.Closing ∧ after.outstanding + event.handler.toNat = worker.outstanding := by
  have hslots := (h.slots.moved hmoved).1
  have hrefusing := (h.refusing.moved hmoved).1
  obtain ⟨hstopping, hfailed⟩ := h.refusing
  cases hmoved with
  | completed ec accepts hpending =>
    have hhead := hfailed .pending (by simp [hpending])
    cases hhead
  | turned_away env accept accepts hqueued =>
    have hquiet : ({ worker with accepts } : WorkerContext H).start_accept = { worker with accepts } := by
      rw [start_accept, if_pos (.inl hstopping)]
    rw [hquiet] at hslots hrefusing ⊢
    refine ⟨⟨hslots, hrefusing, h.closed⟩, ?_⟩
    simp only [outstanding, hqueued, List.length_cons, TcpServer.Event.handler, Bool.toNat_true]
    omega
  | admitted env accepts first hqueued =>
    have hhead := hfailed .succeeded (by simp [hqueued])
    cases hhead
  | advanced object label conn after hobject hstep =>
    obtain ⟨hclosed, hless⟩ := h.settle hobject hstep
    have hsum := settle_outstanding hobject after
    refine ⟨⟨hslots, hrefusing, fun other hother => ?_⟩, ?_⟩
    · rw [settle_frame] at hother
      obtain hold | rfl := List.mem_or_eq_of_mem_set hother
      · exact h.closed other hold
      · exact hclosed
    · simp only [TcpServer.Event.handler]
      omega
  | stopped =>
    have hsame : worker.stop = worker := by rw [stop, if_pos hstopping]
    rw [hsame]
    exact ⟨h, rfl⟩

end WorkerContext

namespace TcpServer

variable {H : Type}

/-- How many handlers a worker has run. -/
def handled (i : Nat) (labels : List (Label H)) : Nat :=
  labels.countP fun label => label.worker == i && label.event.handler

/-- A stop task meets no open connection. Over an open one its loop goes on from an
entry that it has erased, and what happens behind that is not defined. -/
def StopsClear (self : TcpServer H) (label : Label H) : Prop :=
  label.event = .stop → ∀ worker, self.workers_[label.worker]? = some worker → worker.stopping = false →
    ∀ conn ∈ worker.objects, conn.phase_ = .closed

/-- The worker runs the handlers that wait and starts nothing new, so that its loop
ends; by then every connection has been freed. -/
def WindsDown (self : TcpServer H) (i : Nat) : Prop :=
  ∀ labels final worker worker', self.workers_[i]? = some worker → Run (Guarded StopsClear Step) self labels final →
    final.workers_[i]? = some worker' →
      worker'.outstanding + handled i labels = worker.outstanding ∧
      (0 < worker'.outstanding →
        ∃ event after, event.handler = true ∧ final.Step ⟨i, event⟩ after) ∧
      (worker'.outstanding = 0 → ∀ k < worker'.objects.length, worker'.references k = 0)

/-- Handlers that have run are counted along the labels. -/
theorem handled_snoc (i : Nat) (labels : List (Label H)) (label : Label H) :
    handled i (labels ++ [label]) = handled i labels + handled i [label] := List.countP_append

/-- An event of the worker counts if it runs a handler. -/
theorem handled_own (i : Nat) (event : Event H) : handled i [⟨i, event⟩] = event.handler.toNat := by
  cases hhandler : event.handler <;> simp [handled, hhandler]

/-- What other workers run does not count. -/
theorem handled_elsewhere {i : Nat} {label : Label H} (h : label.worker ≠ i) : handled i [label] = 0 := by
  simp [handled, h]

/-- Each handler that waits on a closing worker can run. -/
theorem closing_progress {self : TcpServer H} {i : Nat} {worker : WorkerContext H}
    (hworker : self.workers_[i]? = some worker) (hclosing : worker.Closing) (hwaits : 0 < worker.outstanding) :
    ∃ event after, event.handler = true ∧ self.Step ⟨i, event⟩ after := by
  cases haccepts : worker.accepts with
  | cons accept accepts =>
    obtain rfl := hclosing.refusing.2 accept (by simp [haccepts])
    refine ⟨.on_accept untouched, _, rfl, worker, ({ worker with accepts } : WorkerContext H).start_accept,
      hworker, ?_, rfl⟩
    unfold worker_step
    rw [haccepts]
    dsimp only
    rw [on_accept_eq, if_neg (by simp)]
  | nil =>
    have hsum : 0 < (worker.objects.map fun conn => conn.pending.length).sum := by
      simpa [WorkerContext.outstanding, haccepts] using hwaits
    obtain ⟨terms, hterms, hpositive⟩ := List.sum_pos_iff_exists_pos_nat.mp hsum
    obtain ⟨conn, hmem, rfl⟩ := List.mem_map.mp hterms
    obtain ⟨k, hconn⟩ := List.getElem?_of_mem hmem
    obtain ⟨label, after, hcompletion, hstep⟩ :=
      TcpConnection.closed_progress (hclosing.closed conn hmem) hpositive
    exact ⟨.connection k label, _, hcompletion, connection_step hworker hconn hstep⟩

/-- By the time nothing waits any more on a closing worker its connections are gone. -/
theorem closing_freed {worker : WorkerContext H} (hclosing : worker.Closing) (hnone : worker.outstanding = 0)
    {k : Nat} (hk : k < worker.objects.length) : worker.references k = 0 := by
  have hconn := List.getElem?_eq_getElem hk
  have hmem := List.getElem_mem hk
  have hterm : worker.objects[k].pending.length ≤ (worker.objects.map fun conn => conn.pending.length).sum :=
    List.single_le_sum (by simp) _ (List.mem_map_of_mem hmem)
  rw [WorkerContext.outstanding] at hnone
  exact (hclosing.slots.gone_iff hconn).mpr
    ⟨hclosing.closed _ hmem, List.eq_nil_of_length_eq_zero (by omega)⟩

/-- A worker that is closing winds down. -/
theorem winds_down_of_closing {self : TcpServer H} {i : Nat} {worker : WorkerContext H}
    (hworker : self.workers_[i]? = some worker) (hclosing : worker.Closing) : WindsDown self i := by
  intro labels final before worker' hbefore hrun hworker'
  obtain rfl : before = worker := Option.some.inj (hbefore.symm.trans hworker)
  have hinvariant := hrun.unguarded.invariant
    (fun labels (server : TcpServer H) => ∃ other, server.workers_[i]? = some other ∧ other.Closing ∧
      other.outstanding + handled i labels = before.outstanding) ⟨before, hworker, hclosing, rfl⟩ ?_
  · obtain ⟨other, hother, hcloses, hcount⟩ := hinvariant
    obtain rfl : worker' = other := Option.some.inj (hworker'.symm.trans hother)
    exact ⟨hcount, closing_progress hworker' hcloses, fun hnone k hk => closing_freed hcloses hnone hk⟩
  · rintro labels server ⟨j, event⟩ after ⟨other, hother, hcloses, hcount⟩ hstep
    obtain ⟨moving, moved, hmoving, hmoves, rfl⟩ := hstep
    dsimp only at hmoving hmoves
    rw [handled_snoc]
    by_cases hj : j = i
    · subst hj
      obtain rfl : other = moving := Option.some.inj (hother.symm.trans hmoving)
      obtain ⟨hgoes, hless⟩ := hcloses.moved (worker_step_cases hmoves)
      refine ⟨moved, List.getElem?_set_self (List.getElem?_eq_some_iff.mp hmoving).1, hgoes, ?_⟩
      rw [handled_own]
      omega
    · refine ⟨other, (List.getElem?_set_ne hj).trans hother, hcloses, ?_⟩
      rw [handled_elsewhere hj]
      exact hcount

/-- A connection that is taken in behind the stop task starts something new. -/
theorem not_winds_down {self : TcpServer H} (hlimits : 0 < self.limits_.max_header_bytes) {i : Nat}
    {worker : WorkerContext H} (hworker : self.workers_[i]? = some worker) (hstopping : worker.stopping = true)
    (hqueued : worker.accepts = [.succeeded]) (hempty : worker.connections.size = 0) : ¬ WindsDown self i := by
  intro hdown
  have hroom : worker.connections.size < self.worker_limit := by
    rw [hempty]
    exact lt_of_lt_of_le (by decide) (Nat.le_max_left 1024 _)
  obtain ⟨first, hstart, hstep⟩ := take_in_step self hlimits hworker hqueued hroom untouched
  have hpending : first.pending.length = 1 :=
    (TcpConnection.tended_of_run hstart .nil).open_pending (TcpConnection.start_armed hstart).2.1
  have hquiet : (({ worker with accepts := [] } : WorkerContext H).enter first).start_accept =
      ({ worker with accepts := [] } : WorkerContext H).enter first := by
    rw [WorkerContext.start_accept, if_pos (.inl hstopping)]
  rw [hquiet] at hstep
  obtain ⟨hcount, _⟩ := hdown _ _ _ _ hworker (.single ⟨fun hstop => (by cases hstop), hstep⟩)
    (List.getElem?_set_self (List.getElem?_eq_some_iff.mp hworker).1)
  rw [handled_own] at hcount
  simp only [WorkerContext.outstanding, WorkerContext.enter, hqueued, List.map_append, List.sum_append,
    List.map_cons, List.map_nil, List.sum_singleton, hpending, List.length_nil, List.length_singleton,
    Event.handler, Bool.toNat_true] at hcount
  omega

/-- Over connections that have all closed the stop task changes nothing but the acceptor. -/
theorem stop_closed {worker : WorkerContext H} (hslots : worker.Slots) (hgoing : worker.stopping = false)
    (hclosed : ∀ conn ∈ worker.objects, conn.phase_ = .closed) :
    worker.stop = { worker with stopping := true, is_open := false, accepts := worker.accepts.map Accept.cancel } := by
  have hempty : worker.connections.entries = [] := by
    rw [List.eq_nil_iff_forall_not_mem]
    intro entry hentry
    obtain ⟨_, conn, hconn, hopen⟩ := (hslots.held entry).mp hentry
    exact hopen (hclosed conn (List.mem_of_getElem? hconn))
  rw [WorkerContext.stop, if_neg (by simp [hgoing])]
  dsimp only
  rw [hempty]
  rfl

/-- Where stop tasks meet no open connection: once the stop task of a worker has run,
the worker runs the handlers that wait, starts nothing new and has freed every
connection when its loop ends, exactly where no accept had succeeded by then whose
handler was still to run. -/
theorem winds_down_iff {self before after : TcpServer H} (hvalid : self.limits_.validate = .ok ())
    {threads : Nat} {labels : List (Label H)}
    (hrun : Run (Guarded StopsClear Step) (self.listen threads) labels before) {i : Nat}
    {worker : WorkerContext H} (hworker : before.workers_[i]? = some worker)
    (hfirst : worker.stopping = false) (hstop : Guarded StopsClear Step before ⟨i, .stop⟩ after) :
    WindsDown after i ↔ .succeeded ∉ worker.accepts := by
  have hslots := slots_of_run hrun.unguarded hworker
  have hclosed := hstop.1 rfl worker hworker hfirst
  obtain ⟨⟨hserver, _⟩, hworkers⟩ := workers_of_run WorkerContext.Accepting WorkerContext.new_accepting
    (fun _ _ _ _ _ _ haccepting hmoved => haccepting.moved hmoved) hrun.unguarded
  obtain ⟨_, accept, hone⟩ := hworkers i worker hworker hfirst
  have hslots' := hslots.stop.1
  rw [stop_step_inv hstop.2 hworker]
  have hstopped : (before.workers_.set i worker.stop)[i]? = some worker.stop :=
    List.getElem?_set_self (List.getElem?_eq_some_iff.mp hworker).1
  have hempty := hslots.stop_empty hfirst
  rw [stop_closed hslots hfirst hclosed, hone, List.map_singleton] at hslots' hstopped hempty ⊢
  rw [List.mem_singleton]
  have hlimits : 0 < before.limits_.max_header_bytes := by
    rw [hserver]
    exact lt_of_lt_of_le (by decide) (HttpLimits.validate_ok hvalid).1
  constructor
  · rintro hdown rfl
    exact not_winds_down (by exact hlimits) hstopped rfl rfl hempty hdown
  · intro hfree
    refine winds_down_of_closing hstopped ⟨hslots', ⟨rfl, ?_⟩, hclosed⟩
    cases accept with
    | succeeded => exact absurd rfl hfree
    | _ => simp [Accept.cancel]

/-- No stop task runs during the visit. -/
theorem clear_visit : Throughout StopsClear Step (defaultServer.listen 1) visitLabels := by
  intro earlier label before hearlier _ hstop
  have hlabel := hearlier.subset (List.mem_append_right _ (List.mem_singleton_self label))
  simp only [visitLabels, List.mem_cons, List.not_mem_nil, or_false] at hlabel
  obtain rfl | rfl | rfl := hlabel <;> cases hstop

/-- A connection has closed before the task runs, and the next accept still waits. -/
theorem winds_down_iff_visited :
    ∃ before after, Run (Guarded StopsClear Step) (defaultServer.listen 1) visitLabels before ∧
      Guarded StopsClear Step before ⟨0, .stop⟩ after ∧ WindsDown after 0 := by
  obtain ⟨before, worker, hrun, hworker, hgoing, haccepts, _, hclosed⟩ := run_visited
  have hguarded := hrun.guarded clear_visit
  have hstop : Guarded StopsClear Step before ⟨0, .stop⟩
      { before with workers_ := before.workers_.set 0 worker.stop } := by
    refine ⟨fun _ other hother _ => ?_, stop_step hworker⟩
    obtain rfl : worker = other := Option.some.inj (hworker.symm.trans hother)
    exact hclosed
  refine ⟨before, _, hguarded, hstop, (winds_down_iff HttpLimits.validate_defaults hguarded hworker hgoing hstop).mpr ?_⟩
  rw [haccepts]
  decide

end TcpServer

end octane.transport
