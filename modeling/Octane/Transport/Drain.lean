import Octane.Transport.Acceptor
import Octane.Transport.Persistence

open search transition

namespace octane.transport

def Effect.IsRead (effect : Effect) : Prop := ∃ room, effect = .async_read_some room

namespace TcpConnection

variable {H : Type}

/-- Neither a forced stop nor an error of the socket. -/
structure Calm (label : Label H) : Prop where
  not_forced : label.event ≠ .stop true
  not_read : label.event ≠ .read_error
  not_write : label.event ≠ .write_error

/-- The response to the request that `conn` has under way is being written, and
nothing but reads has come before it. -/
inductive Answering (conn : TcpConnection H) : TcpConnection H → Prop where
  | writing (before : TcpConnection H) (hphase : before.phase_ = .writing) (hconn : conn.phase_ = .writing)
      (hlog : before.log = conn.log) : Answering conn before
  | answered (before : TcpConnection H) (reads : List Effect) (seen : HttpRequest) (response : HttpResponse)
      (header body : Bytes) (hphase : before.phase_ = .writing) (hconn : conn.phase_ = .body)
      (hreads : ∀ effect ∈ reads, Effect.IsRead effect)
      (hlog : before.log = conn.log ++ reads ++
        [.dispatch_response conn.origin.block seen true response, .async_write header body])
      (hhead : response.serialize_headers true = .ok header) : Answering conn before

/-- A run without a forced stop and without errors. -/
def CalmRun : TcpConnection H → List (Label H) → TcpConnection H → Prop :=
  Run (Guarded (fun _ label => Calm label) Step)

/-- However it goes on calmly, the connection closes only when the response to
the request under way has been written, and dispatches no other request. -/
structure Finishes (conn : TcpConnection H) : Prop where
  closes : ∀ labels before label after, CalmRun conn labels before → Calm label →
    before.Step label after → before.phase_ ≠ .closed → after.phase_ = .closed →
      label.event = .written ∧ Answering conn before
  once : ∀ labels final, CalmRun conn labels final →
    dispatched final.log ≤ dispatched conn.log + if conn.phase_ = .body then 1 else 0

/-- A draining connection that still receives a body, or has what it needs: it waits
for more, or answers and announces the close. -/
theorem process_body_draining {self after : TcpConnection H} {env : Environment H}
    (hphase : self.phase_ = .body) (hdraining : self.draining_ = true)
    (hrun : self.process_input env = .ok after) :
    (after.phase_ = .body ∧ after.draining_ = true ∧ after.origin = self.origin ∧
        ∃ room, after.log = self.log ++ [.async_read_some room]) ∨
      (after.phase_ = .writing ∧ after.draining_ = true ∧
        ∃ (seen : HttpRequest) (response : HttpResponse) (header body : Bytes),
        after.log = self.log ++
          [.dispatch_response self.origin.block seen true response, .async_write header body] ∧
        response.serialize_headers true = .ok header) := by
  have houtcome := process_input_outcome env self
  generalize self.process_input env = result at hrun houtcome
  have hheadless : self.phase_ ≠ .headers := by simp [hphase]
  cases houtcome with
  | idle hidle => simp [hphase] at hidle
  | oversized h => exact absurd h hheadless
  | headless h => exact absurd h hheadless
  | refused stop status h => exact absurd h hheadless
  | displaced => cases hrun
  | awaits base hbase =>
    cases hbase with
    | parsed stop req h => exact absurd h hheadless
    | waiting =>
      cases hrun
      obtain ⟨room, hlog⟩ := self.read_more_log
      refine .inl ⟨?_, ?_, ?_, room, hlog⟩
      · rw [read_more, grow_frame, compact_frame]
        exact hphase
      · rw [read_more, grow_frame, compact_frame]
        exact hdraining
      · rw [read_more, grow_frame, compact_frame]
        rfl
  | complete base hbase =>
    cases hbase with
    | parsed stop req h => exact absurd h hheadless
    | waiting =>
      obtain ⟨header, owned, hhead, rfl⟩ := respond_inv hrun
      have hclosing : self.withBody.closing = true := by simp [closing, withBody, hdraining]
      have hlog : (self.withBody.queued env self.withBody.total_req_bytes header owned).log =
          self.log ++ [.dispatch_response self.origin.block (self.withBody.observe env.freed)
            self.withBody.closing (self.withBody.exchange env).2, .async_write header _] := rfl
      rw [hclosing] at hhead hlog
      exact .inr ⟨rfl, hdraining, _, _, header, _, hlog, hhead⟩

/-- A stop that is not forced leaves a connection open that has a request under way. -/
theorem stop_false_eq {self : TcpConnection H} (hphase : self.phase_ ≠ .headers) :
    self.stop false = { self with draining_ := true } := by
  obtain ⟨hforce | hheaders, _⟩ | ⟨_, _, heq⟩ := self.stop_cases false
  · cases hforce
  · exact absurd hheaders hphase
  · exact heq

/-- A stop that is not forced lets a request under way be finished. -/
theorem Calm.stop_eq {self : TcpConnection H} {label : Label H} (h : Calm label) {force : Bool}
    (hevent : label.event = .stop force) (hphase : self.phase_ ≠ .headers) :
    self.stop force = { self with draining_ := true } := by
  cases force with
  | false => exact stop_false_eq hphase
  | true => exact absurd hevent h.not_forced

/-- What a draining connection does that receives a body: only a read can complete,
and it leads to the case above. -/
theorem body_step {self after : TcpConnection H} {label : Label H} (h : self.Regular)
    (hphase : self.phase_ = .body) (hdraining : self.draining_ = true) (hlabel : Calm label)
    (hstep : self.Step label after) :
    (after.phase_ = .body ∧ after.draining_ = true ∧ after.origin = self.origin ∧
        ∃ reads, after.log = self.log ++ reads ∧ ∀ effect ∈ reads, Effect.IsRead effect) ∨
      (after.phase_ = .writing ∧ after.draining_ = true ∧
        ∃ (seen : HttpRequest) (response : HttpResponse) (header body : Bytes),
        after.log = self.log ++
          [.dispatch_response self.origin.block seen true response, .async_write header body] ∧
        response.serialize_headers true = .ok header) := by
  cases step_cases h hstep with
  | stopped force hevent =>
    rw [hlabel.stop_eq hevent (by simp [hphase])]
    exact .inl ⟨hphase, rfl, rfl, [], (List.append_nil _).symm, by simp⟩
  | ignored mem pending hclosed => simp [hphase] at hclosed
  | closed before hbefore hevent =>
    obtain hread | hwrite | ⟨_, hwriting, _⟩ := hevent
    · exact absurd hread hlabel.not_read
    · exact absurd hwrite hlabel.not_write
    · simp [hphase] at hwriting
  | received chunk _ hevent hreading hroom hrun =>
    have harrived : (self.arrived chunk).phase_ = .body := hphase
    obtain ⟨hafter, hstays, horigin, room, hlog⟩ | hanswered :=
      process_body_draining harrived (by exact hdraining) hrun
    · exact .inl ⟨hafter, hstays, horigin, _, hlog, fun effect heffect => ⟨room, List.mem_singleton.mp heffect⟩⟩
    · exact .inr hanswered
  | processed _ hevent hwriting => simp [hphase] at hwriting
  | idle hevent hwriting => simp [hphase] at hwriting

/-- A draining connection that writes its response only closes, once it is written. -/
theorem writing_step {self after : TcpConnection H} {label : Label H} (h : self.Regular)
    (hphase : self.phase_ = .writing) (hdraining : self.draining_ = true) (hlabel : Calm label)
    (hstep : self.Step label after) :
    (after.phase_ = .writing ∧ after.draining_ = true ∧ after.log = self.log) ∨
      (label.event = .written ∧ after.phase_ = .closed ∧ after.draining_ = true ∧
        dispatched after.log = dispatched self.log) := by
  cases h.advance hstep with
  | stopped force hevent =>
    rw [hlabel.stop_eq hevent (by simp [hphase])]
    exact .inl ⟨hphase, rfl, rfl⟩
  | ignored mem operation pending hclosed => simp [hphase] at hclosed
  | closed header_payload_ body_payload_ owned_body_storage_ _ hevent =>
    obtain hread | hwrite | ⟨hwritten, _⟩ := hevent
    · exact absurd hread hlabel.not_read
    · exact absurd hwrite hlabel.not_write
    · obtain ⟨hclosed, _, hstays, effects, hlog, hquiet⟩ := ({ self with
        pending := [], header_payload_, body_payload_, owned_body_storage_ } : TcpConnection H).close_quiet
      refine .inr ⟨hwritten, hclosed, hstays.trans hdraining, ?_⟩
      rw [hlog, dispatched_append, dispatched_quiet hquiet, Nat.add_zero]
  | turned base _ hcompletion =>
    obtain ⟨_, _, hreading⟩ | ⟨_, _, _, hgoing⟩ := hcompletion.event
    · simp [hphase] at hreading
    · simp [hdraining] at hgoing

/-- A closed connection stays closed and silent. -/
theorem closed_step {self after : TcpConnection H} {label : Label H} (h : self.Regular)
    (hphase : self.phase_ = .closed) (hdraining : self.draining_ = true) (hstep : self.Step label after) :
    after.phase_ = .closed ∧ after.draining_ = true ∧ after.log = self.log := by
  cases h.advance hstep with
  | stopped force =>
    have hclosed : ({ self with draining_ := true } : TcpConnection H).close = { self with draining_ := true } := by
      rw [close, if_pos hphase]
    obtain ⟨_, heq⟩ | ⟨_, _, heq⟩ := self.stop_cases force
    · rw [heq, hclosed]
      exact ⟨hphase, rfl, rfl⟩
    · rw [heq]
      exact ⟨hphase, rfl, rfl⟩
  | ignored => exact ⟨hphase, hdraining, rfl⟩
  | closed _ _ _ hopen => exact absurd hphase hopen
  | turned base _ hcompletion =>
    obtain ⟨_, _, hreading⟩ | ⟨_, hwriting, _⟩ := hcompletion.event
    · simp [hphase] at hreading
    · simp [hphase] at hwriting

/-- How far a draining connection has come with the request under way. -/
inductive Draining (conn : TcpConnection H) : TcpConnection H → Prop where
  | awaiting (self : TcpConnection H) (reads : List Effect) (hphase : self.phase_ = .body)
      (hconn : conn.phase_ = .body) (horigin : self.origin = conn.origin) (hlog : self.log = conn.log ++ reads)
      (hreads : ∀ effect ∈ reads, Effect.IsRead effect) : Draining conn self
  | answering (self : TcpConnection H) (h : Answering conn self) : Draining conn self
  | closed (self : TcpConnection H) (hphase : self.phase_ = .closed)
      (hlog : dispatched self.log ≤ dispatched conn.log + if conn.phase_ = .body then 1 else 0) :
      Draining conn self

/-- Starting reads dispatches nothing. -/
theorem dispatched_reads {reads : List Effect} (h : ∀ effect ∈ reads, Effect.IsRead effect) :
    dispatched reads = 0 :=
  dispatched_quiet fun effect heffect => by
    obtain ⟨room, rfl⟩ := h effect heffect
    rfl

theorem Answering.phase {conn self : TcpConnection H} (h : Answering conn self) : self.phase_ = .writing := by
  cases h with
  | writing hphase => exact hphase
  | answered _ _ _ _ _ hphase => exact hphase

/-- A draining connection dispatches the request whose body it waits for, and no other. -/
theorem Draining.dispatched_le {conn self : TcpConnection H} (h : Draining conn self) :
    dispatched self.log ≤ dispatched conn.log + if conn.phase_ = .body then 1 else 0 := by
  cases h with
  | awaiting reads _ _ _ hlog hreads =>
    rw [hlog, dispatched_append, dispatched_reads hreads]
    omega
  | answering h =>
    cases h with
    | writing _ _ hlog =>
      rw [hlog]
      omega
    | answered reads seen response header body _ hconn hreads hlog =>
      rw [hlog, dispatched_append, dispatched_append, dispatched_reads hreads, if_pos hconn]
      exact Nat.le_refl _
  | closed _ hlog => exact hlog

/-- One step of draining: more of the body, the answer to it, the end of a write, or nothing. -/
theorem Draining.step {conn self after : TcpConnection H} {label : Label H} (h : Draining conn self)
    (hself : self.Regular) (hdraining : self.draining_ = true) (hlabel : Calm label)
    (hstep : self.Step label after) : after.draining_ = true ∧ Draining conn after := by
  cases h with
  | awaiting reads hphase hconn horigin hlog hreads =>
    obtain ⟨hafter, hstays, hsame, more, hmore, hreads'⟩ |
        ⟨hafter, hstays, seen, response, header, body, hmore, hhead⟩ :=
      body_step hself hphase hdraining hlabel hstep
    · refine ⟨hstays, .awaiting _ (reads ++ more) hafter hconn (hsame.trans horigin) ?_ ?_⟩
      · rw [hmore, hlog, List.append_assoc]
      · exact fun effect heffect => (List.mem_append.mp heffect).elim (hreads effect) (hreads' effect)
    · refine ⟨hstays, .answering _ (.answered _ reads seen response header body hafter hconn hreads ?_ hhead)⟩
      rw [hmore, hlog, horigin]
  | answering h =>
    obtain ⟨hafter, hstays, hlog⟩ | ⟨_, hafter, hstays, hcount⟩ :=
      writing_step hself h.phase hdraining hlabel hstep
    · refine ⟨hstays, .answering _ ?_⟩
      cases h with
      | writing _ hconn hlog' => exact .writing _ hafter hconn (hlog.trans hlog')
      | answered reads seen response header body _ hconn hreads hlog' hhead =>
        exact .answered _ reads seen response header body hafter hconn hreads (hlog.trans hlog') hhead
    · exact ⟨hstays, .closed _ hafter (hcount.trans_le (Draining.answering _ h).dispatched_le)⟩
  | closed hphase hlog =>
    obtain ⟨hafter, hstays, hsame⟩ := closed_step hself hphase hdraining hstep
    exact ⟨hstays, .closed _ hafter (by rwa [hsame])⟩

/-- A draining connection with a request under way finishes it: in every calm run it
closes only when the response has been written, and dispatches no other request. -/
theorem Regular.finishes {conn : TcpConnection H} (h : conn.Regular) (hdraining : conn.draining_ = true)
    (hphase : conn.phase_ = .body ∨ conn.phase_ = .writing) : conn.Finishes := by
  have hbegin : Draining conn conn := by
    obtain hbody | hwriting := hphase
    · exact .awaiting _ [] hbody hbody rfl (List.append_nil _).symm (by simp)
    · exact .answering _ (.writing _ hwriting hwriting rfl)
  have hinvariant : ∀ labels final, CalmRun conn labels final →
      final.Regular ∧ final.draining_ = true ∧ Draining conn final := by
    intro labels final hrun
    refine Run.invariant (fun _ self => self.Regular ∧ self.draining_ = true ∧ Draining conn self)
      ⟨h, hdraining, hbegin⟩ ?_ hrun
    rintro _ before label after ⟨hregular, hstays, hbefore⟩ ⟨hlabel, hstep⟩
    exact ⟨hregular.step hstep, hbefore.step hregular hstays hlabel hstep⟩
  refine ⟨fun labels before label after hrun hlabel hstep hopen hclosed => ?_, fun labels final hrun =>
    (hinvariant labels final hrun).2.2.dispatched_le⟩
  obtain ⟨hregular, hstays, hbefore⟩ := hinvariant labels before hrun
  cases hbefore with
  | awaiting reads hbody =>
    obtain ⟨hafter, _⟩ | ⟨hafter, _⟩ := body_step hregular hbody hstays hlabel hstep
    · simp [hclosed] at hafter
    · simp [hclosed] at hafter
  | answering hanswering =>
    obtain ⟨hafter, _⟩ | ⟨hwritten, _⟩ := writing_step hregular hanswering.phase hstays hlabel hstep
    · simp [hclosed] at hafter
    · exact ⟨hwritten, hanswering⟩
  | closed hbefore => exact absurd hbefore hopen

/-- What `stop` does where it is not forced: the request under way is finished. -/
theorem Regular.stop_finishes {conn : TcpConnection H} (h : conn.Regular)
    (hphase : conn.phase_ = .body ∨ conn.phase_ = .writing) :
    (conn.stop false).phase_ = conn.phase_ ∧ (conn.stop false).Finishes := by
  have hregular := stop_regular h false
  have hopen : conn.phase_ ≠ .headers := by
    obtain hbody | hwriting := hphase
    · simp [hbody]
    · simp [hwriting]
  rw [stop_false_eq hopen] at hregular ⊢
  exact ⟨rfl, hregular.finishes rfl hphase⟩

end TcpConnection

namespace WorkerContext

variable {H : Type}

/-- The stop task closes only connections that wait for a head; those that have a
request under way go on, and finish it. -/
def Drains (worker : WorkerContext H) : Prop :=
  ∀ (k : Nat) conn, worker.objects[k]? = some conn → conn.phase_ ≠ .closed →
    ∃ after, worker.stop.objects[k]? = some after ∧ (after.phase_ = .closed → conn.phase_ = .headers) ∧
      (conn.phase_ = .body ∨ conn.phase_ = .writing →
        after.phase_ = conn.phase_ ∧ after.draining_ = true ∧ after.Finishes)

/-- The stop task closes every connection that is open. -/
theorem Slots.stop_closes {worker : WorkerContext H} (h : Slots worker) (hgoing : worker.stopping = false)
    {k : Nat} {after : TcpConnection H} (hafter : worker.stop.objects[k]? = some after) :
    after.phase_ = .closed := by
  by_contra hopen
  have hempty := h.stop_empty hgoing
  rw [UnorderedMap.size, List.length_eq_zero_iff] at hempty
  have hentry := (h.stop.1.held (k, k)).mpr ⟨rfl, after, hafter, hopen⟩
  rw [hempty] at hentry
  cases hentry

/-- The stop task drains where it has run before on draining connections, and
otherwise only where no request is under way. -/
theorem Slots.drains_iff {worker : WorkerContext H} (h : Slots worker) :
    Drains worker ↔ ∀ (k : Nat) conn, worker.objects[k]? = some conn →
      conn.phase_ = .body ∨ conn.phase_ = .writing → worker.stopping = true ∧ conn.draining_ = true := by
  have hopen : ∀ conn : TcpConnection H, conn.phase_ = .body ∨ conn.phase_ = .writing → conn.phase_ ≠ .closed := by
    rintro conn (hphase | hphase) <;> simp [hphase]
  constructor
  · intro hdrains k conn hconn hphase
    obtain ⟨after, hafter, _, hgoes⟩ := hdrains k conn hconn (hopen conn hphase)
    obtain ⟨hsame, hdraining, _⟩ := hgoes hphase
    by_cases hstopping : worker.stopping = true
    · rw [WorkerContext.stop, if_pos hstopping, hconn] at hafter
      cases hafter
      exact ⟨hstopping, hdraining⟩
    · have hclosed := h.stop_closes (Bool.eq_false_of_not_eq_true hstopping) hafter
      exact absurd (hsame.symm.trans hclosed) (hopen conn hphase)
  · intro hready k conn hconn hrunning
    by_cases hphase : conn.phase_ = .body ∨ conn.phase_ = .writing
    · obtain ⟨hstopping, hdraining⟩ := hready k conn hconn hphase
      rw [WorkerContext.stop, if_pos hstopping]
      exact ⟨conn, hconn, fun hclosed => absurd hclosed hrunning, fun _ =>
        ⟨rfl, hdraining, (h.armed k conn hconn).regular.finishes hdraining hphase⟩⟩
    · obtain ⟨after, _, hafter, _⟩ := h.stop.2.kept k conn hconn
      refine ⟨after, hafter, fun _ => ?_, fun hunder => absurd hunder hphase⟩
      cases hconn' : conn.phase_ with
      | headers => rfl
      | body => exact absurd (.inl hconn') hphase
      | writing => exact absurd (.inr hconn') hphase
      | closed => exact absurd hconn' hrunning

end WorkerContext

namespace TcpServer

variable {H : Type}

/-- In every run the stop task cuts off the requests under way, except where it has
run before and their connections are draining. -/
theorem stop_drains_iff {self final : TcpServer H} {threads : Nat} {labels : List (Label H)}
    (hrun : Run Step (self.listen threads) labels final) {i : Nat} {worker : WorkerContext H}
    (hworker : final.workers_[i]? = some worker) :
    worker.Drains ↔ ∀ (k : Nat) conn, worker.objects[k]? = some conn →
      conn.phase_ = .body ∨ conn.phase_ = .writing → worker.stopping = true ∧ conn.draining_ = true :=
  (slots_of_run hrun hworker).drains_iff

/-- A request whose body has not arrived in full. -/
def halfRequest : Bytes := ascii "POST /echo HTTP/1.1\r\nHost: x\r\nContent-Length: 5\r\n\r\nh"

/-- A client that is taken in behind the stop task, and whose connection is asked to
drain while it receives a body. -/
def drainingLabels : List (Label Unit) :=
  [⟨0, .accepted false⟩, ⟨0, .stop⟩, ⟨0, .on_accept untouched⟩,
    ⟨0, .connection 0 ⟨.read halfRequest, untouched⟩⟩, ⟨0, .connection 0 ⟨.stop false, untouched⟩⟩]

/-- Over this worker the task drains, though a body is under way. -/
theorem stop_drains_iff_half :
    ∃ final worker conn, Run Step (defaultServer.listen 1) drainingLabels final ∧
      final.workers_[0]? = some worker ∧ worker.objects[0]? = some conn ∧ conn.phase_ = .body ∧ worker.Drains := by
  obtain ⟨final, hrun, worker, hworker, hstopping, hone, hdraining, conn, hconn, hphase⟩ := exists_run_of_check
    (defaultServer.listen 1) drainingLabels
    (fun final => ∃ worker ∈ final.workers_[0]?, worker.stopping = true ∧ worker.objects.length = 1 ∧
      (∀ conn ∈ worker.objects, conn.draining_ = true) ∧ ∃ conn ∈ worker.objects[0]?, conn.phase_ = .body)
    (by decide +kernel)
  refine ⟨final, worker, conn, hrun, hworker, hconn, hphase, (stop_drains_iff hrun hworker).mpr ?_⟩
  intro k other hother _
  exact ⟨hstopping, hdraining other (List.mem_of_getElem? hother)⟩

/-- A connection that is receiving a body is closed by the stop task. -/
theorem half_request_cut_off :
    ∃ labels final worker, Run Step (defaultServer.listen 1) labels final ∧
      final.workers_[0]? = some worker ∧ worker.stopping = false ∧
        (∃ conn, worker.objects[0]? = some conn ∧ conn.phase_ = .body) ∧ ¬ worker.Drains := by
  obtain ⟨labels, before, worker, hrun, hworker, hgoing, hobjects⟩ := exists_run_admitted
    defaultServer (by decide) untouched
  obtain ⟨result, hstep, hcheck⟩ := Option.map_eq_some_iff.mp (show
    ((defaultServer.make_connection 0).async_read_some.step ⟨.read halfRequest, untouched⟩).map
      (·.map fun conn => decide (conn.phase_ = .body)) = some (.ok true) by decide +kernel)
  obtain ⟨conn, rfl, hphase⟩ := exists_ok_of_check hcheck
  have hconn : worker.objects[0]? = some (defaultServer.make_connection 0).async_read_some := by
    rw [hobjects]
    rfl
  have hrun' := hrun.snoc (connection_step hworker hconn hstep)
  have hframe := worker.settle_frame 0 (defaultServer.make_connection 0).async_read_some conn
  have hworker' := List.getElem?_set_self (List.getElem?_eq_some_iff.mp hworker).1
    (a := worker.settle 0 (defaultServer.make_connection 0).async_read_some conn)
  generalize worker.settle 0 (defaultServer.make_connection 0).async_read_some conn = settled at *
  have hgoing' : settled.stopping = false := by
    rw [hframe]
    exact hgoing
  have hconn' : settled.objects[0]? = some conn := by
    rw [hframe]
    exact List.getElem?_set_self (List.getElem?_eq_some_iff.mp hconn).1
  refine ⟨_, _, settled, hrun', hworker', hgoing', ⟨conn, hconn', hphase⟩, fun hdrains => ?_⟩
  have hcut := ((slots_of_run hrun' hworker').drains_iff.mp hdrains 0 conn hconn' (.inl hphase)).1
  rw [hgoing'] at hcut
  cases hcut

end TcpServer

end octane.transport
