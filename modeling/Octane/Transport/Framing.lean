import Octane.Transport.Containment
import Octane.Transport.Frame
import Octane.Transport.Steps

open search transition

namespace octane.transport.TcpConnection

variable {H : Type}

/-- An operation completes without an error, and nothing stops the connection. -/
def Event.completes : Event → Prop
  | .read _ => True
  | .written => True
  | _ => False

/-- The bytes that arrive with an event. -/
def Event.bytes : Event → Bytes
  | .read chunk => chunk
  | _ => []

@[simp] theorem Event.bytes_written : Event.written.bytes = [] := rfl

/-- What a connection has answered so far. -/
def answers (log : List Effect) : List Answer :=
  log.filterMap fun
    | .dispatch_response block seen _ _ => some (.request block seen.body)
    | .fail status => some (.failure status)
    | _ => none

/-- The head at the front of the unconsumed bytes, as it was parsed. -/
structure Heads (conn : TcpConnection H) (stop : Nat) (req : HttpRequest) : Prop where
  find : findSub CRLFCRLF conn.unconsumed = some stop
  size : conn.header_size_ = stop + 4
  block : conn.origin.block = conn.unconsumed.take (stop + 4)
  parse : HttpParser.parse_headers (conn.unconsumed.take (stop + 4)) conn.limits_ = .ok req
  length : conn.request_.content_length = req.content_length
  keep_alive : conn.request_.keep_alive = req.keep_alive

/-- With validated limits the size of a request does not wrap around. -/
theorem Heads.total {self : TcpConnection H} {stop : Nat} {req : HttpRequest} (h : Heads self stop req)
    (hlimits : self.limits_.validate = .ok ()) :
    self.total_req_bytes = stop + 4 + req.content_length := by
  obtain ⟨_, hfits, _⟩ := HttpLimits.validate_ok hlimits
  obtain ⟨hsize, hbody⟩ := parse_headers_bounds h.parse
  have hinside : stop + 4 ≤ self.unconsumed.length := findSub_add_length_le h.find
  rw [List.length_take, Nat.min_eq_left hinside] at hsize
  rw [total_req_bytes, h.size, h.length]
  exact Nat.mod_eq_of_lt (by omega)

/-- A head stays parsed while bytes arrive behind it. -/
theorem Heads.extend {self other : TcpConnection H} {stop : Nat} {req : HttpRequest} {chunk : Bytes}
    (h : Heads self stop req) (hunconsumed : other.unconsumed = self.unconsumed ++ chunk)
    (hsize : other.header_size_ = self.header_size_) (horigin : other.origin = self.origin)
    (hlimits : other.limits_ = self.limits_) (hrequest : other.request_ = self.request_) :
    Heads other stop req := by
  have htake := take_append_of_findSub h.find chunk
  refine ⟨?_, hsize.trans h.size, ?_, ?_, ?_, ?_⟩
  · rw [hunconsumed]
    exact findSub_append h.find chunk
  · rw [hunconsumed, htake, horigin]
    exact h.block
  · rw [hunconsumed, htake, hlimits]
    exact h.parse
  · rw [hrequest]
    exact h.length
  · rw [hrequest]
    exact h.keep_alive

/-- A connection that waits for a body has its head in front of the unconsumed bytes. -/
theorem Headed.heads {self base : TcpConnection H} (hbase : Headed self base)
    (hself : self.phase_ = .body → ∃ stop req, Heads self stop req) :
    ∃ stop req, Heads base stop req := by
  cases hbase with
  | waiting hphase => exact hself hphase
  | parsed stop req hphase hfind hparse => exact ⟨stop, req, hfind, rfl, rfl, hparse, rfl, rfl⟩

/-- What a connection will answer to the bytes it holds, followed by `t`. -/
def owed (conn : TcpConnection H) (t : Bytes) : List Answer :=
  if conn.phase_ = .closed ∨ (conn.phase_ = .writing ∧ conn.close_after_write_ = true) then []
  else frame conn.limits_ conn.requests_ (conn.unconsumed ++ t)

/-- A closed connection owes no answer. -/
theorem owed_closed {self : TcpConnection H} (h : self.phase_ = .closed) (t : Bytes) : self.owed t = [] :=
  if_pos (.inl h)

/-- One that reads owes the framing of what is unconsumed and still to come. -/
theorem owed_reading {self : TcpConnection H} (h : self.phase_ = .headers ∨ self.phase_ = .body) (t : Bytes) :
    self.owed t = frame self.limits_ self.requests_ (self.unconsumed ++ t) := by
  have hopen : ¬ (self.phase_ = .closed ∨ (self.phase_ = .writing ∧ self.close_after_write_ = true)) := by
    obtain hphase | hphase := h <;> simp [hphase]
  rw [owed, if_neg hopen]

/-- One that writes and goes on owes the same behind what it writes. -/
theorem owed_writing {self : TcpConnection H} (h : self.phase_ = .writing)
    (hopen : self.close_after_write_ = false) (t : Bytes) :
    self.owed t = frame self.limits_ self.requests_ (self.unconsumed ++ t) := by
  rw [owed, if_neg (by simp [h, hopen])]

/-- After the bytes `delivered`, a connection has answered what the reference
says, up to what it still owes. -/
structure Framed (limits_ : HttpLimits) (delivered : Bytes) (conn : TcpConnection H) : Prop where
  regular : conn.Regular
  limits : conn.limits_ = limits_
  running : conn.draining_ = false
  heads : conn.phase_ = .body → ∃ stop req, Heads conn stop req
  waiting : conn.phase_ = .headers ∨ conn.phase_ = .body →
    frame limits_ conn.requests_ conn.unconsumed = []
  stream : ∀ t, frame limits_ 0 (delivered ++ t) = answers conn.log ++ conn.owed t

/-- Where what is there makes no answer yet, asking for more keeps the framing: the
answers so far and those of the rest are the answers of the whole stream. -/
theorem read_more_framed {self : TcpConnection H} {limits_ : HttpLimits} {delivered : Bytes}
    (hready : self.Ready) (hlimits : self.limits_ = limits_) (hrunning : self.draining_ = false)
    (hheads : self.phase_ = .body → ∃ stop req, Heads self stop req)
    (hwaiting : frame limits_ self.requests_ self.unconsumed = [])
    (hstream : ∀ t, frame limits_ 0 (delivered ++ t) =
      answers self.log ++ frame limits_ self.requests_ (self.unconsumed ++ t)) :
    Framed limits_ delivered self.read_more := by
  have hregular := read_more_regular hready
  have hsame := read_more_unconsumed hready.inBounds
  obtain ⟨buffer_, read_pos_, write_pos_, heq, _⟩ := read_more_spec hready.inBounds
  rw [heq] at hregular hsame ⊢
  refine ⟨hregular, hlimits, hrunning, fun hbody => ?_, fun _ => ?_, fun t => ?_⟩
  · obtain ⟨stop, req, h⟩ := hheads hbody
    exact ⟨stop, req, h.extend (hsame.trans (List.append_nil _).symm) rfl rfl rfl rfl⟩
  · rw [hsame]
    exact hwaiting
  · rw [owed_reading (by exact hready.phase), hsame, hstream t, hlimits]
    simp [answers]

/-- The connection after a failure owes nothing more. -/
theorem fail_framed (self : TcpConnection H) {limits_ : HttpLimits} {delivered : Bytes} (status : Nat)
    (hready : self.Ready) (hlimits : self.limits_ = limits_) (hrunning : self.draining_ = false)
    (hstatus : ¬ ((status : Int) < 200 ∨ 599 < (status : Int)))
    (hstream : ∀ t, frame limits_ 0 (delivered ++ t) = answers self.log ++ [.failure status]) :
    Framed limits_ delivered (self.fail status) := by
  have hopen := open_of_reading hready.phase
  have hregular := fail_regular hready.inBounds hopen hready.pending hstatus
  obtain ⟨_, _, heq⟩ := fail_eq self status hopen hstatus
  rw [heq] at hregular ⊢
  refine ⟨hregular, hlimits, hrunning, fun hbody => (by cases hbody), fun hphase => ?_, fun t => ?_⟩
  · obtain hphase | hphase := hphase <;> cases hphase
  · rw [hstream t, owed, if_pos (.inr ⟨rfl, rfl⟩)]
    simp [answers]

/-- A complete request is answered, and what it closes over is no longer owed: behind
the last request of a connection the reference frames nothing. -/
theorem respond_framed {env : Environment H} {base after : TcpConnection H} {limits_ : HttpLimits}
    {delivered : Bytes} {stop : Nat} {req : HttpRequest} (hvalid : limits_.validate = .ok ())
    (hregular : after.Regular) (hbounds : base.InBounds) (hlimits : base.limits_ = limits_)
    (hrunning : base.draining_ = false) (h : Heads base stop req)
    (hcomplete : base.total_req_bytes ≤ base.unconsumed.length)
    (hstream : ∀ t, frame limits_ 0 (delivered ++ t) =
      answers base.log ++ frame limits_ base.requests_ (base.unconsumed ++ t))
    (hrun : base.withBody.respond env base.total_req_bytes = .ok after) :
    Framed limits_ delivered after := by
  have htotal := h.total (by rw [hlimits]; exact hvalid)
  have hparse := h.parse
  have hlast : base.withBody.closing = lastRequest limits_ base.requests_ req := by
    rw [closing, lastRequest, ← h.keep_alive, ← hlimits]
    exact congrArg (fun flag => (flag || _) || _) hrunning
  obtain ⟨_, hrest⟩ := consume_spec base.withBody
    ⟨hbounds.ordered, hbounds.inside, hbounds.room⟩ hcomplete
  rw [consume_frame] at hrest
  rw [hlimits] at hparse
  have hanswers : ∀ close response header body, answers (base.withBody.log ++
      [.dispatch_response base.withBody.origin.block (base.withBody.observe env.freed) close response,
        .async_write header body]) =
      answers base.log ++ [.request (base.unconsumed.take (stop + 4))
        ((base.unconsumed.drop (stop + 4)).take req.content_length)] := by
    intro _ _ _ _
    have hbody : (base.withBody.observe env.freed).body =
        (base.unconsumed.drop base.header_size_).take base.request_.content_length := rfl
    rw [← h.block, ← h.size, ← h.length, ← hbody]
    exact List.filterMap_append
  obtain ⟨_, _, _, rfl⟩ := respond_inv hrun
  rw [queued] at hregular ⊢
  refine ⟨hregular, hlimits, hrunning, fun hbody => (by cases hbody), fun hphase => ?_, fun t => ?_⟩
  · obtain hphase | hphase := hphase <;> cases hphase
  · rw [hstream t, frame_request h.find hparse (htotal ▸ hcomplete) t, hanswers, owed, hlast]
    by_cases hend : lastRequest limits_ base.requests_ req = true
    · rw [if_pos hend, if_pos (.inr ⟨rfl, hend⟩)]
      simp
    · have hgo : base.withBody.closing = false := by
        rw [hlast]
        exact Bool.eq_false_of_not_eq_true hend
      have hopen : ¬ (Phase.writing = Phase.closed ∨
          (Phase.writing = Phase.writing ∧ lastRequest limits_ base.requests_ req = true)) := by
        simpa using hend
      rw [if_neg hend, if_neg hopen, decide_close_requests hgo, ← htotal,
        List.append_assoc, List.singleton_append, ← hlimits]
      exact congrArg (fun rest => answers base.log ++ Answer.request _ _ ::
        frame base.limits_ (base.requests_ + 1) (rest ++ t)) hrest.symm

/-- Looking at the unconsumed bytes answers what the reference says, in each outcome:
nothing yet, a refusal, or the first request of what is there. -/
theorem process_input_framed {env : Environment H} {self after : TcpConnection H} {limits_ : HttpLimits}
    {delivered : Bytes} (hvalid : limits_.validate = .ok ()) (hready : self.Ready)
    (hlimits : self.limits_ = limits_) (hrunning : self.draining_ = false)
    (hheads : self.phase_ = .body → ∃ stop req, Heads self stop req)
    (hstream : ∀ t, frame limits_ 0 (delivered ++ t) =
      answers self.log ++ frame limits_ self.requests_ (self.unconsumed ++ t))
    (hrun : self.process_input env = .ok after) : Framed limits_ delivered after := by
  have hregular := hready.process_input hrun
  have houtcome := process_input_outcome env self
  generalize self.process_input env = result at hrun houtcome
  cases houtcome with
  | idle hphase =>
    obtain hheaders | hbody := hready.phase
    · simp [hheaders] at hphase
    · simp [hbody] at hphase
  | oversized hphase hfind hlong =>
    cases hrun
    rw [hlimits] at hlong
    refine fail_framed self 431 hready hlimits hrunning (by omega) fun t => ?_
    rw [hstream t, frame_oversized hfind hlong]
    rfl
  | headless hphase hfind hshort =>
    cases hrun
    rw [hlimits] at hshort
    exact read_more_framed hready hlimits hrunning hheads (frame_headless hfind hshort) hstream
  | refused stop status hphase hfind hparse hstatus =>
    cases hrun
    rw [hlimits] at hparse
    refine fail_framed { self with header_size_ := stop + 4 } status ?_ hlimits hrunning
      (supported_of_parseFailure hstatus) fun t => ?_
    · exact ⟨⟨hready.inBounds.ordered, hready.inBounds.inside, hready.inBounds.room⟩,
        fun hbody => absurd (hphase.symm.trans hbody) (by simp), hready.phase, hready.pending⟩
    · rw [hstream t, frame_refused hfind hparse]
  | displaced => cases hrun
  | awaits base hbase hshort =>
    cases hrun
    obtain ⟨stop, req, h⟩ := hbase.heads hheads
    obtain ⟨hbaselimits, hlog, hrequests, hdraining⟩ := hbase.same
    have htotal := h.total (by rw [hbaselimits, hlimits]; exact hvalid)
    rw [← hbase.unconsumed] at hshort hstream
    rw [htotal] at hshort
    have hparse := h.parse
    rw [hbaselimits, hlimits] at hparse
    refine read_more_framed (hbase.ready hready) (hbaselimits.trans hlimits) (hdraining.trans hrunning)
      (fun _ => ⟨stop, req, h⟩) ?_ fun t => ?_
    · exact frame_awaits h.find hparse hshort
    · rw [hstream t, hlog, hrequests]
  | complete base hbase hhead hsize =>
    obtain ⟨stop, req, h⟩ := hbase.heads hheads
    obtain ⟨hbaselimits, hlog, hrequests, hdraining⟩ := hbase.same
    rw [← hbase.unconsumed] at hsize hstream
    refine respond_framed hvalid hregular (hbase.inBounds hready.inBounds) (hbaselimits.trans hlimits)
      (hdraining.trans hrunning) h hsize (fun t => ?_) hrun
    rw [hstream t, hlog, hrequests]

/-- A step answers what the reference says about the bytes that it brings. What is
owed is the framing of the bytes that are unconsumed and still to come; answers move
from there to the log. -/
theorem Framed.step {self after : TcpConnection H} {label : Label H} {limits_ : HttpLimits}
    {delivered : Bytes} (h : Framed limits_ delivered self) (hvalid : limits_.validate = .ok ())
    (hlabel : label.event.completes) (hstep : self.Step label after) :
    Framed limits_ (delivered ++ label.event.bytes) after := by
  have hregular := h.regular.step hstep
  have hpositive : 0 < limits_.max_header_bytes := by
    have hfour := (HttpLimits.validate_ok hvalid).1
    omega
  cases step_cases h.regular hstep with
  | stopped force hevent =>
    rw [hevent] at hlabel
    exact hlabel.elim
  | ignored mem pending hphase =>
    refine ⟨hregular, h.limits, h.running, fun hbody => absurd (hphase.symm.trans hbody) (by simp),
      fun hopen => ?_, fun t => ?_⟩
    · exact absurd hopen (by simp [hphase])
    · rw [List.append_assoc, h.stream, owed_closed hphase, owed_closed (by exact hphase)]
  | closed before hbefore hwhy =>
    obtain ⟨hevent, hphase, hclose⟩ : label.event = .written ∧ self.phase_ = .writing ∧
        self.close_after_write_ = true := by
      obtain hevent | hevent | ⟨hevent, hphase, hclose⟩ := hwhy
      · rw [hevent] at hlabel
        exact hlabel.elim
      · rw [hevent] at hlabel
        exact hlabel.elim
      · exact ⟨hevent, hphase, by simpa [h.running] using hclose⟩
    have hsame : before.phase_ = self.phase_ ∧ before.limits_ = self.limits_ ∧
        before.draining_ = self.draining_ ∧ before.log = self.log := by
      rw [hbefore]
      exact ⟨rfl, rfl, rfl, rfl⟩
    obtain ⟨hopen, hlimits, hrunning, hlog⟩ := hsame
    rw [close, if_neg (by simp [hopen, hphase])] at hregular ⊢
    rw [hevent, Event.bytes_written, List.append_nil]
    refine ⟨hregular, hlimits.trans h.limits, hrunning.trans h.running, fun hbody => (by cases hbody),
      fun hphase => ?_, fun t => ?_⟩
    · obtain hphase | hphase := hphase <;> cases hphase
    · have hnothing : self.owed t = [] := if_pos (.inr ⟨hphase, hclose⟩)
      have hanswers : answers (self.log ++ if before.on_close_ then [.on_close before.id_] else []) =
          answers self.log := by
        split_ifs <;> simp [answers]
      rw [h.stream, hnothing, owed_closed (by rfl), hlog, hanswers]
  | received chunk _ hevent hphase hroom hrun =>
    obtain ⟨hready, hunconsumed⟩ := h.regular.arrived hphase hroom
    rw [hevent, Event.bytes]
    refine process_input_framed hvalid hready h.limits h.running (fun hbody => ?_) (fun t => ?_) hrun
    · obtain ⟨stop, req, hheads⟩ := h.heads hbody
      exact ⟨stop, req, hheads.extend hunconsumed rfl rfl rfl rfl⟩
    · rw [List.append_assoc, h.stream, owed_reading hphase, hunconsumed, List.append_assoc, h.limits]
      rfl
  | processed _ hevent hphase hopen hrun =>
    rw [hevent, Event.bytes_written, List.append_nil]
    refine process_input_framed hvalid h.regular.resumed h.limits h.running (fun hbody => (by cases hbody))
      (fun t => ?_) hrun
    rw [h.stream, owed_writing hphase hopen.1, h.limits]
    rfl
  | idle hevent hphase hopen hempty =>
    have hnothing : self.resumed.unconsumed = [] := hempty
    rw [hevent, Event.bytes_written, List.append_nil]
    refine read_more_framed h.regular.resumed h.limits h.running (fun hbody => (by cases hbody)) ?_
      fun t => ?_
    · rw [hnothing]
      exact frame_headless (by decide) hpositive
    · rw [h.stream, owed_writing hphase hopen.1, h.limits]
      rfl

/-- The handlers return normally, with a status that can be sent. -/
def Behaved (env : Environment H) : Prop :=
  ∀ handler req, (env.call handler req {}).thrown = none ∧
    200 ≤ (env.call handler req {}).res.status_code ∧ (env.call handler req {}).res.status_code ≤ 599

/-- A handler that returns with a supported status can always be answered. -/
theorem Behaved.serializes {env : Environment H} (h : Behaved env) (self : TcpConnection H) :
    ∃ header, (self.exchange env).2.serialize_headers self.closing = .ok header := by
  refine ⟨_, HttpResponse.serialize_headers_eq self.closing ?_⟩
  rw [exchange_status, handled]
  split
  · next handler req _ =>
    obtain ⟨hreturns, hstatus⟩ := h handler req
    rw [dispatchedStatus, hreturns, if_neg (by simp)]
    omega
  · decide

/-- With such handlers no exception leaves the callback. -/
theorem process_input_ok {env : Environment H} (henv : Behaved env) {self : TcpConnection H}
    (hready : self.Ready) : ∃ after, self.process_input env = .ok after := by
  have houtcome := process_input_outcome env self
  generalize self.process_input env = result at houtcome
  cases houtcome with
  | idle => exact ⟨_, rfl⟩
  | oversized => exact ⟨_, rfl⟩
  | headless => exact ⟨_, rfl⟩
  | refused => exact ⟨_, rfl⟩
  | displaced hphase hlost => exact absurd (hready.head hphase) (Nat.not_le.mpr hlost)
  | awaits => exact ⟨_, rfl⟩
  | complete base =>
    obtain ⟨header, hheader⟩ := henv.serializes base.withBody
    obtain ⟨_, heq⟩ := respond_ok base.total_req_bytes hheader
    exact ⟨_, heq⟩

/-- A completed read of an open connection is dealt with: no exception leaves its
handler, and a closed one ignores it. -/
theorem on_read_ok {env : Environment H} (henv : Behaved env) {self : TcpConnection H} (h : self.Regular)
    {off room : Nat} {pending : List Operation} (hpending : self.pending = .read off room :: pending)
    {chunk : Bytes} (hroom : chunk.length ≤ room) :
    ∃ after, ({ self with pending }.receive off chunk).on_read env false chunk.length = .ok after := by
  obtain hphase | ⟨hphase, rfl, rfl, rfl⟩ := h.read_pending hpending
  · rw [on_read_closed (by exact hphase)]
    exact ⟨_, rfl⟩
  · rw [on_read_open (by exact open_of_reading hphase)]
    exact process_input_ok henv (h.arrived hphase hroom).1

/-- A completed write is dealt with in the same way, also where the connection goes on
with what is in its buffer. -/
theorem on_write_ok {env : Environment H} (henv : Behaved env) {self : TcpConnection H} (h : self.Regular)
    {pending : List Operation} (hpending : self.pending = .write :: pending) :
    ∃ after, on_write env { self with pending } false = .ok after := by
  obtain hphase | ⟨hphase, rfl⟩ := h.write_pending hpending
  · rw [on_write_closed (by exact hphase)]
    exact ⟨_, rfl⟩
  · rw [on_write_open hphase]
    split_ifs
    · exact ⟨_, rfl⟩
    · exact process_input_ok henv h.resumed
    · exact ⟨_, rfl⟩

/-- A failing read closes the connection. -/
theorem on_read_failed (self : TcpConnection H) (env : Environment H) :
    ∃ after, self.on_read env true 0 = .ok after := by
  by_cases hclosed : self.phase_ = .closed
  · exact ⟨self, on_read_closed hclosed env true 0⟩
  · rw [on_read, if_neg hclosed, if_pos rfl]
    exact ⟨_, rfl⟩

/-- A failing write closes the connection. -/
theorem on_write_failed (self : TcpConnection H) (env : Environment H) :
    ∃ after, self.on_write env true = .ok after := by
  by_cases hclosed : self.phase_ = .closed
  · exact ⟨self, on_write_closed hclosed env true⟩
  · rw [on_write, if_neg hclosed]
    exact ⟨_, if_pos (.inl rfl)⟩

/-- With such handlers no exception leaves a callback of a regular connection. -/
theorem Regular.step_ok {self : TcpConnection H} (h : self.Regular) {label : Label H}
    (henv : Behaved label.env) {result : Result (TcpConnection H)} (hstep : self.step label = some result) :
    ∃ after, result = .ok after := by
  obtain ⟨event, env⟩ := label
  rw [TcpConnection.step] at hstep
  dsimp only at hstep henv
  split at hstep
  · next chunk off room pending hpending =>
    split_ifs at hstep with hroom
    cases hstep
    exact on_read_ok henv h hpending hroom
  · cases hstep
    exact on_read_failed _ env
  · next pending hpending =>
    cases hstep
    exact on_write_ok henv h hpending
  · cases hstep
    exact on_write_failed _ env
  · cases hstep
    exact ⟨_, rfl⟩
  · cases hstep

def receivedBytes (labels : List (Label H)) : Bytes := labels.flatMap fun label => label.event.bytes

/-- In every run without a stop or an error, the answers are those of the reference
so far, up to what the connection owes. -/
theorem framed_of_run {env : Environment H} {dispatcher_ : core.RequestDispatcher H} {limits_ : HttpLimits}
    {id_ : Nat} {first final : TcpConnection H} {labels : List (Label H)} (hvalid : limits_.validate = .ok ())
    (hstart : ({ dispatcher_, limits_, id_ } : TcpConnection H).start env = .ok first)
    (hrun : Run Step first labels final) (hlabels : ∀ label ∈ labels, label.event.completes) :
    Framed limits_ (receivedBytes labels) final := by
  rw [start_eq env dispatcher_ limits_ id_] at hstart
  have hfirst : Framed limits_ [] first :=
    process_input_framed hvalid (accepted_ready dispatcher_ limits_ id_) rfl rfl (fun hbody => (by cases hbody))
      (fun _ => rfl) hstart
  refine hrun.invariant (fun labels conn => (∀ label ∈ labels, label.event.completes) →
    Framed limits_ (receivedBytes labels) conn) (fun _ => hfirst) ?_ hlabels
  intro labels before label after hbefore hstep hall
  have hnext := (hbefore fun label hmem => hall label (List.mem_append_left _ hmem)).step hvalid
    (hall label (List.mem_append_right _ (List.mem_singleton_self label))) hstep
  rw [receivedBytes, List.flatMap_append, List.flatMap_singleton]
  exact hnext

/-- A connection that owes nothing more has answered a stream as the reference says. -/
theorem Framed.answers_eq {limits_ : HttpLimits} {delivered s : Bytes} {self : TcpConnection H}
    (h : Framed limits_ delivered self) (hwritten : self.phase_ ≠ .writing) (hdelivered : delivered <+: s)
    (hall : self.phase_ ≠ .closed → delivered = s) : answers self.log = frame limits_ 0 s := by
  obtain ⟨t, rfl⟩ := hdelivered
  suffices hnothing : self.owed t = [] by rw [h.stream t, hnothing, List.append_nil]
  by_cases hclosed : self.phase_ = .closed
  · exact owed_closed hclosed t
  · have ht : t = [] := List.self_eq_append_right.mp (hall hclosed)
    have hreading : self.phase_ = .headers ∨ self.phase_ = .body := by
      cases hphase : self.phase_ with
      | headers => exact .inl rfl
      | body => exact .inr rfl
      | writing => exact absurd hphase hwritten
      | closed => exact absurd hphase hclosed
    rw [owed_reading hreading, ht, List.append_nil, h.limits]
    exact h.waiting hreading

/-- However a stream is cut into reads, and whenever writes complete, the requests
dispatched and the failure answered are those of the one-pass reference. -/
theorem answers_eq_frame {env : Environment H} {dispatcher_ : core.RequestDispatcher H}
    {limits_ : HttpLimits} {first final : TcpConnection H} {labels : List (Label H)}
    (hvalid : limits_.validate = .ok ())
    (hstart : ({ dispatcher_, limits_ } : TcpConnection H).start env = .ok first)
    (hrun : Run Step first labels final)
    (hlabels : ∀ label ∈ labels, label.event.completes ∧ Behaved label.env) :
    (∀ s, receivedBytes labels <+: s → (final.phase_ ≠ .closed → receivedBytes labels = s) →
      final.phase_ ≠ .writing → answers final.log = frame limits_ 0 s) ∧
    ∀ label result, label.event.completes → Behaved label.env → final.step label = some result →
      ∃ after, result = .ok after := by
  have hregular := regular_of_run hstart hrun
  refine ⟨fun s hdelivered hall hwritten => ?_, fun label result _ henv hstep =>
    hregular.step_ok henv hstep⟩
  rw [start_eq] at hstart
  have hfirst : Framed limits_ [] first :=
    process_input_framed hvalid (accepted_ready dispatcher_ limits_) rfl rfl (fun hbody => (by cases hbody))
      (fun _ => rfl) hstart
  have hfinal := hrun.invariant
    (fun labels conn => (∀ label ∈ labels, label.event.completes ∧ Behaved label.env) →
      Framed limits_ (receivedBytes labels) conn) (fun _ => hfirst) ?_ hlabels
  · obtain ⟨t, rfl⟩ := hdelivered
    have hnothing : final.owed t = [] := by
      by_cases hclosed : final.phase_ = .closed
      · exact owed_closed hclosed t
      · have ht : t = [] := List.self_eq_append_right.mp (hall hclosed)
        have hreading : final.phase_ = .headers ∨ final.phase_ = .body := by
          cases hphase : final.phase_ with
          | headers => exact .inl rfl
          | body => exact .inr rfl
          | writing => exact absurd hphase hwritten
          | closed => exact absurd hphase hclosed
        rw [owed_reading hreading, ht, List.append_nil, hfinal.limits]
        exact hfinal.waiting hreading
    rw [hfinal.stream t, hnothing, List.append_nil]
  · intro labels before label after hbefore hstep hall
    have hlabel := hall label (List.mem_append_right _ (List.mem_singleton_self label))
    have hnext := (hbefore fun label hmem => hall label (List.mem_append_left _ hmem)).step hvalid
      hlabel.1 hstep
    rw [receivedBytes, List.flatMap_append, List.flatMap_singleton]
    exact hnext

/-- Two requests in three reads, the end of the first head split between two. -/
def homeReads : List (Label Unit) :=
  [⟨.read (homeRequest.take 25), answering greeting⟩,
    ⟨.read (homeRequest.drop 25 ++ homeRequest.take 4), answering greeting⟩,
    ⟨.written, answering greeting⟩, ⟨.read (homeRequest.drop 4), answering greeting⟩,
    ⟨.written, answering greeting⟩]

theorem answers_eq_frame_home :
    ∃ final, Run Step (async_read_some { dispatcher_ := homePage, limits_ := .defaults }) homeReads final ∧
      answers final.log = frame .defaults 0 (homeRequest ++ homeRequest) := by
  have hstart := start_reading (answering greeting) homePage .defaults (by decide)
  obtain ⟨final, hrun, hphase⟩ := exists_run_of_check
    (async_read_some { dispatcher_ := homePage, limits_ := .defaults }) homeReads
    (fun final => final.phase_ = .headers) (by decide +kernel)
  have hbytes : receivedBytes homeReads = homeRequest ++ homeRequest := by decide +kernel
  have hlabels : ∀ label ∈ homeReads, label.event.completes ∧ Behaved label.env := by
    have hstatus : 200 ≤ greeting.status_code ∧ greeting.status_code ≤ 599 := by decide
    have henv : Behaved (answering greeting) := fun _ _ => ⟨rfl, hstatus⟩
    simp [homeReads, Event.completes, henv]
  refine ⟨final, hrun, (answers_eq_frame HttpLimits.validate_defaults hstart hrun hlabels).1 _ ?_
    (fun _ => hbytes) (by simp [hphase])⟩
  rw [hbytes]

end octane.transport.TcpConnection
