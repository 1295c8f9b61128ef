import Octane.HttpParser.Acceptance
import Octane.Transport.Persistence
import Octane.Transport.Views

open search transition

namespace octane.transport.TcpConnection

variable {H : Type}

/-- A request as it is dispatched has the values that its head was parsed to,
whatever has become of its views, a body as long as they announce, and no
parameters yet. -/
structure SameValues (seen req : HttpRequest) : Prop where
  method : seen.method = req.method
  keep_alive : seen.keep_alive = req.keep_alive
  content_type : seen.content_type = req.content_type
  content_length : seen.content_length = req.content_length
  body : seen.body.length = req.content_length
  params : seen.params = {}

/-- What a connection does at a time, after `count` requests and in a run with these labels. -/
inductive Segment (dispatcher_ : core.RequestDispatcher H) (limits_ : HttpLimits) (labels : List (Label H))
    (count : Nat) : List Effect → Prop where
  | reads (room : Nat) : Segment dispatcher_ limits_ labels count [.async_read_some room]
  | closes (id : Nat) : Segment dispatcher_ limits_ labels count [.on_close id]
  | fails (status : Nat) (header : Bytes) (hstatus : status ∈ HttpParser.parseFailures)
      (hhead : (failure status).serialize_headers true = .ok header) :
      Segment dispatcher_ limits_ labels count [.fail status, .async_write header (failure status).body]
  | answers (block : Bytes) (seen req req' : HttpRequest) (close : Bool) (response : HttpResponse)
      (header : Bytes) (label : Label H) (hlabel : label ∈ labels)
      (hparse : HttpParser.parse_headers block limits_ = .ok req) (hvalues : SameValues seen req)
      (hlast : lastRequest limits_ count req = true → close = true)
      (hclose : close = true → lastRequest limits_ count req = true ∨ StopRequested labels)
      (hresponse : dispatcher_.dispatch_response label.env.call seen close = (req', response))
      (hhead : response.serialize_headers close = .ok header) :
      Segment dispatcher_ limits_ labels count
        [.dispatch_response block seen close response, .async_write header (payload req' response)]

/-- A history that a connection can have. -/
inductive Transcript (dispatcher_ : core.RequestDispatcher H) (limits_ : HttpLimits)
    (labels : List (Label H)) : List Effect → Prop where
  | nil : Transcript dispatcher_ limits_ labels []
  | snoc {log effects : List Effect} (before : Transcript dispatcher_ limits_ labels log)
      (segment : Segment dispatcher_ limits_ labels (dispatched log) effects) :
      Transcript dispatcher_ limits_ labels (log ++ effects)

variable {dispatcher_ : core.RequestDispatcher H} {limits_ : HttpLimits} {labels : List (Label H)}

/-- A segment of a run is one of a longer run. -/
theorem Segment.extend {count : Nat} {effects : List Effect} (label : Label H)
    (h : Segment dispatcher_ limits_ labels count effects) :
    Segment dispatcher_ limits_ (labels ++ [label]) count effects := by
  cases h with
  | reads room => exact .reads room
  | closes id => exact .closes id
  | fails status header hstatus hhead => exact .fails status header hstatus hhead
  | answers block seen req req' close response header other hother hparse hvalues hlast hclose hresponse hhead =>
    refine .answers block seen req req' close response header other (List.mem_append_left _ hother) hparse
      hvalues hlast (fun h => ?_) hresponse hhead
    exact (hclose h).imp_right fun hstop => (stopRequested_snoc labels label).mpr (.inl hstop)

theorem Transcript.extend {log : List Effect} (label : Label H)
    (h : Transcript dispatcher_ limits_ labels log) :
    Transcript dispatcher_ limits_ (labels ++ [label]) log := by
  induction h with
  | nil => exact .nil
  | snoc _ segment ih => exact ih.snoc (segment.extend label)

/-- The request under way is the one that the current head was parsed to. -/
structure Taken (conn : TcpConnection H) (req : HttpRequest) : Prop where
  parse : HttpParser.parse_headers conn.origin.block conn.limits_ = .ok req
  request : conn.request_ = req.mapViews (StringView.shift conn.origin.pos)
  size : conn.header_size_ + req.content_length < 2 ^ 64

/-- A connection that has gone on as a transcript says. -/
structure Told (dispatcher_ : core.RequestDispatcher H) (limits_ : HttpLimits) (labels : List (Label H))
    (conn : TcpConnection H) : Prop where
  transcript : Transcript dispatcher_ limits_ labels conn.log
  dispatcher : conn.dispatcher_ = dispatcher_
  taken : conn.phase_ = .body → ∃ req, conn.Taken req

/-- A head that has been parsed was taken on under the limits. -/
theorem Headed.taken {self base : TcpConnection H} (h : Headed self base)
    (hvalid : self.limits_.validate = .ok ()) (hself : self.phase_ = .body → ∃ req, self.Taken req) :
    ∃ req, base.Taken req := by
  cases h with
  | waiting hphase => exact hself hphase
  | parsed stop req hphase hfind hparse =>
    refine ⟨req, hparse, rfl, ?_⟩
    obtain ⟨_, hfits, _⟩ := HttpLimits.validate_ok hvalid
    obtain ⟨hsize, hbody⟩ := parse_headers_bounds hparse
    have hinside : stop + 4 ≤ self.unconsumed.length := findSub_add_length_le hfind
    rw [List.length_take, Nat.min_eq_left hinside] at hsize
    change stop + 4 + req.content_length < 2 ^ 64
    omega

/-- The values of a request that is complete are those of its head. -/
theorem Taken.sameValues {base : TcpConnection H} {req : HttpRequest} (h : base.Taken req)
    (hcomplete : base.total_req_bytes ≤ base.unconsumed.length) (freed : Nat → UInt8) :
    SameValues (base.withBody.observe freed) req := by
  have hlength : base.request_.content_length = req.content_length := congrArg (·.content_length) h.request
  have htotal : base.total_req_bytes = base.header_size_ + req.content_length := by
    rw [total_req_bytes, hlength]
    exact Nat.mod_eq_of_lt h.size
  have hparams : base.request_.params = {} := by
    rw [h.request]
    exact congrArg (UnorderedMap.mapEntries _ _) (HttpParser.parse_headers_params h.parse)
  refine ⟨congrArg (·.method) h.request, congrArg (·.keep_alive) h.request,
    congrArg (·.content_type) h.request, hlength, ?_, congrArg (UnorderedMap.mapEntries _ _) hparams⟩
  change ((base.unconsumed.drop base.header_size_).take base.request_.content_length).length = _
  rw [List.length_take, List.length_drop, hlength]
  omega

/-- What a connection that looks at its bytes answers is a segment of a transcript. -/
theorem respond_segment {base after : TcpConnection H} {label : Label H} {count : Nat} {req : HttpRequest}
    (hlabel : label ∈ labels) (hdispatcher : base.dispatcher_ = dispatcher_) (hlimits : base.limits_ = limits_)
    (hdraining : base.draining_ = true → StopRequested labels) (hcount : base.requests_ = count)
    (h : base.Taken req) (hcomplete : base.total_req_bytes ≤ base.unconsumed.length)
    (hrun : base.withBody.respond label.env base.total_req_bytes = .ok after) :
    ∃ effects, after.log = base.log ++ effects ∧ Segment dispatcher_ limits_ labels count effects := by
  have hkeep : base.withBody.request_.keep_alive = req.keep_alive := congrArg (·.keep_alive) h.request
  have hflag : base.withBody.closing = (base.draining_ || lastRequest limits_ count req) := by
    rw [closing, hkeep, lastRequest, ← hlimits, ← hcount, ← Bool.or_assoc]
    rfl
  obtain ⟨header, _, hhead, rfl⟩ := respond_inv hrun
  have hparse := h.parse
  rw [hlimits] at hparse
  refine ⟨_, rfl, .answers base.origin.block _ req (base.withBody.exchange label.env).1 base.withBody.closing _
    header label hlabel hparse (h.sameValues hcomplete label.env.freed) (fun hlast => ?_) (fun hclose => ?_) ?_
    hhead⟩
  · rw [hflag, hlast, Bool.or_true]
  · rw [hflag, Bool.or_eq_true] at hclose
    exact hclose.symm.imp_right hdraining
  · rw [← hdispatcher]
    rfl

/-- A callback on the input adds one segment to the log: a read, a failure, or the
answer to a request that it shows with the values of its head. -/
theorem process_input_segment {self after : TcpConnection H} {label : Label H} {count : Nat}
    (hlabel : label ∈ labels) (hready : self.Ready) (hvalid : limits_.validate = .ok ())
    (hdispatcher : self.dispatcher_ = dispatcher_) (hlimits : self.limits_ = limits_)
    (hdraining : self.draining_ = true → StopRequested labels) (hcount : self.requests_ = count)
    (htaken : self.phase_ = .body → ∃ req, self.Taken req)
    (hrun : self.process_input label.env = .ok after) :
    (∃ effects, after.log = self.log ++ effects ∧ Segment dispatcher_ limits_ labels count effects) ∧
      after.dispatcher_ = dispatcher_ ∧ (after.phase_ = .body → ∃ req, after.Taken req) := by
  have hopen := open_of_reading hready.phase
  have houtcome := process_input_outcome label.env self
  generalize self.process_input label.env = result at hrun houtcome
  cases houtcome with
  | idle hphase =>
    obtain hheaders | hbody := hready.phase
    · simp [hheaders] at hphase
    · simp [hbody] at hphase
  | oversized =>
    cases hrun
    obtain ⟨header, hhead, heq⟩ := fail_eq self 431 hopen (by decide)
    rw [heq]
    exact ⟨⟨_, rfl, .fails 431 header (by decide) hhead⟩, hdispatcher, fun hbody => by cases hbody⟩
  | headless hphase =>
    cases hrun
    obtain ⟨room, hlog⟩ := self.read_more_log
    refine ⟨⟨_, hlog, .reads room⟩, ?_, fun hbody => ?_⟩
    · rw [read_more_frame]
      exact hdispatcher
    · rw [read_more_frame] at hbody
      exact absurd (hphase.symm.trans hbody) (by simp)
  | refused stop status _ _ _ hstatus =>
    cases hrun
    obtain ⟨header, hhead, heq⟩ := fail_eq { self with header_size_ := stop + 4 } status hopen
      (supported_of_parseFailure hstatus)
    rw [heq]
    exact ⟨⟨_, rfl, .fails status header hstatus hhead⟩, hdispatcher, fun hbody => by cases hbody⟩
  | displaced => cases hrun
  | awaits base hbase =>
    cases hrun
    obtain ⟨hsame, hlog, _⟩ := hbase.same
    obtain ⟨req, hreq⟩ := hbase.taken (by rw [hlimits]; exact hvalid) htaken
    obtain ⟨room, hmore⟩ := base.read_more_log
    refine ⟨⟨_, hmore.trans (congrArg (· ++ _) hlog), .reads room⟩, ?_, fun _ => ⟨req, ?_⟩⟩
    · rw [read_more_frame, hbase.frame]
      exact hdispatcher
    · rw [read_more_frame]
      exact ⟨hreq.parse, hreq.request, hreq.size⟩
  | complete base hbase _ hsize =>
    obtain ⟨hsame, hlog, hrequests, hstops⟩ := hbase.same
    obtain ⟨req, hreq⟩ := hbase.taken (by rw [hlimits]; exact hvalid) htaken
    have hbasedispatcher : base.dispatcher_ = dispatcher_ := by
      rw [hbase.frame]
      exact hdispatcher
    rw [← hbase.unconsumed] at hsize
    obtain ⟨effects, heffects, hsegment⟩ := respond_segment hlabel hbasedispatcher (hsame.trans hlimits)
      (fun h => hdraining (hstops.symm.trans h)) (hrequests.trans hcount) hreq hsize hrun
    refine ⟨⟨effects, heffects.trans (congrArg (· ++ effects) hlog), hsegment⟩, ?_⟩
    obtain ⟨_, _, _, rfl⟩ := respond_inv hrun
    exact ⟨hbasedispatcher, fun hbody => by cases hbody⟩

/-- A connection that closes calls `on_close_` or does nothing more. -/
theorem Transcript.close {self : TcpConnection H} (h : Transcript dispatcher_ limits_ labels self.log) :
    Transcript dispatcher_ limits_ labels self.close.log := by
  rw [TcpConnection.close]
  split_ifs with hclosed hcallback
  · exact h
  · exact h.snoc (.closes self.id_)
  · rw [List.append_nil]
    exact h

/-- A connection that closes adds its call of `on_close_`. -/
theorem Told.close {self before : TcpConnection H} (h : Told dispatcher_ limits_ labels self)
    (hlog : before.log = self.log) (hdispatcher : before.dispatcher_ = self.dispatcher_) :
    Told dispatcher_ limits_ labels before.close := by
  refine ⟨Transcript.close (hlog ▸ h.transcript), ?_, fun hbody => ?_⟩
  · rw [close_frame]
    exact hdispatcher.trans h.dispatcher
  · rw [close_frame] at hbody
    cases hbody

theorem Told.extend {self : TcpConnection H} (label : Label H) (h : Told dispatcher_ limits_ labels self) :
    Told dispatcher_ limits_ (labels ++ [label]) self :=
  ⟨h.transcript.extend label, h.dispatcher, h.taken⟩

/-- A step goes on as a transcript does: it adds one segment, or nothing. -/
theorem Told.step {self after : TcpConnection H} {label : Label H} (h : Told dispatcher_ limits_ labels self)
    (hvalid : limits_.validate = .ok ()) (hpersistent : Persistent limits_ labels self)
    (hstep : self.Step label after) : Told dispatcher_ limits_ (labels ++ [label]) after := by
  have hmember : label ∈ labels ++ [label] := List.mem_append_right _ (List.mem_singleton_self label)
  have hstops : self.draining_ = true → StopRequested (labels ++ [label]) := fun hdraining =>
    (stopRequested_snoc labels label).mpr (.inl (hpersistent.draining.mp hdraining))
  have hcount : ¬ self.finished → self.requests_ = dispatched self.log := fun hopen =>
    (hpersistent.counted hopen).1
  have hgrown := h.extend label
  cases step_cases hpersistent.regular hstep with
  | stopped force =>
    obtain ⟨_, heq⟩ | ⟨_, _, heq⟩ := self.stop_cases force
    · rw [heq]
      exact hgrown.close rfl rfl
    · rw [heq]
      refine ⟨hgrown.transcript, hgrown.dispatcher, fun hbody => ?_⟩
      obtain ⟨req, hreq⟩ := h.taken hbody
      exact ⟨req, hreq.parse, hreq.request, hreq.size⟩
  | ignored mem pending hphase =>
    exact ⟨hgrown.transcript, hgrown.dispatcher, fun hbody => absurd (hphase.symm.trans hbody) (by simp)⟩
  | closed before hbefore =>
    rw [hbefore]
    exact hgrown.close rfl rfl
  | received chunk _ hevent hphase hroom hrun =>
    have hcompletion := hpersistent.regular.arrived_completion hevent hphase hroom
    obtain ⟨⟨effects, hlog, hsegment⟩, hdispatcher, htaken⟩ := process_input_segment hmember hcompletion.ready
      hvalid h.dispatcher hpersistent.limits hstops (hcount hcompletion.open) (fun hbody => by
        obtain ⟨req, hreq⟩ := h.taken hbody
        exact ⟨req, hreq.parse, hreq.request, hreq.size⟩) hrun
    exact ⟨hlog ▸ hgrown.transcript.snoc hsegment, hdispatcher, htaken⟩
  | processed _ hevent hphase hopen hrun =>
    have hcompletion := hpersistent.regular.resumed_completion hevent hphase hopen
    obtain ⟨⟨effects, hlog, hsegment⟩, hdispatcher, htaken⟩ := process_input_segment hmember hcompletion.ready
      hvalid h.dispatcher hpersistent.limits hstops (hcount hcompletion.open) (fun hbody => by cases hbody) hrun
    exact ⟨hlog ▸ hgrown.transcript.snoc hsegment, hdispatcher, htaken⟩
  | idle hevent hphase hopen =>
    obtain ⟨room, hlog⟩ := self.resumed.read_more_log
    refine ⟨hlog ▸ hgrown.transcript.snoc (.reads room), ?_, fun hbody => ?_⟩
    · rw [read_more_frame]
      exact h.dispatcher
    · rw [read_more_frame] at hbody
      cases hbody

/-- In every run a connection goes on as a transcript says. -/
theorem told_of_run {env : Environment H} {id_ : Nat} {first final : TcpConnection H}
    (hvalid : limits_.validate = .ok ())
    (hstart : ({ dispatcher_, limits_, id_ } : TcpConnection H).start env = .ok first)
    (hrun : Run Step first labels final) : Told dispatcher_ limits_ labels final := by
  have hheaders := (HttpLimits.validate_ok hvalid).1
  have hfirst : Told dispatcher_ limits_ [] first := by
    rw [start_reading env dispatcher_ limits_ (by omega) id_] at hstart
    cases hstart
    exact ⟨.snoc .nil (.reads _), rfl, fun hbody => by cases hbody⟩
  exact (hrun.invariant (fun labels conn => Persistent limits_ labels conn ∧ Told dispatcher_ limits_ labels conn)
    ⟨start_persistent hvalid hstart, hfirst⟩
    fun _ _ _ _ h hstep => ⟨h.1.step hstep, h.2.step hvalid h.1 hstep⟩).2

end octane.transport.TcpConnection
