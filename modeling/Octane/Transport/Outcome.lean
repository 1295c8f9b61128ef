import Octane.HttpParser.Safety
import Octane.HttpResponse.Head
import Octane.Transport.Buffer

open search

namespace octane.transport.TcpConnection

variable {H : Type}

/-- The connection once the head that ends at `stop` has been parsed. -/
def parsedHead (self : TcpConnection H) (stop : Nat) (req : HttpRequest) : TcpConnection H :=
  { self with
    header_size_ := stop + 4
    request_ := req.mapViews (StringView.shift self.read_pos_)
    origin := {
      block := self.unconsumed.take (stop + 4), pos := self.read_pos_, alloc := self.buffer_.alloc }
    phase_ := .body }

/-- The connection with the head of its request, parsed earlier or in this turn. -/
inductive Headed (self : TcpConnection H) : TcpConnection H → Prop where
  | waiting (hphase : self.phase_ = .body) : Headed self self
  | parsed (stop : Nat) (req : HttpRequest) (hphase : self.phase_ = .headers)
      (hfind : findSub CRLFCRLF self.unconsumed = some stop)
      (hparse : HttpParser.parse_headers (self.unconsumed.take (stop + 4)) self.limits_ = .ok req) :
      Headed self (self.parsedHead stop req)

/-- The connection whose request has its body. -/
def withBody (self : TcpConnection H) : TcpConnection H :=
  { self with request_ := { self.request_ with
      body := (self.unconsumed.drop self.header_size_).take self.request_.content_length } }

/-- What one turn of `process_input` can come to. -/
inductive Outcome (env : Environment H) (self : TcpConnection H) : Result (TcpConnection H) → Prop where
  | idle (hphase : self.phase_ = .closed ∨ self.phase_ = .writing) : Outcome env self (.ok self)
  | oversized (hphase : self.phase_ = .headers) (hfind : findSub CRLFCRLF self.unconsumed = none)
      (hlong : self.limits_.max_header_bytes ≤ self.unconsumed.length) :
      Outcome env self (.ok (self.fail 431))
  | headless (hphase : self.phase_ = .headers) (hfind : findSub CRLFCRLF self.unconsumed = none)
      (hshort : self.unconsumed.length < self.limits_.max_header_bytes) :
      Outcome env self (.ok self.read_more)
  | refused (stop status : Nat) (hphase : self.phase_ = .headers)
      (hfind : findSub CRLFCRLF self.unconsumed = some stop)
      (hparse : HttpParser.parse_headers (self.unconsumed.take (stop + 4)) self.limits_ =
        .error (.HttpParseError status))
      (hstatus : status ∈ HttpParser.parseFailures) :
      Outcome env self (.ok ({ self with header_size_ := stop + 4 }.fail status))
  | displaced (hphase : self.phase_ = .body) (hlost : self.unconsumed.length < self.header_size_) :
      Outcome env self (.error .out_of_range)
  | awaits (base : TcpConnection H) (hbase : Headed self base)
      (hshort : self.unconsumed.length < base.total_req_bytes) : Outcome env self (.ok base.read_more)
  | complete (base : TcpConnection H) (hbase : Headed self base)
      (hhead : base.header_size_ ≤ self.unconsumed.length)
      (htotal : base.total_req_bytes ≤ self.unconsumed.length) :
      Outcome env self (base.withBody.respond env base.total_req_bytes)

theorem Headed.phase {self base : TcpConnection H} (h : Headed self base) : base.phase_ = .body := by
  cases h with
  | waiting hphase => exact hphase
  | parsed stop req => rfl

/-- Parsing a head leaves the buffer and the history as they are. -/
theorem Headed.frame {self base : TcpConnection H} (h : Headed self base) :
    base = { self with
      header_size_ := base.header_size_
      request_ := base.request_
      origin := base.origin
      phase_ := .body } := by
  cases h with
  | waiting hphase => rw [← hphase]
  | parsed stop req => rfl

/-- Parsing the head changes none of these. -/
theorem Headed.same {self base : TcpConnection H} (h : Headed self base) :
    base.limits_ = self.limits_ ∧ base.log = self.log ∧ base.requests_ = self.requests_ ∧
      base.draining_ = self.draining_ := by
  rw [h.frame]
  exact ⟨rfl, rfl, rfl, rfl⟩

/-- The head is still in front of its body. -/
theorem Headed.unconsumed {self base : TcpConnection H} (h : Headed self base) :
    base.unconsumed = self.unconsumed := by
  rw [h.frame]
  rfl

/-- Parsing the head moves no position. -/
theorem Headed.inBounds {self base : TcpConnection H} (h : Headed self base) (hself : self.InBounds) :
    base.InBounds := by
  rw [h.frame]
  exact ⟨hself.ordered, hself.inside, hself.room⟩

/-- Once the body is there the request is answered. -/
theorem process_body_complete (env : Environment H) {base : TcpConnection H}
    (hhead : base.header_size_ ≤ base.unconsumed.length)
    (htotal : base.total_req_bytes ≤ base.unconsumed.length) :
    base.process_body env = base.withBody.respond env base.total_req_bytes := by
  have hsize : base.header_size_ ≤ (StringView.ofBytes base.unconsumed).size := hhead
  rw [process_body, if_neg (by omega), StringView.substr_of_le hsize, bind_ok]
  rfl

/-- With the head parsed, the body is complete or it is waited for. -/
theorem process_body_outcome (env : Environment H) {self base : TcpConnection H}
    (hbase : Headed self base) : Outcome env self (base.process_body env) := by
  have hsame := hbase.unconsumed
  by_cases hshort : self.unconsumed.length < base.total_req_bytes
  · rw [process_body, if_pos (by rwa [hsame])]
    exact .awaits base hbase hshort
  · by_cases hhead : base.header_size_ ≤ self.unconsumed.length
    · rw [process_body_complete env (by rwa [hsame]) (by rw [hsame]; omega)]
      exact .complete base hbase hhead (by omega)
    · cases hbase with
      | waiting hphase =>
        have hlost : (StringView.ofBytes self.unconsumed).size < self.header_size_ := Nat.lt_of_not_le hhead
        rw [process_body, if_neg hshort, StringView.substr, if_pos hlost, bind_error]
        exact .displaced hphase hlost
      | parsed stop req hphase hfind => exact absurd (findSub_add_length_le hfind) hhead

/-- What the phase `headers` does with a head that has arrived. -/
theorem process_headers_found {self : TcpConnection H} {stop : Nat}
    (hfind : findSub CRLFCRLF self.unconsumed = some stop) :
    (∃ status ∈ HttpParser.parseFailures,
      HttpParser.parse_headers (self.unconsumed.take (stop + 4)) self.limits_ =
        .error (.HttpParseError status) ∧
      self.process_headers = .ok ({ self with header_size_ := stop + 4 }.fail status, false)) ∨
    ∃ req, HttpParser.parse_headers (self.unconsumed.take (stop + 4)) self.limits_ = .ok req ∧
      self.process_headers = .ok (self.parsedHead stop req, true) := by
  have hsame : ({ self with header_size_ := stop + 4 } : TcpConnection H).unconsumed =
      self.unconsumed := rfl
  have hsafe := HttpParser.parse_headers_safe (self.unconsumed.take (stop + 4)) self.limits_
  rw [process_headers, hfind]
  dsimp only
  rw [hsame]
  cases hparse : HttpParser.parse_headers (self.unconsumed.take (stop + 4)) self.limits_ with
  | error e =>
    rw [hparse] at hsafe
    obtain ⟨status, hstatus, rfl⟩ := hsafe
    exact .inl ⟨status, hstatus, rfl, rfl⟩
  | ok req => exact .inr ⟨req, rfl, rfl⟩

/-- One turn of the loop comes to one of the outcomes, with what led to it. The source
is unfolded here, and the results about turns go through these cases. -/
theorem process_input_outcome (env : Environment H) (self : TcpConnection H) :
    Outcome env self (self.process_input env) := by
  rw [process_input]
  split_ifs with hidle hheaders
  · exact .idle hidle
  · cases hfind : findSub CRLFCRLF self.unconsumed with
    | none =>
      rw [process_headers, hfind]
      dsimp only
      split_ifs with hlong
      · exact .oversized hheaders hfind hlong
      · exact .headless hheaders hfind (by omega)
    | some stop =>
      obtain ⟨status, hstatus, hparse, heq⟩ | ⟨req, hparse, heq⟩ := process_headers_found hfind
      · rw [heq]
        exact .refused stop status hheaders hfind hparse hstatus
      · rw [heq]
        exact process_body_outcome env (.parsed stop req hheaders hfind hparse)
  · cases hphase : self.phase_ with
    | headers => exact absurd hphase hheaders
    | body => exact process_body_outcome env (.waiting hphase)
    | writing => exact absurd (.inr hphase) hidle
    | closed => exact absurd (.inl hphase) hidle

/-- Once its head is parsed, a request is taken on by `process_body`. -/
theorem Headed.process_input_eq {self base : TcpConnection H} (h : Headed self base)
    (env : Environment H) : self.process_input env = base.process_body env := by
  cases h with
  | waiting hphase =>
    rw [process_input, if_neg (by simp [hphase]), if_neg (by simp [hphase])]
  | parsed stop req hphase hfind hparse =>
    obtain ⟨status, _, hrefused, _⟩ | ⟨found, hfound, heq⟩ := process_headers_found hfind
    · rw [hparse] at hrefused
      cases hrefused
    · rw [hparse] at hfound
      cases hfound
      rw [process_input, if_neg (by simp [hphase]), if_pos hphase, heq]
      rfl

/-- A request that is not there as a whole is waited for, with its head kept. -/
theorem Headed.process_input_awaits {self base : TcpConnection H} (h : Headed self base)
    (hshort : self.unconsumed.length < base.total_req_bytes) (env : Environment H) :
    self.process_input env = .ok base.read_more := by
  rw [h.process_input_eq, process_body, if_pos (by rwa [h.unconsumed])]

/-- Asking for more starts one read. -/
theorem read_more_log (self : TcpConnection H) :
    ∃ room, self.read_more.log = self.log ++ [.async_read_some room] := by
  rw [read_more, async_read_some, grow_frame, compact_frame]
  exact ⟨_, rfl⟩

/-- The response to a request that is refused. -/
def failure (status : Int) : HttpResponse :=
  (({} : HttpResponse).status status).text (ascii "Request failed")

/-- A failure with a supported status is one write, after which the connection closes. -/
theorem fail_eq (self : TcpConnection H) (status : Int) (hopen : self.phase_ ≠ .closed)
    (hstatus : ¬ (status < 200 ∨ 599 < status)) :
    ∃ header_payload_, (failure status).serialize_headers true = .ok header_payload_ ∧
      self.fail status = { self with
        header_payload_
        body_payload_ := (failure status).body
        owned_body_storage_ := (failure status).body
        close_after_write_ := true
        phase_ := .writing
        pending := self.pending ++ [.write]
        log := self.log ++ [.fail status, .async_write header_payload_ (failure status).body] } := by
  have hhead : (failure status).serialize_headers true = .ok _ :=
    HttpResponse.serialize_headers_eq true hstatus
  refine ⟨_, hhead, ?_⟩
  have hfailure : (({} : HttpResponse).status status).text (ascii "Request failed") = failure status := rfl
  rw [fail, if_neg hopen, hfailure]
  dsimp only
  rw [hhead]
  dsimp only [write]
  simp only [List.append_assoc, List.cons_append, List.nil_append]

/-- Every status of the parser can be serialized, so that a refusal is always answered. -/
theorem supported_of_parseFailure {status : Nat} (h : status ∈ HttpParser.parseFailures) :
    ¬ ((status : Int) < 200 ∨ 599 < (status : Int)) := by
  simp only [HttpParser.parseFailures, List.mem_cons, List.not_mem_nil, or_false] at h
  omega

/-- The close decision, in one flag. -/
def closing (self : TcpConnection H) : Bool :=
  self.draining_ || !self.request_.keep_alive ||
    decide (self.limits_.max_requests_per_connection ≤ self.requests_ + 1)

/-- The request as its handler leaves it and the response. -/
def exchange (env : Environment H) (self : TcpConnection H) : HttpRequest × HttpResponse :=
  self.dispatcher_.dispatch_response env.call (self.observe env.freed) self.closing

/-- The body bytes written behind the head of a response. -/
def payload (req : HttpRequest) (response : HttpResponse) : Bytes :=
  if req.method = .HEAD then [] else response.active_body

theorem decide_close_frame (self : TcpConnection H) :
    self.decide_close = { self with
      requests_ := self.decide_close.requests_
      close_after_write_ := self.closing } := by
  rw [decide_close, closing]
  split_ifs with hclose
  · obtain hdraining | hkeep := hclose
    · simp [hdraining]
    · simp [hkeep]
  · rw [not_or, not_not] at hclose
    obtain ⟨hdraining, hkeep⟩ := hclose
    simp [hdraining, hkeep]

/-- The request is counted. -/
theorem decide_close_requests {self : TcpConnection H} (h : self.closing = false) :
    self.decide_close.requests_ = self.requests_ + 1 := by
  rw [closing, Bool.or_eq_false_iff, Bool.or_eq_false_iff] at h
  obtain ⟨⟨hdraining, hkeep⟩, _⟩ := h
  rw [decide_close, if_neg (by simpa [hdraining] using hkeep)]

/-- Setting the payload stores what is to be written and nothing else. -/
theorem set_payload_frame (self : TcpConnection H) (header_payload_ : Bytes) (response : HttpResponse) :
    ∃ owned_body_storage_, self.set_payload header_payload_ response = { self with
      header_payload_
      body_payload_ := payload self.request_ response
      owned_body_storage_ } := by
  rw [set_payload, payload, HttpResponse.active_body]
  split_ifs with hhead
  · exact ⟨_, rfl⟩
  · cases response.body_type <;> exact ⟨_, rfl⟩

/-- A complete request as it stands when its response is serialized. -/
def answered (env : Environment H) (self : TcpConnection H) : TcpConnection H :=
  { self with
    requests_ := self.decide_close.requests_
    close_after_write_ := self.closing
    request_ := (self.exchange env).1
    log := self.log ++ [.dispatch_response self.origin.block (self.observe env.freed) self.closing
      (self.exchange env).2] }

/-- The answer to a request as one computation: the exchange with the handler, and
the write if its response can be serialized. -/
theorem respond_eq (env : Environment H) (self : TcpConnection H) (total : Nat) :
    self.respond env total =
      ((self.exchange env).2.serialize_headers self.closing >>= fun header_payload_ =>
        .ok (((self.answered env).consume total).set_payload header_payload_ (self.exchange env).2).write) := by
  have hflag : ((self.answered env).consume total).close_after_write_ = self.closing := by
    rw [consume_frame]
    rfl
  calc
    self.respond env total =
        ((self.exchange env).2.serialize_headers ((self.answered env).consume total).close_after_write_ >>=
          fun header_payload_ => .ok (((self.answered env).consume total).set_payload header_payload_
            (self.exchange env).2).write) := by
      rw [respond, decide_close_frame]
      rfl
    _ = _ := by rw [hflag]

/-- A complete request once its response has been queued. -/
def queued (env : Environment H) (self : TcpConnection H) (total : Nat)
    (header_payload_ owned_body_storage_ : Bytes) : TcpConnection H :=
  { self with
    requests_ := self.decide_close.requests_
    close_after_write_ := self.closing
    request_ := (self.exchange env).1
    read_pos_ := (self.consume total).read_pos_
    write_pos_ := (self.consume total).write_pos_
    header_payload_
    body_payload_ := payload (self.exchange env).1 (self.exchange env).2
    owned_body_storage_
    phase_ := .writing
    pending := self.pending ++ [.write]
    log := self.log ++
      [.dispatch_response self.origin.block (self.observe env.freed) self.closing (self.exchange env).2,
        .async_write header_payload_ (payload (self.exchange env).1 (self.exchange env).2)] }

/-- A request is answered by one write, if its response can be serialized. -/
theorem respond_ok {env : Environment H} {self : TcpConnection H} (total : Nat) {header : Bytes}
    (h : (self.exchange env).2.serialize_headers self.closing = .ok header) :
    ∃ owned_body_storage_, self.respond env total = .ok (self.queued env total header owned_body_storage_) := by
  have hconsume : (self.answered env).consume total = { self.answered env with
      read_pos_ := (self.consume total).read_pos_
      write_pos_ := (self.consume total).write_pos_ } := by
    rw [consume, consume, answered]
    split_ifs <;> rfl
  obtain ⟨owned_body_storage_, hpayload⟩ :=
    ((self.answered env).consume total).set_payload_frame header (self.exchange env).2
  refine ⟨owned_body_storage_, ?_⟩
  rw [respond_eq, h, bind_ok, hpayload, hconsume, write, answered, queued]
  simp only [List.append_assoc, List.cons_append, List.nil_append]

/-- Where an answer is queued, the response has been serialized, and this is the
state it is queued in. -/
theorem respond_inv {env : Environment H} {self after : TcpConnection H} {total : Nat}
    (h : self.respond env total = .ok after) :
    ∃ header owned_body_storage_, (self.exchange env).2.serialize_headers self.closing = .ok header ∧
      after = self.queued env total header owned_body_storage_ := by
  cases hhead : (self.exchange env).2.serialize_headers self.closing with
  | error e =>
    rw [respond_eq, hhead, bind_error] at h
    cases h
  | ok header =>
    obtain ⟨owned_body_storage_, heq⟩ := respond_ok total hhead
    rw [heq] at h
    cases h
    exact ⟨header, owned_body_storage_, rfl, rfl⟩

end octane.transport.TcpConnection
