import Octane.Transport.Framing

open search transition

namespace size_t

/-- Addition of `std::size_t` values, which wraps around as all their arithmetic does. -/
def add (a b : Nat) : Nat := (a + b) % 2 ^ 64

def sub (a b : Nat) : Nat := (a + (2 ^ 64 - b % 2 ^ 64)) % 2 ^ 64

def mul (a b : Nat) : Nat := (a * b) % 2 ^ 64

theorem add_eq {a b : Nat} (h : a + b < 2 ^ 64) : add a b = a + b := Nat.mod_eq_of_lt h

theorem mul_eq {a b : Nat} (h : a * b < 2 ^ 64) : mul a b = a * b := Nat.mod_eq_of_lt h

/-- A difference that is not negative does not wrap around. -/
theorem sub_eq {a b : Nat} (ha : a < 2 ^ 64) (h : b ≤ a) : sub a b = a - b := by
  rw [sub]
  omega

theorem sub_lt (a b : Nat) : sub a b < 2 ^ 64 := Nat.mod_lt _ (by decide)

end size_t

namespace octane.transport

namespace machine

variable {H : Type}

-- The functions of the connection again, with the positions in the buffer computed
-- in `size_t` arithmetic, where nothing is assumed about them.

def unconsumed (self : TcpConnection H) : Bytes :=
  memory.read self.buffer_.mem self.read_pos_ (size_t.sub self.write_pos_ self.read_pos_)

def compact (self : TcpConnection H) : TcpConnection H :=
  if 0 < self.read_pos_ ∧ size_t.sub self.buffer_.size self.write_pos_ < 4096 then
    let remaining := size_t.sub self.write_pos_ self.read_pos_
    { self with
      buffer_ := { self.buffer_ with mem := memory.move self.buffer_.mem 0 self.read_pos_ remaining }
      read_pos_ := 0
      write_pos_ := remaining }
  else self

def grow (self : TcpConnection H) : TcpConnection H :=
  if self.buffer_.size = self.write_pos_ then
    { self with buffer_ := self.buffer_.resize (size_t.mul self.buffer_.size 2) }
  else self

def async_read_some (self : TcpConnection H) : TcpConnection H :=
  let room := size_t.sub self.buffer_.size self.write_pos_
  { self with
    pending := self.pending ++ [.read self.write_pos_ room]
    log := self.log ++ [.async_read_some room] }

def read_more (self : TcpConnection H) : TcpConnection H := async_read_some (grow (compact self))

def process_headers (self : TcpConnection H) : Result (TcpConnection H × Bool) :=
  match findSub CRLFCRLF (unconsumed self) with
  | none =>
    if self.limits_.max_header_bytes ≤ (unconsumed self).length then .ok (self.fail 431, false)
    else .ok (read_more self, false)
  | some stop =>
    let self := { self with header_size_ := size_t.add stop 4 }
    let block := (unconsumed self).take self.header_size_
    match HttpParser.parse_headers block self.limits_ with
    | .error (.HttpParseError status) => .ok (self.fail status, false)
    | .error .undefined_behavior => .error .undefined_behavior
    | .error _ => .ok (self.fail 400, false)
    | .ok req =>
      .ok ({ self with
        request_ := req.mapViews (StringView.shift self.read_pos_)
        origin := { block, pos := self.read_pos_, alloc := self.buffer_.alloc }
        phase_ := .body }, true)

def consume (self : TcpConnection H) (total : Nat) : TcpConnection H :=
  let read_pos_ := size_t.add self.read_pos_ total
  if read_pos_ = self.write_pos_ then { self with read_pos_ := 0, write_pos_ := 0 }
  else { self with read_pos_ }

def respond (env : Environment H) (self : TcpConnection H) (total : Nat) : Result (TcpConnection H) := do
  let self := self.decide_close
  let seen := self.observe env.freed
  let (request_, response) :=
    self.dispatcher_.dispatch_response env.call seen self.close_after_write_
  let self : TcpConnection H :=
    { self with
      request_
      log := self.log ++
        [.dispatch_response self.origin.block seen self.close_after_write_ response] }
  let self := consume self total
  let header_payload_ ← response.serialize_headers self.close_after_write_
  .ok (self.set_payload header_payload_ response).write

def process_body (env : Environment H) (self : TcpConnection H) : Result (TcpConnection H) :=
  let total := self.total_req_bytes
  if (unconsumed self).length < total then .ok (read_more self)
  else do
    let body ← (StringView.ofBytes (unconsumed self)).substr self.header_size_
      (some self.request_.content_length)
    respond env { self with request_ := { self.request_ with body := body.bytes } } total

def process_input (env : Environment H) (self : TcpConnection H) : Result (TcpConnection H) :=
  if self.phase_ = .closed ∨ self.phase_ = .writing then .ok self
  else if self.phase_ = .headers then do
    let (self, parsed) ← process_headers self
    if parsed then process_body env self else .ok self
  else process_body env self

def begin_request (env : Environment H) (self : TcpConnection H) : Result (TcpConnection H) :=
  if self.phase_ = .closed then .ok self
  else if self.draining_ then .ok self.close
  else process_input env { self with phase_ := .headers, header_size_ := 0, request_ := {} }

def start (env : Environment H) (self : TcpConnection H) : Result (TcpConnection H) :=
  begin_request env self

def on_read (env : Environment H) (self : TcpConnection H) (ec : Bool) (bytes : Nat) :
    Result (TcpConnection H) :=
  if self.phase_ = .closed then .ok self
  else if ec then .ok self.close
  else process_input env { self with write_pos_ := size_t.add self.write_pos_ bytes }

def on_write (env : Environment H) (self : TcpConnection H) (ec : Bool) : Result (TcpConnection H) :=
  if self.phase_ = .closed then .ok self
  else
    let self := { self with header_payload_ := [], owned_body_storage_ := [], body_payload_ := [] }
    if ec ∨ self.close_after_write_ ∨ self.draining_ then .ok self.close
    else
      let self := { self with phase_ := .headers, header_size_ := 0, request_ := {} }
      if self.read_pos_ < self.write_pos_ then process_input env self else .ok (read_more self)

/-- The step for an event: a read stores at most as many bytes as there was room for. -/
def step (self : TcpConnection H) (label : TcpConnection.Label H) : Option (Result (TcpConnection H)) :=
  match label.event, self.pending with
  | .read chunk, .read off room :: pending =>
    if chunk.length ≤ room then
      some (on_read label.env ({ self with pending }.receive off chunk) false chunk.length)
    else none
  | .read_error, .read _ _ :: pending => some (on_read label.env { self with pending } true 0)
  | .written, .write :: pending => some (on_write label.env { self with pending } false)
  | .write_error, .write :: pending => some (on_write label.env { self with pending } true)
  | .stop force, _ => some (.ok (self.stop force))
  | _, _ => none

def Step (self : TcpConnection H) (label : TcpConnection.Label H) (after : TcpConnection H) : Prop :=
  step self label = some (.ok after)

/-- A request that is taken on is within the limits. -/
structure Within (limits_ : HttpLimits) (conn : TcpConnection H) : Prop where
  limits : conn.limits_ = limits_
  head : conn.phase_ = .body → conn.header_size_ ≤ limits_.max_header_bytes
  body : conn.phase_ = .body → conn.request_.content_length ≤ limits_.max_body_bytes

/-- The bounds are about a request that is under way. -/
theorem Within.of_other_phase {limits_ : HttpLimits} {conn : TcpConnection H}
    (hlimits : conn.limits_ = limits_) (hphase : conn.phase_ ≠ .body) : Within limits_ conn :=
  ⟨hlimits, fun h => absurd h hphase, fun h => absurd h hphase⟩

/-- The length is the difference as the machine computes it. -/
theorem length_unconsumed (self : TcpConnection H) :
    (unconsumed self).length = size_t.sub self.write_pos_ self.read_pos_ := memory.length_read _ _ _

theorem read_more_frame (self : TcpConnection H) :
    read_more self = { self with
      buffer_ := (read_more self).buffer_
      read_pos_ := (read_more self).read_pos_
      write_pos_ := (read_more self).write_pos_
      pending := (read_more self).pending
      log := (read_more self).log } := by
  rw [read_more, async_read_some, grow, compact]
  split_ifs <;> rfl

/-- Making room does not touch the request. -/
theorem read_more_within {limits_ : HttpLimits} {self : TcpConnection H} (h : Within limits_ self) :
    Within limits_ (read_more self) := by
  rw [read_more_frame]
  exact ⟨h.limits, h.head, h.body⟩

/-- A failure leaves the limits as they are, and no body is awaited after it. -/
theorem fail_phase {self : TcpConnection H} (hphase : self.phase_ ≠ .body) (status : Int) :
    (self.fail status).phase_ ≠ .body ∧ (self.fail status).limits_ = self.limits_ := by
  rw [TcpConnection.fail]
  split_ifs with hclosed
  · exact ⟨hphase, rfl⟩
  · dsimp only
    split
    · rw [TcpConnection.close, if_neg hclosed]
      exact ⟨by simp, rfl⟩
    · exact ⟨by simp [TcpConnection.write], rfl⟩

theorem consume_frame (self : TcpConnection H) (total : Nat) :
    consume self total = { self with
      read_pos_ := (consume self total).read_pos_
      write_pos_ := (consume self total).write_pos_ } := by
  rw [consume]
  split_ifs <;> rfl

/-- Once it has answered, a connection writes. -/
theorem respond_phase {env : Environment H} {self after : TcpConnection H} {total : Nat}
    (h : respond env self total = .ok after) : after.phase_ = .writing ∧ after.limits_ = self.limits_ := by
  rw [respond] at h
  obtain ⟨header_payload_, _, hlast⟩ := bind_eq_ok_iff.mp h
  cases hlast
  have hdecided : self.decide_close.limits_ = self.limits_ := by rw [TcpConnection.decide_close_frame]
  have hconsumed (base : TcpConnection H) : (consume base total).limits_ = base.limits_ := by
    rw [consume_frame]
  have hpayload (base : TcpConnection H) (response : HttpResponse) :
      (base.set_payload header_payload_ response).limits_ = base.limits_ := by
    obtain ⟨_, heq⟩ := base.set_payload_frame header_payload_ response
    rw [heq]
  exact ⟨rfl, (hpayload _ _).trans ((hconsumed _).trans hdecided)⟩

/-- A head that is taken on, and the body it declares, are within the limits, by the
two tests of the parser; nothing else sets them. -/
theorem process_headers_within {limits_ : HttpLimits} {self after : TcpConnection H} {parsed : Bool}
    (hphase : self.phase_ ≠ .body) (hlimits : self.limits_ = limits_)
    (h : process_headers self = .ok (after, parsed)) :
    Within limits_ after ∧ (parsed = true → after.phase_ = .body) := by
  have hfail (conn : TcpConnection H) (hconn : conn.phase_ ≠ .body ∧ conn.limits_ = limits_)
      (status : Int) : Within limits_ (conn.fail status) := by
    obtain ⟨hafter, hsame⟩ := fail_phase hconn.1 status
    exact .of_other_phase (hsame.trans hconn.2) hafter
  rw [process_headers] at h
  cases hfind : findSub CRLFCRLF (unconsumed self) with
  | none =>
    rw [hfind] at h
    dsimp only at h
    split_ifs at h
    · cases h
      exact ⟨hfail self ⟨hphase, hlimits⟩ 431, by simp⟩
    · cases h
      exact ⟨read_more_within (.of_other_phase hlimits hphase), by simp⟩
  | some stop =>
    have hinside : stop + 4 ≤ (unconsumed self).length := findSub_add_length_le hfind
    have hsmall : (unconsumed self).length < 2 ^ 64 := length_unconsumed self ▸ size_t.sub_lt _ _
    rw [hfind] at h
    dsimp only at h
    rw [size_t.add_eq (by omega)] at h
    split at h
    · cases h
      exact ⟨hfail { self with header_size_ := stop + 4 } ⟨hphase, hlimits⟩ _, by simp⟩
    · cases h
    · cases h
      exact ⟨hfail { self with header_size_ := stop + 4 } ⟨hphase, hlimits⟩ 400, by simp⟩
    · next req hparse =>
      cases h
      obtain ⟨hsize, hbody⟩ := parse_headers_bounds hparse
      rw [hlimits] at hsize hbody
      refine ⟨⟨hlimits, fun _ => ?_, fun _ => hbody⟩, fun _ => rfl⟩
      rwa [List.length_take, Nat.min_eq_left (by exact hinside)] at hsize

/-- A body is taken on after its head has passed the limits. -/
theorem process_body_within {limits_ : HttpLimits} {env : Environment H} {self after : TcpConnection H}
    (hself : Within limits_ self) (h : process_body env self = .ok after) : Within limits_ after := by
  rw [process_body] at h
  dsimp only at h
  split_ifs at h
  · cases h
    exact read_more_within hself
  · obtain ⟨body, _, hrespond⟩ := bind_eq_ok_iff.mp h
    obtain ⟨hphase, hlimits⟩ := respond_phase hrespond
    exact .of_other_phase (hlimits.trans hself.limits) (by simp [hphase])

/-- Whichever phase the callback starts in, a request is taken on only after its head
has passed the limits. -/
theorem process_input_within {limits_ : HttpLimits} {env : Environment H} {self after : TcpConnection H}
    (hself : Within limits_ self) (h : process_input env self = .ok after) : Within limits_ after := by
  rw [process_input] at h
  split_ifs at h with hidle hheaders
  · cases h
    exact hself
  · obtain ⟨⟨base, parsed⟩, hparse, hrest⟩ := bind_eq_ok_iff.mp h
    obtain ⟨hbase, _⟩ := process_headers_within (by simp [hheaders]) hself.limits hparse
    cases parsed with
    | true => exact process_body_within hbase hrest
    | false =>
      cases hrest
      exact hbase
  · exact process_body_within hself h

theorem close_within {limits_ : HttpLimits} {self : TcpConnection H} (h : Within limits_ self) :
    Within limits_ self.close := by
  rw [TcpConnection.close_frame]
  exact .of_other_phase h.limits (by simp)

theorem stop_within {limits_ : HttpLimits} {self : TcpConnection H} (h : Within limits_ self) (force : Bool) :
    Within limits_ (self.stop force) := by
  have hdraining : Within limits_ { self with draining_ := true } := ⟨h.limits, h.head, h.body⟩
  obtain ⟨_, heq⟩ | ⟨_, _, heq⟩ := self.stop_cases force
  · rw [heq]
    exact close_within hdraining
  · rw [heq]
    exact hdraining

/-- A completed read keeps the bounds. -/
theorem on_read_within {limits_ : HttpLimits} {env : Environment H} {self after : TcpConnection H}
    {ec : Bool} {bytes : Nat} (hself : Within limits_ self) (h : on_read env self ec bytes = .ok after) :
    Within limits_ after := by
  rw [on_read] at h
  split_ifs at h
  · cases h
    exact hself
  · cases h
    exact close_within hself
  · exact process_input_within (by exact ⟨hself.limits, hself.head, hself.body⟩) h

/-- A completed write keeps them too: what it goes on with has been parsed under the limits. -/
theorem on_write_within {limits_ : HttpLimits} {env : Environment H} {self after : TcpConnection H}
    {ec : Bool} (hself : Within limits_ self) (h : on_write env self ec = .ok after) : Within limits_ after := by
  rw [on_write] at h
  dsimp only at h
  split_ifs at h
  · cases h
    exact hself
  · cases h
    exact close_within ⟨hself.limits, hself.head, hself.body⟩
  · exact process_input_within (.of_other_phase (by exact hself.limits) (by simp)) h
  · cases h
    exact read_more_within (.of_other_phase hself.limits (by simp))

/-- Every step keeps what is taken on within the limits, whatever the positions are. -/
theorem step_within {limits_ : HttpLimits} {self after : TcpConnection H} {label : TcpConnection.Label H}
    (hself : Within limits_ self) (h : Step self label after) : Within limits_ after := by
  obtain ⟨event, env⟩ := label
  rw [Step, step] at h
  dsimp only at h
  split at h
  · split_ifs at h
    exact on_read_within (by exact ⟨hself.limits, hself.head, hself.body⟩) (Option.some.inj h)
  · exact on_read_within (by exact ⟨hself.limits, hself.head, hself.body⟩) (Option.some.inj h)
  · exact on_write_within (by exact ⟨hself.limits, hself.head, hself.body⟩) (Option.some.inj h)
  · exact on_write_within (by exact ⟨hself.limits, hself.head, hself.body⟩) (Option.some.inj h)
  · next force =>
    cases Except.ok.inj (Option.some.inj h)
    exact stop_within hself force
  · cases h

/-- A new connection has nothing to take on. -/
theorem start_within {env : Environment H} {dispatcher_ : core.RequestDispatcher H} {limits_ : HttpLimits}
    {id_ : Nat} {first : TcpConnection H} (h : start env { dispatcher_, limits_, id_ } = .ok first) :
    Within limits_ first := by
  have hnew : Within limits_ ({ dispatcher_, limits_, id_ } : TcpConnection H) := .of_other_phase rfl (by simp)
  rw [start, begin_request, if_neg (by simp), if_neg (by simp)] at h
  exact process_input_within hnew h

/-- The size of a request that is within validated limits is the sum of its parts. -/
theorem Within.total {limits_ : HttpLimits} {self : TcpConnection H} (h : Within limits_ self)
    (hvalid : limits_.validate = .ok ()) (hphase : self.phase_ = .body) :
    self.total_req_bytes = self.header_size_ + self.request_.content_length ∧
      self.total_req_bytes ≤ limits_.max_header_bytes + limits_.max_body_bytes := by
  obtain ⟨_, hfits, _⟩ := HttpLimits.validate_ok hvalid
  have hhead := h.head hphase
  have hbody := h.body hphase
  have hexact : self.total_req_bytes = self.header_size_ + self.request_.content_length :=
    Nat.mod_eq_of_lt (by omega)
  exact ⟨hexact, by omega⟩

end machine

end octane.transport
