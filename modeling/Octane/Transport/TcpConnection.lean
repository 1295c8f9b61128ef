import Octane.Core.RequestDispatcher
import Octane.HttpParser
import Octane.Lib.Memory
import Octane.Lib.Transition

open search

namespace octane

/-- The view moved to where its string lies in a larger one. -/
def StringView.shift (distance : Nat) (v : StringView) : StringView := { v with off := v.off + distance }

/-- What a view shows when it is used: the bytes that are there by then. -/
def StringView.reread (mem : Nat → UInt8) (v : StringView) : StringView :=
  { v with bytes := memory.read mem v.off v.size }

def HttpRequest.mapViews (f : StringView → StringView) (self : HttpRequest) : HttpRequest :=
  { self with
    path := f self.path
    http_version := f self.http_version
    params := self.params.mapEntries f f
    headers := self.headers.mapEntries f f
    query := self.query.mapEntries f f
    cookies := self.cookies.mapEntries f f }

namespace transport

inductive Phase where
  | headers | body | writing | closed
deriving DecidableEq

/-- An asynchronous operation that has not completed: a read into the buffer
from `off` on, at most `room` bytes, or a write. -/
inductive Operation where
  | read (off room : Nat)
  | write
deriving DecidableEq

/-- What a connection does that can be seen from outside. `dispatch_response`
is logged with the head its request was parsed from, its argument and its value. -/
inductive Effect where
  | async_read_some (room : Nat)
  | dispatch_response (block : Bytes) (req : HttpRequest) (close_connection : Bool) (res : HttpResponse)
  | fail (status : Int)
  | async_write (header body : Bytes)
  | on_close (id : Nat)
deriving DecidableEq

/-- A `std::vector<char>`; `alloc` counts its reallocations, which always succeed. -/
structure Buffer where
  mem : Nat → UInt8 := fun _ => 0
  size : Nat := 0
  alloc : Nat := 0

def Buffer.resize (self : Buffer) (size : Nat) : Buffer :=
  { mem := fun i => if i < self.size then self.mem i else 0, size, alloc := self.alloc + 1 }

/-- Where the head that `request_` was parsed from stood at that moment. -/
structure Origin where
  block : Bytes := []
  pos : Nat := 0
  alloc : Nat := 0
deriving DecidableEq

/-- What lies outside the connection: what calling a handler does, and what is
read from storage that has been freed. -/
structure Environment (H : Type) where
  call : H → HttpRequest → HttpResponse → HandlerResult
  freed : Nat → UInt8 := fun _ => 0

def BUFFER_SIZE : Nat := 65536

/-- The fields of the source, without the socket; `origin`, `pending` and `log` record what happens. -/
structure TcpConnection (H : Type) where
  dispatcher_ : core.RequestDispatcher H
  limits_ : HttpLimits
  on_close_ : Bool := true
  id_ : Nat := 0
  buffer_ : Buffer := { size := BUFFER_SIZE }
  read_pos_ : Nat := 0
  write_pos_ : Nat := 0
  header_payload_ : Bytes := []
  body_payload_ : Bytes := []
  owned_body_storage_ : Bytes := []
  request_ : HttpRequest := {}
  header_size_ : Nat := 0
  requests_ : Nat := 0
  phase_ : Phase := .headers
  draining_ : Bool := false
  close_after_write_ : Bool := false
  origin : Origin := {}
  pending : List Operation := []
  log : List Effect := []

namespace TcpConnection

variable {H : Type}

def close (self : TcpConnection H) : TcpConnection H :=
  if self.phase_ = .closed then self
  else
    { self with
      phase_ := .closed
      on_close_ := false
      log := self.log ++ if self.on_close_ then [.on_close self.id_] else [] }

def stop (self : TcpConnection H) (force : Bool := false) : TcpConnection H :=
  let self := { self with draining_ := true }
  if force ∨ self.phase_ = .headers then self.close else self

/-- The start of a write; its completion is `on_write`. -/
def write (self : TcpConnection H) : TcpConnection H :=
  { self with
    phase_ := .writing
    pending := self.pending ++ [.write]
    log := self.log ++ [.async_write self.header_payload_ self.body_payload_] }

def fail (self : TcpConnection H) (status : Int) : TcpConnection H :=
  if self.phase_ = .closed then self
  else
    let response := (({} : HttpResponse).status status).text (ascii "Request failed")
    match response.serialize_headers true with
    | .error _ => self.close
    | .ok header_payload_ =>
      write { self with
        header_payload_
        owned_body_storage_ := response.body
        body_payload_ := response.body
        close_after_write_ := true
        log := self.log ++ [.fail status] }

/-- The move of the unconsumed bytes to the front, where little room is left. -/
def compact (self : TcpConnection H) : TcpConnection H :=
  if 0 < self.read_pos_ ∧ self.buffer_.size - self.write_pos_ < 4096 then
    let remaining := self.write_pos_ - self.read_pos_
    { self with
      buffer_ := { self.buffer_ with mem := memory.move self.buffer_.mem 0 self.read_pos_ remaining }
      read_pos_ := 0
      write_pos_ := remaining }
  else self

def grow (self : TcpConnection H) : TcpConnection H :=
  if self.buffer_.size = self.write_pos_ then
    { self with buffer_ := self.buffer_.resize (self.buffer_.size * 2) }
  else self

/-- The start of a read; its completion is `on_read`. -/
def async_read_some (self : TcpConnection H) : TcpConnection H :=
  let room := self.buffer_.size - self.write_pos_
  { self with
    pending := self.pending ++ [.read self.write_pos_ room]
    log := self.log ++ [.async_read_some room] }

def read_more (self : TcpConnection H) : TcpConnection H := self.compact.grow.async_read_some

def unconsumed (self : TcpConnection H) : Bytes :=
  memory.read self.buffer_.mem self.read_pos_ (self.write_pos_ - self.read_pos_)

/-- What `request_` shows when it is used: its views are read from the buffer
as it is by then, or from freed storage where the buffer has been reallocated. -/
def observe (self : TcpConnection H) (freed : Nat → UInt8) : HttpRequest :=
  self.request_.mapViews
    (StringView.reread (if self.origin.alloc = self.buffer_.alloc then self.buffer_.mem else freed))

/-- The part of `process_input` for the phase `headers`; the flag tells whether
it goes on with the body. -/
def process_headers (self : TcpConnection H) : Result (TcpConnection H × Bool) :=
  match findSub CRLFCRLF self.unconsumed with
  | none =>
    if self.limits_.max_header_bytes ≤ self.unconsumed.length then .ok (self.fail 431, false)
    else .ok (self.read_more, false)
  | some stop =>
    let self := { self with header_size_ := stop + 4 }
    let block := self.unconsumed.take self.header_size_
    match HttpParser.parse_headers block self.limits_ with
    | .error (.HttpParseError status) => .ok (self.fail status, false)
    | .error .undefined_behavior => .error .undefined_behavior
    | .error _ => .ok (self.fail 400, false)
    | .ok req =>
      .ok ({ self with
        request_ := req.mapViews (StringView.shift self.read_pos_)
        origin := { block, pos := self.read_pos_, alloc := self.buffer_.alloc }
        phase_ := .body }, true)

/-- The size of the whole request, in `size_t` arithmetic. -/
def total_req_bytes (self : TcpConnection H) : Nat :=
  (self.header_size_ + self.request_.content_length) % 2 ^ 64

/-- The close decision, which counts the request only where it is not taken before. -/
def decide_close (self : TcpConnection H) : TcpConnection H :=
  if self.draining_ ∨ ¬ self.request_.keep_alive then { self with close_after_write_ := true }
  else
    { self with
      requests_ := self.requests_ + 1
      close_after_write_ := self.limits_.max_requests_per_connection ≤ self.requests_ + 1 }

def consume (self : TcpConnection H) (total : Nat) : TcpConnection H :=
  let read_pos_ := self.read_pos_ + total
  if read_pos_ = self.write_pos_ then { self with read_pos_ := 0, write_pos_ := 0 }
  else { self with read_pos_ }

/-- The choice of the body payload for a response whose head has been serialized. -/
def set_payload (self : TcpConnection H) (header_payload_ : Bytes) (response : HttpResponse) :
    TcpConnection H :=
  if self.request_.method = .HEAD then
    { self with header_payload_, body_payload_ := [], owned_body_storage_ := [] }
  else
    match response.body_type with
    | .Mapped =>
      { self with header_payload_, body_payload_ := response.mapped_body, owned_body_storage_ := [] }
    | .Owned =>
      { self with
        header_payload_
        body_payload_ := response.owned_body
        owned_body_storage_ := response.owned_body }
    | .Dynamic =>
      { self with
        header_payload_
        body_payload_ := response.body
        owned_body_storage_ := response.body }

/-- The part of `process_input` that answers a complete request. -/
def respond (env : Environment H) (self : TcpConnection H) (total : Nat) : Result (TcpConnection H) := do
  let self := self.decide_close
  let seen := self.observe env.freed
  let (request_, response) :=
    self.dispatcher_.dispatch_response env.call seen self.close_after_write_
  let self : TcpConnection H :=
    { self with
      request_
      log := self.log ++
        [.dispatch_response self.origin.block seen self.close_after_write_ response] }
  let self := self.consume total
  let header_payload_ ← response.serialize_headers self.close_after_write_
  .ok (self.set_payload header_payload_ response).write

/-- The part of `process_input` for the phase `body`. -/
def process_body (env : Environment H) (self : TcpConnection H) : Result (TcpConnection H) :=
  let total := self.total_req_bytes
  if self.unconsumed.length < total then .ok self.read_more
  else do
    let body ← (StringView.ofBytes self.unconsumed).substr self.header_size_ (some self.request_.content_length)
    respond env { self with request_ := { self.request_ with body := body.bytes } } total

/-- The loop of the source is left in its first turn, whatever the phase. -/
def process_input (env : Environment H) (self : TcpConnection H) : Result (TcpConnection H) :=
  if self.phase_ = .closed ∨ self.phase_ = .writing then .ok self
  else if self.phase_ = .headers then do
    let (self, parsed) ← self.process_headers
    if parsed then self.process_body env else .ok self
  else self.process_body env

def begin_request (env : Environment H) (self : TcpConnection H) : Result (TcpConnection H) :=
  if self.phase_ = .closed then .ok self
  else if self.draining_ then .ok self.close
  else process_input env { self with phase_ := .headers, header_size_ := 0, request_ := {} }

def start (env : Environment H) (self : TcpConnection H) : Result (TcpConnection H) :=
  self.begin_request env

/-- The completion of a read of so many bytes, which lie in the buffer already. -/
def on_read (env : Environment H) (self : TcpConnection H) (ec : Bool) (bytes : Nat) :
    Result (TcpConnection H) :=
  if self.phase_ = .closed then .ok self
  else if ec then .ok self.close
  else process_input env { self with write_pos_ := self.write_pos_ + bytes }

/-- The completion of a write. -/
def on_write (env : Environment H) (self : TcpConnection H) (ec : Bool) : Result (TcpConnection H) :=
  if self.phase_ = .closed then .ok self
  else
    let self := { self with header_payload_ := [], owned_body_storage_ := [], body_payload_ := [] }
    if ec ∨ self.close_after_write_ ∨ self.draining_ then .ok self.close
    else
      let self := { self with phase_ := .headers, header_size_ := 0, request_ := {} }
      if self.read_pos_ < self.write_pos_ then self.process_input env else .ok self.read_more

/-- What happens to a connection: an operation completes, or the server stops it. -/
inductive Event where
  | read (chunk : Bytes)
  | read_error
  | written
  | write_error
  | stop (force : Bool)
deriving DecidableEq

structure Label (H : Type) where
  event : Event
  env : Environment H

/-- The bytes that a completed read has stored. -/
def receive (self : TcpConnection H) (off : Nat) (chunk : Bytes) : TcpConnection H :=
  { self with buffer_ := { self.buffer_ with mem := memory.write self.buffer_.mem off chunk } }

/-- The step for an event, where it can happen: what is started completes once. -/
def step (self : TcpConnection H) (label : Label H) : Option (Result (TcpConnection H)) :=
  match label.event, self.pending with
  | .read chunk, .read off room :: pending =>
    if chunk.length ≤ room then
      some (({ self with pending }.receive off chunk).on_read label.env false chunk.length)
    else none
  | .read_error, .read _ _ :: pending => some ({ self with pending }.on_read label.env true 0)
  | .written, .write :: pending => some ({ self with pending }.on_write label.env false)
  | .write_error, .write :: pending => some ({ self with pending }.on_write label.env true)
  | .stop force, _ => some (.ok (self.stop force))
  | _, _ => none

/-- A step whose callback lets no exception out. -/
def Step (self : TcpConnection H) (label : Label H) (after : TcpConnection H) : Prop :=
  self.step label = some (.ok after)

end TcpConnection

end transport

end octane
