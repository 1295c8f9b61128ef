import Octane.Core.Recovery
import Octane.HttpResponse.Whole
import Octane.Transport.Response

open search

namespace octane.transport.TcpConnection

variable {H : Type}

/-- A request that has arrived as a whole, on the connection with its head parsed. -/
structure Complete (conn base : TcpConnection H) : Prop where
  headed : Headed conn base
  head : base.header_size_ ≤ conn.unconsumed.length
  total : base.total_req_bytes ≤ conn.unconsumed.length

/-- A complete request is answered in this callback, whether its head was parsed now or before. -/
theorem Complete.process_input_eq {self base : TcpConnection H} (h : Complete self base)
    (env : Environment H) : self.process_input env = base.withBody.respond env base.total_req_bytes := by
  have hhead := h.head
  have htotal := h.total
  rw [← h.headed.unconsumed] at hhead htotal
  rw [h.headed.process_input_eq, process_body_complete env hhead htotal]

/-- What calling the selected handler comes to, where a route matches. -/
def handled (env : Environment H) (self : TcpConnection H) : Option HandlerResult :=
  match self.dispatcher_.router_.select (self.observe env.freed) with
  | (some handler, req) => some (env.call handler req {})
  | (none, _) => none

/-- The status that the dispatcher answers with. -/
def dispatchedStatus : Option HandlerResult → Int
  | none => 404
  | some result => if result.thrown.isSome then 500 else result.res.status_code

/-- What the dispatcher answers with, for what the handler has come to. -/
def dispatchedResponse : Option HandlerResult → HttpResponse
  | none => (({} : HttpResponse).status 404).text (ascii "Not Found")
  | some result => if result.thrown.isSome then core.RequestDispatcher.recovered result.res else result.res

/-- The method of the request once it has been answered: the handler may change it. -/
def methodLeft (sent : HttpMethod) : Option HandlerResult → HttpMethod
  | none => sent
  | some result => result.req.method

/-- What the dispatcher returns depends on what the handler has come to: its
response, the 500 that is made of it, or the 404. -/
theorem dispatch_handled (env : Environment H) (self : TcpConnection H) :
    let outcome := self.dispatcher_.dispatch env.call (self.observe env.freed) {}
    outcome.1.method = methodLeft self.request_.method (self.handled env) ∧
      outcome.2 = dispatchedResponse (self.handled env) := by
  have hmethod := self.dispatcher_.router_.select_method (self.observe env.freed)
  rw [core.RequestDispatcher.dispatch, Router.resolve, handled]
  generalize self.dispatcher_.router_.select (self.observe env.freed) = selection at hmethod
  obtain ⟨selected, req⟩ := selection
  cases selected with
  | none => exact ⟨hmethod, rfl⟩
  | some handler =>
    dsimp only [dispatchedResponse, methodLeft]
    cases (env.call handler req {}).thrown <;> exact ⟨rfl, rfl⟩

/-- The connection adds at most a `Connection` field, which is not serialized, to
what the dispatcher answers with. -/
theorem exchange_handled (env : Environment H) (self : TcpConnection H) :
    (self.exchange env).1.method = methodLeft self.request_.method (self.handled env) ∧
      (self.exchange env).2.status_code = (dispatchedResponse (self.handled env)).status_code ∧
      (self.exchange env).2.emittedFields = (dispatchedResponse (self.handled env)).emittedFields ∧
      (self.exchange env).2.active_body = (dispatchedResponse (self.handled env)).active_body := by
  obtain ⟨hmethod, hresponse⟩ := dispatch_handled env self
  rw [exchange, core.RequestDispatcher.dispatch_response, ← hresponse]
  dsimp only
  split_ifs
  · exact ⟨hmethod, rfl, HttpResponse.emittedFields_header (by decide) _, rfl⟩
  · exact ⟨hmethod, rfl, rfl, rfl⟩

/-- The status of what is sent is the dispatcher's. -/
theorem exchange_status (env : Environment H) (self : TcpConnection H) :
    (self.exchange env).2.status_code = dispatchedStatus (self.handled env) := by
  rw [(exchange_handled env self).2.1]
  cases self.handled env with
  | none => rfl
  | some result =>
    dsimp only [dispatchedResponse, dispatchedStatus]
    cases result.thrown <;> rfl

/-- A response with a supported status can be sent for every request. -/
theorem answering_serializes (response : HttpResponse)
    (hstatus : ¬ (response.status_code < 200 ∨ 599 < response.status_code)) (self : TcpConnection Unit) :
    ∃ header, (self.exchange (answering response)).2.serialize_headers self.closing = .ok header := by
  refine ⟨_, HttpResponse.serialize_headers_eq self.closing ?_⟩
  rw [exchange_status, handled]
  split
  · exact hstatus
  · decide

def writes (log : List Effect) : List (Bytes × Bytes) :=
  log.filterMap fun
    | .async_write header body => some (header, body)
    | _ => none

/-- The connection of `delivered` with the head of `homeRequest` parsed. -/
def homeBase : TcpConnection Unit := (delivered homePage .defaults homeRequest).parsedHead 23 homeSeen

theorem homeBase_complete : Complete (delivered homePage .defaults homeRequest) homeBase := by
  refine ⟨.parsed 23 homeSeen rfl ?_ ?_, ?_, ?_⟩ <;> decide +kernel

/-- An environment where every handler throws. -/
def throwing : Environment Unit :=
  { call := fun _ req res => { req, res, thrown := some .std_exception } }

end octane.transport.TcpConnection
