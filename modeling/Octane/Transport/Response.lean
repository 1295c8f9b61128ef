import Octane.Transport.Outcome

open search

namespace octane.transport.TcpConnection

variable {H : Type}

/-- Only a complete request is dispatched, and its response is one write: what is
dispatched and what is written stand next to each other on the log. -/
theorem process_input_dispatch {env : Environment H} {self after : TcpConnection H} {block : Bytes}
    {seen : HttpRequest} {close : Bool} {response : HttpResponse} {header body : Bytes}
    (h : self.process_input env = .ok after)
    (hlog : after.log = self.log ++
      [.dispatch_response block seen close response, .async_write header body]) :
    after.header_payload_ = header ∧ after.body_payload_ = body ∧
      body = payload after.request_ response ∧
      response.serialize_headers after.close_after_write_ = .ok header := by
  have houtcome := process_input_outcome env self
  generalize self.process_input env = result at h houtcome
  cases houtcome with
  | idle hphase =>
    cases h
    simp at hlog
  | oversized hphase =>
    obtain ⟨_, _, heq⟩ := fail_eq self 431 (by simp [hphase]) (by omega)
    cases h
    rw [heq] at hlog
    simp at hlog
  | headless hphase =>
    obtain ⟨room, hmore⟩ := self.read_more_log
    cases h
    simp [hmore] at hlog
  | refused stop status hphase hfind hparse hstatus =>
    obtain ⟨_, _, heq⟩ := fail_eq { self with header_size_ := stop + 4 } status (by simp [hphase])
      (supported_of_parseFailure hstatus)
    cases h
    rw [heq] at hlog
    simp at hlog
  | displaced => cases h
  | awaits base hbase =>
    obtain ⟨room, hmore⟩ := base.read_more_log
    rw [hbase.frame] at hmore
    cases h
    rw [hbase.frame, hmore] at hlog
    simp at hlog
  | complete base hbase =>
    obtain ⟨head, _, hhead, rfl⟩ := respond_inv h
    have hbefore : base.withBody.log = self.log := hbase.same.2.1
    dsimp only [queued] at hlog
    rw [hbefore, List.append_cancel_left_eq] at hlog
    cases hlog
    exact ⟨rfl, rfl, rfl, hhead⟩

/-- The two ways of writing a response agree where it has no body to suppress,
or where both suppress it. -/
theorem serialize_agrees_iff {env : Environment H} {self after : TcpConnection H} {block : Bytes}
    {seen : HttpRequest} {close : Bool} {response : HttpResponse}
    (h : self.process_input env = .ok after)
    (hlog : after.log = self.log ++ [.dispatch_response block seen close response,
      .async_write after.header_payload_ after.body_payload_]) :
    response.serialize after.close_after_write_ (after.request_.method = .HEAD) =
        .ok (after.header_payload_ ++ after.body_payload_) ↔
      after.request_.method = .HEAD ∨
        (response.status_code ≠ 204 ∧ response.status_code ≠ 304) ∨ response.active_body = [] := by
  obtain ⟨_, _, hbody, hhead⟩ := process_input_dispatch h hlog
  rw [HttpResponse.serialize, hhead, bind_ok, hbody, payload]
  by_cases hmethod : after.request_.method = .HEAD
  · simp [hmethod]
  · by_cases hstatus : response.status_code ≠ 204 ∧ response.status_code ≠ 304
    · simp [hmethod, hstatus]
    · simp [hmethod, hstatus]

/-- An application with the one route `GET /`. -/
def homePage : core.RequestDispatcher Unit :=
  { router_ := ({} : Router Unit).add (ascii "GET") (ascii "/") () }

def homeRequest : Bytes := ascii "GET / HTTP/1.1\r\nHost: x\r\n\r\n"

/-- A connection that has just received these bytes. -/
def delivered (dispatcher_ : core.RequestDispatcher H) (limits_ : HttpLimits) (bytes : Bytes) :
    TcpConnection H :=
  { ({ dispatcher_, limits_ } : TcpConnection H).receive 0 bytes with write_pos_ := bytes.length }

/-- An environment where every handler answers alike. -/
def answering (response : HttpResponse) : Environment Unit :=
  { call := fun _ req _ => { req, res := response } }

def homeSeen : HttpRequest := (HttpParser.parse_headers homeRequest .defaults).toOption.getD {}

def greeting : HttpResponse := ({} : HttpResponse).text (ascii "hi")

theorem serialize_agrees_iff_greeting :
    ∃ after, (delivered homePage .defaults homeRequest).process_input (answering greeting) = .ok after ∧
      (greeting.serialize after.close_after_write_ (after.request_.method = .HEAD) =
          .ok (after.header_payload_ ++ after.body_payload_) ↔
        after.request_.method = .HEAD ∨
          (greeting.status_code ≠ 204 ∧ greeting.status_code ≠ 304) ∨ greeting.active_body = []) := by
  obtain ⟨after, hrun, hlog⟩ := exists_ok_of_check
    (x := (delivered homePage .defaults homeRequest).process_input (answering greeting))
    (p := fun after => after.log = [.dispatch_response homeRequest homeSeen false greeting,
      .async_write after.header_payload_ after.body_payload_]) (by decide +kernel)
  exact ⟨after, hrun, serialize_agrees_iff hrun hlog⟩

/-- A status without a body, set on a response that has one. -/
def noContent : HttpResponse := (({} : HttpResponse).status 204).text (ascii "hi")

theorem suppressed_body_written :
    ∃ after, (delivered homePage .defaults homeRequest).process_input (answering noContent) = .ok after ∧
      after.log = [.dispatch_response homeRequest homeSeen false noContent,
        .async_write after.header_payload_ after.body_payload_] ∧
      noContent.serialize after.close_after_write_ (after.request_.method = .HEAD) ≠
        .ok (after.header_payload_ ++ after.body_payload_) := by
  apply exists_ok_of_check
  decide +kernel

end octane.transport.TcpConnection
