import Octane.Core.Recovery
import Octane.HttpResponse.Reader
import Octane.Lib.Delimited
import Octane.Transport.Transcript

open search transition

namespace octane

namespace HttpResponse

/-- A response that a client can tell from what follows it: its fields keep to
their lines, and it has no body where its status has none. -/
structure Sendable (res : HttpResponse) : Prop where
  fields : ∀ entry ∈ res.emittedFields, ValidHeader entry
  body : res.bodiless = true → res.active_body = []

/-- The reader of a client, with what it leaves of its input. -/
def readReply : delimited.Reader Bool Reading UInt8 := fun head input =>
  (readResponse head input).map fun reading => (reading, reading.rest)

/-- The statuses that have no body. -/
theorem bodiless_iff {self : HttpResponse} :
    self.bodiless = true ↔ self.status_code = 204 ∨ self.status_code = 304 := by
  simp [bodiless]

/-- The head of a response and its body, as the connection writes them, are read
back whatever follows. -/
theorem Sendable.delimits {self : HttpResponse} (h : self.Sendable) (head : Bool) {close : Bool} {header : Bytes}
    (hhead : self.serialize_headers close = .ok header) :
    delimited.Delimits readReply head (header ++ if head then [] else self.active_body)
      (self.Recovers close head) := by
  intro rest
  obtain ⟨hstatus, rfl⟩ := serialize_headers_ok hhead
  have hcode : ((self.status_code.toNat : Nat) : Int) = self.status_code := by omega
  have hskip : (head || self.status_code.toNat == 204 || self.status_code.toNat == 304) = true ↔
      head = true ∨ self.status_code = 204 ∨ self.status_code = 304 := by
    have h204 : self.status_code.toNat = 204 ↔ self.status_code = 204 := by omega
    have h304 : self.status_code.toNat = 304 ↔ self.status_code = 304 := by omega
    simp only [Bool.or_eq_true, beq_iff_eq, h204, h304, or_assoc]
  have hwritten : (if head then [] else self.active_body) = self.sentBody head := by
    rw [sentBody]
    by_cases hnone : head = true ∨ self.status_code = 204 ∨ self.status_code = 304
    · rw [if_pos hnone]
      split_ifs with hasked
      · rfl
      · exact h.body (bodiless_iff.mpr (hnone.resolve_left hasked))
    · rw [if_neg hnone, if_neg fun hasked => hnone (.inl hasked)]
  let reading : Reading :=
    { status_code := self.status_code.toNat
      fields := self.generatedFields close ++ self.emittedFields
      body := self.sentBody head
      rest }
  refine ⟨reading, ?_, hcode, rfl, fun entry hentry howned => ?_, (named_fields self close).2.2, ?_, rfl⟩
  · rw [readReply, hwritten, List.append_assoc, readResponse_head hstatus h.fields]
    by_cases hnone : head = true ∨ self.status_code = 204 ∨ self.status_code = 304
    · simp only [hskip.mpr hnone, if_true, reading, sentBody, if_pos hnone, List.nil_append, Option.map_some]
    · have hlength := readLength_fields self close
        (Bool.eq_false_iff.mpr fun hbody => hnone (.inr (bodiless_iff.mp hbody)))
      simp only [Bool.eq_false_iff.mpr fun hread => hnone (hskip.mp hread), hlength, Option.bind_some,
        Bool.false_eq_true, if_false, reading, sentBody, if_neg hnone, List.take_left, List.drop_left]
      rw [if_pos (by simp only [List.length_append]; omega), Option.map_some]
  · exact List.mem_append_right _ (List.mem_filter.mpr ⟨hentry, by simp [howned]⟩)
  · rw [(named_fields self close).2.1]
    by_cases hbody : self.status_code = 204 ∨ self.status_code = 304
    · rw [if_pos (bodiless_iff.mpr hbody), if_pos hbody]
    · rw [if_neg (fun h => hbody (bodiless_iff.mp h)), if_neg hbody]
      rfl

end HttpResponse

namespace core.RequestDispatcher

variable {H : Type}

/-- The handlers leave the method of a request alone, set fields that keep to
their lines, and give a body to no response that is to have none. They may throw. -/
structure Polite (call : H → HttpRequest → HttpResponse → HandlerResult) : Prop where
  method : ∀ handler req, (call handler req {}).req.method = req.method
  fields : ∀ handler req, ∀ entry ∈ (call handler req {}).res.emittedFields, HttpResponse.ValidHeader entry
  body : ∀ handler req, (call handler req {}).thrown = none → (call handler req {}).res.bodiless = true →
    (call handler req {}).res.active_body = []

/-- Where the response of the dispatcher comes from. -/
inductive Dispatched (call : H → HttpRequest → HttpResponse → HandlerResult) (self : RequestDispatcher H)
    (seen : HttpRequest) : HttpRequest × HttpResponse → Prop where
  | unmatched (req : HttpRequest) (hselect : self.router_.select seen = (none, req)) :
      Dispatched call self seen (req, (({} : HttpResponse).status 404).text (ascii "Not Found"))
  | returned (handler : H) (req : HttpRequest) (hselect : self.router_.select seen = (some handler, req))
      (hreturned : (call handler req {}).thrown = none) :
      Dispatched call self seen ((call handler req {}).req, (call handler req {}).res)
  | threw (handler : H) (req : HttpRequest) (thrown : Thrown)
      (hselect : self.router_.select seen = (some handler, req))
      (hthrown : (call handler req {}).thrown = some thrown) :
      Dispatched call self seen ((call handler req {}).req, recovered (call handler req {}).res)

/-- Where a response comes from: no route, a handler that returned, or one that threw. -/
theorem dispatch_cases (call : H → HttpRequest → HttpResponse → HandlerResult) (self : RequestDispatcher H)
    (seen : HttpRequest) : Dispatched call self seen (self.dispatch call seen {}) := by
  rw [dispatch, Router.resolve]
  cases hselect : self.router_.select seen with
  | mk selected req =>
    cases selected with
    | none => exact .unmatched req hselect
    | some handler =>
      dsimp only
      cases hthrown : (call handler req {}).thrown with
      | none => exact .returned handler req hselect hthrown
      | some thrown => exact .threw handler req thrown hselect hthrown

/-- Polite handlers have the dispatcher send what a client can tell apart. -/
theorem Polite.dispatch {call : H → HttpRequest → HttpResponse → HandlerResult} (h : Polite call)
    (self : RequestDispatcher H) (seen : HttpRequest) :
    (self.dispatch call seen {}).1.method = seen.method ∧ (self.dispatch call seen {}).2.Sendable := by
  have hcases := dispatch_cases call self seen
  have hselected := self.router_.select_method seen
  generalize self.dispatch call seen {} = outcome at hcases
  cases hcases with
  | unmatched req hselect =>
    rw [hselect] at hselected
    exact ⟨hselected, fun entry hentry => (by cases hentry), fun hbodiless => (by cases hbodiless)⟩
  | returned handler req hselect hreturned =>
    rw [hselect] at hselected
    exact ⟨(h.method handler req).trans hselected, h.fields handler req, h.body handler req hreturned⟩
  | threw handler req thrown hselect =>
    rw [hselect] at hselected
    exact ⟨(h.method handler req).trans hselected, h.fields handler req, fun hbodiless => by cases hbodiless⟩

/-- With polite handlers every response of the dispatcher can be read by a client. -/
theorem Polite.dispatch_response {call : H → HttpRequest → HttpResponse → HandlerResult} (h : Polite call)
    (self : RequestDispatcher H) (seen : HttpRequest) (close : Bool) :
    (self.dispatch_response call seen close).1.method = seen.method ∧
      (self.dispatch_response call seen close).2.Sendable := by
  obtain ⟨hmethod, hsendable⟩ := h.dispatch self seen
  refine ⟨hmethod, ?_⟩
  rw [RequestDispatcher.dispatch_response]
  split_ifs
  · refine ⟨?_, hsendable.body⟩
    rw [HttpResponse.emittedFields_header (by decide)]
    exact hsendable.fields
  · exact hsendable

end core.RequestDispatcher

namespace transport.TcpConnection

variable {H : Type}

/-- What a request or a failure has been answered with, and whether its client
reads the answer as one to HEAD. -/
structure Reply where
  answer : Answer
  response : HttpResponse
  close : Bool
  head : Bool

/-- What a connection has answered so far, with the responses. -/
def replies (log : List Effect) : List Reply :=
  log.filterMap fun
    | .dispatch_response block seen close response =>
      some { answer := .request block seen.body, response, close, head := seen.method = .HEAD }
    | .fail status => some { answer := .failure status, response := failure status, close := true, head := false }
    | _ => none

/-- The stream that the client receives once every write has completed. -/
def sentBytes (log : List Effect) : Bytes := (writes log).flatMap fun sent => sent.1 ++ sent.2

/-- The client has read the response that it was sent. -/
def Reply.ReadAs (reply : Reply) (reading : HttpResponse.Reading) : Prop :=
  reply.response.Recovers reply.close reply.head reading

/-- The replies are to the answers of the framing, one each. -/
theorem answers_eq_replies (log : List Effect) : answers log = (replies log).map (·.answer) := by
  rw [answers, replies, List.map_filterMap]
  congr 1
  funext effect
  cases effect <;> rfl

theorem replies_append (log effects : List Effect) : replies (log ++ effects) = replies log ++ replies effects :=
  List.filterMap_append

theorem sentBytes_append (log effects : List Effect) :
    sentBytes (log ++ effects) = sentBytes log ++ sentBytes effects := by
  rw [sentBytes, writes_append, List.flatMap_append]
  rfl

/-- The replies with the bytes that each was sent as. -/
structure Delimited (log : List Effect) (sent : List (Reply × Bytes)) : Prop where
  replies : sent.map Prod.fst = replies log
  bytes : sent.flatMap Prod.snd = sentBytes log
  delimits : ∀ item ∈ sent, delimited.Delimits HttpResponse.readReply item.1.head item.2 item.1.ReadAs

/-- Logs that are delimited are so one behind the other. -/
theorem Delimited.append {log effects : List Effect} {sent sent' : List (Reply × Bytes)}
    (h : Delimited log sent) (h' : Delimited effects sent') : Delimited (log ++ effects) (sent ++ sent') := by
  refine ⟨?_, ?_, fun item hitem => ?_⟩
  · rw [List.map_append, h.replies, h'.replies, replies_append]
  · rw [List.flatMap_append, h.bytes, h'.bytes, sentBytes_append]
  · exact (List.mem_append.mp hitem).elim (h.delimits item) (h'.delimits item)

/-- Refusals are always readable. -/
theorem failure_sendable {status : Nat} (hstatus : status ∈ HttpParser.parseFailures) :
    (failure status).Sendable := by
  refine ⟨fun entry hentry => (by cases hentry), fun hbodiless => ?_⟩
  simp only [HttpParser.parseFailures, List.mem_cons, List.not_mem_nil, or_false] at hstatus
  have hcode : (status : Int) = 204 ∨ (status : Int) = 304 := HttpResponse.bodiless_iff.mp hbodiless
  omega

variable {dispatcher_ : core.RequestDispatcher H} {limits_ : HttpLimits} {labels : List (Label H)}

/-- Each segment answers with what delimits itself, or with nothing. An answer is the
head and the body of one response to the method that was dispatched. -/
theorem Segment.delimited {count : Nat} {effects : List Effect}
    (h : Segment dispatcher_ limits_ labels count effects)
    (hlabels : ∀ label ∈ labels, core.RequestDispatcher.Polite label.env.call) :
    ∃ sent, Delimited effects sent := by
  have hone : ∀ {reply : Reply} {bytes : Bytes}, replies effects = [reply] → sentBytes effects = bytes →
      delimited.Delimits HttpResponse.readReply reply.head bytes reply.ReadAs → ∃ sent, Delimited effects sent := by
    intro reply bytes hreplies hbytes hdelimits
    refine ⟨[(reply, bytes)], hreplies.symm, ?_, fun item hitem => ?_⟩
    · rw [hbytes]
      exact List.append_nil bytes
    · rw [List.mem_singleton.mp hitem]
      exact hdelimits
  cases h with
  | reads room => exact ⟨[], rfl, rfl, fun item hitem => by cases hitem⟩
  | closes id => exact ⟨[], rfl, rfl, fun item hitem => by cases hitem⟩
  | fails status header hstatus hhead =>
    exact hone rfl (List.append_nil _) ((failure_sendable hstatus).delimits false hhead)
  | answers block seen req req' close response header label hlabel hparse hvalues hlast hclose hresponse hhead =>
    obtain ⟨hmethod, hsendable⟩ := (hlabels label hlabel).dispatch_response dispatcher_ seen close
    rw [hresponse] at hmethod hsendable
    refine hone rfl (List.append_nil _) ?_
    rw [payload, hmethod]
    have hdelimits := hsendable.delimits (decide (seen.method = .HEAD)) hhead
    simp only [decide_eq_true_eq] at hdelimits
    exact hdelimits

/-- By induction on the transcript, each segment writes pieces that a reader cuts apart again. -/
theorem Transcript.delimited {log : List Effect} (h : Transcript dispatcher_ limits_ labels log)
    (hlabels : ∀ label ∈ labels, core.RequestDispatcher.Polite label.env.call) :
    ∃ sent, Delimited log sent := by
  induction h with
  | nil => exact ⟨[], rfl, rfl, fun item hitem => by cases hitem⟩
  | snoc _ segment ih =>
    obtain ⟨sent, hsent⟩ := ih
    obtain ⟨sent', hsent'⟩ := segment.delimited hlabels
    exact ⟨sent ++ sent', hsent.append hsent'⟩

/-- What a transcript has sent is read back as what it has answered. -/
theorem Transcript.readings {log : List Effect} (h : Transcript dispatcher_ limits_ labels log)
    (hlabels : ∀ label ∈ labels, core.RequestDispatcher.Polite label.env.call) :
    ∃ readings, delimited.readAll HttpResponse.readReply ((replies log).map (·.head)) (sentBytes log) =
        some (readings, []) ∧ List.Forall₂ Reply.ReadAs (replies log) readings := by
  obtain ⟨sent, hreplies, hbytes, hdelimits⟩ := h.delimited hlabels
  obtain ⟨readings, hread, hmeans⟩ := delimited.readAll_flatMap (fun item : Reply × Bytes => item.1.head) hdelimits []
  refine ⟨readings, ?_, ?_⟩
  · rw [← hreplies, ← hbytes, List.map_map, ← hread, List.append_nil]
    rfl
  · rw [← hreplies, List.forall₂_map_left_iff]
    exact hmeans

/-- In every run, whatever arrives and however it ends, a client reads from what it
is sent one response for each request dispatched and each failure, in this order,
each as it was built, and nothing is left over. -/
theorem replies_readable {env : Environment H} {id_ : Nat} {first final : TcpConnection H}
    (hvalid : limits_.validate = .ok ())
    (hstart : ({ dispatcher_, limits_, id_ } : TcpConnection H).start env = .ok first)
    (hrun : Run Step first labels final)
    (hlabels : ∀ label ∈ labels, core.RequestDispatcher.Polite label.env.call) :
    ∃ readings, delimited.readAll HttpResponse.readReply ((replies final.log).map (·.head)) (sentBytes final.log) =
        some (readings, []) ∧
      List.Forall₂ Reply.ReadAs (replies final.log) readings :=
  (told_of_run hvalid hstart hrun).transcript.readings hlabels

/-- A handler that answers with a sendable response is polite. -/
theorem answering_polite {response : HttpResponse} (h : response.Sendable) :
    core.RequestDispatcher.Polite (answering response).call :=
  ⟨fun _ _ => rfl, fun _ _ => h.fields, fun _ _ _ => h.body⟩

theorem greeting_sendable : greeting.Sendable :=
  ⟨fun entry hentry => (by cases hentry), fun hbodiless => (by cases hbodiless)⟩

theorem replies_readable_home :
    ∃ final readings, Run Step (async_read_some { dispatcher_ := homePage, limits_ := .defaults }) homeReads final ∧
      delimited.readAll HttpResponse.readReply ((replies final.log).map (·.head)) (sentBytes final.log) =
        some (readings, []) ∧ readings.length = 2 := by
  have hstart := start_reading (answering greeting) homePage .defaults (by decide)
  obtain ⟨final, hrun, hcount⟩ := exists_run_of_check
    (async_read_some { dispatcher_ := homePage, limits_ := .defaults }) homeReads
    (fun final => (replies final.log).length = 2) (by decide +kernel)
  have hlabels : ∀ label ∈ homeReads, core.RequestDispatcher.Polite label.env.call := by
    simp [homeReads, answering_polite greeting_sendable]
  obtain ⟨readings, hread, hmeans⟩ := replies_readable HttpLimits.validate_defaults hstart hrun hlabels
  exact ⟨final, readings, hrun, hread, hmeans.length_eq.symm.trans hcount⟩

end transport.TcpConnection

end octane
