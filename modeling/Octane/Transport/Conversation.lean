import Octane.HttpParser.Acceptance
import Octane.HttpParser.Encoding
import Octane.HttpParser.KeepAlive
import Octane.Transport.StringDispatch

open search transition

namespace octane

namespace HttpParser

namespace SentHead

/-- The length that a head announces for its body. -/
def announcedLength (sent : SentHead) : Nat :=
  ((sent.value (ascii "content-length")).map decimal.value).getD 0

/-- The sender of the head means to go on after its request. -/
def persists (sent : SentHead) : Bool :=
  let connection := (sent.value (ascii "connection")).getD []
  !hasElement connection (ascii "close") &&
    (sent.version = ascii "HTTP/1.1" || hasElement connection (ascii "keep-alive"))

variable {sent : SentHead} {limits : HttpLimits}

/-- The Connection field that decides is the one its sender wrote. -/
theorem Valid.connection_eq (h : sent.Valid limits) :
    (connectionValues sent.encode).head?.getD [] = (sent.value (ascii "connection")).getD [] := by
  have hlines : fieldLines sent.encode = sent.head.fields := fieldLines_encode h.wellFormed
  rw [← h.firstField_eq, connectionValues, hlines, List.head?_map, List.head?_filter]
  rfl

/-- An encoded head is parsed to what its sender means by it. -/
theorem Valid.parsed (h : sent.Valid limits) (hsize : sent.encode.length ≤ limits.max_header_bytes) :
    ∃ req, parse_headers sent.encode limits = .ok req ∧ req.method = toMethod sent.method ∧
      req.content_length = sent.announcedLength ∧ req.keep_alive = sent.persists := by
  obtain ⟨req, hparse, hmethod, hversion, _, hlength, _⟩ := h.parse_headers_success hsize
  have hkeep := parse_headers_keep_alive hparse
  rw [h.connection_eq, hversion] at hkeep
  refine ⟨req, hparse, hmethod, hlength, Bool.eq_iff_iff.mpr (hkeep.trans ?_)⟩
  simp [persists]

/-- The first blank line in a stream that starts with a head is the one that ends it. -/
theorem Valid.find_end (h : sent.Valid limits) (tail : Bytes) :
    ∃ stop, findSub CRLFCRLF (sent.encode ++ tail) = some stop ∧ stop + 4 = sent.encode.length :=
  h.wellFormed.find_end tail

end SentHead

/-- A request as its sender has it, with its body. -/
structure SentRequest where
  head : SentHead
  body : Bytes

namespace SentRequest

def encode (sent : SentRequest) : Bytes := sent.head.encode ++ sent.body

/-- The requests that the server takes: the head is one of those, it fits, and it
announces the body. -/
structure Valid (limits : HttpLimits) (sent : SentRequest) : Prop where
  head : sent.head.Valid limits
  size : sent.head.encode.length ≤ limits.max_header_bytes
  body : sent.body.length = sent.head.announcedLength

end SentRequest

end HttpParser

/-- What a map shows under a key is what its entries show. -/
theorem get_bytes_eq {eqv : StringView → StringView → Bool} {same : Bytes → Bytes → Bool}
    (heqv : ∀ a b, eqv a b = same a.bytes b.bytes) (map : UnorderedMap StringView StringView) (key : StringView) :
    (map.get eqv key).map StringView.bytes =
      ((map.entries.map shown).find? fun entry => same entry.1 key.bytes).map Prod.snd := by
  rw [UnorderedMap.get, UnorderedMap.find, List.find?_map, Option.map_map, Option.map_map]
  simp only [heqv]
  rfl

namespace transport

open HttpParser

/-- What is dispatched shows the request that was sent: its head says all that is
shown but the body, and the body is the one behind that head. -/
structure ShownAs (sent : SentRequest) (seen : HttpRequest) : Prop where
  head : sent.head.head.Reads { seen with body := [] }
  body : seen.body = sent.body

def Answer.isRequest : Answer → Bool
  | .request .. => true
  | .failure _ => false

/-- The connection closes after this request, if it is the one after `count` others. -/
def closesAfter (limits : HttpLimits) (count : Nat) (sent : SentRequest) : Bool :=
  !sent.head.persists || decide (limits.max_requests_per_connection ≤ count + 1)

/-- The requests of a stream that are answered, each with whether it is the last. -/
def served (limits : HttpLimits) : Nat → List SentRequest → List (SentRequest × Bool)
  | _, [] => []
  | count, sent :: later =>
    (sent, closesAfter limits count sent) ::
      if closesAfter limits count sent then [] else served limits (count + 1) later

/-- The answer that the reference for the framing has for a request. -/
def SentRequest.answer (sent : SentRequest) : Answer := .request sent.head.encode sent.body

variable {limits : HttpLimits}

/-- A request in front of a stream is framed as it was sent. -/
theorem frame_sent {sent : SentRequest} (h : sent.Valid limits) (count : Nat) (tail : Bytes) :
    frame limits count (sent.encode ++ tail) =
      SentRequest.answer sent ::
        if closesAfter limits count sent then [] else frame limits (count + 1) tail := by
  obtain ⟨req, hparse, _, hlength, hkeep⟩ := h.head.parsed h.size
  obtain ⟨stop, hfound, hstop⟩ := h.head.find_end sent.body
  have hfind : findSub CRLFCRLF sent.encode = some stop := hfound
  have hblock : sent.encode.take (stop + 4) = sent.head.encode := by
    rw [hstop, SentRequest.encode, List.take_left]
  have hrest : sent.encode.drop (stop + 4) = sent.body := by
    rw [hstop, SentRequest.encode, List.drop_left]
  have hbody : req.content_length = sent.body.length := hlength.trans h.body.symm
  have hlast : lastRequest limits count req = closesAfter limits count sent := by
    rw [lastRequest, closesAfter, hkeep]
  rw [← hblock] at hparse
  have hwhole : stop + 4 + req.content_length = sent.encode.length := by
    rw [hbody, hstop, SentRequest.encode, List.length_append]
  rw [frame_request hfind hparse hwhole.le tail, hblock, hrest, hbody, List.take_length, hlast,
    ← hbody, hwhole, List.drop_length, List.nil_append]
  rfl

/-- Requests sent one after the other are framed one by one, up to the last one
that the connection answers. -/
theorem frame_pipelined {sents : List SentRequest} (hpositive : 0 < limits.max_header_bytes)
    (h : ∀ sent ∈ sents, sent.Valid limits) (count : Nat) :
    frame limits count (sents.flatMap SentRequest.encode) =
      (served limits count sents).map (SentRequest.answer ·.1) := by
  induction sents generalizing count with
  | nil => exact frame_headless (by decide) hpositive
  | cons sent sents ih =>
    obtain ⟨hsent, hlater⟩ := List.forall_mem_cons.mp h
    rw [List.flatMap_cons, frame_sent hsent, served, List.map_cons]
    split_ifs
    · rfl
    · rw [ih hlater]

namespace TcpConnection

variable {H : Type} {dispatcher_ : core.RequestDispatcher H} {limits_ : HttpLimits} {labels : List (Label H)}

/-- Every reply to a request announces the close as the framing calls for it, after
`count` requests. -/
def Announces (limits_ : HttpLimits) : Nat → List Reply → Prop
  | _, [] => True
  | count, reply :: later =>
    match reply.answer with
    | .request block _ =>
      (∀ req, parse_headers block limits_ = .ok req → reply.close = lastRequest limits_ count req) ∧
        Announces limits_ (count + 1) later
    | .failure _ => Announces limits_ count later

/-- The dispatch on the log that a reply to a request comes from. -/
def Reply.Made (limits_ : HttpLimits) (log : List Effect) (reply : Reply) : Prop :=
  ∀ block body, reply.answer = .request block body →
    ∃ seen req, .dispatch_response block seen reply.close reply.response ∈ log ∧
      parse_headers block limits_ = .ok req ∧ SameValues seen req ∧
      seen.body = body ∧ reply.head = decide (seen.method = .HEAD)

/-- Every reply to a request comes from a dispatch on the log, of a request with the
values of its head. -/
theorem Transcript.made {log : List Effect} (h : Transcript dispatcher_ limits_ labels log) :
    ∀ reply ∈ replies log, reply.Made limits_ log := by
  induction h with
  | nil =>
    intro reply hreply
    cases hreply
  | snoc before segment ih =>
    intro reply hreply
    rw [replies_append] at hreply
    refine (List.mem_append.mp hreply).elim (fun hold block body hanswer => ?_) fun hnew => ?_
    · obtain ⟨seen, req, hmem, hmade⟩ := ih reply hold block body hanswer
      exact ⟨seen, req, List.mem_append_left _ hmem, hmade⟩
    cases segment with
    | reads room => cases hnew
    | closes id => cases hnew
    | fails status header hstatus hhead =>
      intro block body hanswer
      rw [List.mem_singleton.mp hnew] at hanswer
      cases hanswer
    | answers block seen req req' close response header label _ hparse hvalues =>
      intro block' body hanswer
      obtain rfl := List.mem_singleton.mp hnew
      cases hanswer
      exact ⟨seen, req, List.mem_append_right _ List.mem_cons_self, hparse, hvalues, rfl, rfl⟩

/-- Announcements are counted on: later replies are announced as the requests before
them call for. -/
theorem Announces.append {count : Nat} {earlier later : List Reply} (h : Announces limits_ count earlier)
    (h' : Announces limits_ (count + earlier.countP (·.answer.isRequest)) later) :
    Announces limits_ count (earlier ++ later) := by
  induction earlier generalizing count with
  | nil => simpa using h'
  | cons reply earlier ih =>
    obtain ⟨answer, response, close, head⟩ := reply
    cases answer with
    | request block body =>
      refine ⟨h.1, ih h.2 ?_⟩
      rw [List.countP_cons_of_pos (by rfl)] at h'
      rwa [Nat.add_right_comm, Nat.add_assoc]
    | failure status =>
      rw [List.countP_cons_of_neg (by simp [Answer.isRequest])] at h'
      exact ih h h'

/-- The replies to requests are as many as the dispatches. -/
theorem countP_replies (log : List Effect) :
    (replies log).countP (·.answer.isRequest) = dispatched log := by
  rw [replies, List.countP_filterMap, dispatched]
  congr 1
  funext effect
  cases effect <;> rfl

/-- Where nothing has asked for a stop, the close is announced as the framing calls for it. -/
theorem Transcript.announces {log : List Effect} (h : Transcript dispatcher_ limits_ labels log)
    (hgoing : ¬ StopRequested labels) : Announces limits_ 0 (replies log) := by
  induction h with
  | nil => trivial
  | snoc before segment ih =>
    rw [replies_append]
    refine ih.append ?_
    rw [countP_replies, Nat.zero_add]
    cases segment with
    | reads room => trivial
    | closes id => trivial
    | fails status header hstatus hhead => trivial
    | answers block seen req req' close response header label _ hparse _ hlast hclose =>
      refine ⟨fun other hother => ?_, trivial⟩
      obtain rfl : req = other := Except.ok.inj (hparse.symm.trans hother)
      exact Bool.eq_iff_iff.mpr ⟨fun h => (hclose h).resolve_right hgoing, hlast⟩

/-- The replies to requests that were sent announce what their senders expect. By
induction on the requests: the parser reads the keep-alive that the sender meant. -/
theorem Announces.served {sents : List SentRequest} {count : Nat} {all : List Reply}
    (h : Announces limits_ count all) (hsents : ∀ sent ∈ sents, sent.Valid limits_)
    (hanswers : all.map (·.answer) = (served limits_ count sents).map (SentRequest.answer ·.1)) :
    List.Forall₂ (fun sent reply => sent.1.Valid limits_ ∧ reply.answer = SentRequest.answer sent.1 ∧
      reply.close = sent.2) (served limits_ count sents) all := by
  induction sents generalizing count all with
  | nil =>
    obtain rfl := List.map_eq_nil_iff.mp hanswers
    exact .nil
  | cons sent sents ih =>
    obtain ⟨hsent, hlater⟩ := List.forall_mem_cons.mp hsents
    obtain ⟨req, hparse, _, _, hkeep⟩ := hsent.head.parsed hsent.size
    rw [transport.served, List.map_cons] at hanswers
    obtain ⟨reply, later, rfl, hanswer, hrest⟩ := List.map_eq_cons_iff.mp hanswers
    obtain ⟨answer, response, close, head⟩ := reply
    dsimp only at hanswer
    subst hanswer
    obtain ⟨hclose, hannounces⟩ := h
    have hflag : close = closesAfter limits_ count sent := by
      rw [closesAfter, ← hkeep]
      exact hclose req hparse
    rw [transport.served]
    refine .cons ⟨hsent, rfl, hflag⟩ ?_
    split_ifs at hrest ⊢ with hends
    · obtain rfl := List.map_eq_nil_iff.mp hrest
      exact .nil
    · exact ih hannounces hlater hrest

/-- A request that shows what a head was parsed to shows what the head says. -/
theorem shownAs_of_faithful {sent : SentRequest} {seen req : HttpRequest} (hsent : sent.Valid limits_)
    (hparse : parse_headers sent.head.encode limits_ = .ok req) (hvalues : SameValues seen req)
    (hviews : SameViews seen req) (hbody : seen.body = sent.body) : ShownAs sent seen := by
  have hreads : sent.head.head.Reads req := hsent.head.wellFormed.reads hparse
  have hheader : ∀ a b, HeaderMap.keyEq a b = CaseInsensitiveEqual a.bytes b.bytes := fun _ _ => rfl
  have hstring : ∀ a b, StringMap.keyEq a b = (a.bytes == b.bytes) := fun _ _ => rfl
  refine ⟨⟨hvalues.method.trans hreads.method, hviews.path.trans hreads.path,
    hviews.http_version.trans hreads.http_version, fun key => ?_, fun name => ?_,
    hvalues.content_length.trans hreads.content_length, hvalues.keep_alive.trans hreads.keep_alive,
    hvalues.content_type.trans hreads.content_type, fun key => ?_, rfl, hvalues.params⟩, hbody⟩
  · rw [← hreads.query key, StringMap.bytesOf, StringMap.bytesOf, get_bytes_eq hstring, get_bytes_eq hstring,
      hviews.query]
  · rw [← hreads.headers name, get_bytes_eq hheader, get_bytes_eq hheader, hviews.headers]
  · rw [← hreads.cookies key, StringMap.bytesOf, StringMap.bytesOf, get_bytes_eq hstring, get_bytes_eq hstring,
      hviews.cookies]

/-- The client has read what the router and the handler have made of the request that
it sent, in the callback that has put this dispatch on the log. -/
def Answered (dispatcher_ : core.RequestDispatcher H) (first : TcpConnection H) (labels : List (Label H))
    (sent : SentRequest × Bool) (reading : HttpResponse.Reading) : Prop :=
  ∃ label seen response,
    LoggedBy first labels label (.dispatch_response sent.1.head.encode seen sent.2 response) ∧
    ShownAs sent.1 seen ∧ (dispatcher_.dispatch_response label.env.call seen sent.2).2 = response ∧
    response.Recovers sent.2 (toMethod sent.1.head.method = .HEAD) reading

/-- The reply to a request that was sent is read as one to its method, and as what
its handler made of it, where every handler saw its own request. -/
theorem Reply.Made.answered {env : Environment H} {id_ : Nat} {first final : TcpConnection H} {reply : Reply}
    {sent : SentRequest × Bool} (h : reply.Made limits_ final.log) (hvalid : limits_.validate = .ok ())
    (hstart : ({ dispatcher_, limits_, id_ } : TcpConnection H).start env = .ok first)
    (hrun : Run Step first labels final) (hsent : sent.1.Valid limits_) (hfaithful : Faithful limits_ final.log)
    (hanswer : reply.answer = SentRequest.answer sent.1) (hclose : reply.close = sent.2) :
    reply.head = decide (toMethod sent.1.head.method = .HEAD) ∧
      ∀ reading, reply.ReadAs reading → Answered dispatcher_ first labels sent reading := by
  obtain ⟨seen, req, hmem, hparse, hvalues, hbody, hhead⟩ := h _ _ hanswer
  obtain ⟨parsed, hparsed, hmethod, _⟩ := hsent.head.parsed hsent.size
  obtain ⟨viewed, hviewed, hviews⟩ := hfaithful _ _ _ _ hmem
  obtain rfl : req = viewed := Except.ok.inj (hparse.symm.trans hviewed)
  obtain rfl : req = parsed := Except.ok.inj (hparse.symm.trans hparsed)
  rw [hvalues.method, hmethod] at hhead
  refine ⟨hhead, fun reading hreading => ?_⟩
  rw [Reply.ReadAs, hhead, hclose] at hreading
  rw [hclose] at hmem
  obtain ⟨label, hlogged, hresponse⟩ := dispatched_by hvalid hstart hrun hmem
  exact ⟨label, seen, reply.response, hlogged, shownAs_of_faithful hsent hparse hvalues hviews hbody, hresponse,
    hreading⟩

/-- A client that sends requests on a connection, in any pieces, has once the last
write has completed been sent one response for each request, up to the one after
which the connection closes: what the router and the handler make of the request as
it was sent, where nothing disturbs the head of a request that waits for its body. -/
theorem conversation_of_run {env : Environment H} {id_ : Nat} {first final : TcpConnection H}
    {sents : List SentRequest}
    (hvalid : limits_.validate = .ok ())
    (hstart : ({ dispatcher_, limits_, id_ } : TcpConnection H).start env = .ok first)
    (hrun : Run Step first labels final)
    (hlabels : ∀ label ∈ labels, label.event.completes ∧ core.RequestDispatcher.Polite label.env.call)
    (hundisturbed : Throughout Undisturbed Step first labels)
    (hsents : ∀ sent ∈ sents, sent.Valid limits_)
    (hdelivered : receivedBytes labels <+: sents.flatMap SentRequest.encode)
    (hall : final.phase_ ≠ .closed → receivedBytes labels = sents.flatMap SentRequest.encode)
    (hwritten : final.phase_ ≠ .writing) :
    ∃ readings, delimited.readAll HttpResponse.readReply
          ((served limits_ 0 sents).map fun sent => decide (toMethod sent.1.head.method = .HEAD))
          (sentBytes final.log) = some (readings, []) ∧
      List.Forall₂ (Answered dispatcher_ first labels) (served limits_ 0 sents) readings := by
  have hheaders := (HttpLimits.validate_ok hvalid).1
  have htranscript := (told_of_run hvalid hstart hrun).transcript
  have hfaithful := (intact_of_run hstart (hrun.guarded hundisturbed)).log
  have hgoing : ¬ StopRequested labels := by
    rintro ⟨label, hlabel, force, hstop⟩
    have hcompletes := (hlabels label hlabel).1
    rw [hstop] at hcompletes
    exact hcompletes
  have hanswers : (replies final.log).map (·.answer) = (served limits_ 0 sents).map (SentRequest.answer ·.1) := by
    rw [← answers_eq_replies, ← frame_pipelined (by omega) hsents]
    exact (framed_of_run hvalid hstart hrun fun label hlabel => (hlabels label hlabel).1).answers_eq hwritten
      hdelivered hall
  have hserved := (htranscript.announces hgoing).served hsents hanswers
  obtain ⟨readings, hread, hreadings⟩ := htranscript.readings fun label hlabel => (hlabels label hlabel).2
  have hmade := htranscript.made
  have hheads : (replies final.log).map (·.head) =
      (served limits_ 0 sents).map fun sent => decide (toMethod sent.1.head.method = .HEAD) := by
    have hflipped : List.Forall₂ (fun (reply : Reply) (sent : SentRequest × Bool) => sent.1.Valid limits_ ∧
        reply.answer = SentRequest.answer sent.1 ∧ reply.close = sent.2) (replies final.log)
        (served limits_ 0 sents) := hserved.flip
    rw [← List.forall₂_eq_eq_eq, List.forall₂_map_left_iff, List.forall₂_map_right_iff]
    refine ((List.forall₂_and_left _ _).mpr ⟨hmade, hflipped⟩).imp ?_
    rintro reply sent ⟨hmade, hsent, hanswer, hclose⟩
    exact (hmade.answered hvalid hstart hrun hsent hfaithful hanswer hclose).1
  rw [← hheads]
  refine ⟨readings, hread, (delimited.forall₂_comp hserved
    ((List.forall₂_and_left _ _).mpr ⟨hmade, hreadings⟩)).imp ?_⟩
  rintro sent reading ⟨reply, ⟨hsent, hanswer, hclose⟩, hmade, hreading⟩
  exact (hmade.answered hvalid hstart hrun hsent hfaithful hanswer hclose).2 reading hreading

/-- The request that `sentNote` is the head of, and a second one. -/
def sentNotes : List SentRequest :=
  [{ head := sentNote, body := ascii "abc" }, { head := sentNote, body := ascii "def" }]

/-- The two requests, the first read ending within the body of the first. -/
def noteReads : List (Label Unit) :=
  [⟨.read ((sentNotes.flatMap SentRequest.encode).take 70), answering greeting⟩,
    ⟨.read ((sentNotes.flatMap SentRequest.encode).drop 70), answering greeting⟩,
    ⟨.written, answering greeting⟩, ⟨.written, answering greeting⟩]

theorem sentNotes_valid : ∀ sent ∈ sentNotes, sent.Valid .defaults := by
  intro sent hsent
  simp only [sentNotes, List.mem_cons, List.not_mem_nil, or_false] at hsent
  obtain rfl | rfl := hsent <;> exact ⟨sentNote_valid, by decide +kernel, by decide +kernel⟩

end TcpConnection

end transport

end octane
