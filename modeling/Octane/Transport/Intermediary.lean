import Octane.HttpParser.Respelling
import Octane.Transport.Conversation

open search transition

namespace octane.transport

open HttpParser

/-- A request and what has become of it on the way: its head may be respelled, its body is as it was. -/
structure Relayed (limits : HttpLimits) (sent relayed : RequestHead × Bytes) : Prop where
  wellFormed : sent.1.WellFormed
  head : sent.1.Respelled relayed.1
  body : relayed.2 = sent.2
  size : sent.1.encode.length ≤ limits.max_header_bytes
  relayed_size : relayed.1.encode.length ≤ limits.max_header_bytes
  announced : ∀ req, parse_headers sent.1.encode limits = .ok req → req.content_length = sent.2.length

/-- Answers to a request that cannot be told apart: two requests that are read alike with the same
body, or refusals with the same status. -/
inductive SameAnswer (limits : HttpLimits) : Answer → Answer → Prop where
  | request {block block' body : Bytes} {req req' : HttpRequest} (hparse : parse_headers block limits = .ok req)
      (hparse' : parse_headers block' limits = .ok req') (hsame : SameReading req req') :
      SameAnswer limits (.request block body) (.request block' body)
  | failure (status : Int) : SameAnswer limits (.failure status) (.failure status)

/-- A stream of requests, one behind the other. -/
def stream (requests : List (RequestHead × Bytes)) : Bytes :=
  requests.flatMap fun request => request.1.encode ++ request.2

variable {limits : HttpLimits} {head : RequestHead} {count : Nat}

/-- A head that is refused ends the framing, whatever is behind it. -/
theorem frame_head_refused (h : head.WellFormed) {status : Nat}
    (hparse : parse_headers head.encode limits = .error (.HttpParseError status)) (tail : Bytes) :
    frame limits count (head.encode ++ tail) = [.failure status] := by
  obtain ⟨stop, hfind, hstop⟩ := h.find_end tail
  rw [frame_found hfind, hstop, List.take_left, hparse]

/-- A head that is accepted is framed with the body behind it. -/
theorem frame_head_accepted (h : head.WellFormed) {req : HttpRequest}
    (hparse : parse_headers head.encode limits = .ok req) {body : Bytes} (hbody : req.content_length = body.length)
    (tail : Bytes) : frame limits count (head.encode ++ body ++ tail) = .request head.encode body ::
      if lastRequest limits count req then [] else frame limits (count + 1) tail := by
  obtain ⟨stop, hfind, hstop⟩ := h.find_end (body ++ tail)
  rw [List.append_assoc, frame_found hfind, hstop, List.take_left, List.drop_left, hparse]
  dsimp only
  rw [hbody, if_neg (by rw [List.length_append]; omega), List.take_left, List.drop_left]

/-- Streams of which one was relayed are framed alike. By induction on the requests:
both heads are read or refused alike, and the bodies are the same. -/
theorem frame_relayed (hpositive : 0 < limits.max_header_bytes) {sent relayed : List (RequestHead × Bytes)}
    (h : List.Forall₂ (Relayed limits) sent relayed) (count : Nat) :
    List.Forall₂ (SameAnswer limits) (frame limits count (stream sent)) (frame limits count (stream relayed)) := by
  induction h generalizing count with
  | nil =>
    have hnothing : frame limits count (stream []) = [] := frame_headless (by decide) hpositive
    rw [hnothing]
    exact .nil
  | @cons request relayed requests others hrequest _ ih =>
    have hwellFormed := hrequest.head.wellFormed hrequest.wellFormed
    rw [stream, stream, List.flatMap_cons, List.flatMap_cons]
    obtain ⟨status, hparse, hparse'⟩ | ⟨req, req', hparse, hparse', hsame⟩ :=
      hrequest.head.parsed hrequest.wellFormed hrequest.size hrequest.relayed_size
    · rw [List.append_assoc, frame_head_refused hrequest.wellFormed hparse, List.append_assoc,
        frame_head_refused hwellFormed hparse']
      exact .cons (.failure status) .nil
    · have hlength := hrequest.announced req hparse
      have hlength' : req'.content_length = relayed.2.length := by
        rw [hsame.content_length, hlength, hrequest.body]
      have hlast : lastRequest limits count req' = lastRequest limits count req := by
        rw [lastRequest, hsame.keep_alive, lastRequest]
      rw [frame_head_accepted hrequest.wellFormed hparse hlength, frame_head_accepted hwellFormed hparse' hlength',
        hlast, hrequest.body]
      refine .cons (.request hparse hparse' hsame) ?_
      split_ifs
      · exact .nil
      · exact ih (count + 1)

namespace TcpConnection

variable {H : Type} {dispatcher_ : core.RequestDispatcher H} {limits_ : HttpLimits}

/-- Whoever respells the heads of the requests on the way to the server, and cuts the bytes into
reads in another way, does not change what the connection answers. -/
theorem relayed_alike {env env' : Environment H} {id_ id_' : Nat} {first first' final final' : TcpConnection H}
    {labels labels' : List (Label H)} {sent relayed : List (RequestHead × Bytes)}
    (hvalid : limits_.validate = .ok ()) (hrelayed : List.Forall₂ (Relayed limits_) sent relayed)
    (hstart : ({ dispatcher_, limits_, id_ } : TcpConnection H).start env = .ok first)
    (hrun : Run Step first labels final) (hlabels : ∀ label ∈ labels, label.event.completes)
    (hdelivered : receivedBytes labels <+: stream sent)
    (hall : final.phase_ ≠ .closed → receivedBytes labels = stream sent) (hwritten : final.phase_ ≠ .writing)
    (hstart' : ({ dispatcher_, limits_, id_ := id_' } : TcpConnection H).start env' = .ok first')
    (hrun' : Run Step first' labels' final') (hlabels' : ∀ label ∈ labels', label.event.completes)
    (hdelivered' : receivedBytes labels' <+: stream relayed)
    (hall' : final'.phase_ ≠ .closed → receivedBytes labels' = stream relayed)
    (hwritten' : final'.phase_ ≠ .writing) :
    List.Forall₂ (SameAnswer limits_) (answers final.log) (answers final'.log) := by
  have hpositive := (HttpLimits.validate_ok hvalid).1
  rw [(framed_of_run hvalid hstart hrun hlabels).answers_eq hwritten hdelivered hall,
    (framed_of_run hvalid hstart' hrun' hlabels').answers_eq hwritten' hdelivered' hall']
  exact frame_relayed (by omega) hrelayed 0

/-- The head of `sentNote` as it has become on the way. -/
def relayedNote : RequestHead :=
  { sentNote.head with
    fields := [(ascii "X-EMPTY", []), (ascii "Host", ascii "x:80"), (ascii "content-length", ascii " 3")] }

/-- Letter case, blanks and the order of the fields: one rewriting after the other. -/
theorem sentNote_respelled : sentNote.head.Respelled relayedNote := by
  refine ⟨rfl, rfl, rfl, ?_⟩
  have hexchanged : Rewrites sentNote.head.fields
      [(ascii "X-Empty", ascii " \t"), (ascii "hOsT", ascii " x:80  "), (ascii "Content-Length", ascii "3\t")] :=
    .exchanges [] [(ascii "Content-Length", ascii "3\t")] (by decide)
  have hempty : Rewrites
      [(ascii "X-Empty", ascii " \t"), (ascii "hOsT", ascii " x:80  "), (ascii "Content-Length", ascii "3\t")]
      [(ascii "X-EMPTY", []), (ascii "hOsT", ascii " x:80  "), (ascii "Content-Length", ascii "3\t")] :=
    .respells [] [(ascii "hOsT", ascii " x:80  "), (ascii "Content-Length", ascii "3\t")] (by decide) (by decide)
  have hhost : Rewrites
      [(ascii "X-EMPTY", []), (ascii "hOsT", ascii " x:80  "), (ascii "Content-Length", ascii "3\t")]
      [(ascii "X-EMPTY", []), (ascii "Host", ascii "x:80"), (ascii "Content-Length", ascii "3\t")] :=
    .respells [(ascii "X-EMPTY", [])] [(ascii "Content-Length", ascii "3\t")] (by decide) (by decide)
  have hlength : Rewrites
      [(ascii "X-EMPTY", []), (ascii "Host", ascii "x:80"), (ascii "Content-Length", ascii "3\t")]
      relayedNote.fields :=
    .respells [(ascii "X-EMPTY", []), (ascii "Host", ascii "x:80")] [] (by decide) (by decide)
  exact (((Relation.ReflTransGen.single hexchanged).tail hempty).tail hhost).tail hlength

/-- The first request of `sentNotes` is respelled on the way, the second is not. -/
def notesSent : List (RequestHead × Bytes) := [(sentNote.head, ascii "abc"), (sentNote.head, ascii "def")]

def notesRelayed : List (RequestHead × Bytes) := [(relayedNote, ascii "abc"), (sentNote.head, ascii "def")]

/-- Two requests with their bodies, of which only the first head has changed. -/
theorem notes_relayed : List.Forall₂ (Relayed .defaults) notesSent notesRelayed := by
  have hannounced : ∀ req, parse_headers sentNote.head.encode .defaults = .ok req → req.content_length = 3 :=
    fun req hparse => (sentNote_valid.wellFormed.reads hparse).content_length.trans (by decide +kernel)
  have hsize : sentNote.head.encode.length ≤ HttpLimits.defaults.max_header_bytes := by decide +kernel
  refine .cons ?_ (.cons ?_ .nil)
  · exact ⟨sentNote_valid.wellFormed, sentNote_respelled, rfl, hsize, by decide +kernel, hannounced⟩
  · exact ⟨sentNote_valid.wellFormed, ⟨rfl, rfl, rfl, .refl⟩, rfl, hsize, hsize, hannounced⟩

def relayedReads : List (Label Unit) :=
  [⟨.read (stream notesRelayed), answering greeting⟩, ⟨.written, answering greeting⟩,
    ⟨.written, answering greeting⟩]

theorem relayed_alike_notes :
    ∃ final final', Run Step (async_read_some { dispatcher_ := homePage, limits_ := .defaults }) noteReads final ∧
      Run Step (async_read_some { dispatcher_ := homePage, limits_ := .defaults }) relayedReads final' ∧
      List.Forall₂ (SameAnswer .defaults) (answers final.log) (answers final'.log) := by
  have hstart := start_reading (answering greeting) homePage .defaults (by decide)
  obtain ⟨final, hrun, hphase⟩ := exists_run_of_check
    (async_read_some { dispatcher_ := homePage, limits_ := .defaults }) noteReads
    (fun final => final.phase_ = .headers) (by decide +kernel)
  obtain ⟨final', hrun', hphase'⟩ := exists_run_of_check
    (async_read_some { dispatcher_ := homePage, limits_ := .defaults }) relayedReads
    (fun final => final.phase_ = .headers) (by decide +kernel)
  have hlabels : ∀ label ∈ noteReads, label.event.completes := by simp [noteReads, Event.completes]
  have hlabels' : ∀ label ∈ relayedReads, label.event.completes := by simp [relayedReads, Event.completes]
  have hbytes : receivedBytes noteReads = stream notesSent := by decide +kernel
  have hbytes' : receivedBytes relayedReads = stream notesRelayed := by decide +kernel
  exact ⟨final, final', hrun, hrun', relayed_alike HttpLimits.validate_defaults notes_relayed hstart hrun hlabels
    (by rw [hbytes]) (fun _ => hbytes) (by simp [hphase]) hstart hrun' hlabels' (by rw [hbytes'])
    (fun _ => hbytes') (by simp [hphase'])⟩

end TcpConnection

end octane.transport
