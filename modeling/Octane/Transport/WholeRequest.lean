import Octane.HttpParser.Bounds
import Octane.Transport.Conversation

open search transition

namespace octane

namespace HttpParser

/-- `parse` takes a head and, behind it, exactly the body that the head announces. -/
theorem parse_found {raw : Bytes} {stop : Nat} (hfind : findSub CRLFCRLF raw = some stop) :
    parse raw = (parse_headers (raw.take (stop + 4)) >>= fun head =>
      if (raw.drop (stop + 4)).length = head.content_length then .ok (set_body head (raw.drop (stop + 4)))
      else .error (.HttpParseError 400)) := by
  have hroom : stop + 4 ≤ (StringView.ofBytes raw).size := findSub_add_length_le hfind
  rw [parse, hfind]
  dsimp only
  rw [StringView.substr_of_le (Nat.zero_le _), bind_ok]
  dsimp only [StringView.ofBytes, List.drop_zero, Option.getD_some]
  congr 1
  funext head
  have hlength : raw.length - stop - 4 = (raw.drop (stop + 4)).length := by
    rw [List.length_drop]
    omega
  have hrest : (raw.drop (stop + 4)).take raw.length = raw.drop (stop + 4) :=
    List.take_of_length_le (by rw [List.length_drop]; omega)
  rw [hlength, ite_not]
  split_ifs
  · rw [StringView.substr_of_le (by exact hroom), bind_ok]
    exact congrArg (fun body => Except.ok (set_body head body)) hrest
  · rfl

/-- What the parser of whole requests accepts: a head, and behind it exactly the
body that it announces. -/
theorem parse_ok_iff {raw : Bytes} {req : HttpRequest} :
    parse raw = .ok req ↔ ∃ stop head, findSub CRLFCRLF raw = some stop ∧
      parse_headers (raw.take (stop + 4)) = .ok head ∧ (raw.drop (stop + 4)).length = head.content_length ∧
      req = set_body head (raw.drop (stop + 4)) := by
  constructor
  · intro h
    cases hfind : findSub CRLFCRLF raw with
    | none =>
      rw [parse, hfind] at h
      cases h
    | some stop =>
      rw [parse_found hfind] at h
      obtain ⟨head, hparse, h⟩ := bind_eq_ok_iff.mp h
      split_ifs at h with hlength
      cases h
      exact ⟨stop, head, rfl, hparse, hlength, rfl⟩
  · rintro ⟨stop, head, hfind, hparse, hlength, rfl⟩
    rw [parse_found hfind, hparse, bind_ok, if_pos hlength]

end HttpParser

namespace transport

open HttpParser

/-- A stream with a head and exactly its body is framed as one request. -/
theorem frame_whole {limits : HttpLimits} {raw : Bytes} {stop : Nat} {head : HttpRequest}
    (hpositive : 0 < limits.max_header_bytes) (hfind : findSub CRLFCRLF raw = some stop)
    (hparse : parse_headers (raw.take (stop + 4)) limits = .ok head)
    (hlength : (raw.drop (stop + 4)).length = head.content_length) (count : Nat) :
    frame limits count raw = [.request (raw.take (stop + 4)) (raw.drop (stop + 4))] := by
  rw [frame_found hfind, hparse]
  dsimp only
  have hnothing : frame limits (count + 1) [] = [] := frame_headless (by decide) hpositive
  rw [if_neg (by omega), ← hlength, List.take_length, List.drop_length, hnothing, ite_self]

/-- The first thing that a stream is framed as, where it has a head. -/
theorem frame_head {limits : HttpLimits} {count : Nat} {raw : Bytes} {answer : Answer}
    (hframe : frame limits count raw = [answer]) {stop : Nat} (hfind : findSub CRLFCRLF raw = some stop) :
    (∃ status, parse_headers (raw.take (stop + 4)) limits = .error (.HttpParseError status) ∧
        answer = .failure status) ∨
      ∃ head, parse_headers (raw.take (stop + 4)) limits = .ok head ∧
        head.content_length ≤ (raw.drop (stop + 4)).length ∧
        answer = .request (raw.take (stop + 4)) ((raw.drop (stop + 4)).take head.content_length) := by
  rw [frame_found hfind] at hframe
  cases hparse : parse_headers (raw.take (stop + 4)) limits with
  | error e =>
    rw [hparse] at hframe
    cases e with
    | HttpParseError status => exact .inl ⟨status, rfl, (List.singleton_inj.mp hframe).symm⟩
    | _ => cases hframe
  | ok head =>
    rw [hparse] at hframe
    dsimp only at hframe
    by_cases hshort : (raw.drop (stop + 4)).length < head.content_length
    · rw [if_pos hshort] at hframe
      cases hframe
    · rw [if_neg hshort] at hframe
      exact .inr ⟨head, rfl, Nat.le_of_not_lt hshort, (List.head_eq_of_cons_eq hframe).symm⟩

/-- A stream that is framed as a request has a head. -/
theorem findSub_of_frame {limits : HttpLimits} {count : Nat} {raw block body : Bytes}
    (hframe : frame limits count raw = [.request block body]) : ∃ stop, findSub CRLFCRLF raw = some stop := by
  cases hfind : findSub CRLFCRLF raw with
  | some stop => exact ⟨stop, rfl⟩
  | none =>
    rw [frame] at hframe
    split at hframe
    · split_ifs at hframe
      cases hframe
    · next stop hfound =>
      rw [hfind] at hfound
      cases hfound

/-- What is framed as one request with nothing behind it is what `parse` takes. -/
theorem parse_of_frame {raw block body : Bytes} (hframe : frame .defaults 0 raw = [.request block body])
    (hwhole : block ++ body = raw) : ∃ req, parse raw = .ok req ∧ req.body = body := by
  obtain ⟨stop, hfind⟩ := findSub_of_frame hframe
  obtain ⟨status, _, hanswer⟩ | ⟨head, hparse, hcomplete, hanswer⟩ := frame_head hframe hfind
  · cases hanswer
  · injection hanswer with hblock hbody
    have hrest : body = raw.drop (stop + 4) := by
      refine List.append_cancel_left (hwhole.trans ?_)
      rw [hblock, List.take_append_drop]
    have hlength : (raw.drop (stop + 4)).length = head.content_length := by
      have htaken := congrArg List.length (hrest.symm.trans hbody)
      rw [List.length_take] at htaken
      omega
    exact ⟨_, parse_ok_iff.mpr ⟨stop, head, hfind, hparse, hlength, rfl⟩, hrest.symm⟩

namespace TcpConnection

variable {H : Type} {dispatcher_ : core.RequestDispatcher H} {limits_ : HttpLimits} {labels : List (Label H)}

/-- Every request that is dispatched has the values that its head was parsed to. -/
theorem Transcript.sameValues {log : List Effect} (h : Transcript dispatcher_ limits_ labels log)
    {block : Bytes} {seen : HttpRequest} {close : Bool} {response : HttpResponse}
    (hmem : .dispatch_response block seen close response ∈ log) :
    ∃ req, parse_headers block limits_ = .ok req ∧ SameValues seen req := by
  induction h with
  | nil => cases hmem
  | snoc before segment ih =>
    refine (List.mem_append.mp hmem).elim ih fun hnew => ?_
    cases segment with
    | answers _ _ req _ _ _ _ _ _ hparse hvalues =>
      obtain heq | hlater := List.mem_cons.mp hnew
      · cases heq
        exact ⟨req, hparse, hvalues⟩
      · cases List.mem_singleton.mp hlater
    | _ => simp at hnew

/-- An answer of the framing was dispatched. -/
theorem mem_answers {log : List Effect} {block body : Bytes} (h : .request block body ∈ answers log) :
    ∃ seen close response, .dispatch_response block seen close response ∈ log ∧ seen.body = body := by
  obtain ⟨effect, heffect, hsome⟩ := List.mem_filterMap.mp h
  cases effect with
  | dispatch_response block' seen close response =>
    cases hsome
    exact ⟨seen, close, response, heffect, rfl⟩
  | _ => cases hsome

/-- The parser of whole requests and a connection that is sent the same bytes, in any
pieces, agree: it takes what the connection dispatches as one request with nothing
behind it, with the values and the body that are dispatched and, where nothing has
disturbed the head meanwhile, the views too; and it refuses a head as the connection
does. -/
theorem parse_agrees {env : Environment H} {first final : TcpConnection H} {raw : Bytes}
    (hstart : ({ dispatcher_, limits_ := .defaults } : TcpConnection H).start env = .ok first)
    (hrun : Run Step first labels final) (hlabels : ∀ label ∈ labels, label.event.completes)
    (hdelivered : receivedBytes labels <+: raw) (hall : final.phase_ ≠ .closed → receivedBytes labels = raw)
    (hwritten : final.phase_ ≠ .writing) :
    (∀ req, parse raw = .ok req → ∃ block seen close response,
      .dispatch_response block seen close response ∈ final.log ∧
      answers final.log = [.request block seen.body] ∧ block ++ seen.body = raw ∧ SameValues seen req ∧
      seen.body = req.body ∧ (Throughout Undisturbed Step first labels → SameViews seen req)) ∧
    (∀ block body, answers final.log = [.request block body] → block ++ body = raw →
      ∃ req, parse raw = .ok req ∧ req.body = body) ∧
    ∀ status : Nat, answers final.log = [.failure status] → findSub CRLFCRLF raw ≠ none →
      parse raw = .error (.HttpParseError status) := by
  have hanswers : answers final.log = frame .defaults 0 raw :=
    (framed_of_run HttpLimits.validate_defaults hstart hrun hlabels).answers_eq hwritten hdelivered hall
  rw [hanswers]
  refine ⟨fun req hparse => ?_, fun block body => parse_of_frame, fun status hframe hhead => ?_⟩
  · obtain ⟨stop, head, hfind, hhead, hlength, rfl⟩ := parse_ok_iff.mp hparse
    have hframe : frame .defaults 0 raw = _ := frame_whole (by decide) hfind hhead hlength 0
    have hmem : .request (raw.take (stop + 4)) (raw.drop (stop + 4)) ∈ answers final.log := by
      rw [hanswers, hframe]
      exact List.mem_singleton_self _
    obtain ⟨seen, close, response, hdispatched, hbody⟩ := mem_answers hmem
    obtain ⟨req, hparsed, hvalues⟩ :=
      (told_of_run HttpLimits.validate_defaults hstart hrun).transcript.sameValues hdispatched
    obtain rfl : head = req := Except.ok.inj (hhead.symm.trans hparsed)
    refine ⟨_, seen, close, response, hdispatched, hframe.trans (by rw [hbody]), ?_, ?_, hbody,
      fun hundisturbed => ?_⟩
    · rw [hbody, List.take_append_drop]
    · exact ⟨hvalues.method, hvalues.keep_alive, hvalues.content_type, hvalues.content_length, hvalues.body,
        hvalues.params⟩
    · have hfaithful := (intact_of_run hstart (hrun.guarded hundisturbed)).log
      obtain ⟨viewed, hviewed, hviews⟩ := hfaithful _ _ _ _ hdispatched
      obtain rfl : head = viewed := Except.ok.inj (hhead.symm.trans hviewed)
      exact ⟨hviews.path, hviews.http_version, hviews.headers, hviews.query, hviews.cookies⟩
  · obtain ⟨stop, hfind⟩ := Option.ne_none_iff_exists'.mp hhead
    obtain ⟨other, hparse, hanswer⟩ | ⟨_, _, _, hanswer⟩ := frame_head hframe hfind
    · injection hanswer with hsame
      rw [parse_found hfind, hparse, Int.ofNat_inj.mp hsame]
      rfl
    · cases hanswer

/-- A request in three reads, the first of which ends within its head. -/
def noteRequest : Bytes := sentNote.encode ++ ascii "abc"

def noteRequestReads : List (Label Unit) :=
  [⟨.read (noteRequest.take 20), answering greeting⟩,
    ⟨.read ((noteRequest.drop 20).take 40), answering greeting⟩,
    ⟨.read (noteRequest.drop 60), answering greeting⟩, ⟨.written, answering greeting⟩]

theorem parse_agrees_note :
    ∃ final req, Run Step (async_read_some { dispatcher_ := homePage, limits_ := .defaults })
        noteRequestReads final ∧ parse noteRequest = .ok req ∧
      ∃ block seen close response, .dispatch_response block seen close response ∈ final.log ∧
        block ++ seen.body = noteRequest ∧ SameValues seen req ∧ seen.body = req.body ∧ SameViews seen req := by
  have hstart := start_reading (answering greeting) homePage .defaults (by decide)
  obtain ⟨final, hroomy, hphase⟩ := exists_guarded_run_of_check roomy
    (async_read_some { dispatcher_ := homePage, limits_ := .defaults }) noteRequestReads
    (fun final => final.phase_ = .headers) (by decide +kernel)
  have hguarded := hroomy.guarded_mono roomy_undisturbed
  obtain ⟨req, hparse⟩ : ∃ req, parse noteRequest = .ok req := exists_ok_of_isOk (by decide +kernel)
  have hlabels : ∀ label ∈ noteRequestReads, label.event.completes := by
    simp [noteRequestReads, Event.completes]
  have hbytes : receivedBytes noteRequestReads = noteRequest := by decide +kernel
  obtain ⟨block, seen, close, response, hdispatched, _, hwhole, hvalues, hbody, hviews⟩ :=
    (parse_agrees hstart hguarded.unguarded hlabels (by rw [hbytes]) (fun _ => hbytes) (by simp [hphase])).1 req hparse
  exact ⟨final, req, hguarded.unguarded, hparse, block, seen, close, response, hdispatched, hwhole, hvalues, hbody,
    hviews (hguarded.throughout step_unique)⟩

end TcpConnection

end transport

end octane
