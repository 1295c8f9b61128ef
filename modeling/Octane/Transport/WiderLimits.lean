import Octane.Transport.Framing

open search transition

namespace octane

/-- No bound on requests is lower in the second limits. -/
structure HttpLimits.Within (limits wider : HttpLimits) : Prop where
  header : limits.max_header_bytes ≤ wider.max_header_bytes
  body : limits.max_body_bytes ≤ wider.max_body_bytes
  requests : limits.max_requests_per_connection ≤ wider.max_requests_per_connection

/-- The statuses that say that a request exceeds a bound. -/
def Oversize (status : Nat) : Prop := status = 413 ∨ status = 431

/-- A refusal for a bound, or the outcome that wider limits lead to. -/
def Result.Within {A : Type} (outcome wider : Result A) : Prop :=
  (∃ status, Oversize status ∧ outcome = .error (.HttpParseError status)) ∨ outcome = wider

namespace Result.Within

variable {A B : Type}

theorem refl (outcome : Result A) : Result.Within outcome outcome := .inr rfl

/-- Two computations that agree, or of which the narrower is refused for a bound, do
so step by step. -/
theorem bind {outcome wider : Result A} (h : Result.Within outcome wider) {next next' : A → Result B}
    (hnext : ∀ a, Result.Within (next a) (next' a)) : Result.Within (outcome >>= next) (wider >>= next') := by
  obtain ⟨status, hstatus, rfl⟩ | rfl := h
  · exact .inl ⟨status, hstatus, rfl⟩
  · cases outcome with
    | error e => exact refl _
    | ok a => exact hnext a

end Result.Within

namespace HttpParser

variable {limits wider : HttpLimits}

/-- A length within the narrower limit is within the wider one. -/
theorem readContentLength_within (h : limits.Within wider) (req : HttpRequest) :
    Result.Within (readContentLength req limits) (readContentLength req wider) := by
  rw [readContentLength, readContentLength]
  dsimp only
  by_cases hlarge : limits.max_body_bytes < (from_chars (req.header (ascii "content-length")).bytes).2.2
  · rw [if_pos hlarge]
    split_ifs
    any_goals exact .refl _
    all_goals exact .inl ⟨413, .inl rfl, rfl⟩
  · have hlarger : ¬ wider.max_body_bytes < (from_chars (req.header (ascii "content-length")).bytes).2.2 :=
      fun hlonger => hlarge (h.body.trans_lt hlonger)
    rw [if_neg hlarge, if_neg hlarger]
    exact .refl _

/-- Nothing else behind the header lines looks at the limits. -/
theorem finishHeaders_within (h : limits.Within wider) (req : HttpRequest) :
    Result.Within (finishHeaders req limits) (finishHeaders req wider) := by
  rw [finishHeaders, finishHeaders]
  refine (Result.Within.refl _).bind fun _ => (Result.Within.refl _).bind fun _ => ?_
  exact (readContentLength_within h req).bind fun _ => .refl _

/-- Under wider limits a head is parsed as it was, but where a bound was exceeded. -/
theorem parse_headers_within (h : limits.Within wider) (raw : Bytes) :
    Result.Within (parse_headers raw limits) (parse_headers raw wider) := by
  rw [parse_headers, parse_headers]
  by_cases hlong : limits.max_header_bytes < raw.length
  · rw [if_pos hlong]
    exact .inl ⟨431, .inr rfl, rfl⟩
  · have hlonger : ¬ wider.max_header_bytes < raw.length := fun hlonger => hlong (h.header.trans_lt hlonger)
    rw [if_neg hlong, if_neg hlonger]
    by_cases hend : CRLFCRLF <:+ raw
    · rw [if_neg (not_not_intro hend), if_neg (not_not_intro hend)]
      dsimp only
      cases (StringView.ofBytes raw).find CRLF with
      | none => exact .refl _
      | some line_end =>
        refine (Result.Within.refl _).bind fun _ => (Result.Within.refl _).bind fun _ => ?_
        refine (Result.Within.refl _).bind fun _ => (Result.Within.refl _).bind fun req => ?_
        exact finishHeaders_within h req
    · rw [if_pos hend, if_pos hend]
      exact .refl _

end HttpParser

namespace transport

/-- The answers under some limits, after `count` requests, are those under wider ones,
or they end where a request exceeds a bound or is the last that a connection may have. -/
def CutShort (limits : HttpLimits) (count : Nat) (short whole : List Answer) : Prop :=
  short = whole ∨ ∃ kept dropped, whole = kept ++ dropped ∧
    ((∃ status, Oversize status ∧ short = kept ++ [.failure status]) ∨
      (short = kept ∧ limits.max_requests_per_connection ≤ count + kept.length))

variable {limits wider : HttpLimits}

/-- A refusal for a bound cuts the answers short. -/
theorem CutShort.refused (count : Nat) {status : Nat} (hstatus : Oversize status) (whole : List Answer) :
    CutShort limits count [.failure status] whole :=
  .inr ⟨[], whole, rfl, .inl ⟨status, hstatus, rfl⟩⟩

/-- Answers that agree so far are cut short where their continuations are. -/
theorem CutShort.cons {count : Nat} {short whole : List Answer} (h : CutShort limits (count + 1) short whole)
    (answer : Answer) : CutShort limits count (answer :: short) (answer :: whole) := by
  obtain rfl | ⟨kept, dropped, rfl, ⟨status, hstatus, rfl⟩ | ⟨rfl, hlast⟩⟩ := h
  · exact .inl rfl
  · exact .inr ⟨answer :: kept, dropped, rfl, .inl ⟨status, hstatus, rfl⟩⟩
  · refine .inr ⟨answer :: short, dropped, rfl, .inr ⟨rfl, ?_⟩⟩
    rw [List.length_cons]
    omega

/-- What follows a request that is kept alive, if the connection may have more. -/
theorem CutShort.request {count : Nat} {req : HttpRequest} (h : limits.Within wider) {short whole : List Answer}
    (hrest : CutShort limits (count + 1) short whole) (answer : Answer) :
    CutShort limits count (answer :: if lastRequest limits count req then [] else short)
      (answer :: if lastRequest wider count req then [] else whole) := by
  have hrequests := h.requests
  by_cases hspent : limits.max_requests_per_connection ≤ count + 1
  · have hlast : lastRequest limits count req = true := by simp [lastRequest, hspent]
    rw [if_pos hlast]
    exact .inr ⟨[answer], _, rfl, .inr ⟨rfl, hspent⟩⟩
  · have hsame : lastRequest wider count req = lastRequest limits count req := by
      have hwider : ¬ wider.max_requests_per_connection ≤ count + 1 := by omega
      simp [lastRequest, hspent, hwider]
    rw [hsame]
    split_ifs
    · exact .inl rfl
    · exact hrest.cons answer

/-- Wider limits only add to what a byte stream is answered. By induction along the
framing: a head is read alike, unless it is refused for a bound. -/
theorem frame_cutShort (h : limits.Within wider) (count : Nat) (s : Bytes) :
    CutShort limits count (frame limits count s) (frame wider count s) := by
  induction hlength : s.length using Nat.strongRecOn generalizing s count with
  | ind n ih =>
    cases hfind : findSub CRLFCRLF s with
    | none =>
      by_cases hlong : limits.max_header_bytes ≤ s.length
      · have hrefused : frame limits count (s ++ []) = [.failure 431] := frame_oversized hfind hlong []
        rw [List.append_nil] at hrefused
        rw [hrefused]
        exact .refused count (.inr rfl) _
      · have hheader := h.header
        rw [frame_headless hfind (by omega), frame_headless hfind (by omega)]
        exact .inl rfl
    | some stop =>
      rw [frame_found hfind, frame_found hfind]
      obtain ⟨status, hstatus, hrefused⟩ | hsame := HttpParser.parse_headers_within h (s.take (stop + 4))
      · rw [hrefused]
        exact .refused count hstatus _
      · rw [hsame]
        cases HttpParser.parse_headers (s.take (stop + 4)) wider with
        | error e => exact .inl (by cases e <;> rfl)
        | ok req =>
          dsimp only
          by_cases hshort : (s.drop (stop + 4)).length < req.content_length
          · rw [if_pos hshort, if_pos hshort]
            exact .inl rfl
          · rw [if_neg hshort, if_neg hshort]
            refine CutShort.request h (ih _ ?_ (count + 1) _ rfl) _
            have hinside : stop + 4 ≤ s.length := findSub_add_length_le hfind
            rw [List.length_drop, List.length_drop]
            omega

namespace TcpConnection

variable {H H' : Type}

/-- A connection answers what one with wider limits answers to the same bytes, up to
the first request that exceeds a bound or the last that it may have. -/
theorem wider_limits_only_add {env : Environment H} {env' : Environment H'}
    {dispatcher_ : core.RequestDispatcher H} {dispatcher_' : core.RequestDispatcher H'}
    {limits_ wider_ : HttpLimits} {id_ id_' : Nat} {first final : TcpConnection H}
    {first' final' : TcpConnection H'}
    {labels : List (Label H)} {labels' : List (Label H')} (hwithin : limits_.Within wider_)
    (hvalid : limits_.validate = .ok ()) (hvalid' : wider_.validate = .ok ())
    (hstart : ({ dispatcher_, limits_, id_ } : TcpConnection H).start env = .ok first)
    (hstart' : ({ dispatcher_ := dispatcher_', limits_ := wider_, id_ := id_' } : TcpConnection H').start env' =
      .ok first')
    (hrun : Run Step first labels final) (hlabels : ∀ label ∈ labels, label.event.completes)
    (hrun' : Run Step first' labels' final') (hlabels' : ∀ label ∈ labels', label.event.completes)
    (hsame : receivedBytes labels = receivedBytes labels')
    (hwritten : final.phase_ ≠ .writing) (hwritten' : final'.phase_ ≠ .writing) :
    CutShort limits_ 0 (answers final.log) (answers final'.log) := by
  have hframed := framed_of_run hvalid hstart hrun hlabels
  have hframed' := framed_of_run hvalid' hstart' hrun' hlabels'
  rw [hframed.answers_eq hwritten (List.prefix_refl _) fun _ => rfl,
    hframed'.answers_eq hwritten' (List.prefix_refl _) fun _ => rfl, hsame]
  exact frame_cutShort hwithin 0 _

/-- A connection may have one request only. -/
def oneRequest : HttpLimits := { max_requests_per_connection := 1 }

theorem wider_limits_only_add_home :
    ∃ final final', Run Step (async_read_some { dispatcher_ := homePage, limits_ := oneRequest })
        [⟨.read (homeRequest ++ homeRequest), answering greeting⟩, ⟨.written, answering greeting⟩] final ∧
      Run Step (async_read_some { dispatcher_ := homePage, limits_ := .defaults })
        [⟨.read (homeRequest ++ homeRequest), answering greeting⟩, ⟨.written, answering greeting⟩,
          ⟨.written, answering greeting⟩] final' ∧
      CutShort oneRequest 0 (answers final.log) (answers final'.log) := by
  have hstart := start_reading (answering greeting) homePage oneRequest (by decide)
  have hstart' := start_reading (answering greeting) homePage .defaults (by decide)
  obtain ⟨final, hrun, hdone⟩ := exists_run_of_check
    (async_read_some { dispatcher_ := homePage, limits_ := oneRequest })
    [⟨.read (homeRequest ++ homeRequest), answering greeting⟩, ⟨.written, answering greeting⟩]
    (fun final => final.phase_ ≠ .writing) (by decide +kernel)
  obtain ⟨final', hrun', hdone'⟩ := exists_run_of_check
    (async_read_some { dispatcher_ := homePage, limits_ := .defaults })
    [⟨.read (homeRequest ++ homeRequest), answering greeting⟩, ⟨.written, answering greeting⟩,
      ⟨.written, answering greeting⟩]
    (fun final => final.phase_ ≠ .writing) (by decide +kernel)
  have hwithin : oneRequest.Within .defaults := ⟨le_rfl, le_rfl, by decide⟩
  have hcut := wider_limits_only_add hwithin (by decide) HttpLimits.validate_defaults hstart hstart' hrun
    (by simp [Event.completes]) hrun' (by simp [Event.completes]) (by simp [receivedBytes, Event.bytes])
    hdone hdone'
  exact ⟨final, final', hrun, hrun', hcut⟩

end TcpConnection

end transport

end octane
