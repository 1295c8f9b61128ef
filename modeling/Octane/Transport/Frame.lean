import Octane.HttpParser.Framing
import Octane.HttpParser.Safety

open search

namespace octane.transport

/-- What a byte stream asks of a connection: a request, by the bytes of its head
and its body, or a failure. -/
inductive Answer where
  | request (block body : Bytes)
  | failure (status : Int)
deriving DecidableEq

/-- The request is one after which the connection closes. -/
def lastRequest (limits : HttpLimits) (count : Nat) (req : HttpRequest) : Bool :=
  !req.keep_alive || decide (limits.max_requests_per_connection ≤ count + 1)

/-- The reference for the framing: one pass over the whole stream, after `count` requests. -/
def frame (limits : HttpLimits) (count : Nat) (s : Bytes) : List Answer :=
  match _hfind : findSub CRLFCRLF s with
  | none => if limits.max_header_bytes ≤ s.length then [.failure 431] else []
  | some stop =>
    let block := s.take (stop + 4)
    match HttpParser.parse_headers block limits with
    | .error (.HttpParseError status) => [.failure status]
    | .error _ => []
    | .ok req =>
      let rest := s.drop (stop + 4)
      if rest.length < req.content_length then []
      else
        .request block (rest.take req.content_length) ::
          if lastRequest limits count req then []
          else frame limits (count + 1) (rest.drop req.content_length)
termination_by s.length
decreasing_by
  have hinside := findSub_add_length_le _hfind
  simp only [List.length_drop]
  change stop + 4 ≤ s.length at hinside
  omega

variable {limits : HttpLimits} {count : Nat} {s : Bytes}

/-- Without the end of a head, and short enough to wait for it. -/
theorem frame_headless (hfind : findSub CRLFCRLF s = none) (hshort : s.length < limits.max_header_bytes) :
    frame limits count s = [] := by
  rw [frame]
  split
  · rw [if_neg (by omega)]
  · next stop hstop =>
    rw [hfind] at hstop
    cases hstop

/-- Where there is a blank line, the head before it decides. -/
theorem frame_found {stop : Nat} (hfind : findSub CRLFCRLF s = some stop) :
    frame limits count s =
      match HttpParser.parse_headers (s.take (stop + 4)) limits with
      | .error (.HttpParseError status) => [.failure status]
      | .error _ => []
      | .ok req =>
        if (s.drop (stop + 4)).length < req.content_length then []
        else
          .request (s.take (stop + 4)) ((s.drop (stop + 4)).take req.content_length) ::
            if lastRequest limits count req then []
            else frame limits (count + 1) ((s.drop (stop + 4)).drop req.content_length) := by
  rw [frame]
  split
  · next hnone =>
    rw [hfind] at hnone
    cases hnone
  · next found hfound =>
    rw [hfind] at hfound
    cases hfound
    rfl

/-- A head is the same whatever follows it. -/
theorem take_append_of_findSub {stop : Nat} (hfind : findSub CRLFCRLF s = some stop) (t : Bytes) :
    (s ++ t).take (stop + 4) = s.take (stop + 4) :=
  List.take_append_of_le_length (findSub_add_length_le hfind)

/-- A refused head ends the framing, whatever follows it. -/
theorem frame_refused {stop status : Nat} (hfind : findSub CRLFCRLF s = some stop)
    (hparse : HttpParser.parse_headers (s.take (stop + 4)) limits = .error (.HttpParseError status))
    (t : Bytes) : frame limits count (s ++ t) = [.failure status] := by
  rw [frame_found (findSub_append hfind t), take_append_of_findSub hfind, hparse]

/-- A head that is too long is refused however much of it has arrived. -/
theorem frame_oversized (hfind : findSub CRLFCRLF s = none) (hlong : limits.max_header_bytes ≤ s.length)
    (t : Bytes) : frame limits count (s ++ t) = [.failure 431] := by
  cases hmore : findSub CRLFCRLF (s ++ t) with
  | none =>
    rw [frame]
    split
    · rw [if_pos (by rw [List.length_append]; omega)]
    · next stop hstop =>
      rw [hmore] at hstop
      cases hstop
  | some stop =>
    have hpast : s.length < stop + 4 := length_lt_of_findSub_append hfind hmore
    have hinside : stop + 4 ≤ (s ++ t).length := findSub_add_length_le hmore
    have hsize : limits.max_header_bytes < ((s ++ t).take (stop + 4)).length := by
      rw [List.length_take]
      omega
    rw [frame_found hmore, HttpParser.parse_headers, if_pos hsize]
    rfl

/-- While the body is incomplete there is no answer. -/
theorem frame_awaits {stop : Nat} {req : HttpRequest} (hfind : findSub CRLFCRLF s = some stop)
    (hparse : HttpParser.parse_headers (s.take (stop + 4)) limits = .ok req)
    (hshort : s.length < stop + 4 + req.content_length) : frame limits count s = [] := by
  have hinside : stop + 4 ≤ s.length := findSub_add_length_le hfind
  rw [frame_found hfind, hparse]
  dsimp only
  rw [if_pos (by rw [List.length_drop]; omega)]

/-- A complete request is taken off the front of the stream. -/
theorem frame_request {stop : Nat} {req : HttpRequest} (hfind : findSub CRLFCRLF s = some stop)
    (hparse : HttpParser.parse_headers (s.take (stop + 4)) limits = .ok req)
    (hcomplete : stop + 4 + req.content_length ≤ s.length) (t : Bytes) :
    frame limits count (s ++ t) =
      .request (s.take (stop + 4)) ((s.drop (stop + 4)).take req.content_length) ::
        if lastRequest limits count req then []
        else frame limits (count + 1) (s.drop (stop + 4 + req.content_length) ++ t) := by
  have hinside : stop + 4 ≤ s.length := findSub_add_length_le hfind
  have hbody : req.content_length ≤ (s.drop (stop + 4)).length := by
    rw [List.length_drop]
    omega
  rw [frame_found (findSub_append hfind t), take_append_of_findSub hfind, hparse]
  dsimp only
  rw [List.drop_append_of_le_length hinside, List.take_append_of_le_length hbody,
    List.drop_append_of_le_length hbody, List.drop_drop, if_neg (by rw [List.length_append]; omega)]

/-- An accepted head keeps within the limits, and so does its body. -/
theorem parse_headers_bounds {block : Bytes} {req : HttpRequest}
    (hparse : HttpParser.parse_headers block limits = .ok req) :
    block.length ≤ limits.max_header_bytes ∧ req.content_length ≤ limits.max_body_bytes := by
  obtain ⟨_, _, _, _, _, _, hsize, _, _, hlength, _⟩ := HttpParser.parse_headers_ok hparse
  refine ⟨hsize, ?_⟩
  obtain ⟨_, hzero⟩ | ⟨_, _, _, hbound⟩ := HttpParser.readContentLength_ok hlength
  · omega
  · exact hbound

end octane.transport
