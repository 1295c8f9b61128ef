import Octane.HttpTypes.Hash
import Octane.HttpParser.Framing
import Octane.HttpParser.Safety

open search

namespace octane.HttpParser

/-- A comma-separated list has an element, in any letter case and whatever blanks are around it. -/
def hasElement (value expected : Bytes) : Bool :=
  (value.splitOn 44).any fun element => CaseInsensitiveEqual (trimmed element) expected

/-- An empty list has no element that is worth asking for. -/
theorem hasElement_nil {expected : Bytes} (h : expected ≠ []) : hasElement [] expected = false := by
  have hlength : expected.length ≠ 0 := fun hzero => h (List.eq_nil_of_length_eq_zero hzero)
  simp [hasElement, trimmed, CaseInsensitiveEqual, Ne.symm hlength]

/-- The search of the source finds the elements of the list, one after the other, and
its last round is the one behind the last comma. -/
theorem contains_token_eq (values : StringView) {expected : Bytes} (hexpected : expected ≠ []) :
    contains_token values expected = .ok (hasElement values.bytes expected) := by
  have hsign : ascii "," = [44] := by decide
  induction hsize : values.size using Nat.strongRecOn generalizing values with
  | ind n ih =>
    rw [contains_token_unrolled]
    by_cases hnil : values.bytes = []
    · rw [if_pos (StringView.empty_iff.mpr hnil), hnil, hasElement_nil hexpected]
    · rw [if_neg (fun hempty => hnil (StringView.empty_iff.mp hempty)), hsign]
      cases hcomma : values.find [44] with
      | none =>
        have hnot := findSub_singleton_eq_none_iff.mp hcomma
        have hall : (values.bytes.drop 0).take values.size = values.bytes := List.take_length
        rw [StringView.substr_of_le (Nat.zero_le _), Option.getD_none, hall, bind_ok]
        rw [hasElement, List.splitOn_eq_singleton hnot]
        rw [trim_bytes, List.any_cons, List.any_nil, Bool.or_false, iequals]
        split_ifs with hfound
        · rw [hfound]
        · rw [Option.elim_none, Bool.eq_false_of_not_eq_true hfound]
      | some i =>
        obtain ⟨before, after, hbytes, hnot, _, hpart, _, hremove⟩ := StringView.find_char_cut hcomma
        rw [hpart, hasElement, hbytes, List.splitOn_append_cons_self_of_not_mem hnot, bind_ok]
        rw [trim_bytes, List.any_cons, iequals]
        split_ifs with hfound
        · rw [hfound, Bool.true_or]
        · rw [Bool.eq_false_of_not_eq_true hfound, Bool.false_or, Option.elim_some, hremove, bind_ok]
          refine ih after.length ?_ _ rfl
          rw [← hsize, StringView.size, hbytes, List.length_append, List.length_cons]
          omega

/-- Membership in a comma-separated list, by the standard split and the standard folding. -/
theorem hasElement_iff {value expected : Bytes} : hasElement value expected = true ↔
    ∃ element ∈ value.splitOn 44, lowercased (trimmed element) = lowercased expected := by
  simp only [hasElement, List.any_eq_true, CaseInsensitiveEqual_iff_lowercased]

/-- The search ends and decides whether the token is an element of the list, whatever
empty elements, blanks and letter cases the list is written with. -/
theorem contains_token_iff (values : StringView) {expected : Bytes} (hexpected : expected ≠ []) :
    ∃ found, contains_token values expected = .ok found ∧
      (found = true ↔
        ∃ element ∈ values.bytes.splitOn 44, lowercased (trimmed element) = lowercased expected) :=
  ⟨hasElement values.bytes expected, contains_token_eq values hexpected, hasElement_iff⟩

/-- Empty elements, a tab and capitals, on a list that names the token. -/
theorem contains_token_iff_list :
    ∃ found, contains_token (.ofBytes (ascii ", a,	Keep-Alive ,")) (ascii "keep-alive") = .ok found ∧
      (found = true ↔ ∃ element ∈ (ascii ", a,	Keep-Alive ,").splitOn 44,
        lowercased (trimmed element) = lowercased (ascii "keep-alive")) :=
  contains_token_iff (.ofBytes (ascii ", a,	Keep-Alive ,")) (by decide)

/-- The values of the `Connection` lines of a head, in order. -/
def connectionValues (raw : Bytes) : List Bytes :=
  ((fieldLines raw).filter fun field => CaseInsensitiveEqual field.1 (ascii "connection")).map
    fun field => trimmed field.2

/-- `close` on any `Connection` line ends the connection, and `keep-alive` on any
line keeps an HTTP/1.0 connection that no line closes. -/
def FollowsConnection (raw : Bytes) (req : HttpRequest) : Prop :=
  req.keep_alive = true ↔
    (∀ value ∈ connectionValues raw, hasElement value (ascii "close") = false) ∧
      (req.http_version.bytes = ascii "HTTP/1.1" ∨
        ∃ value ∈ connectionValues raw, hasElement value (ascii "keep-alive") = true)

/-- The `Connection` lines behind the first one do not change what it decides. -/
def FirstDecides (raw : Bytes) (req : HttpRequest) : Prop :=
  let first := (connectionValues raw).head?.getD []
  let later := (connectionValues raw).tail
  hasElement first (ascii "close") = true ∨
    if req.http_version.bytes = ascii "HTTP/1.1" ∨ hasElement first (ascii "keep-alive") = true then
      ∀ value ∈ later, hasElement value (ascii "close") = false
    else
      (∃ value ∈ later, hasElement value (ascii "keep-alive") = true) →
        ∃ value ∈ later, hasElement value (ascii "close") = true

/-- The parser decides by the first `Connection` line. -/
theorem parse_headers_keep_alive {raw : Bytes} {limits : HttpLimits} {req : HttpRequest}
    (h : parse_headers raw limits = .ok req) :
    req.keep_alive = true ↔
      hasElement ((connectionValues raw).head?.getD []) (ascii "close") = false ∧
        (req.http_version.bytes = ascii "HTTP/1.1" ∨
          hasElement ((connectionValues raw).head?.getD []) (ascii "keep-alive") = true) := by
  obtain ⟨head, hraw, hhead, _, _, hfields, _, _, _, _, _, hkeep⟩ := parse_headers_ok h
  have hlines : fieldLines raw = head.fields := by rw [hraw, fieldLines_encode hhead]
  have hfirst : (req.header (ascii "connection")).bytes = (connectionValues raw).head?.getD [] := by
    rw [hfields.header_bytes, connectionValues, hlines, List.head?_map, List.head?_filter]
    rfl
  have hka : ascii "keep-alive" ≠ [] := by decide
  have hcl : ascii "close" ≠ [] := by decide
  rw [readKeepAlive, contains_token_eq _ hka, bind_ok, contains_token_eq _ hcl, bind_ok, hfirst] at hkeep
  have hflag := (Except.ok.inj hkeep).symm
  rw [hflag]
  split_ifs with hclose hkeep
  · simp [hclose]
  · simp [hclose, hkeep]
  · simp [hclose, hkeep]

/-- All `Connection` lines are followed exactly when those behind the first do
not change what it decides. -/
theorem followsConnection_iff {raw : Bytes} {limits : HttpLimits} {req : HttpRequest}
    (h : parse_headers raw limits = .ok req) : FollowsConnection raw req ↔ FirstDecides raw req := by
  have hflag := parse_headers_keep_alive h
  have hnone : hasElement [] (ascii "close") = false := hasElement_nil (by decide)
  have hnone' : hasElement [] (ascii "keep-alive") = false := hasElement_nil (by decide)
  rw [FollowsConnection, FirstDecides, hflag]
  cases hvalues : connectionValues raw with
  | nil => simp [hnone, hnone']
  | cons first later =>
    have hdual : (∃ value ∈ later, hasElement value (ascii "close") = true) ↔
        ¬ ∀ value ∈ later, hasElement value (ascii "close") = false := by simp
    simp only [List.head?_cons, Option.getD_some, List.tail_cons, List.forall_mem_cons,
      List.exists_mem_cons_iff, hdual]
    by_cases hclose : hasElement first (ascii "close") = true
    · simp [hclose]
    · rw [Bool.not_eq_true] at hclose
      by_cases hkeep : req.http_version.bytes = ascii "HTTP/1.1" ∨ hasElement first (ascii "keep-alive") = true
      · rw [if_pos hkeep]
        have hwanted := hkeep.imp_right
          (Or.inl (b := ∃ value ∈ later, hasElement value (ascii "keep-alive") = true))
        simp [hclose, hkeep, hwanted]
      · rw [if_neg hkeep]
        constructor
        · intro hiff
          exact .inr fun hlater hall => hkeep (hiff.mpr ⟨⟨hclose, hall⟩, .inr (.inr hlater)⟩).2
        · intro hdecides
          refine ⟨fun hkept => absurd hkept.2 hkeep, ?_⟩
          rintro ⟨⟨_, hall⟩, hversion | hfirst | hlater⟩
          · exact absurd (.inl hversion) hkeep
          · exact absurd (.inr hfirst) hkeep
          · obtain hends | hother := hdecides
            · rw [hclose] at hends
              cases hends
            · exact absurd hall (hother hlater)

/-- Two Connection lines, of which the first decides. -/
theorem followsConnection_iff_lists :
    ∃ req, parse_headers (ascii "GET / HTTP/1.0\r\nConnection: a, Keep-Alive\r\nConnection: b\r\n\r\n") = .ok req ∧
      (FollowsConnection (ascii "GET / HTTP/1.0\r\nConnection: a, Keep-Alive\r\nConnection: b\r\n\r\n") req ↔
        FirstDecides (ascii "GET / HTTP/1.0\r\nConnection: a, Keep-Alive\r\nConnection: b\r\n\r\n") req) := by
  obtain ⟨req, hreq⟩ := exists_ok_of_isOk
    (x := parse_headers (ascii "GET / HTTP/1.0\r\nConnection: a, Keep-Alive\r\nConnection: b\r\n\r\n"))
    (by decide +kernel)
  exact ⟨req, hreq, followsConnection_iff hreq⟩

/-- A second `Connection` line that asks for the close is not seen. -/
theorem second_connection_line_ignored :
    ∃ req, parse_headers (ascii "GET / HTTP/1.1\r\nHost: x\r\nConnection: a\r\nConnection: close\r\n\r\n") =
        .ok req ∧ req.keep_alive = true ∧
      ¬ FollowsConnection
        (ascii "GET / HTTP/1.1\r\nHost: x\r\nConnection: a\r\nConnection: close\r\n\r\n") req := by
  obtain ⟨req, hreq, hkeep⟩ := exists_ok_of_check
    (x := parse_headers
      (ascii "GET / HTTP/1.1\r\nHost: x\r\nConnection: a\r\nConnection: close\r\n\r\n"))
    (p := fun req => req.keep_alive = true) (by decide +kernel)
  refine ⟨req, hreq, hkeep, fun hfollows => ?_⟩
  have hclose := (hfollows.mp hkeep).1 (ascii "close") (by decide +kernel)
  exact absurd hclose (by decide +kernel)

end octane.HttpParser
