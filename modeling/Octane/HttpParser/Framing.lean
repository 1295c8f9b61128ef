import Octane.HttpParser.Soundness

open search

namespace octane.HttpParser

/-- The framing of a request admits one reading: no field that would change
it, and a declared length that is a number. -/
structure UnambiguousFraming (raw : Bytes) (limits : HttpLimits) (req : HttpRequest) : Prop where
  no_transfer_encoding : ∀ field ∈ fieldLines raw,
    CaseInsensitiveEqual field.1 (ascii "transfer-encoding") = false
  no_expect : ∀ field ∈ fieldLines raw, CaseInsensitiveEqual field.1 (ascii "expect") = false
  length_once :
    ((fieldLines raw).filter fun field =>
      CaseInsensitiveEqual field.1 (ascii "content-length")).length ≤ 1
  length_value : ∀ field ∈ fieldLines raw,
    CaseInsensitiveEqual field.1 (ascii "content-length") = true →
      trimmed field.2 ≠ [] ∧ (trimmed field.2).all decimal.isDigit = true ∧
        req.content_length = decimal.value (trimmed field.2) ∧
        req.content_length ≤ limits.max_body_bytes
  length_absent : (∀ field ∈ fieldLines raw,
    CaseInsensitiveEqual field.1 (ascii "content-length") = false) → req.content_length = 0

/-- No `Transfer-Encoding` or `Content-Length` line is blank, nor is the first
`Expect` line. The parser takes a blank value for an absent field. -/
structure FramingNotBlank (raw : Bytes) : Prop where
  named : ∀ field ∈ fieldLines raw,
    CaseInsensitiveEqual field.1 (ascii "transfer-encoding") = true ∨
      CaseInsensitiveEqual field.1 (ascii "content-length") = true → trimmed field.2 ≠ []
  expect : ∀ field, firstField (fieldLines raw) (ascii "expect") = some field → trimmed field.2 ≠ []

/-- When a name occurs once, its first field is the one that occurs. -/
theorem firstField_eq_of_unique {fields : List Field} {name : Bytes} {field : Field}
    (hunique : (fields.filter fun other => CaseInsensitiveEqual other.1 name).length ≤ 1)
    (hmem : field ∈ fields) (hname : CaseInsensitiveEqual field.1 name = true) :
    firstField fields name = some field := by
  have hin : field ∈ fields.filter fun other => CaseInsensitiveEqual other.1 name :=
    List.mem_filter.mpr ⟨hmem, hname⟩
  cases hfilter : fields.filter fun other => CaseInsensitiveEqual other.1 name with
  | nil => simp [hfilter] at hin
  | cons first rest =>
    have hrest : rest = [] := by
      rw [hfilter] at hunique
      simpa using hunique
    rw [hfilter, hrest, List.mem_singleton] at hin
    rw [firstField, ← List.head?_filter, hfilter, hin]
    rfl

/-- Where no field has a name, none has it in another letter case either. -/
theorem firstField_none {fields : List Field} {name : Bytes} (h : firstField fields name = none) :
    ∀ field ∈ fields, CaseInsensitiveEqual field.1 name = false := by
  simpa [firstField] using h

/-- `from_chars` on digits: it takes all of them, and reports a range error exactly
from 2 ^ 64 on. -/
theorem from_chars_digits {text : Bytes} (h : text.all decimal.isDigit = true) (hne : text ≠ []) :
    from_chars text =
      if decimal.value text < 2 ^ 64 then (text.length, .success, decimal.value text)
      else (text.length, .result_out_of_range, 0) := by
  have hall : text.takeWhile decimal.isDigit = text :=
    List.takeWhile_eq_self_iff.mpr (List.all_eq_true.mp h)
  simp [from_chars, hall, hne]

/-- A length is read from the field as a number, exactly: digits to the end, no sign,
within 64 bits and within the limit. -/
theorem readContentLength_ok {req : HttpRequest} {limits : HttpLimits} {length : Nat}
    (h : readContentLength req limits = .ok length) :
    ((req.header (ascii "content-length")).bytes = [] ∧ length = 0) ∨
      ((req.header (ascii "content-length")).bytes ≠ [] ∧
        (req.header (ascii "content-length")).bytes.all decimal.isDigit = true ∧
        length = decimal.value (req.header (ascii "content-length")).bytes ∧
        length ≤ limits.max_body_bytes) := by
  unfold readContentLength at h
  dsimp only at h
  split at h
  · next hnil =>
    cases h
    exact .inl ⟨hnil, rfl⟩
  · next hne =>
    split at h
    · next hdigits =>
      rw [from_chars_digits hdigits hne] at h
      by_cases hrange : decimal.value (req.header (ascii "content-length")).bytes < 2 ^ 64
      · simp only [hrange, if_true, ne_eq, not_true_eq_false, or_self, if_false] at h
        split at h
        · cases h
        · next hlimit =>
          cases h
          exact .inr ⟨hne, hdigits, rfl, Nat.le_of_not_lt hlimit⟩
      · rw [if_neg hrange] at h
        simp at h
    · cases h

/-- An accepted request is unambiguously framed exactly when none of its
framing fields is blank. -/
theorem unambiguousFraming_iff {raw : Bytes} {limits : HttpLimits} {req : HttpRequest}
    (h : parse_headers raw limits = .ok req) :
    UnambiguousFraming raw limits req ↔ FramingNotBlank raw := by
  obtain ⟨head, hraw, hhead, _, _, hfields, _, _, htransfer, hlength, hexpect, _⟩ := parse_headers_ok h
  have hlines : fieldLines raw = head.fields := by rw [hraw, fieldLines_encode hhead]
  rw [← hlines] at hfields
  constructor
  · intro hframing
    refine ⟨fun field hfield hname => ?_, fun field hfirst => ?_⟩
    · rcases hname with hte | hcl
      · rw [hframing.no_transfer_encoding field hfield] at hte
        cases hte
      · exact (hframing.length_value field hfield hcl).1
    · obtain ⟨hmem, hname⟩ := firstField_some hfirst
      rw [hframing.no_expect field hmem] at hname
      cases hname
  · intro hblank
    -- a field that is present has a value, so the lookups see it
    have hpresent : ∀ name, (∀ field, firstField (fieldLines raw) name = some field →
        trimmed field.2 ≠ []) → (req.header name).bytes = [] →
        ∀ field ∈ fieldLines raw, CaseInsensitiveEqual field.1 name = false := by
      intro name hvalue hnil
      have hbytes := hfields.header_bytes name
      cases hfirst : firstField (fieldLines raw) name with
      | none => exact firstField_none hfirst
      | some field =>
        rw [hfirst, hnil] at hbytes
        exact absurd hbytes.symm (hvalue field hfirst)
    refine ⟨?_, ?_, hfields.unique _ (by simp [framingNames]), ?_, ?_⟩
    · apply hpresent
      · intro field hfirst
        obtain ⟨hmem, hname⟩ := firstField_some hfirst
        exact hblank.named field hmem (.inl hname)
      · unfold checkTransferEncoding at htransfer
        split at htransfer
        · next hempty => exact StringView.empty_iff.mp hempty
        · split at htransfer <;> cases htransfer
    · apply hpresent _ hblank.expect
      unfold checkExpect at hexpect
      split at hexpect
      · next hempty => exact StringView.empty_iff.mp hempty
      · cases hexpect
    · intro field hmem hname
      have hfirst := firstField_eq_of_unique (hfields.unique _ (by simp [framingNames])) hmem hname
      have hbytes := hfields.header_bytes (ascii "content-length")
      rw [hfirst] at hbytes
      simp only [Option.map_some, Option.getD_some] at hbytes
      have hvalue := hblank.named field hmem (.inr hname)
      rcases readContentLength_ok hlength with ⟨hnil, _⟩ | ⟨_, hdigits, hnumber, hlimit⟩
      · exact absurd (hbytes.symm.trans hnil) hvalue
      · rw [hbytes] at hdigits hnumber
        exact ⟨hvalue, hdigits, hnumber, hlimit⟩
    · intro hnone
      have hfirst : firstField (fieldLines raw) (ascii "content-length") = none := by
        simpa [firstField] using hnone
      have hbytes := hfields.header_bytes (ascii "content-length")
      rw [hfirst] at hbytes
      rcases readContentLength_ok hlength with ⟨_, hzero⟩ | ⟨hne, _⟩
      · exact hzero
      · exact absurd hbytes hne

/-- A request with a length is framed by it, and by nothing else. -/
theorem unambiguousFraming_iff_post :
    ∃ req, parse_headers (ascii "POST / HTTP/1.1\r\nHost: x\r\nContent-Length: 3\r\n\r\n") = .ok req ∧
      (UnambiguousFraming (ascii "POST / HTTP/1.1\r\nHost: x\r\nContent-Length: 3\r\n\r\n") {} req ↔
        FramingNotBlank (ascii "POST / HTTP/1.1\r\nHost: x\r\nContent-Length: 3\r\n\r\n")) := by
  obtain ⟨req, hreq⟩ := exists_ok_of_isOk
    (x := parse_headers (ascii "POST / HTTP/1.1\r\nHost: x\r\nContent-Length: 3\r\n\r\n"))
    (by decide +kernel)
  exact ⟨req, hreq, unambiguousFraming_iff hreq⟩

/-- The blank `Content-Length` that the parser tests list among the rejected
heads is accepted, with an empty body. -/
theorem blank_content_length_accepted :
    ∃ req, parse_headers (ascii "POST / HTTP/1.1\r\nHost: x\r\nContent-Length: \r\n\r\n") = .ok req ∧
      ¬ UnambiguousFraming (ascii "POST / HTTP/1.1\r\nHost: x\r\nContent-Length: \r\n\r\n") {} req := by
  obtain ⟨req, hreq⟩ := exists_ok_of_isOk
    (x := parse_headers (ascii "POST / HTTP/1.1\r\nHost: x\r\nContent-Length: \r\n\r\n"))
    (by decide +kernel)
  refine ⟨req, hreq, fun hframing => ?_⟩
  have hmem : (ascii "Content-Length", ascii " ") ∈
      fieldLines (ascii "POST / HTTP/1.1\r\nHost: x\r\nContent-Length: \r\n\r\n") := by decide +kernel
  exact (hframing.length_value _ hmem (by decide +kernel)).1 (by decide +kernel)

end octane.HttpParser
