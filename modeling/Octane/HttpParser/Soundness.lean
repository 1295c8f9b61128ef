import Octane.HttpParser.RequestHead

open search

namespace octane.HttpParser

/-- The first field of a name is a field of the head that has this name. -/
theorem firstField_some {fields : List Field} {name : Bytes} {field : Field}
    (h : firstField fields name = some field) :
    field ∈ fields ∧ CaseInsensitiveEqual field.1 name = true :=
  ⟨List.mem_of_find?_eq_some h, by simpa using List.find?_some h⟩

theorem toMethod_eq_OPTIONS {m : Bytes} (h : toMethod m = .OPTIONS) : m = ascii "OPTIONS" := by
  by_contra hne
  simp only [toMethod, hne, if_false] at h
  split_ifs at h

/-- A `Host` value that passes the check of the parser. -/
def ValidHost (host : Bytes) : Prop :=
  host ≠ [] ∧ ∀ c ∈ host, 32 < c ∧ c < 127 ∧ c ∉ ascii "/\\@,?#"

/-- Under HTTP/1.1 the check on the host finds a field and accepts its value, which is
the trimmed value of a line of the head. -/
theorem checkHost_ok {fields : List Field} {req : HttpRequest} (hfields : Collected fields req.headers)
    (hversion : req.http_version.bytes = ascii "HTTP/1.1") (h : checkHost req = .ok ()) :
    ∃ field ∈ fields, CaseInsensitiveEqual field.1 (ascii "host") = true ∧
      ValidHost (trimmed field.2) := by
  have hbytes := hfields.header_bytes (ascii "host")
  unfold checkHost at h
  split at h
  · cases h
  · next hpresent =>
    split at h
    · next hchars =>
      have hne : (req.header (ascii "host")).bytes ≠ [] := by
        intro hnil
        exact hpresent ⟨hversion, StringView.empty_iff.mpr hnil⟩
      cases hfirst : firstField fields (ascii "host") with
      | none =>
        rw [hfirst] at hbytes
        exact absurd hbytes hne
      | some field =>
        obtain ⟨hmem, hname⟩ := firstField_some hfirst
        rw [hfirst] at hbytes
        simp only [Option.map_some, Option.getD_some] at hbytes
        rw [hbytes] at hne hchars
        refine ⟨field, hmem, hname, hne, fun c hc => ?_⟩
        have hchar := List.all_eq_true.mp hchars c hc
        simp only [hostChar, Bool.not_eq_true', Bool.or_eq_false_iff, decide_eq_false_iff_not,
          UInt8.not_le, List.contains_eq_mem] at hchar
        exact ⟨hchar.1.1, hchar.1.2, hchar.2⟩
    · cases h

/-- Only well-formed heads are accepted: a block that the parser returns a request for
is the encoding of a head of the grammar, it fits, and no framing name stands in it
twice, for every block and all limits. -/
theorem parse_headers_sound {raw : Bytes} {limits : HttpLimits} {req : HttpRequest}
    (h : parse_headers raw limits = .ok req) :
    ∃ head : RequestHead, raw = head.encode ∧ head.WellFormed ∧
      ((∃ rest, head.target = 47 :: rest) ∨
        (head.target = ascii "*" ∧ head.method = ascii "OPTIONS")) ∧
      (∀ line ∈ head.lines, 13 ∉ line ∧ 10 ∉ line) ∧
      (∀ j, CRLFCRLF <+: raw.drop j → j + 4 = raw.length) ∧
      raw.length ≤ limits.max_header_bytes ∧
      (∀ name ∈ framingNames,
        (head.fields.filter fun field => CaseInsensitiveEqual field.1 name).length ≤ 1) ∧
      (head.version = ascii "HTTP/1.1" → ∃ field ∈ head.fields,
        CaseInsensitiveEqual field.1 (ascii "host") = true ∧ ValidHost (trimmed field.2)) := by
  obtain ⟨head, hraw, hhead, _, hversion, hfields, hsize, hhost, _⟩ := parse_headers_ok h
  refine ⟨head, hraw, hhead, ?_, fun line hline => (hhead.line hline).2, ?_, hsize, hfields.unique, ?_⟩
  · exact hhead.target.form.imp_right fun hstar => ⟨hstar.1, toMethod_eq_OPTIONS hstar.2⟩
  · intro j hat
    rw [hraw] at hat ⊢
    exact blank_line_at_end hhead hat
  · intro h11
    exact checkHost_ok hfields (hversion.trans h11) hhost

/-- An escaped path and a query, parsed back to the head that they were cut from. -/
theorem parse_headers_sound_get :
    ∃ req, parse_headers (ascii "GET /a%20b?q=1 HTTP/1.1\r\nHost: example\r\n\r\n") = .ok req ∧
      ∃ head : RequestHead,
        ascii "GET /a%20b?q=1 HTTP/1.1\r\nHost: example\r\n\r\n" = head.encode ∧ head.WellFormed := by
  obtain ⟨req, hreq⟩ := exists_ok_of_isOk
    (x := parse_headers (ascii "GET /a%20b?q=1 HTTP/1.1\r\nHost: example\r\n\r\n")) (by decide +kernel)
  obtain ⟨head, hraw, hhead, _⟩ := parse_headers_sound hreq
  exact ⟨req, hreq, head, hraw, hhead⟩

end octane.HttpParser
