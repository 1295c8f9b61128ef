import Octane.HttpParser.Acceptance

open search

namespace octane.HttpParser

/-- A field as its sender has it, with the blanks it is written with around its value. -/
structure SpacedField where
  name : Bytes
  value : Bytes
  before : Bytes
  after : Bytes

namespace SpacedField

def field (spaced : SpacedField) : Field := (spaced.name, spaced.before ++ (spaced.value ++ spaced.after))

/-- The value is the part between the blanks: it neither starts nor ends with one. -/
structure Valid (spaced : SpacedField) : Prop where
  name : token spaced.name = true
  value : spaced.value.all valueChar = true
  first : ∀ c ∈ spaced.value.head?, isBlank c = false
  last : ∀ c ∈ spaced.value.getLast?, isBlank c = false
  before : ∀ c ∈ spaced.before, isBlank c = true
  after : ∀ c ∈ spaced.after, isBlank c = true

/-- The blanks around a value do not matter: they are values' bytes and are trimmed away. -/
theorem Valid.validField {spaced : SpacedField} (h : spaced.Valid) : ValidField spaced.field := by
  refine ⟨h.name, List.all_eq_true.mpr fun c hc => ?_⟩
  obtain hbefore | hrest := List.mem_append.mp hc
  · exact valueChar_of_isBlank (h.before c hbefore)
  · obtain hvalue | hafter := List.mem_append.mp hrest
    · exact List.all_eq_true.mp h.value c hvalue
    · exact valueChar_of_isBlank (h.after c hafter)

/-- Trimming takes off the blanks that the value was written with, and no more. -/
theorem Valid.trimmed_field {spaced : SpacedField} (h : spaced.Valid) :
    trimmed spaced.field.2 = spaced.value := by
  have hfront : (spaced.value ++ spaced.after).dropWhile isBlank =
      if spaced.value = [] then [] else spaced.value ++ spaced.after := by
    cases hvalue : spaced.value with
    | nil =>
      rw [List.nil_append, if_pos rfl, List.dropWhile_eq_nil_iff]
      exact h.after
    | cons c rest =>
      rw [if_neg (List.cons_ne_nil c rest), List.cons_append,
        List.dropWhile_cons_of_neg (by simpa using h.first c (by simp [hvalue]))]
  rw [trimmed, field, List.dropWhile_append_of_pos h.before, hfront]
  by_cases hnil : spaced.value = []
  · rw [if_pos hnil, hnil, List.rdropWhile_nil]
  · obtain ⟨init, c, hinit⟩ := (List.eq_nil_or_concat' spaced.value).resolve_left hnil
    have hlast : isBlank c = false := h.last c (by simp [hinit])
    have hafter : ∀ c ∈ spaced.after.reverse, isBlank c = true := by simpa using h.after
    rw [if_neg hnil, List.rdropWhile, List.reverse_append, List.dropWhile_append_of_pos hafter, hinit,
      List.reverse_append, List.reverse_singleton, List.singleton_append,
      List.dropWhile_cons_of_neg (by simpa using hlast), List.reverse_cons, List.reverse_reverse]

end SpacedField

/-- A request as its sender has it. -/
structure SentHead where
  method : Bytes
  target : Bytes
  version : Bytes
  fields : List SpacedField

namespace SentHead

def head (sent : SentHead) : RequestHead :=
  { method := sent.method
    target := sent.target
    version := sent.version
    fields := sent.fields.map SpacedField.field }

/-- The request on the wire. -/
def encode (sent : SentHead) : Bytes := sent.head.encode

/-- The value of the field with a name, in any letter case. -/
def value (sent : SentHead) (name : Bytes) : Option Bytes :=
  (sent.fields.find? fun field => CaseInsensitiveEqual field.name name).map (·.value)

/-- The requests that the server takes. -/
structure Valid (limits : HttpLimits) (sent : SentHead) : Prop where
  method : token sent.method = true
  bytes : ∀ c ∈ sent.target, targetByte c
  escapes : EscapesComplete sent.target
  origin : ∃ rest, sent.target = 47 :: rest
  version : sent.version = ascii "HTTP/1.1" ∨ sent.version = ascii "HTTP/1.0"
  fields : ∀ field ∈ sent.fields, field.Valid
  distinct : sent.fields.Pairwise fun a b => CaseInsensitiveEqual a.name b.name = false
  host : sent.version = ascii "HTTP/1.1" → ∃ host, sent.value (ascii "host") = some host ∧ host ≠ []
  host_chars : ∀ host, sent.value (ascii "host") = some host →
    ∀ c ∈ host, 32 < c ∧ c < 127 ∧ c ∉ ascii "/\\@,?#"
  no_transfer_encoding : sent.value (ascii "transfer-encoding") = none
  no_expect : sent.value (ascii "expect") = none
  length : ∀ length, sent.value (ascii "content-length") = some length →
    length ≠ [] ∧ length.all decimal.isDigit = true ∧ decimal.value length ≤ limits.max_body_bytes

variable {sent : SentHead} {limits : HttpLimits}

/-- What a sender writes by its rules is a head of the grammar. -/
theorem Valid.wellFormed (h : sent.Valid limits) : sent.head.WellFormed := by
  refine ⟨h.method, ⟨h.bytes, h.escapes, .inl h.origin⟩, h.version, fun field hfield => ?_⟩
  obtain ⟨spaced, hspaced, rfl⟩ := List.mem_map.mp hfield
  exact (h.fields spaced hspaced).validField

/-- Names that a sender uses once are distinct as the parser compares them. -/
theorem Valid.distinctNames (h : sent.Valid limits) : DistinctNames sent.head.fields :=
  List.pairwise_map.mpr h.distinct

/-- The first field line of a name is the line of the field with that name. -/
theorem Valid.firstField_eq (h : sent.Valid limits) (name : Bytes) :
    ((firstField sent.head.fields name).map fun field => trimmed field.2) = sent.value name := by
  rw [value, firstField, head, List.find?_map, Option.map_map]
  apply Option.map_congr
  intro spaced hspaced
  exact (h.fields spaced (List.mem_of_find?_eq_some hspaced)).trimmed_field

/-- A name is looked up in the map as it is in the request that was sent. -/
theorem Valid.header_eq (h : sent.Valid limits) {req : HttpRequest}
    (hfields : Collected sent.head.fields req.headers) (name : Bytes) (fb : StringView) :
    (req.header name fb).bytes = (sent.value name).getD fb.bytes ∧
      (sent.value name = none → req.header name fb = fb) := by
  have hlookup := hfields.lookup name
  rw [h.firstField_eq] at hlookup
  rw [HttpRequest.header, ← hlookup]
  cases req.headers.get HeaderMap.keyEq (.ofBytes name) with
  | none => exact ⟨rfl, fun _ => rfl⟩
  | some found => exact ⟨rfl, fun hnone => by cases hnone⟩

/-- The checks behind the field lines pass, and the length is the one that was sent.
Each check looks its field up by name, and the names of a sender are distinct. -/
theorem Valid.finishHeaders_success (h : sent.Valid limits) {req : HttpRequest}
    (hfields : Collected sent.head.fields req.headers) (hversion : req.http_version.bytes = sent.version) :
    ∃ keep_alive content_type cookies, finishHeaders req limits =
      .ok { req with
        content_length := ((sent.value (ascii "content-length")).map decimal.value).getD 0
        keep_alive, content_type, cookies } := by
  have hbytes : ∀ name, (req.header name).bytes = (sent.value name).getD [] := fun name =>
    (h.header_eq hfields name {}).1
  have hhost := hbytes (ascii "host")
  have hlength := hbytes (ascii "content-length")
  have hnumber : ((sent.value (ascii "content-length")).map decimal.value).getD 0 =
      decimal.value ((sent.value (ascii "content-length")).getD []) := by
    cases sent.value (ascii "content-length") <;> rfl
  rw [hnumber]
  refine HttpParser.finishHeaders_success (fun h11 => ?_) ?_ ?_ ?_ hlength ?_ ?_
  · obtain ⟨host, hvalue, hne⟩ := h.host (hversion.symm.trans h11)
    rwa [hhost, hvalue]
  · rw [hhost, List.all_eq_true]
    intro c hc
    cases hvalue : sent.value (ascii "host") with
    | none =>
      rw [hvalue] at hc
      cases hc
    | some host =>
      rw [hvalue] at hc
      obtain ⟨hlow, hhigh, hplain⟩ := h.host_chars host hvalue c hc
      simp only [hostChar, Bool.not_eq_true', Bool.or_eq_false_iff, decide_eq_false_iff_not,
        UInt8.not_le, List.contains_eq_mem]
      exact ⟨⟨hlow, hhigh⟩, hplain⟩
  · rw [hbytes, h.no_transfer_encoding]
    rfl
  · rw [hbytes, h.no_expect]
    rfl
  · cases hvalue : sent.value (ascii "content-length") with
    | none => rfl
    | some length => exact (h.length length hvalue).2.1
  · cases hvalue : sent.value (ascii "content-length") with
    | none => exact Nat.zero_le _
    | some length => exact (h.length length hvalue).2.2

/-- Parsing an encoded request gives back its parts. -/
theorem Valid.parse_headers_success (h : sent.Valid limits)
    (hsize : sent.encode.length ≤ limits.max_header_bytes) :
    ∃ req, parse_headers sent.encode limits = .ok req ∧ req.method = toMethod sent.method ∧
      req.http_version.bytes = sent.version ∧ req.path.bytes = sent.target.takeWhile (· ≠ 63) ∧
      req.content_length = ((sent.value (ascii "content-length")).map decimal.value).getD 0 ∧
      Collected sent.head.fields req.headers ∧
      ∀ key, req.query.bytesOf key = Pattern.valueOf (queryPairs sent.target) key := by
  obtain ⟨req, hstarted, hparse⟩ := (h.wellFormed.parse_headers_eq hsize).resolve_right
    fun hrefused => h.distinctNames.not_repeatsFraming hrefused.2
  obtain ⟨keep_alive, content_type, cookies, hfinish⟩ :=
    h.finishHeaders_success hstarted.headers hstarted.http_version
  exact ⟨_, hparse.trans hfinish, hstarted.method, hstarted.http_version, hstarted.path, rfl, hstarted.headers,
    hstarted.query⟩

end SentHead

/-- Decoding undoes encoding: the parts of the request line, and every field under
every spelling of its name, come back as they were sent, with whatever blanks the
sender has put around the values. -/
theorem parse_headers_encode {sent : SentHead} {limits : HttpLimits} (h : sent.Valid limits)
    (hsize : sent.encode.length ≤ limits.max_header_bytes) :
    ∃ req, parse_headers sent.encode limits = .ok req ∧ req.method = toMethod sent.method ∧
      req.http_version.bytes = sent.version ∧ req.path.bytes = sent.target.takeWhile (· ≠ 63) ∧
      req.content_length = ((sent.value (ascii "content-length")).map decimal.value).getD 0 ∧
      (∀ name value, sent.value name = some value → ∀ fb, (req.header name fb).bytes = value) ∧
      ∀ name, sent.value name = none → ∀ fb, req.header name fb = fb := by
  obtain ⟨req, hparse, hmethod, hversion, hpath, hlength, hcollected, _⟩ := h.parse_headers_success hsize
  refine ⟨req, hparse, hmethod, hversion, hpath, hlength, fun name value hvalue fb => ?_,
    fun name hnone fb => (h.header_eq hcollected name fb).2 hnone⟩
  have hheader := (h.header_eq hcollected name fb).1
  rw [hvalue] at hheader
  exact hheader

/-- A request with a query, an empty value and a colon in a value. -/
def sentNote : SentHead where
  method := ascii "POST"
  target := ascii "/notes?q=1?r"
  version := ascii "HTTP/1.1"
  fields :=
    [{ name := ascii "hOsT", value := ascii "x:80", before := ascii " ", after := ascii "  " },
      { name := ascii "X-Empty", value := [], before := ascii " \t", after := [] },
      { name := ascii "Content-Length", value := ascii "3", before := [], after := ascii "\t" }]

theorem sentNote_valid : sentNote.Valid .defaults := by
  have hpercent : (37 : UInt8) ∉ sentNote.target := by decide +kernel
  have hhost : sentNote.value (ascii "host") = some (ascii "x:80") := by decide +kernel
  have hlength : sentNote.value (ascii "content-length") = some (ascii "3") := by decide +kernel
  refine ⟨by decide +kernel, ?_, fun before after hsplit => ?_, ⟨_, rfl⟩, .inl rfl, ?_, by decide +kernel,
    fun _ => ⟨_, hhost, by decide⟩, fun host hvalue => ?_, by decide +kernel, by decide +kernel,
    fun length hvalue => ?_⟩
  · unfold targetByte
    decide +kernel
  · exact absurd (hsplit ▸ List.mem_append_right before (List.mem_cons_self ..)) hpercent
  · intro field hfield
    simp only [sentNote, List.mem_cons, List.not_mem_nil, or_false] at hfield
    obtain rfl | rfl | rfl := hfield <;> refine ⟨?_, ?_, ?_, ?_, ?_, ?_⟩ <;> decide +kernel
  · obtain rfl := Option.some.inj (hhost.symm.trans hvalue)
    decide +kernel
  · obtain rfl := Option.some.inj (hlength.symm.trans hvalue)
    decide +kernel

/-- A head with blanks around a value and a length, parsed to what was sent. -/
theorem parse_headers_encode_note :
    ∃ req, parse_headers sentNote.encode .defaults = .ok req ∧ req.method = .POST ∧
      req.path.bytes = ascii "/notes" ∧ req.content_length = 3 := by
  obtain ⟨req, hparse, hmethod, _, hpath, hlength, _⟩ := parse_headers_encode sentNote_valid (by decide +kernel)
  refine ⟨req, hparse, hmethod.trans (by decide +kernel), hpath.trans (by decide +kernel),
    hlength.trans (by decide +kernel)⟩

end octane.HttpParser
