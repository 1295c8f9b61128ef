import Octane.HttpParser.KeepAlive
import Octane.HttpParser.Success

open search

namespace octane.HttpParser

/-- What a host may be made of, as `checkHost` tests it byte by byte. -/
theorem hostChar_iff {c : UInt8} : hostChar c = true ↔ 32 < c ∧ c < 127 ∧ c ∉ ascii "/\\@,?#" := by
  simp only [hostChar, Bool.not_eq_true', Bool.or_eq_false_iff, decide_eq_false_iff_not, UInt8.not_le,
    List.contains_eq_mem, and_assoc]

variable {req : HttpRequest} {limits : HttpLimits}

/-- When the host passes: HTTP/1.1 needs one, and no byte of it may be a delimiter. -/
theorem checkHost_ok_iff : checkHost req = .ok () ↔
    (req.http_version.bytes = ascii "HTTP/1.1" → (req.header (ascii "host")).bytes ≠ []) ∧
      (req.header (ascii "host")).bytes.all hostChar = true := by
  simp only [checkHost, StringView.empty_iff]
  split_ifs with hmissing hchars
  · simp [hmissing]
  · simpa [hchars] using hmissing
  · simp [hchars]

/-- Only an absent or blank Transfer-Encoding passes; the parser knows no coding. -/
theorem checkTransferEncoding_ok_iff :
    checkTransferEncoding req = .ok () ↔ (req.header (ascii "transfer-encoding")).bytes = [] := by
  simp only [checkTransferEncoding, StringView.empty_iff]
  split_ifs with hempty <;> simp [hempty]

theorem checkExpect_ok_iff : checkExpect req = .ok () ↔ (req.header (ascii "expect")).bytes = [] := by
  simp only [checkExpect, StringView.empty_iff]
  split_ifs with hempty <;> simp [hempty]

/-- When there is a length: digits only, and a value within the limit. A value that
does not fit into 64 bits exceeds every limit, so the overflow branch needs no case
of its own. -/
theorem readContentLength_ok_iff : (∃ length, readContentLength req limits = .ok length) ↔
    (req.header (ascii "content-length")).bytes.all decimal.isDigit = true ∧
      decimal.value (req.header (ascii "content-length")).bytes ≤ limits.max_body_bytes := by
  constructor
  · rintro ⟨length, h⟩
    obtain ⟨hnil, _⟩ | ⟨_, hdigits, rfl, hlimit⟩ := readContentLength_ok h
    · rw [hnil]
      exact ⟨rfl, Nat.zero_le _⟩
    · exact ⟨hdigits, hlimit⟩
  · rintro ⟨hdigits, hlimit⟩
    exact ⟨_, readContentLength_success rfl hdigits hlimit⟩

/-- The checks behind the field lines, in terms of the fields that they look up. -/
theorem finishHeaders_ok_iff : (∃ after, finishHeaders req limits = .ok after) ↔
    checkHost req = .ok () ∧ checkTransferEncoding req = .ok () ∧
      (∃ length, readContentLength req limits = .ok length) ∧ checkExpect req = .ok () := by
  constructor
  · rintro ⟨after, h⟩
    simp only [finishHeaders, bind_eq_ok_iff] at h
    obtain ⟨_, hhost, _, htransfer, length, hlength, _, hexpect, _⟩ := h
    exact ⟨hhost, htransfer, ⟨length, hlength⟩, hexpect⟩
  · rintro ⟨hhost, htransfer, hlength, hexpect⟩
    obtain ⟨hpresent, hchars⟩ := checkHost_ok_iff.mp hhost
    obtain ⟨hdigits, hlimit⟩ := readContentLength_ok_iff.mp hlength
    obtain ⟨_, _, _, hfinish⟩ := finishHeaders_success hpresent hchars (checkTransferEncoding_ok_iff.mp htransfer)
      (checkExpect_ok_iff.mp hexpect) rfl hdigits hlimit
    exact ⟨_, hfinish⟩

namespace RequestHead

variable {head : RequestHead}

/-- The first line and what follows it. -/
theorem encode_cut (head : RequestHead) : head.encode = head.requestLine ++
    (CRLF ++ (head.fields.flatMap (fun field => fieldLine field ++ CRLF) ++ CRLF)) := by
  simp [encode, lines, List.flatMap_map]

theorem encode_suffix (head : RequestHead) : CRLFCRLF <:+ head.encode := by
  obtain ⟨init, last, hlines⟩ := (List.eq_nil_or_concat' head.lines).resolve_left (List.cons_ne_nil _ _)
  refine ⟨init.flatMap (· ++ CRLF) ++ last, ?_⟩
  rw [encode, hlines]
  simp

/-- The first blank line in a stream that starts with a head is the one that ends it. -/
theorem WellFormed.find_end (h : head.WellFormed) (tail : Bytes) :
    ∃ stop, findSub CRLFCRLF (head.encode ++ tail) = some stop ∧ stop + 4 = head.encode.length := by
  have hne : head.lines ≠ [] := List.cons_ne_nil _ _
  have hdiffer : (13 : UInt8) ≠ 10 := by decide
  have hfind := findSub_double_terminator hdiffer hne
    (fun line hline => ⟨(h.line hline).1, not_infix_of_not_mem (h.line hline).2.1⟩) tail
  refine ⟨(head.lines.flatMap (· ++ CRLF)).length - 2, hfind, ?_⟩
  have hfour : 4 ≤ head.encode.length := (show CRLFCRLF.length = 4 from rfl) ▸ head.encode_suffix.length_le
  have hlength : head.encode.length = (head.lines.flatMap (· ++ CRLF)).length + 2 := by
    rw [encode, List.length_append]
    rfl
  omega

/-- The request that the lines of a head are read to, before the checks on its fields. -/
structure Started (head : RequestHead) (req : HttpRequest) : Prop where
  method : req.method = toMethod head.method
  path : req.path.bytes = head.target.takeWhile (· ≠ 63)
  http_version : req.http_version.bytes = head.version
  query : ∀ key, req.query.bytesOf key = Pattern.valueOf (queryPairs head.target) key
  headers : Collected head.fields req.headers
  body : req.body = []
  content_type : req.content_type = .UNKNOWN
  params : req.params = {}
  cookies : req.cookies = {}

/-- Every line of a well-formed head is read, unless a name is given again that may
not be. What is left to decide is what the checks behind the loop see. -/
theorem WellFormed.parse_headers_eq (h : head.WellFormed) (hsize : head.encode.length ≤ limits.max_header_bytes) :
    (∃ req, head.Started req ∧ parse_headers head.encode limits = finishHeaders req limits) ∨
      (parse_headers head.encode limits = .error (.HttpParseError 400) ∧ RepeatsFraming head.fields) := by
  obtain ⟨hfind, hline, hrest, _⟩ := StringView.cut_of_not_mem (v := .ofBytes head.encode) head.encode_cut
    (h.line (List.mem_cons_self ..)).2.1
  have hfirst : ({ off := (StringView.ofBytes head.encode).off, bytes := head.requestLine } :
      StringView).bytes = head.method ++ 32 :: (head.target ++ 32 :: head.version) := rfl
  obtain ⟨path, http_version, query, hstarted, hpath, hversion, hquery⟩ :=
    parseRequestLine_success hfirst h.method h.target h.version {}
  have hblock : ({ off := (StringView.ofBytes head.encode).off + (head.requestLine.length + CRLF.length)
                   bytes := head.fields.flatMap (fun field => fieldLine field ++ CRLF) ++ CRLF } :
      StringView).bytes = head.fields.flatMap (fun field => fieldLine field ++ CRLF) ++ CRLF := rfl
  have hempty : Collected [] ({ ({} : HttpRequest) with
      method := toMethod head.method, path, http_version, query } : HttpRequest).headers := Collected.empty
  rw [parse_headers, if_neg (Nat.not_lt.mpr hsize), if_neg (not_not.mpr head.encode_suffix)]
  dsimp only
  rw [hfind]
  dsimp only
  rw [hline, bind_ok, hstarted, bind_ok, show head.requestLine.length + 2 =
    head.requestLine.length + CRLF.length from rfl, hrest, bind_ok]
  obtain ⟨headers, hread, hfields⟩ | ⟨hrefused, hrepeats⟩ := parseHeaderLines_valid hblock h.fields hempty
  · refine .inl ⟨{ method := toMethod head.method, path, http_version, query, headers }, ?_, by rw [hread, bind_ok]⟩
    exact ⟨rfl, hpath, hversion, fun key => (hquery key).trans (Option.or_none ..), hfields, rfl, rfl, rfl, rfl⟩
  · rw [hrefused]
    exact .inr ⟨rfl, hrepeats⟩

/-- Different heads are written differently. -/
theorem WellFormed.encode_injective {other : RequestHead} (h : head.WellFormed) (hother : other.WellFormed)
    (hsame : head.encode = other.encode) : head = other := by
  have hfields : head.fields = other.fields := by rw [← fieldLines_encode h, hsame, fieldLines_encode hother]
  have hcut := hsame
  rw [encode_cut, encode_cut] at hcut
  obtain ⟨hline, _⟩ := append_cons_inj (h.line (List.mem_cons_self ..)).2.1
    (hother.line (List.mem_cons_self ..)).2.1 hcut
  obtain ⟨hmethod, hrest⟩ := append_cons_inj (not_mem_of_token h.method (by decide))
    (not_mem_of_token hother.method (by decide)) hline
  obtain ⟨htarget, hversion⟩ := append_cons_inj (fun hmem => absurd (h.target.bytes 32 hmem).1 (by decide))
    (fun hmem => absurd (hother.target.bytes 32 hmem).1 (by decide)) hrest
  cases head
  cases other
  dsimp only at hmethod htarget hversion hfields
  rw [hmethod, htarget, hversion, hfields]

/-- The value that the parser goes by for a name: that of the first field of the name
without the blanks around it, and the empty one without a field. -/
def value (head : RequestHead) (name : Bytes) : Bytes :=
  ((firstField head.fields name).map fun field => trimmed field.2).getD []

/-- The header map shows the first field of each name, which is what the grammar
side of the statement speaks of. -/
theorem Started.header_bytes (h : head.Started req) (name : Bytes) : (req.header name).bytes = head.value name :=
  h.headers.header_bytes name

/-- The fields of a head name one host, and no name that may not be repeated is. -/
structure Addressed (head : RequestHead) : Prop where
  once : ∀ name ∈ framingNames,
    (head.fields.filter fun field => CaseInsensitiveEqual field.1 name).length ≤ 1
  host : head.version = ascii "HTTP/1.1" → head.value (ascii "host") ≠ []
  host_chars : ∀ c ∈ head.value (ascii "host"), 32 < c ∧ c < 127 ∧ c ∉ ascii "/\\@,?#"

/-- What is asked of the fields of a head. -/
structure Acceptable (limits : HttpLimits) (head : RequestHead) : Prop extends head.Addressed where
  transfer_encoding : head.value (ascii "transfer-encoding") = []
  digits : (head.value (ascii "content-length")).all decimal.isDigit = true
  length : decimal.value (head.value (ascii "content-length")) ≤ limits.max_body_bytes
  expect : head.value (ascii "expect") = []

/-- The check of the host, in terms of the fields of the head. -/
theorem Started.addressed_iff (h : head.Started req) : checkHost req = .ok () ↔ head.Addressed := by
  rw [checkHost_ok_iff, h.header_bytes, h.http_version, List.all_eq_true]
  constructor
  · rintro ⟨hhost, hchars⟩
    exact ⟨h.headers.unique, hhost, fun c hc => hostChar_iff.mp (hchars c hc)⟩
  · intro haddressed
    exact ⟨haddressed.host, fun c hc => hostChar_iff.mpr (haddressed.host_chars c hc)⟩

/-- The checks behind the field lines are those on the fields of the head. -/
theorem Started.accepted_iff (h : head.Started req) :
    (∃ after, finishHeaders req limits = .ok after) ↔ head.Acceptable limits := by
  rw [finishHeaders_ok_iff, h.addressed_iff, checkTransferEncoding_ok_iff, readContentLength_ok_iff,
    checkExpect_ok_iff, h.header_bytes, h.header_bytes, h.header_bytes]
  constructor
  · rintro ⟨haddressed, htransfer, ⟨hdigits, hlength⟩, hexpect⟩
    exact ⟨haddressed, htransfer, hdigits, hlength, hexpect⟩
  · intro h
    exact ⟨h.toAddressed, h.transfer_encoding, ⟨h.digits, h.length⟩, h.expect⟩

/-- A well-formed head that fits is accepted when its fields are. -/
theorem WellFormed.accepted_iff (h : head.WellFormed) (hsize : head.encode.length ≤ limits.max_header_bytes) :
    (∃ req, parse_headers head.encode limits = .ok req) ↔ head.Acceptable limits := by
  obtain ⟨req, hstarted, hparse⟩ | ⟨hrefused, hrepeats⟩ := h.parse_headers_eq hsize
  · rw [hparse]
    exact hstarted.accepted_iff
  · rw [hrefused]
    constructor
    · rintro ⟨_, hok⟩
      cases hok
    · intro hfields
      exact absurd hrepeats (not_repeatsFraming_iff.mpr hfields.once)

/-- The request that an accepted head is read to. -/
structure Reads (head : RequestHead) (req : HttpRequest) : Prop where
  method : req.method = toMethod head.method
  path : req.path.bytes = head.target.takeWhile (· ≠ 63)
  http_version : req.http_version.bytes = head.version
  query : ∀ key, req.query.bytesOf key = Pattern.valueOf (queryPairs head.target) key
  headers : ∀ name, (req.headers.get HeaderMap.keyEq (.ofBytes name)).map StringView.bytes =
    (firstField head.fields name).map fun field => trimmed field.2
  content_length : req.content_length = decimal.value (head.value (ascii "content-length"))
  keep_alive : req.keep_alive = (!hasElement (head.value (ascii "connection")) (ascii "close") &&
    (decide (head.version = ascii "HTTP/1.1") ||
      hasElement (head.value (ascii "connection")) (ascii "keep-alive")))
  content_type : req.content_type = if head.value (ascii "content-type") = [] then .UNKNOWN
    else parseContentType (head.value (ascii "content-type"))
  cookies : ∀ key, req.cookies.bytesOf key =
    Pattern.valueOf (pairsOf 59 trimmed (head.value (ascii "cookie"))) key
  body : req.body = []
  params : req.params = {}

/-- The cookies that are read are the pairs of the `Cookie` field, the last of each name. -/
theorem Started.readCookies (h : head.Started req) {cookies : StringMap}
    (hcookies : HttpParser.readCookies req = .ok cookies) (key : Bytes) : cookies.bytesOf key =
      Pattern.valueOf (pairsOf 59 trimmed (head.value (ascii "cookie"))) key := by
  have hbytes := h.header_bytes (ascii "cookie")
  rw [HttpParser.readCookies] at hcookies
  by_cases hempty : (req.header (ascii "cookie")).empty = true
  · rw [if_pos hempty] at hcookies
    cases hcookies
    rw [← hbytes, StringView.empty_iff.mp hempty, h.cookies]
    rfl
  · obtain ⟨parsed, hparsed, hkeys⟩ := parseCookies_eq (req.header (ascii "cookie")) req.cookies
    rw [if_neg hempty, hparsed] at hcookies
    cases hcookies
    rw [hkeys, hbytes, h.cookies]
    exact Option.or_none ..

/-- The keep-alive flag, from the list in the `Connection` field and the version. -/
theorem Started.readKeepAlive (h : head.Started req) : HttpParser.readKeepAlive req =
    .ok (!hasElement (head.value (ascii "connection")) (ascii "close") &&
      (decide (head.version = ascii "HTTP/1.1") ||
        hasElement (head.value (ascii "connection")) (ascii "keep-alive"))) := by
  rw [HttpParser.readKeepAlive, contains_token_eq _ (by decide), bind_ok, contains_token_eq _ (by decide), bind_ok,
    h.header_bytes, h.http_version]
  cases hasElement (head.value (ascii "connection")) (ascii "close") <;>
    cases hasElement (head.value (ascii "connection")) (ascii "keep-alive") <;> simp

/-- The checks behind the field lines set what they read from the fields. -/
theorem Started.reads (h : head.Started req) {after : HttpRequest} (hfinish : finishHeaders req limits = .ok after) :
    head.Reads after := by
  have hlength := h.header_bytes (ascii "content-length")
  have htype := h.header_bytes (ascii "content-type")
  simp only [finishHeaders, bind_eq_ok_iff] at hfinish
  obtain ⟨_, _, _, _, length, hread, _, _, keep, hkeep, cookies, hcookies, hafter⟩ := hfinish
  rw [h.readKeepAlive] at hkeep
  cases hkeep
  cases hafter
  refine ⟨h.method, h.path, h.http_version, h.query, h.headers.lookup, ?_, rfl, ?_, h.readCookies hcookies, h.body,
    h.params⟩
  · obtain ⟨hnil, rfl⟩ | ⟨_, _, rfl, _⟩ := readContentLength_ok hread
    · rw [← hlength, hnil]
      rfl
    · rw [hlength]
  · simp only [readContentType, StringView.empty_iff, htype, h.content_type]

/-- An accepted head is read to what it says: the parts of the request line from the
first loop and the fields from the table that the second has filled. -/
theorem WellFormed.reads (h : head.WellFormed) (hparse : parse_headers head.encode limits = .ok req) :
    head.Reads req := by
  obtain ⟨_, _, _, _, _, _, hsize, _⟩ := parse_headers_ok hparse
  obtain ⟨started, hstarted, hfinish⟩ | ⟨hrefused, _⟩ := h.parse_headers_eq hsize
  · exact hstarted.reads (hfinish.symm.trans hparse)
  · cases hrefused.symm.trans hparse

end RequestHead

/-- No parameter is set before the router has looked at the path. -/
theorem parse_headers_params {raw : Bytes} {limits : HttpLimits} {req : HttpRequest}
    (h : parse_headers raw limits = .ok req) : req.params = {} := by
  obtain ⟨head, rfl, hhead, _⟩ := parse_headers_ok h
  exact (hhead.reads h).params

/-- The language of the parser: it accepts the encodings of the well-formed heads that fit and
whose fields are acceptable, all of them and nothing else; each of them has one reading, and is
read to the request that it says. -/
theorem parse_headers_accepts_iff (raw : Bytes) (limits : HttpLimits) :
    ((∃ req, parse_headers raw limits = .ok req) ↔
      ∃! head : RequestHead, raw = head.encode ∧ raw.length ≤ limits.max_header_bytes ∧ head.WellFormed ∧
        head.Acceptable limits) ∧
    ∀ req, parse_headers raw limits = .ok req → ∀ head : RequestHead, raw = head.encode → head.WellFormed →
      head.Reads req := by
  refine ⟨⟨?_, ?_⟩, ?_⟩
  · rintro ⟨req, hparse⟩
    obtain ⟨head, rfl, hhead, _, _, _, hsize, _⟩ := parse_headers_ok hparse
    refine ⟨head, ⟨rfl, hsize, hhead, (hhead.accepted_iff hsize).mp ⟨req, hparse⟩⟩, ?_⟩
    rintro other ⟨hsame, _, hother, _⟩
    exact hother.encode_injective hhead hsame.symm
  · rintro ⟨head, ⟨rfl, hsize, hhead, hfields⟩, _⟩
    exact (hhead.accepted_iff hsize).mpr hfields
  · rintro req hparse head rfl hhead
    exact hhead.reads hparse

end octane.HttpParser
