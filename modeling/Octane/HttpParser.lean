import Octane.Lib.Decimal
import Octane.HttpLimits
import Octane.HttpRequest

open search

namespace octane.HttpParser

def tokenChar (c : UInt8) : Bool :=
  (97 ≤ c && c ≤ 122) || (65 ≤ c && c ≤ 90) || (48 ≤ c && c ≤ 57) ||
    (ascii "!#$%&'*+-.^_`|~").contains c

def token (text : Bytes) : Bool := !text.isEmpty && text.all tokenChar

def iequals (a b : Bytes) : Bool := CaseInsensitiveEqual a b

def isBlank (c : UInt8) : Bool := c == 32 || c == 9

/-- The first loop of `trim`; the pattern is its guard `!s.empty()`. -/
def trimFront (off : Nat) : Bytes → StringView
  | [] => { off }
  | c :: rest => if isBlank c then trimFront (off + 1) rest else { off, bytes := c :: rest }

def trim (s : StringView) : StringView :=
  let s := trimFront s.off s.bytes
  { s with bytes := s.bytes.rdropWhile isBlank }

def contains_token (values : StringView) (expected : Bytes) : Result Bool :=
  if values.empty then .ok false
  else
    let comma := values.find (ascii ",")
    match values.substr 0 comma with
    | .error e => .error e
    | .ok part =>
      if iequals (trim part).bytes expected then .ok true
      else
        match comma with
        | none => .ok false
        | some i =>
          match _h : values.remove_prefix (i + 1) with
          | .error e => .error e
          | .ok rest => contains_token rest expected
termination_by values.size
decreasing_by
  obtain ⟨hle, rfl⟩ := StringView.remove_prefix_eq_ok_iff.mp _h
  simp only [StringView.size, List.length_drop] at hle ⊢
  omega

/-- The search of a list, unrolled once: what one round cuts off, tests and goes on
with. The loop is by well-founded recursion, so that proofs step with this equation.
-/
theorem contains_token_unrolled (values : StringView) (expected : Bytes) :
    contains_token values expected =
      if values.empty then .ok false
      else values.substr 0 (values.find (ascii ",")) >>= fun part =>
        if iequals (trim part).bytes expected then .ok true
        else (values.find (ascii ",")).elim (.ok false) fun i =>
          values.remove_prefix (i + 1) >>= fun rest => contains_token rest expected := by
  rw [contains_token]
  split_ifs with hempty
  · rfl
  · dsimp only
    cases values.substr 0 (values.find (ascii ",")) with
    | error e => rfl
    | ok part =>
      rw [bind_ok]
      dsimp only
      split_ifs with hfound
      · rfl
      · cases values.find (ascii ",") with
        | none => rfl
        | some i =>
          dsimp only [Option.elim_some]
          split
          · next e hremove =>
            rw [hremove]
            rfl
          · next rest hremove =>
            rw [hremove]
            rfl

def hex (c : UInt8) : Int :=
  if 48 ≤ c ∧ c ≤ 57 then (c.toNat : Int) - 48
  else if 97 ≤ c ∧ c ≤ 102 then (c.toNat : Int) - 97 + 10
  else if 65 ≤ c ∧ c ≤ 70 then (c.toNat : Int) - 65 + 10
  else -1

def toMethod (m : Bytes) : HttpMethod :=
  if m = ascii "GET" then .GET
  else if m = ascii "POST" then .POST
  else if m = ascii "PUT" then .PUT
  else if m = ascii "PATCH" then .PATCH
  else if m = ascii "DELETE" then .DEL
  else if m = ascii "OPTIONS" then .OPTIONS
  else if m = ascii "HEAD" then .HEAD
  else .UNKNOWN

/-- A piece cut at its first `=`; one without it is dropped. -/
def storePair (clean : StringView → StringView) (pair : StringView) (map : StringMap) : Result StringMap :=
  match pair.find (ascii "=") with
  | none => .ok map
  | some eq => do
    let key ← pair.substr 0 (some eq)
    let value ← pair.substr (eq + 1) none
    .ok (map.assign StringMap.keyEq (clean key) (clean value))

/-- The loop shared by `parseQueryString` and `parseCookies` over the pieces
between separators. -/
def parsePairs (sep : Bytes) (clean : StringView → StringView) (raw : StringView)
    (map : StringMap) : Result StringMap :=
  if raw.empty then .ok map
  else
    let cut := raw.find sep
    match cut.elim (.ok raw) fun i => raw.substr 0 (some i) with
    | .error e => .error e
    | .ok pair =>
      match storePair clean pair map with
      | .error e => .error e
      | .ok map =>
        match cut with
        | none => .ok map
        | some i =>
          match _h : raw.remove_prefix (i + 1) with
          | .error e => .error e
          | .ok rest => parsePairs sep clean rest map
termination_by raw.size
decreasing_by
  obtain ⟨hle, rfl⟩ := StringView.remove_prefix_eq_ok_iff.mp _h
  simp only [StringView.size, List.length_drop] at hle ⊢
  omega

/-- The loop over the pairs, unrolled once. It is one loop for queries and cookies,
which differ in the separator and in how names and values are cleaned. -/
theorem parsePairs_unrolled (sep : Bytes) (clean : StringView → StringView) (raw : StringView)
    (map : StringMap) : parsePairs sep clean raw map =
      if raw.empty then .ok map
      else ((raw.find sep).elim (.ok raw) fun i => raw.substr 0 (some i)) >>= fun pair =>
        storePair clean pair map >>= fun map =>
          (raw.find sep).elim (.ok map) fun i =>
            raw.remove_prefix (i + 1) >>= fun rest => parsePairs sep clean rest map := by
  rw [parsePairs]
  split_ifs with hempty
  · rfl
  · dsimp only
    cases (raw.find sep).elim (.ok raw) fun i => raw.substr 0 (some i) with
    | error e => rfl
    | ok pair =>
      rw [bind_ok]
      dsimp only
      cases storePair clean pair map with
      | error e => rfl
      | ok map =>
        rw [bind_ok]
        cases raw.find sep with
        | none => rfl
        | some i =>
          dsimp only [Option.elim_some]
          split
          · next e hremove =>
            rw [hremove]
            rfl
          · next rest hremove =>
            rw [hremove]
            rfl

def parseQueryString (qs : StringView) (query : StringMap) : Result StringMap :=
  parsePairs (ascii "&") id qs query

def parseCookies (raw : StringView) (cookies : StringMap) : Result StringMap :=
  parsePairs (ascii ";") trim raw cookies

/-- The loop over the target bytes, from index `i`. -/
def checkTarget (full_path : StringView) (i : Nat) : Result Unit :=
  if i < full_path.size then do
    let c ← full_path.index i
    if c ≤ 32 ∨ 127 ≤ c ∨ c = 35 then .error (.HttpParseError 400)
    else if c = 37 then
      if full_path.size ≤ i + 2 then .error (.HttpParseError 400)
      else do
        let first ← full_path.index (i + 1)
        if hex first < 0 then .error (.HttpParseError 400)
        else do
          let second ← full_path.index (i + 2)
          if hex second < 0 then .error (.HttpParseError 400)
          else checkTarget full_path (i + 1)
    else checkTarget full_path (i + 1)
  else .ok ()
termination_by full_path.size - i

/-- The target must be origin-form, or `*` for `OPTIONS`. -/
def checkForm (full_path : StringView) (method : HttpMethod) : Result Unit :=
  if full_path.empty then .error (.HttpParseError 400)
  else do
    let first ← full_path.front
    if first ≠ 47 ∧ ¬ (full_path.bytes = ascii "*" ∧ method = .OPTIONS) then
      .error (.HttpParseError 400)
    else .ok ()

/-- The end of `parseRequestLine`, which splits the accepted target. -/
def splitTarget (full_path : StringView) (req : HttpRequest) : Result HttpRequest :=
  match full_path.find (ascii "?") with
  | some qpos => do
    let path ← full_path.substr 0 (some qpos)
    let qs ← full_path.substr (qpos + 1) none
    let query ← parseQueryString qs req.query
    .ok { req with path, query }
  | none => .ok { req with path := full_path }

/-- The part of `parseRequestLine` behind the method. -/
def parseTarget (line : StringView) (req : HttpRequest) : Result HttpRequest :=
  match line.find (ascii " ") with
  | none => .error (.HttpParseError 400)
  | some s2 => do
    let full_path ← line.substr 0 (some s2)
    let http_version ← line.substr (s2 + 1) none
    if http_version.bytes ≠ ascii "HTTP/1.1" ∧ http_version.bytes ≠ ascii "HTTP/1.0" then
      .error (.HttpParseError 505)
    else do
      checkForm full_path req.method
      checkTarget full_path 0
      splitTarget full_path { req with http_version }

def parseRequestLine (line : StringView) (req : HttpRequest) : Result HttpRequest :=
  match line.find (ascii " ") with
  | none => .error (.HttpParseError 400)
  | some s1 => do
    let method_part ← line.substr 0 (some s1)
    if token method_part.bytes then do
      let line ← line.remove_prefix (s1 + 1)
      parseTarget line { req with method := toMethod method_part.bytes }
    else .error (.HttpParseError 400)

/-- The bytes a field value may hold. -/
def valueChar (c : UInt8) : Bool := !((c < 32 && c != 9) || c == 127)

def parseHeaderLine (line : StringView) (req : HttpRequest) : Result HttpRequest :=
  match line.find (ascii ":") with
  | none => .error (.HttpParseError 400)
  | some colon => do
    let key ← line.substr 0 (some colon)
    if token key.bytes then do
      let rest ← line.substr (colon + 1) none
      let value := trim rest
      if value.bytes.all valueChar then
        let (headers, inserted) := req.headers.try_emplace HeaderMap.keyEq key value
        if !inserted && (iequals key.bytes (ascii "content-length") ||
            iequals key.bytes (ascii "host") ||
            iequals key.bytes (ascii "transfer-encoding")) then
          .error (.HttpParseError 400)
        else .ok { req with headers }
      else .error (.HttpParseError 400)
    else .error (.HttpParseError 400)

/-- The loop over the field lines; `head` is what has not been read yet. -/
def parseHeaderLines (head : StringView) (req : HttpRequest) : Result HttpRequest :=
  if head.bytes = CRLF then .ok req
  else
    match head.find CRLF with
    | none => .error (.HttpParseError 400)
    | some eol =>
      match (head.substr 0 (some eol) >>= fun line => parseHeaderLine line req) with
      | .error e => .error e
      | .ok req =>
        match _h : head.remove_prefix (eol + 2) with
        | .error e => .error e
        | .ok rest => parseHeaderLines rest req
termination_by head.size
decreasing_by
  obtain ⟨hle, rfl⟩ := StringView.remove_prefix_eq_ok_iff.mp _h
  simp only [StringView.size, List.length_drop] at hle ⊢
  omega

/-- The loop over the field lines, unrolled once: it ends at the empty line, and every
other line is parsed and stored before the next one is cut off. -/
theorem parseHeaderLines_unrolled (head : StringView) (req : HttpRequest) :
    parseHeaderLines head req =
      if head.bytes = CRLF then .ok req
      else (head.find CRLF).elim (.error (.HttpParseError 400)) fun eol =>
        (head.substr 0 (some eol) >>= fun line => parseHeaderLine line req) >>= fun req =>
          head.remove_prefix (eol + 2) >>= fun rest => parseHeaderLines rest req := by
  rw [parseHeaderLines]
  split_ifs with hend
  · rfl
  · cases head.find CRLF with
    | none => rfl
    | some eol =>
      dsimp only [Option.elim_some]
      cases head.substr 0 (some eol) >>= fun line => parseHeaderLine line req with
      | error e => rfl
      | ok req =>
        rw [bind_ok]
        dsimp only
        split
        · next e hremove =>
          rw [hremove]
          rfl
        · next rest hremove =>
          rw [hremove]
          rfl

def hostChar (c : UInt8) : Bool :=
  !(c ≤ 32 || 127 ≤ c || (ascii "/\\@,?#").contains c)

def checkHost (req : HttpRequest) : Result Unit :=
  if req.http_version.bytes = ascii "HTTP/1.1" ∧ (req.header (ascii "host")).empty then
    .error (.HttpParseError 400)
  else if (req.header (ascii "host")).bytes.all hostChar then .ok ()
  else .error (.HttpParseError 400)

inductive errc where
  | success | invalid_argument | result_out_of_range
deriving DecidableEq

/-- `std::from_chars` for a `size_t` in base ten: how many characters were
read, the error and the number. -/
def from_chars (text : Bytes) : Nat × errc × Nat :=
  let digits := text.takeWhile decimal.isDigit
  if digits = [] then (0, .invalid_argument, 0)
  else if decimal.value digits < 2 ^ 64 then (digits.length, .success, decimal.value digits)
  else (digits.length, .result_out_of_range, 0)

def checkTransferEncoding (req : HttpRequest) : Result Unit :=
  if (req.header (ascii "transfer-encoding")).empty then .ok ()
  else if (req.header (ascii "content-length")).empty then .error (.HttpParseError 501)
  else .error (.HttpParseError 400)

/-- The `Content-Length` of a head, zero when the field is absent. -/
def readContentLength (req : HttpRequest) (limits : HttpLimits) : Result Nat :=
  let cl_val := (req.header (ascii "content-length")).bytes
  if cl_val = [] then .ok 0
  else if cl_val.all decimal.isDigit then
    let (ptr, ec, content_length) := from_chars cl_val
    if ec ≠ .success ∨ ptr ≠ cl_val.length then .error (.HttpParseError 400)
    else if limits.max_body_bytes < content_length then .error (.HttpParseError 413)
    else .ok content_length
  else .error (.HttpParseError 400)

def checkExpect (req : HttpRequest) : Result Unit :=
  if (req.header (ascii "expect")).empty then .ok () else .error (.HttpParseError 417)

/-- `close` wins over `keep-alive`, which wins over the default of the version. -/
def readKeepAlive (req : HttpRequest) : Result Bool := do
  let connection := req.header (ascii "connection")
  let keep ← contains_token connection (ascii "keep-alive")
  let close ← contains_token connection (ascii "close")
  .ok (if close then false
    else if keep then true
    else req.http_version.bytes = ascii "HTTP/1.1")

def readContentType (req : HttpRequest) : ContentType :=
  let ct := req.header (ascii "content-type")
  if ct.empty then req.content_type else parseContentType ct.bytes

def readCookies (req : HttpRequest) : Result StringMap :=
  let ck := req.header (ascii "cookie")
  if ck.empty then .ok req.cookies else parseCookies ck req.cookies

/-- What `parse_headers` does once all field lines are in the map. -/
def finishHeaders (req : HttpRequest) (limits : HttpLimits) : Result HttpRequest := do
  checkHost req
  checkTransferEncoding req
  let content_length ← readContentLength req limits
  checkExpect req
  let keep_alive ← readKeepAlive req
  let cookies ← readCookies req
  .ok { req with content_length, keep_alive, content_type := readContentType req, cookies }

def parse_headers (raw : Bytes) (limits : HttpLimits := .defaults) : Result HttpRequest :=
  if limits.max_header_bytes < raw.length then .error (.HttpParseError 431)
  else if ¬ CRLFCRLF <:+ raw then .error (.HttpParseError 400)
  else
    let view := StringView.ofBytes raw
    match view.find CRLF with
    | none => .error (.HttpParseError 400)
    | some line_end => do
      let line ← view.substr 0 (some line_end)
      let req ← parseRequestLine line {}
      let head ← view.substr (line_end + 2) none
      let req ← parseHeaderLines head req
      finishHeaders req limits

def set_body (req : HttpRequest) (body : Bytes) : HttpRequest := { req with body }

def parse (raw : Bytes) : Result HttpRequest :=
  match findSub CRLFCRLF raw with
  | none => .error (.HttpParseError 400)
  | some header_end => do
    let head ← (StringView.ofBytes raw).substr 0 (some (header_end + 4))
    let req ← parse_headers head.bytes
    if raw.length - header_end - 4 ≠ req.content_length then .error (.HttpParseError 400)
    else do
      let body ← (StringView.ofBytes raw).substr (header_end + 4) none
      .ok (set_body req body.bytes)

end octane.HttpParser
