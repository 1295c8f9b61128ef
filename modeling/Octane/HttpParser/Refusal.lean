import Octane.HttpParser.Acceptance

open search

namespace octane.HttpParser

/-- The statuses that a computation may refuse a request with. -/
def RefusesWith {A : Type} (statuses : List Nat) (x : Result A) : Prop :=
  ∀ status, x = .error (.HttpParseError status) → status ∈ statuses

section

variable {A B : Type} {statuses : List Nat}

theorem RefusesWith.ok (a : A) : RefusesWith statuses (.ok a) := by
  intro status h
  cases h

theorem RefusesWith.refuse {status : Nat} (h : status ∈ statuses) :
    RefusesWith statuses (.error (.HttpParseError status) : Result A) := by
  intro other hother
  cases hother
  exact h

/-- A step that refuses with certain statuses only, after another such step. The
later one is asked only where the first has succeeded. -/
theorem RefusesWith.bind {x : Result A} {f : A → Result B} (hx : RefusesWith statuses x)
    (hf : ∀ a, x = .ok a → RefusesWith statuses (f a)) : RefusesWith statuses (x >>= f) := by
  cases x with
  | error e =>
    intro status h
    cases h
    exact hx status rfl
  | ok a => exact hf a rfl

/-- Cutting and indexing a view refuses no request. -/
theorem refusesWith_substr (v : StringView) (pos : Nat) (count : Option Nat) :
    RefusesWith statuses (v.substr pos count) := by
  intro status h
  rw [StringView.substr] at h
  split at h <;> cases h

/-- An index outside the view is no refusal, so it has no status. -/
theorem refusesWith_index (v : StringView) (i : Nat) : RefusesWith statuses (v.index i) := by
  intro status h
  rw [StringView.index] at h
  split at h <;> cases h

end

/-- A bad byte or escape in the target is a 400; by the recursion of the loop. -/
theorem checkTarget_refusesWith (full_path : StringView) (i : Nat) :
    RefusesWith [400] (checkTarget full_path i) := by
  induction hsize : full_path.size - i using Nat.strongRecOn generalizing i with
  | ind n ih =>
    rw [checkTarget]
    split
    · next hi =>
      have hnext : full_path.size - (i + 1) < n := by omega
      refine (refusesWith_index full_path i).bind fun c _ => ?_
      split_ifs
      · exact .refuse (by simp)
      · exact .refuse (by simp)
      · refine (refusesWith_index full_path (i + 1)).bind fun first _ => ?_
        split_ifs
        · exact .refuse (by simp)
        · refine (refusesWith_index full_path (i + 2)).bind fun second _ => ?_
          split_ifs
          · exact .refuse (by simp)
          · exact ih _ hnext _ rfl
      · exact ih _ hnext _ rfl
    · exact .ok ()

theorem checkForm_refusesWith (full_path : StringView) (method : HttpMethod) :
    RefusesWith [400] (checkForm full_path method) := by
  rw [checkForm]
  split_ifs
  · exact .refuse (by simp)
  · refine (refusesWith_index full_path 0).bind fun first _ => ?_
    split_ifs
    · exact .refuse (by simp)
    · exact .ok ()

/-- Cutting a target into path and query refuses with 400 only. -/
theorem splitTarget_refusesWith (full_path : StringView) (req : HttpRequest) :
    RefusesWith [400] (splitTarget full_path req) := by
  rw [splitTarget]
  split
  · refine RefusesWith.bind (refusesWith_substr _ _ _) fun path _ =>
      RefusesWith.bind (refusesWith_substr _ _ _) fun qs _ => ?_
    obtain ⟨query, hok, _⟩ := parseQueryString_total qs req.query
    rw [hok, bind_ok]
    exact .ok _
  · exact .ok _

/-- A request line with a version that is not supported. -/
def UnknownVersion (line : Bytes) : Prop :=
  ∃ method target version : Bytes, line = method ++ 32 :: (target ++ 32 :: version) ∧ token method = true ∧
    32 ∉ target ∧ version ≠ ascii "HTTP/1.1" ∧ version ≠ ascii "HTTP/1.0"

/-- A line that is refused for its version has a method and a target: the version is
looked at behind them. -/
theorem UnknownVersion.shape {line : Bytes} (h : UnknownVersion line) {method target version : Bytes}
    (hline : line = method ++ 32 :: (target ++ 32 :: version)) (hmethod : 32 ∉ method) (htarget : 32 ∉ target) :
    token method = true ∧ version ≠ ascii "HTTP/1.1" ∧ version ≠ ascii "HTTP/1.0" := by
  obtain ⟨method', target', version', rfl, htoken, htarget', hnew, hold⟩ := h
  obtain ⟨rfl, hrest⟩ := append_cons_inj (not_mem_of_token htoken (by decide)) hmethod hline
  obtain ⟨rfl, rfl⟩ := append_cons_inj htarget' htarget hrest
  exact ⟨htoken, hnew, hold⟩

/-- What a request line is refused with: 505 for a version that is not supported, 400
for anything else. The version is looked at before the target is checked. -/
theorem parseRequestLine_refusal (line : StringView) (req : HttpRequest) :
    (parseRequestLine line req = .error (.HttpParseError 505) ∧ UnknownVersion line.bytes) ∨
      (RefusesWith [400] (parseRequestLine line req) ∧ ¬ UnknownVersion line.bytes) := by
  rw [parseRequestLine, ascii_space]
  cases hfirst : line.find [32] with
  | none =>
    refine .inr ⟨.refuse (by simp), ?_⟩
    rintro ⟨method, target, version, hline, _⟩
    exact findSub_singleton_eq_none_iff.mp hfirst (by simp [hline])
  | some s1 =>
    obtain ⟨method, rest, hline, hspace, _, hmethod, _, hremove⟩ := StringView.find_char_cut hfirst
    dsimp only
    rw [hmethod, bind_ok, hremove, bind_ok, parseTarget, ascii_space]
    by_cases htoken : token method = true
    · rw [if_pos htoken]
      cases hsecond : ({ off := line.off + (s1 + 1), bytes := rest } : StringView).find [32] with
      | none =>
        refine .inr ⟨.refuse (by simp), ?_⟩
        rintro ⟨method', target, version, hother, htoken', _⟩
        obtain ⟨rfl, rfl⟩ := append_cons_inj hspace (not_mem_of_token htoken' (by decide)) (hline.symm.trans hother)
        exact findSub_singleton_eq_none_iff.mp hsecond (by simp)
      | some s2 =>
        obtain ⟨target, version, hrest, hspace', _, htarget, hversion, _⟩ := StringView.find_char_cut hsecond
        dsimp only at hrest
        subst hrest
        dsimp only
        rw [htarget, bind_ok, hversion, bind_ok]
        by_cases hunknown : version ≠ ascii "HTTP/1.1" ∧ version ≠ ascii "HTTP/1.0"
        · rw [if_pos hunknown]
          exact .inl ⟨rfl, method, target, version, hline, htoken, hspace', hunknown⟩
        · rw [if_neg hunknown]
          refine .inr ⟨?_, fun h => hunknown (h.shape hline hspace hspace').2⟩
          exact RefusesWith.bind (checkForm_refusesWith _ _) fun _ _ =>
            RefusesWith.bind (checkTarget_refusesWith _ _) fun _ _ => splitTarget_refusesWith _ _
    · rw [if_neg htoken]
      refine .inr ⟨.refuse (by simp), ?_⟩
      rintro ⟨method', target, version, hother, htoken', _⟩
      obtain ⟨rfl, _⟩ := append_cons_inj hspace (not_mem_of_token htoken' (by decide)) (hline.symm.trans hother)
      exact htoken htoken'

/-- A field line is refused with 400 only, whatever is wrong with it. -/
theorem parseHeaderLine_refusesWith (line : StringView) (req : HttpRequest) :
    RefusesWith [400] (parseHeaderLine line req) := by
  rw [parseHeaderLine]
  split
  · exact .refuse (by simp)
  · refine RefusesWith.bind (refusesWith_substr _ _ _) fun key _ => ?_
    split
    · refine RefusesWith.bind (refusesWith_substr _ _ _) fun rest _ => ?_
      dsimp only
      split_ifs
      · exact .refuse (by simp)
      · exact .ok _
      · exact .refuse (by simp)
    · exact .refuse (by simp)

/-- The block of the field lines is refused with 400 only, at the first line that is
wrong. -/
theorem parseHeaderLines_refusesWith (head : StringView) (req : HttpRequest) :
    RefusesWith [400] (parseHeaderLines head req) := by
  induction hsize : head.size using Nat.strongRecOn generalizing head req with
  | ind n ih =>
    rw [parseHeaderLines_unrolled]
    split_ifs
    · exact .ok req
    · cases hfind : head.find CRLF with
      | none => exact .refuse (by simp)
      | some eol =>
        obtain ⟨rest, hremove, _, hless⟩ := StringView.find_rest hfind CRLF_ne_nil
        rw [show eol + CRLF.length = eol + 2 from rfl] at hremove
        rw [Option.elim_some]
        refine RefusesWith.bind (RefusesWith.bind (refusesWith_substr _ _ _) fun line _ =>
          parseHeaderLine_refusesWith line req) fun next _ => ?_
        rw [hremove, bind_ok]
        exact ih _ (hsize ▸ hless) rest next rfl

/-- A block that ends as a head does, whose first line has a version that is not supported. -/
def UnsupportedVersion (raw : Bytes) : Prop :=
  CRLFCRLF <:+ raw ∧ ∃ stop, findSub CRLF raw = some stop ∧ UnknownVersion (raw.take stop)

variable {raw : Bytes} {limits : HttpLimits} {head : RequestHead} {req : HttpRequest}

/-- A head of the grammar has a supported version, so that 505 and the reasons
behind it exclude each other. -/
theorem RequestHead.WellFormed.supported (h : head.WellFormed) : ¬ UnsupportedVersion head.encode := by
  rintro ⟨_, stop, hstop, hunknown⟩
  have hfirst : findSub CRLF head.encode = some head.requestLine.length := by
    rw [head.encode_cut]
    exact findSub_of_not_mem (h.line (List.mem_cons_self ..)).2.1 _
  obtain rfl := Option.some.inj (hfirst.symm.trans hstop)
  rw [head.encode_cut, List.take_left] at hunknown
  obtain ⟨_, hnew, hold⟩ := hunknown.shape rfl (not_mem_of_token h.method (by decide))
    fun hmem => absurd (h.target.bytes 32 hmem).1 (by decide)
  exact h.version.elim hnew hold

/-- Lines that are read are those of a well-formed head. -/
theorem wellFormed_of_lines {line rest : StringView} {started collected : HttpRequest}
    (hraw : raw = line.bytes ++ (CRLF ++ rest.bytes)) (hline : parseRequestLine line {} = .ok started)
    (hlines : parseHeaderLines rest started = .ok collected) :
    ∃ head : RequestHead, raw = head.encode ∧ head.WellFormed := by
  obtain ⟨method, target, hshape, hmethod, htarget, hversion, _, hheaders, _⟩ := parseRequestLine_ok hline
  have hempty : Collected [] started.headers := by
    rw [hheaders]
    exact Collected.empty
  obtain ⟨fields, hfields, hvalid, _⟩ := parseHeaderLines_ok hlines hempty
  refine ⟨⟨method, target, started.http_version.bytes, fields⟩, ?_, ⟨hmethod, htarget, hversion, hvalid⟩⟩
  rw [hraw, hshape, hfields, RequestHead.encode_cut, RequestHead.requestLine]

/-- The version is that of the first line. -/
theorem unsupportedVersion_iff (hend : CRLFCRLF <:+ raw) {line rest : Bytes}
    (hfind : findSub CRLF raw = some line.length) (hraw : raw = line ++ (CRLF ++ rest)) :
    UnsupportedVersion raw ↔ UnknownVersion line := by
  have hline : raw.take line.length = line := by rw [hraw, List.take_left]
  constructor
  · rintro ⟨_, stop, hstop, hunknown⟩
    rwa [← Option.some.inj (hfind.symm.trans hstop), hline] at hunknown
  · intro hunknown
    exact ⟨hend, line.length, hfind, by rwa [hline]⟩

/-- What is not the encoding of a well-formed head is not accepted. -/
theorem refused_of_refusesWith (hnone : ∀ head : RequestHead, raw = head.encode → ¬ head.WellFormed)
    {status : Nat} (h : RefusesWith [status] (parse_headers raw limits)) :
    parse_headers raw limits = .error (.HttpParseError status) := by
  have hsafe := parse_headers_safe raw limits
  cases hparse : parse_headers raw limits with
  | ok req =>
    obtain ⟨head, hraw, hhead, _⟩ := parse_headers_ok hparse
    exact absurd hhead (hnone head hraw)
  | error e =>
    rw [hparse] at hsafe
    obtain ⟨other, _, rfl⟩ := hsafe
    rw [List.mem_singleton.mp (h other hparse)]

/-- A block that is no head of the grammar is refused before its fields are checked,
with 505 for its version or with 400. -/
theorem parse_headers_ill_formed (hsize : raw.length ≤ limits.max_header_bytes)
    (hnone : ∀ head : RequestHead, raw = head.encode → ¬ head.WellFormed) :
    (parse_headers raw limits = .error (.HttpParseError 505) ∧ UnsupportedVersion raw) ∨
      (parse_headers raw limits = .error (.HttpParseError 400) ∧ ¬ UnsupportedVersion raw) := by
  suffices hrefuses : (parse_headers raw limits = .error (.HttpParseError 505) ∧ UnsupportedVersion raw) ∨
      (RefusesWith [400] (parse_headers raw limits) ∧ ¬ UnsupportedVersion raw) from
    hrefuses.imp_right (And.imp_left (refused_of_refusesWith hnone))
  rw [parse_headers, if_neg (Nat.not_lt.mpr hsize)]
  by_cases hend : CRLFCRLF <:+ raw
  · rw [if_neg (not_not.mpr hend)]
    dsimp only
    cases hfind : (StringView.ofBytes raw).find CRLF with
    | none =>
      refine .inr ⟨.refuse (by simp), ?_⟩
      rintro ⟨_, stop, hstop, _⟩
      exact Option.some_ne_none stop (hstop.symm.trans hfind)
    | some stop =>
      obtain ⟨line, rest, hraw, rfl, hline, hrest, _⟩ := StringView.find_cut hfind
      rw [show line.length + CRLF.length = line.length + 2 from rfl] at hrest
      rw [unsupportedVersion_iff hend hfind hraw]
      dsimp only
      rw [hline, bind_ok]
      obtain ⟨hunknown, hshape⟩ | ⟨honly, hshape⟩ := parseRequestLine_refusal
          { off := (StringView.ofBytes raw).off, bytes := line } {}
      · exact .inl ⟨by rw [hunknown]; rfl, hshape⟩
      · refine .inr ⟨honly.bind fun started hstarted => ?_, hshape⟩
        rw [hrest, bind_ok]
        refine (parseHeaderLines_refusesWith _ _).bind fun collected hcollected => ?_
        obtain ⟨head, hencode, hhead⟩ := wellFormed_of_lines hraw hstarted hcollected
        exact absurd hhead (hnone head hencode)
  · rw [if_pos hend]
    exact .inr ⟨.refuse (by simp), fun h => hend h.1⟩

namespace RequestHead

/-- What the fields of a well-formed head are refused for, and the status of each reason. -/
inductive Refused (limits : HttpLimits) (head : RequestHead) : Nat → Prop where
  | misaddressed (haddressed : ¬ head.Addressed) : Refused limits head 400
  | ambiguous (haddressed : head.Addressed) (htransfer : head.value (ascii "transfer-encoding") ≠ [])
      (hlength : head.value (ascii "content-length") ≠ []) : Refused limits head 400
  | transfer_encoding (haddressed : head.Addressed) (htransfer : head.value (ascii "transfer-encoding") ≠ [])
      (hlength : head.value (ascii "content-length") = []) : Refused limits head 501
  | length (haddressed : head.Addressed) (htransfer : head.value (ascii "transfer-encoding") = [])
      (hlength : (head.value (ascii "content-length")).all decimal.isDigit = false ∨
        2 ^ 64 ≤ decimal.value (head.value (ascii "content-length"))) : Refused limits head 400
  | too_large (haddressed : head.Addressed) (htransfer : head.value (ascii "transfer-encoding") = [])
      (hdigits : (head.value (ascii "content-length")).all decimal.isDigit = true)
      (hrange : decimal.value (head.value (ascii "content-length")) < 2 ^ 64)
      (hlarge : limits.max_body_bytes < decimal.value (head.value (ascii "content-length"))) :
      Refused limits head 413
  | expectation (haddressed : head.Addressed) (htransfer : head.value (ascii "transfer-encoding") = [])
      (hdigits : (head.value (ascii "content-length")).all decimal.isDigit = true)
      (hlength : decimal.value (head.value (ascii "content-length")) ≤ limits.max_body_bytes)
      (hexpect : head.value (ascii "expect") ≠ []) : Refused limits head 417

/-- There is a reason to refuse every head whose fields are not acceptable. -/
theorem exists_refused (h : ¬ head.Acceptable limits) : ∃ status, head.Refused limits status := by
  by_cases haddressed : head.Addressed
  · by_cases htransfer : head.value (ascii "transfer-encoding") = []
    · by_cases hdigits : (head.value (ascii "content-length")).all decimal.isDigit = true
      · by_cases hlength : decimal.value (head.value (ascii "content-length")) ≤ limits.max_body_bytes
        · exact ⟨417, .expectation haddressed htransfer hdigits hlength
            fun hexpect => h ⟨haddressed, htransfer, hdigits, hlength, hexpect⟩⟩
        · by_cases hrange : decimal.value (head.value (ascii "content-length")) < 2 ^ 64
          · exact ⟨413, .too_large haddressed htransfer hdigits hrange (Nat.lt_of_not_le hlength)⟩
          · exact ⟨400, .length haddressed htransfer (.inr (Nat.le_of_not_lt hrange))⟩
      · exact ⟨400, .length haddressed htransfer (.inl (Bool.eq_false_of_not_eq_true hdigits))⟩
    · by_cases hlength : head.value (ascii "content-length") = []
      · exact ⟨501, .transfer_encoding haddressed htransfer hlength⟩
      · exact ⟨400, .ambiguous haddressed htransfer hlength⟩
  · exact ⟨400, .misaddressed haddressed⟩

/-- A Transfer-Encoding is not implemented (501), and beside a Content-Length it is
an attempt to smuggle (400). -/
theorem Started.checkTransferEncoding_refused (h : head.Started req)
    (htransfer : head.value (ascii "transfer-encoding") ≠ []) : checkTransferEncoding req =
      .error (.HttpParseError (if head.value (ascii "content-length") = [] then 501 else 400)) := by
  simp only [checkTransferEncoding, StringView.empty_iff, h.header_bytes]
  rw [if_neg htransfer]
  split_ifs <;> rfl

/-- A length that is no number is a 400. -/
theorem Started.readContentLength_malformed (h : head.Started req)
    (hdigits : (head.value (ascii "content-length")).all decimal.isDigit = false) :
    readContentLength req limits = .error (.HttpParseError 400) := by
  have hne : head.value (ascii "content-length") ≠ [] := by
    intro hnil
    rw [hnil] at hdigits
    cases hdigits
  rw [readContentLength, h.header_bytes]
  dsimp only
  rw [if_neg hne, if_neg (by rw [hdigits]; exact Bool.false_ne_true)]

/-- A length above the limit is a 413, but one that does not fit into 64 bits has
failed to parse before that (400). -/
theorem Started.readContentLength_large (h : head.Started req)
    (hdigits : (head.value (ascii "content-length")).all decimal.isDigit = true)
    (hlarge : limits.max_body_bytes < decimal.value (head.value (ascii "content-length"))) :
    readContentLength req limits = .error (.HttpParseError
      (if decimal.value (head.value (ascii "content-length")) < 2 ^ 64 then 413 else 400)) := by
  have hne : head.value (ascii "content-length") ≠ [] := by
    intro hnil
    rw [hnil] at hlarge
    exact absurd hlarge (Nat.not_lt.mpr (Nat.zero_le _))
  rw [readContentLength, h.header_bytes]
  dsimp only
  rw [if_neg hne, if_pos hdigits, from_chars_digits hdigits hne]
  by_cases hrange : decimal.value (head.value (ascii "content-length")) < 2 ^ 64
  · rw [if_pos hrange, if_pos hrange]
    dsimp only
    rw [if_neg (by simp), if_pos hlarge]
  · rw [if_neg hrange, if_neg hrange]
    dsimp only
    rw [if_pos (.inl (by simp))]

/-- Every reason is reported with its status. The checks come in the order of the
reasons, each of which supposes that those before it have passed. -/
theorem Started.refused (h : head.Started req) {status : Nat} (hrefused : head.Refused limits status) :
    finishHeaders req limits = .error (.HttpParseError status) := by
  have hcoding : head.value (ascii "transfer-encoding") = [] → checkTransferEncoding req = .ok () := by
    rw [checkTransferEncoding_ok_iff, h.header_bytes]
    exact id
  have hreadable : (head.value (ascii "content-length")).all decimal.isDigit = true ∧
      decimal.value (head.value (ascii "content-length")) ≤ limits.max_body_bytes →
        ∃ length, readContentLength req limits = .ok length := by
    rw [readContentLength_ok_iff, h.header_bytes]
    exact id
  have hexpected := h.header_bytes (ascii "expect")
  rw [finishHeaders]
  cases hrefused with
  | misaddressed haddressed =>
    rw [← h.addressed_iff, checkHost] at haddressed
    rw [checkHost]
    split_ifs at haddressed ⊢
    · rfl
    · exact absurd rfl haddressed
    · rfl
  | ambiguous haddressed htransfer hlength =>
    rw [h.addressed_iff.mpr haddressed, bind_ok, h.checkTransferEncoding_refused htransfer, if_neg hlength]
    rfl
  | transfer_encoding haddressed htransfer hlength =>
    rw [h.addressed_iff.mpr haddressed, bind_ok, h.checkTransferEncoding_refused htransfer, if_pos hlength]
    rfl
  | length haddressed htransfer hlength =>
    rw [h.addressed_iff.mpr haddressed, bind_ok, hcoding htransfer, bind_ok]
    cases hdigits : (head.value (ascii "content-length")).all decimal.isDigit with
    | false =>
      rw [h.readContentLength_malformed hdigits]
      rfl
    | true =>
      have hrange := hlength.resolve_left (by rw [hdigits]; exact Bool.false_ne_true.symm)
      rw [h.readContentLength_large hdigits (limits.representable.2.1.trans_le hrange),
        if_neg (Nat.not_lt.mpr hrange)]
      rfl
  | too_large haddressed htransfer hdigits hrange hlarge =>
    rw [h.addressed_iff.mpr haddressed, bind_ok, hcoding htransfer, bind_ok,
      h.readContentLength_large hdigits hlarge, if_pos hrange]
    rfl
  | expectation haddressed htransfer hdigits hlength hexpect =>
    obtain ⟨length, hread⟩ := hreadable ⟨hdigits, hlength⟩
    have hpresent : ¬ (req.header (ascii "expect")).empty = true := by
      rwa [StringView.empty_iff, hexpected]
    rw [h.addressed_iff.mpr haddressed, bind_ok, hcoding htransfer, bind_ok, hread, bind_ok, checkExpect,
      if_neg hpresent]
    rfl

/-- Each reason among the fields gives its status. The reasons are tried in the
order of the source, so that each is met only where the ones before it have
passed. -/
theorem WellFormed.refused (h : head.WellFormed) (hsize : head.encode.length ≤ limits.max_header_bytes)
    {status : Nat} (hrefused : head.Refused limits status) :
    parse_headers head.encode limits = .error (.HttpParseError status) := by
  obtain ⟨req, hstarted, hparse⟩ | ⟨hparse, hrepeats⟩ := h.parse_headers_eq hsize
  · exact hparse.trans (hstarted.refused hrefused)
  · have haddressed : ¬ head.Addressed := fun h => absurd hrepeats (not_repeatsFraming_iff.mpr h.once)
    rw [hparse]
    cases hrefused <;> first | rfl | exact absurd ‹head.Addressed› haddressed

end RequestHead

/-- What a block is refused for, and the status of each reason. -/
inductive Refused (limits : HttpLimits) (raw : Bytes) : Nat → Prop where
  | too_long (hsize : limits.max_header_bytes < raw.length) : Refused limits raw 431
  | version (hsize : raw.length ≤ limits.max_header_bytes) (hversion : UnsupportedVersion raw) :
      Refused limits raw 505
  | ill_formed (hsize : raw.length ≤ limits.max_header_bytes) (hversion : ¬ UnsupportedVersion raw)
      (hnone : ∀ head : RequestHead, raw = head.encode → ¬ head.WellFormed) : Refused limits raw 400
  | fields {status : Nat} (hsize : raw.length ≤ limits.max_header_bytes) (head : RequestHead)
      (hraw : raw = head.encode) (hhead : head.WellFormed) (hrefused : head.Refused limits status) :
      Refused limits raw status

/-- Every reason for a refusal is one: the parser gives its status. -/
theorem Refused.refuses {status : Nat} (h : Refused limits raw status) :
    parse_headers raw limits = .error (.HttpParseError status) := by
  cases h with
  | too_long hsize => rw [parse_headers, if_pos hsize]
  | version hsize hversion =>
    have hnone : ∀ head : RequestHead, raw = head.encode → ¬ head.WellFormed := by
      rintro head rfl hhead
      exact hhead.supported hversion
    exact ((parse_headers_ill_formed hsize hnone).resolve_right fun h => h.2 hversion).1
  | ill_formed hsize hversion hnone =>
    exact ((parse_headers_ill_formed hsize hnone).resolve_left fun h => hversion h.2).1
  | fields hsize head hraw hhead hrefused =>
    subst hraw
    exact hhead.refused hsize hrefused

/-- Every block that is not accepted is refused with the status of a reason, and no block has
reasons with different statuses: the status with which the parser answers is that of the reason. -/
theorem parse_headers_refuses_iff (raw : Bytes) (limits : HttpLimits) (status : Nat) :
    parse_headers raw limits = .error (.HttpParseError status) ↔ Refused limits raw status := by
  refine ⟨fun hparse => ?_, Refused.refuses⟩
  obtain ⟨other, hrefused⟩ : ∃ other, Refused limits raw other := by
    by_cases hsize : raw.length ≤ limits.max_header_bytes
    · by_cases hnone : ∀ head : RequestHead, raw = head.encode → ¬ head.WellFormed
      · by_cases hversion : UnsupportedVersion raw
        · exact ⟨505, .version hsize hversion⟩
        · exact ⟨400, .ill_formed hsize hversion hnone⟩
      · push Not at hnone
        obtain ⟨head, hraw, hhead⟩ := hnone
        have hfields : ¬ head.Acceptable limits := by
          subst hraw
          rw [← hhead.accepted_iff hsize, hparse]
          rintro ⟨_, hok⟩
          cases hok
        obtain ⟨other, hrefused⟩ := RequestHead.exists_refused hfields
        exact ⟨other, .fields hsize head hraw hhead hrefused⟩
    · exact ⟨431, .too_long (Nat.lt_of_not_le hsize)⟩
  have hsame := hparse.symm.trans hrefused.refuses
  cases hsame
  exact hrefused

end octane.HttpParser
