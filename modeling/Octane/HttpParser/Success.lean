import Octane.HttpParser.Framing
import Octane.HttpParser.Pairs
import Octane.HttpParser.Safety

open search

namespace octane.HttpParser

/-- The loop passes over a target of allowed bytes whose escapes are complete. An
escape is passed byte by byte: its digits are allowed bytes too. -/
theorem checkTarget_success {full_path : StringView} {i : Nat}
    (hbytes : ∀ c ∈ full_path.bytes.drop i, targetByte c)
    (hescapes : EscapesComplete (full_path.bytes.drop i)) : checkTarget full_path i = .ok () := by
  induction hsize : full_path.bytes.length - i generalizing i with
  | zero => rw [checkTarget, if_neg (by rw [StringView.size]; omega)]
  | succ n ih =>
    have hi : i < full_path.bytes.length := by omega
    rw [List.drop_eq_getElem_cons hi] at hbytes hescapes
    obtain ⟨⟨hlow, hhigh, hsharp⟩, hrest⟩ := List.forall_mem_cons.mp hbytes
    have hlater : EscapesComplete (full_path.bytes.drop (i + 1)) := fun before after hsplit =>
      hescapes (full_path.bytes[i] :: before) after (congrArg (full_path.bytes[i] :: ·) hsplit)
    have hnext := ih hrest hlater (by omega)
    have hallowed : ¬ (full_path.bytes[i] ≤ 32 ∨ 127 ≤ full_path.bytes[i] ∨ full_path.bytes[i] = 35) := by
      rw [not_or, not_or]
      simp only [UInt8.le_iff_toNat_le, UInt8.reduceToNat] at hlow hhigh ⊢
      exact ⟨by omega, by omega, hsharp⟩
    rw [checkTarget, if_pos (show i < full_path.size from hi), StringView.index_of_lt hi, bind_ok,
      if_neg hallowed]
    by_cases hpercent : full_path.bytes[i] = 37
    · obtain ⟨first, second, rest, hdrop, hfirst, hsecond⟩ :=
        hescapes [] (full_path.bytes.drop (i + 1)) (congrArg (· :: full_path.bytes.drop (i + 1)) hpercent)
      have hroom : i + 2 < full_path.bytes.length := by
        have hlength := congrArg List.length hdrop
        simp only [List.length_drop, List.length_cons] at hlength
        omega
      rw [List.drop_eq_getElem_cons (by omega), List.drop_eq_getElem_cons hroom, List.cons.injEq,
        List.cons.injEq] at hdrop
      obtain ⟨rfl, rfl, _⟩ := hdrop
      rw [if_pos hpercent, if_neg (by rw [StringView.size]; omega), StringView.index_of_lt (by omega),
        bind_ok, if_neg (Int.not_lt.mpr (hex_nonneg_iff.mpr hfirst)), StringView.index_of_lt hroom, bind_ok,
        if_neg (Int.not_lt.mpr (hex_nonneg_iff.mpr hsecond)), hnext]
    · rw [if_neg hpercent, hnext]

/-- A path, or `*` for OPTIONS, is a form that passes. -/
theorem checkForm_success {full_path : StringView} {method : HttpMethod}
    (h : (∃ rest, full_path.bytes = 47 :: rest) ∨ (full_path.bytes = ascii "*" ∧ method = .OPTIONS)) :
    checkForm full_path method = .ok () := by
  rcases h with ⟨rest, horigin⟩ | hstar
  · have hfront : full_path.front = .ok 47 := by simp [StringView.front, StringView.index, horigin]
    rw [checkForm, if_neg (by simp [StringView.empty, horigin]), hfront, bind_ok, if_neg (by simp)]
  · have hbytes : full_path.bytes = [42] := hstar.1
    have hfront : full_path.front = .ok 42 := by simp [StringView.front, StringView.index, hbytes]
    rw [checkForm, if_neg (by simp [StringView.empty, hbytes]), hfront, bind_ok,
      if_neg fun hneither => hneither.2 hstar]

/-- The path is what stands before the first question mark, the query what stands
behind it; a later one belongs to the query. -/
theorem splitTarget_success (full_path : StringView) (req : HttpRequest) :
    ∃ path query, splitTarget full_path req = .ok { req with path, query } ∧
      path.bytes = full_path.bytes.takeWhile (· ≠ 63) ∧
      ∀ key, query.bytesOf key =
        (Pattern.valueOf (queryPairs full_path.bytes) key).or (req.query.bytesOf key) := by
  have hsign : ascii "?" = [63] := by decide
  rw [splitTarget, hsign]
  cases hquestion : full_path.find [63] with
  | none =>
    have hall : ∀ c ∈ full_path.bytes, decide (c ≠ 63) = true := fun c hc =>
      decide_eq_true fun heq => findSub_singleton_eq_none_iff.mp hquestion (heq ▸ hc)
    refine ⟨full_path, req.query, rfl, (List.takeWhile_eq_self_iff.mpr hall).symm, fun key => ?_⟩
    rw [queryPairs, List.dropWhile_eq_nil_iff.mpr hall]
    rfl
  | some qpos =>
    obtain ⟨before, after, hbytes, hnot, _, hpath, hquery, _⟩ := StringView.find_char_cut hquestion
    obtain ⟨query, hok, hkeys⟩ := parseQueryString_eq { off := full_path.off + (qpos + 1), bytes := after } req.query
    have hbefore : ∀ c ∈ before, decide (c ≠ 63) = true := fun c hc =>
      decide_eq_true fun heq => hnot (heq ▸ hc)
    refine ⟨{ off := full_path.off, bytes := before }, query, ?_, ?_, fun key => ?_⟩
    · dsimp only
      rw [hpath, bind_ok, hquery, bind_ok, hok, bind_ok]
    · rw [hbytes, List.takeWhile_append_of_pos hbefore, List.takeWhile_cons_of_neg (by decide), List.append_nil]
    · rw [queryPairs, hbytes, List.dropWhile_append_of_pos hbefore, List.dropWhile_cons_of_neg (by decide)]
      exact hkeys key

/-- A request line of the grammar is accepted. -/
theorem parseRequestLine_success {line : StringView} {method target version : Bytes}
    (hline : line.bytes = method ++ 32 :: (target ++ 32 :: version)) (hmethod : token method = true)
    (htarget : ValidTarget (toMethod method) target)
    (hversion : version = ascii "HTTP/1.1" ∨ version = ascii "HTTP/1.0") (req : HttpRequest) :
    ∃ path http_version query,
      parseRequestLine line req =
        .ok { req with method := toMethod method, path, http_version, query } ∧
      path.bytes = target.takeWhile (· ≠ 63) ∧ http_version.bytes = version ∧
      ∀ key, query.bytesOf key = (Pattern.valueOf (queryPairs target) key).or (req.query.bytesOf key) := by
  obtain ⟨hfind, hfirst, _, hremove⟩ := StringView.cut_char hline (not_mem_of_token hmethod (by decide))
  have hspace : (32 : UInt8) ∉ target := fun hmem => absurd (htarget.bytes 32 hmem).1 (by decide)
  obtain ⟨hfind', hpart, hrest, _⟩ := StringView.cut_char
    (v := { off := line.off + (method.length + 1), bytes := target ++ 32 :: version }) rfl hspace
  obtain ⟨path, query, hsplit, hpath, hquery⟩ := splitTarget_success
    { off := line.off + (method.length + 1), bytes := target }
    { req with
      method := toMethod method
      http_version := { off := line.off + (method.length + 1) + (target.length + 1), bytes := version } }
  have hcheck : checkTarget { off := line.off + (method.length + 1), bytes := target } 0 = .ok () :=
    checkTarget_success htarget.bytes htarget.escapes
  refine ⟨path, { off := line.off + (method.length + 1) + (target.length + 1), bytes := version }, query, ?_,
    hpath, rfl, hquery⟩
  rw [parseRequestLine, ascii_space, hfind]
  dsimp only
  rw [hfirst, bind_ok, if_pos hmethod, hremove, bind_ok, parseTarget, ascii_space, hfind']
  dsimp only
  rw [hpart, bind_ok, hrest, bind_ok, if_neg fun hneither => hversion.elim hneither.1 hneither.2,
    checkForm_success htarget.form, bind_ok, hcheck, bind_ok, hsplit]

/-- Trimming only leaves bytes out. -/
theorem trimmed_sublist (s : Bytes) : (trimmed s).Sublist s :=
  (List.rdropWhile_prefix _ _).sublist.trans (List.dropWhile_sublist _)

/-- A name that no field line has had is absent from the map. -/
theorem Collected.find_none {fields : List Field} {headers : HeaderMap} (h : Collected fields headers)
    {key : StringView} (hfresh : ∀ field ∈ fields, CaseInsensitiveEqual field.1 key.bytes = false) :
    headers.find HeaderMap.keyEq key = none := by
  have hfirst : firstField fields key.bytes = none := by simpa [firstField] using hfresh
  have hlookup := h.lookup key.bytes
  have hsame : HeaderMap.keyEq key (.ofBytes key.bytes) = true := CaseInsensitiveEqual_refl key.bytes
  rw [hfirst, UnorderedMap.get, ← HeaderMap.keyEq_lawful.find_congr hsame] at hlookup
  simpa using hlookup

/-- A name that may not be repeated is given again. -/
def RepeatsFraming (fields : List Field) : Prop :=
  ∃ name ∈ framingNames, 1 < (fields.filter fun field => CaseInsensitiveEqual field.1 name).length

/-- No framing name is repeated exactly where each of them has one field at most. -/
theorem not_repeatsFraming_iff {fields : List Field} : ¬ RepeatsFraming fields ↔
    ∀ name ∈ framingNames, (fields.filter fun field => CaseInsensitiveEqual field.1 name).length ≤ 1 := by
  simp only [RepeatsFraming, not_exists, not_and, Nat.not_lt]

/-- A name that is repeated stays so, whatever follows. -/
theorem RepeatsFraming.append {fields : List Field} (h : RepeatsFraming fields) (later : List Field) :
    RepeatsFraming (fields ++ later) := by
  obtain ⟨name, hname, hmany⟩ := h
  refine ⟨name, hname, ?_⟩
  rw [List.filter_append, List.length_append]
  omega

/-- A framing name that the map has is repeated by a field of that name. -/
theorem Collected.repeatsFraming {fields : List Field} {headers : HeaderMap} (h : Collected fields headers)
    {field : Field} {name : Bytes} (hname : name ∈ framingNames)
    (hmatch : CaseInsensitiveEqual field.1 name = true) {key : StringView} (hkey : key.bytes = field.1)
    (hfound : headers.find HeaderMap.keyEq key ≠ none) : RepeatsFraming (fields ++ [field]) := by
  obtain ⟨other, hother, hequal⟩ : ∃ other ∈ fields, CaseInsensitiveEqual other.1 field.1 = true := by
    by_contra hnone
    refine hfound (h.find_none fun other hother => ?_)
    rw [hkey]
    exact Bool.eq_false_of_not_eq_true fun hequal => hnone ⟨other, hother, hequal⟩
  have hbefore : other ∈ fields.filter fun field => CaseInsensitiveEqual field.1 name :=
    List.mem_filter.mpr ⟨hother, CaseInsensitiveEqual_trans hequal hmatch⟩
  have hagain : [field].filter (fun field => CaseInsensitiveEqual field.1 name) = [field] :=
    List.filter_eq_self.mpr fun _ hmem => by rw [List.mem_singleton.mp hmem, hmatch]
  have hpositive := List.length_pos_of_mem hbefore
  refine ⟨name, hname, ?_⟩
  rw [List.filter_append, hagain, List.length_append, List.length_singleton]
  omega

/-- A valid field line is stored, or repeats a name that may not be repeated; a name
that may be is left with its first value. -/
theorem parseHeaderLine_valid {line : StringView} {field : Field} (hline : line.bytes = fieldLine field)
    (hvalid : ValidField field) {done : List Field} {req : HttpRequest} (hdone : Collected done req.headers) :
    (∃ headers, parseHeaderLine line req = .ok { req with headers } ∧ Collected (done ++ [field]) headers) ∨
      (parseHeaderLine line req = .error (.HttpParseError 400) ∧ RepeatsFraming (done ++ [field])) := by
  obtain ⟨hfind, hkey, hrest, _⟩ := StringView.cut_char hline (not_mem_of_token hvalid.name (by decide))
  have hvalue : (trim { off := line.off + (field.1.length + 1), bytes := field.2 }).bytes.all valueChar = true := by
    rw [trim_bytes, List.all_eq_true]
    exact fun c hc => List.all_eq_true.mp hvalid.value c ((trimmed_sublist _).subset hc)
  by_cases hrepeated : (∃ name ∈ framingNames, CaseInsensitiveEqual field.1 name = true) ∧
      req.headers.find HeaderMap.keyEq { off := line.off, bytes := field.1 } ≠ none
  · obtain ⟨⟨name, hname, hmatch⟩, hfound⟩ := hrepeated
    refine .inr ⟨?_, hdone.repeatsFraming hname hmatch rfl hfound⟩
    have hkept : (req.headers.try_emplace HeaderMap.keyEq { off := line.off, bytes := field.1 }
        (trim { off := line.off + (field.1.length + 1), bytes := field.2 })).2 = false :=
      Bool.eq_false_of_not_eq_true fun hinserted => hfound ((UnorderedMap.try_emplace_inserted _ _ _).mp hinserted)
    have hframing : framingNames.any (CaseInsensitiveEqual field.1) = true :=
      List.any_eq_true.mpr ⟨name, hname, hmatch⟩
    rw [parseHeaderLine, ascii_colon, hfind]
    dsimp only
    rw [hkey, bind_ok, if_pos hvalid.name, hrest, bind_ok]
    dsimp only
    rw [if_pos hvalue, hkept, framingNames_any, hframing, if_pos (by rfl)]
  · refine .inl ⟨(req.headers.try_emplace HeaderMap.keyEq { off := line.off, bytes := field.1 }
      (trim { off := line.off + (field.1.length + 1), bytes := field.2 })).1, ?_,
      hdone.add rfl (trim_bytes _) fun name hname hmatch => ?_⟩
    · rw [parseHeaderLine, ascii_colon, hfind]
      dsimp only
      rw [hkey, bind_ok, if_pos hvalid.name, hrest, bind_ok]
      dsimp only
      rw [if_pos hvalue, framingNames_any, if_neg]
      simp only [Bool.and_eq_true, Bool.not_eq_true', List.any_eq_true]
      rintro ⟨hkept, hframing⟩
      refine hrepeated ⟨hframing, fun hnone => ?_⟩
      rw [(UnorderedMap.try_emplace_inserted _ _ _).mpr hnone] at hkept
      cases hkept
    · by_contra hfound
      exact hrepeated ⟨⟨name, hname, hmatch⟩, hfound⟩

/-- A block of valid field lines is read to its end, or to a name that may not be
repeated. By induction on the lines, with those read before as a prefix. -/
theorem parseHeaderLines_valid {head : StringView} {req : HttpRequest} {done fields : List Field}
    (hhead : head.bytes = fields.flatMap (fun field => fieldLine field ++ CRLF) ++ CRLF)
    (hvalid : ∀ field ∈ fields, ValidField field) (hdone : Collected done req.headers) :
    (∃ headers, parseHeaderLines head req = .ok { req with headers } ∧ Collected (done ++ fields) headers) ∨
      (parseHeaderLines head req = .error (.HttpParseError 400) ∧ RepeatsFraming (done ++ fields)) := by
  induction fields generalizing head req done with
  | nil =>
    refine .inl ⟨req.headers, ?_, by simpa using hdone⟩
    rw [parseHeaderLines_unrolled, if_pos (by simpa using hhead)]
  | cons field fields ih =>
    obtain ⟨hfield, hlater⟩ := List.forall_mem_cons.mp hvalid
    have hreturn : (13 : UInt8) ∉ fieldLine field := by
      have hname := not_mem_of_token hfield.name (c := 13) (by decide)
      have hvalue : (13 : UInt8) ∉ field.2 := fun hmem =>
        absurd (List.all_eq_true.mp hfield.value 13 hmem) (by decide)
      simp [fieldLine, hname, hvalue]
    have hcut : head.bytes = fieldLine field ++
        (CRLF ++ (fields.flatMap (fun field => fieldLine field ++ CRLF) ++ CRLF)) := by
      rw [hhead, List.flatMap_cons, List.append_assoc, List.append_assoc]
    obtain ⟨hfind, hline, _, hremove⟩ := StringView.cut_of_not_mem hcut hreturn
    have hmore : head.bytes ≠ CRLF := by
      rw [hcut]
      intro hend
      have hlength := congrArg List.length hend
      simp only [fieldLine, List.length_append, List.length_cons, List.length_nil] at hlength
      omega
    have hfirst : ({ off := head.off, bytes := fieldLine field } : StringView).bytes = fieldLine field := rfl
    have htail : ({ off := head.off + ((fieldLine field).length + CRLF.length)
                    bytes := fields.flatMap (fun field => fieldLine field ++ CRLF) ++ CRLF } : StringView).bytes =
        fields.flatMap (fun field => fieldLine field ++ CRLF) ++ CRLF := rfl
    rw [List.append_cons, parseHeaderLines_unrolled, if_neg hmore, hfind, Option.elim_some, hline, bind_ok,
      show (fieldLine field).length + 2 = (fieldLine field).length + CRLF.length from rfl, hremove]
    obtain ⟨headers, hstored, hadd⟩ | ⟨hrefused, hrepeats⟩ := parseHeaderLine_valid hfirst hfield hdone
    · rw [hstored, bind_ok, bind_ok]
      have hnext : Collected (done ++ [field]) ({ req with headers } : HttpRequest).headers := hadd
      exact ih htail hlater hnext
    · rw [hrefused]
      exact .inr ⟨rfl, hrepeats.append fields⟩

/-- The names of a list of fields differ, whatever their letter case. -/
def DistinctNames (fields : List Field) : Prop :=
  fields.Pairwise fun a b => CaseInsensitiveEqual a.1 b.1 = false

/-- Names that are all distinct repeat none. -/
theorem DistinctNames.not_repeatsFraming {fields : List Field} (h : DistinctNames fields) :
    ¬ RepeatsFraming fields := by
  rintro ⟨name, _, hmany⟩
  have hnamed : DistinctNames (fields.filter fun field => CaseInsensitiveEqual field.1 name) :=
    List.Pairwise.filter _ h
  have hmem : ∀ field ∈ fields.filter fun field => CaseInsensitiveEqual field.1 name,
      CaseInsensitiveEqual field.1 name = true := fun _ hfield => (List.mem_filter.mp hfield).2
  match hshape : fields.filter fun field => CaseInsensitiveEqual field.1 name with
  | [] | [_] => simp [hshape] at hmany
  | first :: second :: rest =>
    rw [hshape] at hnamed hmem
    have hdiffer := List.rel_of_pairwise_cons hnamed (List.mem_cons_self ..)
    have hsecond := hmem second (List.mem_cons_of_mem _ (List.mem_cons_self ..))
    rw [CaseInsensitiveEqual_trans (hmem first (List.mem_cons_self ..)) (CaseInsensitiveEqual_symm hsecond)]
      at hdiffer
    cases hdiffer

/-- Digits within the limit are read to their value. -/
theorem readContentLength_success {req : HttpRequest} {limits : HttpLimits} {length : Bytes}
    (hbytes : (req.header (ascii "content-length")).bytes = length) (hdigits : length.all decimal.isDigit = true)
    (hlimit : decimal.value length ≤ limits.max_body_bytes) :
    readContentLength req limits = .ok (decimal.value length) := by
  have hrange : decimal.value length < 2 ^ 64 := hlimit.trans_lt limits.representable.2.1
  rw [readContentLength, hbytes]
  by_cases hnil : length = []
  · rw [if_pos hnil, hnil]
    rfl
  · dsimp only
    rw [if_neg hnil, if_pos hdigits, from_chars_digits hdigits hnil, if_pos hrange]
    dsimp only
    rw [if_neg (by simp), if_neg (Nat.not_lt.mpr hlimit)]

/-- The checks behind the field lines pass on a request that meets each of them; they
are independent of one another and leave the maps as they are. -/
theorem finishHeaders_success {req : HttpRequest} {limits : HttpLimits} {length : Bytes}
    (hhost : req.http_version.bytes = ascii "HTTP/1.1" → (req.header (ascii "host")).bytes ≠ [])
    (hchars : (req.header (ascii "host")).bytes.all hostChar = true)
    (htransfer : (req.header (ascii "transfer-encoding")).bytes = [])
    (hexpect : (req.header (ascii "expect")).bytes = [])
    (hlength : (req.header (ascii "content-length")).bytes = length)
    (hdigits : length.all decimal.isDigit = true) (hlimit : decimal.value length ≤ limits.max_body_bytes) :
    ∃ keep_alive content_type cookies, finishHeaders req limits =
      .ok { req with content_length := decimal.value length, keep_alive, content_type, cookies } := by
  have hpresent : ¬ (req.http_version.bytes = ascii "HTTP/1.1" ∧ (req.header (ascii "host")).empty = true) :=
    fun hmissing => hhost hmissing.1 (StringView.empty_iff.mp hmissing.2)
  obtain ⟨keep_alive, hkeep⟩ : ∃ keep_alive, readKeepAlive req = .ok keep_alive := by
    obtain ⟨keep, hkeep⟩ := contains_token_total (req.header (ascii "connection")) (ascii "keep-alive")
    obtain ⟨close, hclose⟩ := contains_token_total (req.header (ascii "connection")) (ascii "close")
    rw [readKeepAlive, hkeep, bind_ok, hclose, bind_ok]
    exact ⟨_, rfl⟩
  obtain ⟨cookies, hcookies⟩ : ∃ cookies, readCookies req = .ok cookies := by
    rw [readCookies]
    split
    · exact ⟨_, rfl⟩
    · obtain ⟨cookies, hok, _⟩ := parseCookies_total (req.header (ascii "cookie")) req.cookies
      exact ⟨cookies, hok⟩
  refine ⟨keep_alive, readContentType req, cookies, ?_⟩
  rw [finishHeaders, checkHost, if_neg hpresent, if_pos hchars, bind_ok, checkTransferEncoding,
    if_pos (StringView.empty_iff.mpr htransfer), bind_ok, readContentLength_success hlength hdigits hlimit,
    bind_ok, checkExpect, if_pos (StringView.empty_iff.mpr hexpect), bind_ok, hkeep, bind_ok, hcookies, bind_ok]

end octane.HttpParser
