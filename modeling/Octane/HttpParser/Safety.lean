import Octane.HttpParser.RequestLine

open search

namespace octane.HttpParser

/-- Trimming at the front stays within the view. -/
theorem trimFront_part (off : Nat) (s : Bytes) : (trimFront off s).Part { off, bytes := s } := by
  induction s generalizing off with
  | nil => exact ⟨0, rfl, List.prefix_rfl⟩
  | cons c rest ih =>
    rw [trimFront]
    split
    · obtain ⟨k, hoff, hprefix⟩ := ih (off + 1)
      exact ⟨k + 1, by simpa [Nat.add_assoc, Nat.add_comm 1 k] using hoff, hprefix⟩
    · exact ⟨0, rfl, List.prefix_rfl⟩

/-- A trimmed view is a part of the view. -/
theorem trim_part (s : StringView) : (trim s).Part s := by
  obtain ⟨k, hoff, hprefix⟩ := trimFront_part s.off s.bytes
  exact ⟨k, hoff, (List.rdropWhile_prefix _ _).trans hprefix⟩

/-- The search of a list for an element returns on every input. -/
theorem contains_token_total (values : StringView) (expected : Bytes) :
    ∃ found, contains_token values expected = .ok found := by
  induction hsize : values.size using Nat.strongRecOn generalizing values with
  | ind n ih =>
    rw [contains_token_unrolled]
    split
    · exact ⟨_, rfl⟩
    · rw [StringView.substr_of_le (Nat.zero_le _), bind_ok]
      split
      · exact ⟨_, rfl⟩
      · cases hcomma : values.find (ascii ",") with
        | none => exact ⟨_, rfl⟩
        | some i =>
          obtain ⟨after, hremove, _, hless⟩ := StringView.find_rest hcomma (by decide)
          rw [show (ascii ",").length = 1 from rfl] at hremove
          rw [Option.elim_some, hremove, bind_ok]
          exact ih _ (hsize ▸ hless) _ rfl

/-- Every key and value of the map was cut from one view. -/
def CutFrom (top : StringView) (map : UnorderedMap StringView StringView) : Prop :=
  ∀ entry ∈ map.entries, entry.1.Part top ∧ entry.2.Part top

theorem CutFrom.empty (top : StringView) : CutFrom top {} := by
  intro entry h
  cases h

/-- Views that are cut from the head stay so when another one is stored. -/
theorem CutFrom.assign {top key value : StringView} {map : StringMap} (h : CutFrom top map)
    (hkey : key.Part top) (hvalue : value.Part top) :
    CutFrom top (map.assign StringMap.keyEq key value) := by
  intro entry hentry
  obtain hold | rfl | ⟨old, hold, rfl⟩ := UnorderedMap.mem_assign hentry
  · exact h entry hold
  · exact ⟨hkey, hvalue⟩
  · exact ⟨(h old hold).1, hvalue⟩

/-- Storing a pair always returns, with views that are cut from the one it was given. -/
theorem storePair_total {clean : StringView → StringView} (hclean : ∀ v, (clean v).Part v)
    (pair : StringView) (map : StringMap) :
    ∃ after, storePair clean pair map = .ok after ∧
      ∀ top, pair.Part top → CutFrom top map → CutFrom top after := by
  rw [storePair]
  split
  · exact ⟨map, rfl, fun top _ h => h⟩
  · next eq heq =>
    obtain ⟨_, _, _, _, hkey, hvalue, _⟩ := StringView.find_cut heq
    rw [show (ascii "=").length = 1 from rfl] at hvalue
    refine ⟨_, by rw [hkey, bind_ok, hvalue, bind_ok], fun top hpair h => ?_⟩
    exact h.assign ((hclean _).trans ((StringView.Part.of_substr hkey).trans hpair))
      ((hclean _).trans ((StringView.Part.of_substr hvalue).trans hpair))

/-- Both pair parsers return on every input, and what they store was cut from it. The
measure is what is left of the text. -/
theorem parsePairs_total {sep : UInt8} {clean : StringView → StringView}
    (hclean : ∀ v, (clean v).Part v) (raw : StringView) (map : StringMap) :
    ∃ after, parsePairs [sep] clean raw map = .ok after ∧
      ∀ top, raw.Part top → CutFrom top map → CutFrom top after := by
  induction hsize : raw.size using Nat.strongRecOn generalizing raw map with
  | ind n ih =>
    rw [parsePairs_unrolled]
    split
    · exact ⟨map, rfl, fun top _ h => h⟩
    · cases hcut : raw.find [sep] with
      | none =>
        obtain ⟨stored, hok, hparts⟩ := storePair_total hclean raw map
        rw [Option.elim_none, bind_ok, hok, bind_ok, Option.elim_none]
        exact ⟨stored, rfl, hparts⟩
      | some i =>
        obtain ⟨first, _, _, _, hfirst, _, _⟩ := StringView.find_cut hcut
        obtain ⟨rest, hremove, hrest, hless⟩ := StringView.find_rest hcut (by simp)
        obtain ⟨stored, hok, hparts⟩ := storePair_total hclean { off := raw.off, bytes := first } map
        obtain ⟨after, hafter, hlater⟩ := ih _ (hsize ▸ hless) rest stored rfl
        rw [List.length_singleton] at hremove
        rw [Option.elim_some, hfirst, bind_ok, hok, bind_ok, Option.elim_some, hremove, bind_ok]
        exact ⟨after, hafter, fun top hraw h =>
          hlater top (hrest.trans hraw) (hparts top ((StringView.Part.of_substr hfirst).trans hraw) h)⟩

/-- Parsing a query never fails, and stores only parts of it. -/
theorem parseQueryString_total (qs : StringView) (query : StringMap) :
    ∃ after, parseQueryString qs query = .ok after ∧
      ∀ top, qs.Part top → CutFrom top query → CutFrom top after :=
  parsePairs_total StringView.Part.refl qs query

/-- Parsing cookies never fails, and stores only parts of the field. -/
theorem parseCookies_total (raw : StringView) (cookies : StringMap) :
    ∃ after, parseCookies raw cookies = .ok after ∧
      ∀ top, raw.Part top → CutFrom top cookies → CutFrom top after :=
  parsePairs_total trim_part raw cookies

/-- The statuses a request can be refused with. -/
def parseFailures : List Nat := [400, 413, 417, 431, 501, 505]

/-- The computation returns a value with the property, or refuses the request;
it never reads or cuts outside a string. -/
def Safe {A : Type} (x : Result A) (post : A → Prop) : Prop :=
  match x with
  | .ok a => post a
  | .error e => ∃ status ∈ parseFailures, e = .HttpParseError status

/-- A step that is known to return is safe where its result is. -/
theorem Safe.of_eq {A : Type} {x : Result A} {post : A → Prop} {a : A} (h : x = .ok a) (ha : post a) :
    Safe x post := by
  rw [h]
  exact ha

/-- A refusal is safe where its status is one that the parser may give. -/
theorem Safe.refuse {A : Type} {post : A → Prop} {status : Nat} (h : status ∈ parseFailures) :
    Safe (.error (.HttpParseError status) : Result A) post := ⟨status, h, rfl⟩

/-- Safe steps one after the other: every parser below is put together with this rule. -/
theorem Safe.bind {A B : Type} {x : Result A} {f : A → Result B} {mid : A → Prop} {post : B → Prop}
    (hx : Safe x mid) (hf : ∀ a, mid a → Safe (f a) post) : Safe (x >>= f) post := by
  cases x with
  | error e => exact hx
  | ok a => exact hf a hx

theorem index_safe {v : StringView} {i : Nat} (h : i < v.size) : Safe (v.index i) fun _ => True :=
  .of_eq (StringView.index_of_lt h) trivial

/-- The loop over the target reads no byte outside it, also behind a `%` at its end,
where the source tests the length before it looks at two more bytes. -/
theorem checkTarget_safe (full_path : StringView) (i : Nat) :
    Safe (checkTarget full_path i) fun _ => True := by
  induction hsize : full_path.size - i using Nat.strongRecOn generalizing i with
  | ind n ih =>
    rw [checkTarget]
    split
    · next hi =>
      have hnext : full_path.size - (i + 1) < n := by omega
      refine (index_safe hi).bind fun c _ => ?_
      split
      · exact .refuse (by decide)
      · split
        · split
          · exact .refuse (by decide)
          · next hroom =>
            refine (index_safe (by omega)).bind fun first _ => ?_
            split
            · exact .refuse (by decide)
            · refine (index_safe (by omega)).bind fun second _ => ?_
              split
              · exact .refuse (by decide)
              · exact ih _ hnext _ rfl
        · exact ih _ hnext _ rfl
    · trivial

theorem checkForm_safe (full_path : StringView) (method : HttpMethod) :
    Safe (checkForm full_path method) fun _ => True := by
  rw [checkForm]
  split
  · exact .refuse (by decide)
  · next hempty =>
    have hpos : 0 < full_path.size :=
      List.length_pos_iff.mpr fun hnil => hempty (StringView.empty_iff.mpr hnil)
    refine (index_safe hpos).bind fun first _ => ?_
    split
    · exact .refuse (by decide)
    · trivial

/-- The maps of a request hold only views cut from `top`. -/
structure MapsCutFrom (top : StringView) (req : HttpRequest) : Prop where
  headers : CutFrom top req.headers
  query : CutFrom top req.query
  cookies : CutFrom top req.cookies

/-- All views of a request were cut from `top`; it has no parameters yet. -/
structure ViewsCutFrom (top : StringView) (req : HttpRequest) : Prop where
  path : req.path.Part top
  http_version : req.http_version.Part top
  maps : MapsCutFrom top req
  params : req.params = {}

/-- The path and the query are parts of the target, and the parameters are still empty. -/
theorem splitTarget_safe {top full_path : StringView} {req : HttpRequest} (hpath : full_path.Part top)
    (hversion : req.http_version.Part top) (hmaps : MapsCutFrom top req) (hparams : req.params = {}) :
    Safe (splitTarget full_path req) (ViewsCutFrom top) := by
  rw [splitTarget]
  split
  · next qpos hquestion =>
    obtain ⟨_, _, _, _, hpart, hquery, _⟩ := StringView.find_cut hquestion
    rw [show (ascii "?").length = 1 from rfl] at hquery
    obtain ⟨query, hok, hcut⟩ := parseQueryString_total { off := full_path.off + (qpos + 1), bytes := _ } req.query
    rw [hpart, bind_ok, hquery, bind_ok, hok, bind_ok]
    exact ⟨(StringView.Part.of_substr hpart).trans hpath, hversion, ⟨hmaps.headers,
      hcut top ((StringView.Part.of_substr hquery).trans hpath) hmaps.query, hmaps.cookies⟩, hparams⟩
  · exact ⟨hpath, hversion, ⟨hmaps.headers, hmaps.query, hmaps.cookies⟩, hparams⟩

theorem parseTarget_safe {top line : StringView} {req : HttpRequest} (hline : line.Part top)
    (hmaps : MapsCutFrom top req) (hparams : req.params = {}) :
    Safe (parseTarget line req) (ViewsCutFrom top) := by
  rw [parseTarget]
  split
  · exact .refuse (by decide)
  · next s2 hspace =>
    obtain ⟨_, _, _, _, htarget, hversion, _⟩ := StringView.find_cut hspace
    rw [show (ascii " ").length = 1 from rfl] at hversion
    rw [htarget, bind_ok, hversion, bind_ok]
    split
    · exact .refuse (by decide)
    · refine (checkForm_safe _ _).bind fun _ _ => (checkTarget_safe _ _).bind fun _ _ => ?_
      exact splitTarget_safe ((StringView.Part.of_substr htarget).trans hline)
        ((StringView.Part.of_substr hversion).trans hline)
        ⟨hmaps.headers, hmaps.query, hmaps.cookies⟩ hparams

/-- The request line is cut into parts of the head. -/
theorem parseRequestLine_safe {top line : StringView} {req : HttpRequest} (hline : line.Part top)
    (hmaps : MapsCutFrom top req) (hparams : req.params = {}) :
    Safe (parseRequestLine line req) (ViewsCutFrom top) := by
  rw [parseRequestLine]
  split
  · exact .refuse (by decide)
  · next s1 hspace =>
    obtain ⟨_, _, _, _, hmethod, _, hrest⟩ := StringView.find_cut hspace
    rw [show (ascii " ").length = 1 from rfl] at hrest
    rw [hmethod, bind_ok]
    split
    · rw [hrest, bind_ok]
      exact parseTarget_safe ((StringView.Part.of_remove_prefix hrest).trans hline)
        ⟨hmaps.headers, hmaps.query, hmaps.cookies⟩ hparams
    · exact .refuse (by decide)

/-- A field is cut into parts of the head, and stored beside others. -/
theorem parseHeaderLine_safe {top line : StringView} {req : HttpRequest} (hline : line.Part top)
    (hreq : ViewsCutFrom top req) : Safe (parseHeaderLine line req) (ViewsCutFrom top) := by
  rw [parseHeaderLine]
  split
  · exact .refuse (by decide)
  · next colon hcolon =>
    obtain ⟨_, _, _, _, hkey, hrest, _⟩ := StringView.find_cut hcolon
    rw [show (ascii ":").length = 1 from rfl] at hrest
    rw [hkey, bind_ok]
    split
    · rw [hrest, bind_ok]
      dsimp only
      split
      · split
        · exact .refuse (by decide)
        · refine ⟨hreq.path, hreq.http_version, ⟨fun entry hentry => ?_, hreq.maps.query,
            hreq.maps.cookies⟩, hreq.params⟩
          obtain hold | rfl := UnorderedMap.mem_try_emplace hentry
          · exact hreq.maps.headers entry hold
          · exact ⟨(StringView.Part.of_substr hkey).trans hline,
              (trim_part _).trans ((StringView.Part.of_substr hrest).trans hline)⟩
      · exact .refuse (by decide)
    · exact .refuse (by decide)

/-- The invariant of the loop over the header lines: everything stored so far is a
part of the head. -/
theorem parseHeaderLines_safe {top head : StringView} {req : HttpRequest} (hhead : head.Part top)
    (hreq : ViewsCutFrom top req) : Safe (parseHeaderLines head req) (ViewsCutFrom top) := by
  induction hsize : head.size using Nat.strongRecOn generalizing head req with
  | ind n ih =>
    rw [parseHeaderLines_unrolled]
    split_ifs
    · exact hreq
    · cases hfind : head.find CRLF with
      | none => exact .refuse (by decide)
      | some eol =>
        obtain ⟨_, _, _, _, hline, _, _⟩ := StringView.find_cut hfind
        obtain ⟨rest, hremove, hrest, hless⟩ := StringView.find_rest hfind CRLF_ne_nil
        rw [show eol + CRLF.length = eol + 2 from rfl] at hremove
        have hstored := parseHeaderLine_safe ((StringView.Part.of_substr hline).trans hhead) hreq
        rw [Option.elim_some, hline, bind_ok]
        refine hstored.bind fun next hnext => ?_
        rw [hremove, bind_ok]
        exact ih _ (hsize ▸ hless) (hrest.trans hhead) hnext rfl

/-- A header value was cut where the header map was; an absent one is empty. -/
theorem header_part {top : StringView} {req : HttpRequest} (h : CutFrom top req.headers) (k : Bytes)
    (hpresent : (req.header k).empty = false) : (req.header k).Part top := by
  rw [HttpRequest.header, UnorderedMap.get] at hpresent ⊢
  cases hfind : req.headers.find HeaderMap.keyEq (.ofBytes k) with
  | none =>
    rw [hfind] at hpresent
    cases hpresent
  | some entry => exact (h entry (UnorderedMap.mem_of_find hfind)).2

/-- What follows the loop only looks fields up and cuts their values, so that every
view in the request is still a part of the head. -/
theorem finishHeaders_safe {top : StringView} {req : HttpRequest} (hreq : ViewsCutFrom top req)
    (limits : HttpLimits) : Safe (finishHeaders req limits) (ViewsCutFrom top) := by
  have hhost : Safe (checkHost req) fun _ => True := by
    rw [checkHost]
    split_ifs
    · exact .refuse (by decide)
    · trivial
    · exact .refuse (by decide)
  have htransfer : Safe (checkTransferEncoding req) fun _ => True := by
    rw [checkTransferEncoding]
    split_ifs
    · trivial
    · exact .refuse (by decide)
    · exact .refuse (by decide)
  have hlength : Safe (readContentLength req limits) fun _ => True := by
    rw [readContentLength]
    split_ifs
    · trivial
    · dsimp only
      split_ifs
      · exact .refuse (by decide)
      · exact .refuse (by decide)
      · trivial
    · exact .refuse (by decide)
  have hexpect : Safe (checkExpect req) fun _ => True := by
    rw [checkExpect]
    split_ifs
    · trivial
    · exact .refuse (by decide)
  have hkeep : Safe (readKeepAlive req) fun _ => True := by
    obtain ⟨keep, hkeep⟩ := contains_token_total (req.header (ascii "connection")) (ascii "keep-alive")
    obtain ⟨close, hclose⟩ := contains_token_total (req.header (ascii "connection")) (ascii "close")
    rw [readKeepAlive]
    simp only [hkeep, hclose, bind_ok]
    trivial
  have hcookies : Safe (readCookies req) fun cookies => CutFrom top cookies := by
    rw [readCookies]
    split_ifs with hempty
    · exact hreq.maps.cookies
    · obtain ⟨cookies, hok, hcut⟩ := parseCookies_total (req.header (ascii "cookie")) req.cookies
      have hpart := header_part hreq.maps.headers (ascii "cookie") (Bool.eq_false_iff.mpr hempty)
      exact .of_eq hok (hcut top hpart hreq.maps.cookies)
  rw [finishHeaders]
  refine hhost.bind fun _ _ => htransfer.bind fun _ _ => hlength.bind fun length _ => ?_
  refine hexpect.bind fun _ _ => hkeep.bind fun keep _ => hcookies.bind fun cookies hcut => ?_
  exact ⟨hreq.path, hreq.http_version, ⟨hreq.maps.headers, hreq.maps.query, hcut⟩, hreq.params⟩

/-- On every input the parser refuses the head with one of its statuses, or
returns a request whose views were all cut from it. -/
theorem parse_headers_safe (raw : Bytes) (limits : HttpLimits) :
    Safe (parse_headers raw limits) (ViewsCutFrom (.ofBytes raw)) := by
  rw [parse_headers]
  split
  · exact .refuse (by decide)
  · split
    · exact .refuse (by decide)
    · dsimp only
      split
      · exact .refuse (by decide)
      · next line_end hfind =>
        obtain ⟨_, _, _, _, hline, hrest, _⟩ := StringView.find_cut hfind
        rw [show line_end + CRLF.length = line_end + 2 from rfl] at hrest
        have hmaps : MapsCutFrom (.ofBytes raw) ({} : HttpRequest) :=
          ⟨CutFrom.empty _, CutFrom.empty _, CutFrom.empty _⟩
        rw [hline, bind_ok]
        refine (parseRequestLine_safe (StringView.Part.of_substr hline) hmaps rfl).bind fun req hreq => ?_
        rw [hrest, bind_ok]
        refine (parseHeaderLines_safe (StringView.Part.of_substr hrest) hreq).bind fun req hreq => ?_
        exact finishHeaders_safe hreq limits

end octane.HttpParser
