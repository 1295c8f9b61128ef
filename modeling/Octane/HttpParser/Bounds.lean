import Octane.HttpParser.Fields
import Octane.HttpParser.Safety

open search

namespace octane.HttpParser

/-- The first loop of `trim` with the calls that it makes. -/
def trimFrontLoop (s : StringView) : Result StringView :=
  if s.empty then .ok s
  else
    match s.front with
    | .error e => .error e
    | .ok c =>
      if isBlank c then
        match _h : s.remove_prefix 1 with
        | .error e => .error e
        | .ok rest => trimFrontLoop rest
      else .ok s
termination_by s.size
decreasing_by
  obtain ⟨hle, rfl⟩ := StringView.remove_prefix_eq_ok_iff.mp _h
  simp only [StringView.size, List.length_drop] at hle ⊢
  omega

/-- A loop that takes characters off the end, with the calls that it makes. -/
def trimBackLoop (blank : UInt8 → Bool) (s : StringView) : Result StringView :=
  if s.empty then .ok s
  else
    match s.back with
    | .error e => .error e
    | .ok c =>
      if blank c then
        match _h : s.remove_suffix 1 with
        | .error e => .error e
        | .ok rest => trimBackLoop blank rest
      else .ok s
termination_by s.size
decreasing_by
  obtain ⟨hle, rfl⟩ := StringView.remove_suffix_eq_ok_iff.mp _h
  simp only [StringView.size, List.length_take] at hle ⊢
  omega

/-- The loop at the front stays within its view and computes what `trimFront` does: it
looks at the first byte only while there is one. -/
theorem trimFrontLoop_eq (s : StringView) : trimFrontLoop s = .ok (trimFront s.off s.bytes) := by
  obtain ⟨off, bytes⟩ := s
  induction bytes generalizing off with
  | nil =>
    rw [trimFrontLoop]
    rfl
  | cons c rest ih =>
    have hfront : StringView.front { off, bytes := c :: rest } = .ok c := rfl
    have hremove : StringView.remove_prefix { off, bytes := c :: rest } 1 =
        .ok { off := off + 1, bytes := rest } :=
      StringView.remove_prefix_of_le (Nat.le_add_left 1 rest.length)
    rw [trimFrontLoop, if_neg (by simp [StringView.empty]), hfront, trimFront]
    dsimp only
    split_ifs with hblank
    · split
      · next e herror =>
        rw [hremove] at herror
        cases herror
      · next after hafter =>
        rw [hremove] at hafter
        cases hafter
        exact ih (off + 1)
    · rfl

/-- The loop at the back stays within its view, for any set of blanks: it looks at the
last byte only while there is one. -/
theorem trimBackLoop_eq (blank : UInt8 → Bool) (s : StringView) :
    trimBackLoop blank s = .ok { s with bytes := s.bytes.rdropWhile blank } := by
  obtain ⟨off, bytes⟩ := s
  induction bytes using List.reverseRecOn with
  | nil =>
    rw [trimBackLoop]
    rfl
  | append_singleton init c ih =>
    have hback : StringView.back { off, bytes := init ++ [c] } = .ok c := by
      rw [StringView.back, List.getLast?_concat]
    have hremove : StringView.remove_suffix { off, bytes := init ++ [c] } 1 =
        .ok { off, bytes := init } := by
      refine StringView.remove_suffix_eq_ok_iff.mpr ⟨by simp [StringView.size], ?_⟩
      simp [StringView.size]
    rw [trimBackLoop, if_neg (by simp [StringView.empty]), hback]
    dsimp only
    split_ifs with hblank
    · split
      · next e herror =>
        rw [hremove] at herror
        cases herror
      · next after hafter =>
        rw [hremove] at hafter
        cases hafter
        rw [ih, List.rdropWhile_concat_pos _ _ _ hblank]
    · rw [List.rdropWhile_concat_neg _ _ _ hblank]

/-- `trim` as the source runs it never looks at or behind the end of a view. -/
theorem trim_loops (s : StringView) : (trimFrontLoop s >>= trimBackLoop isBlank) = .ok (trim s) := by
  rw [trimFrontLoop_eq, bind_ok, trimBackLoop_eq, trim]

/-- The name of a media type as `parseContentType` cuts it out. -/
def contentTypeLoop (raw : StringView) : Result StringView := do
  let key ← raw.substr 0 (raw.find (ascii ";"))
  trimBackLoop (· == 32) key

/-- The parameters of a content type are cut off at the first semicolon, with the
blanks before it, and no index leaves the view. -/
theorem contentTypeLoop_eq (raw : StringView) :
    contentTypeLoop raw = .ok
      { raw with
        bytes := (raw.bytes.take ((findSub (ascii ";") raw.bytes).getD raw.bytes.length)).rdropWhile (· == 32) } := by
  rw [contentTypeLoop, StringView.substr_of_le (Nat.zero_le _), bind_ok, trimBackLoop_eq]
  rfl

/-- Where the header loop of `parse_headers` stands when it looks for a line end. -/
inductive HeaderLoop (raw : Bytes) : StringView → HttpRequest → Prop where
  | enter {line_end : Nat} {line head : StringView} {req : HttpRequest} (hblock : CRLFCRLF <:+ raw)
      (hfind : (StringView.ofBytes raw).find CRLF = some line_end)
      (hline : (StringView.ofBytes raw).substr 0 (some line_end) = .ok line)
      (hreq : parseRequestLine line {} = .ok req)
      (hhead : (StringView.ofBytes raw).substr (line_end + 2) none = .ok head) : HeaderLoop raw head req
  | turn {eol : Nat} {head line rest : StringView} {before req : HttpRequest}
      (hbefore : HeaderLoop raw head before) (hmore : head.bytes ≠ CRLF) (hfind : head.find CRLF = some eol)
      (hline : head.substr 0 (some eol) = .ok line) (hreq : parseHeaderLine line before = .ok req)
      (hrest : head.remove_prefix (eol + 2) = .ok rest) : HeaderLoop raw rest req

/-- Behind the first line end of a block that ends in an empty line, there is
only the line end of that empty line, or such a block again. -/
theorem block_rest {block before rest : Bytes} (hblock : CRLFCRLF <:+ block)
    (hfind : findSub CRLF block = some before.length) (hcut : block = before ++ (CRLF ++ rest)) :
    rest = CRLF ∨ CRLFCRLF <:+ rest := by
  obtain ⟨front, hfront⟩ := hblock
  have hfirst : before.length ≤ front.length := by
    by_contra hbehind
    refine (findSub_eq_some_iff.mp hfind).2.2 front.length (by omega) ?_
    rw [← hfront, List.drop_left]
    exact ⟨CRLF, rfl⟩
  obtain ⟨skipped, hskipped, hrest⟩ | ⟨skipped, hskipped, hrest⟩ :=
    List.append_eq_append_iff.mp (hcut.symm.trans hfront.symm)
  · match skipped, hrest with
    | [], hrest => exact .inl (List.append_cancel_left (show CRLF ++ _ = CRLF ++ _ from hrest))
    | [_], hrest => exact absurd (List.cons.inj (List.cons.inj hrest).2).1 (by decide)
    | _ :: _ :: skipped, hrest =>
      exact .inr ⟨skipped, (List.cons.inj (List.cons.inj hrest).2).2.symm⟩
  · have hnone : skipped = [] := by
      have hlength := congrArg List.length hskipped
      rw [List.length_append] at hlength
      exact List.eq_nil_of_length_eq_zero (by omega)
    rw [hnone] at hrest
    exact .inl (List.append_cancel_left (show CRLF ++ _ = CRLF ++ _ from hrest.symm))

theorem CRLF_mem_block {block : Bytes} (h : CRLFCRLF <:+ block) : findSub CRLF block ≠ none := by
  obtain ⟨front, rfl⟩ := h
  intro hnone
  refine findSub_eq_none_iff.mp hnone front.length (by simp) ?_
  rw [List.drop_left]
  exact ⟨CRLF, rfl⟩

/-- The loop stands at the line end of the empty line, or before a block that ends in one. -/
theorem HeaderLoop.stands {raw : Bytes} {head : StringView} {req : HttpRequest} (h : HeaderLoop raw head req) :
    head.bytes = CRLF ∨ CRLFCRLF <:+ head.bytes := by
  induction h with
  | enter hblock hfind hline hreq hhead =>
    obtain ⟨before, rest, hcut, rfl, _, hrest, _⟩ := StringView.find_cut hfind
    rw [show before.length + 2 = before.length + CRLF.length from rfl, hrest] at hhead
    cases hhead
    exact block_rest hblock hfind hcut
  | turn _ hmore hfind hline hreq hrest ih =>
    obtain ⟨before, rest, hcut, rfl, _, _, hremove⟩ := StringView.find_cut hfind
    rw [show before.length + 2 = before.length + CRLF.length from rfl, hremove] at hrest
    cases hrest
    exact block_rest (ih.resolve_left hmore) hfind hcut

/-- The loop always finds the line end that it looks for. -/
theorem HeaderLoop.finds {raw : Bytes} {head : StringView} {req : HttpRequest} (h : HeaderLoop raw head req)
    (hmore : head.bytes ≠ CRLF) : head.find CRLF ≠ none :=
  CRLF_mem_block (h.stands.resolve_left hmore)

/-- What the loop has still to do from where it stands is what is left of the run. -/
theorem HeaderLoop.run {raw : Bytes} {head : StringView} {req : HttpRequest} (h : HeaderLoop raw head req)
    {limits : HttpLimits} (hsize : raw.length ≤ limits.max_header_bytes) :
    parse_headers raw limits = parseHeaderLines head req >>= fun req => finishHeaders req limits := by
  induction h with
  | enter hblock hfind hline hreq hhead =>
    rw [parse_headers, if_neg (Nat.not_lt.mpr hsize), if_neg (not_not.mpr hblock)]
    dsimp only
    rw [hfind]
    dsimp only
    rw [hline, bind_ok, hreq, bind_ok, hhead, bind_ok]
  | turn _ hmore hfind hline hreq hrest ih =>
    rw [ih, parseHeaderLines_unrolled, if_neg hmore, hfind, Option.elim_some]
    rw [hline, bind_ok, hreq, bind_ok, hrest, bind_ok]

/-- Parsing a whole request returns it with its body, or refuses it. -/
theorem parse_safe (raw : Bytes) : Safe (parse raw) fun req => req.body.length = req.content_length := by
  rw [parse]
  cases hfind : findSub CRLFCRLF raw with
  | none => exact .refuse (by decide)
  | some header_end =>
    have hroom : header_end + 4 ≤ (StringView.ofBytes raw).size := findSub_add_length_le hfind
    dsimp only
    rw [StringView.substr_of_le (Nat.zero_le _), bind_ok]
    refine (parse_headers_safe _ _).bind fun req _ => ?_
    split_ifs with hlength
    · exact .refuse (by decide)
    · rw [StringView.substr_of_le hroom, bind_ok]
      refine .of_eq rfl ?_
      rw [ne_eq, not_not] at hlength
      simp only [set_body, StringView.ofBytes, StringView.size, Option.getD_none, List.length_take,
        List.length_drop]
      omega

/-- On every input the parser returns a request with its body or refuses it. It
cuts and looks only inside of strings, its one subtraction of sizes does not
wrap, and the header loop never misses a line end. -/
theorem parse_total (raw : Bytes) :
    (Safe (parse raw) fun req => req.body.length = req.content_length) ∧
      (∀ header_end, findSub CRLFCRLF raw = some header_end → header_end + 4 ≤ raw.length) ∧
      (∀ block limits head req, block.length ≤ limits.max_header_bytes → HeaderLoop block head req →
        parse_headers block limits = (parseHeaderLines head req >>= fun req => finishHeaders req limits) ∧
          (head.bytes ≠ CRLF → head.find CRLF ≠ none)) ∧
      (∀ s, (trimFrontLoop s >>= trimBackLoop isBlank) = .ok (trim s)) ∧
      ∀ type, (contentTypeLoop type).isOk = true := by
  refine ⟨parse_safe raw, fun _ hfind => findSub_add_length_le hfind, ?_, trim_loops, fun type => ?_⟩
  · intro block limits head req hsize hloop
    exact ⟨hloop.run hsize, hloop.finds⟩
  · rw [contentTypeLoop_eq]
    rfl

end octane.HttpParser
