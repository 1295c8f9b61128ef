import Octane.HttpParser.Fields

open search

namespace octane.HttpParser

/-- A request head in its parts: the request line and the field lines. -/
structure RequestHead where
  method : Bytes
  target : Bytes
  version : Bytes
  fields : List Field

namespace RequestHead

def requestLine (head : RequestHead) : Bytes :=
  head.method ++ 32 :: (head.target ++ 32 :: head.version)

def lines (head : RequestHead) : List Bytes := head.requestLine :: head.fields.map fieldLine

/-- The head on the wire: every line and the final empty one end in CRLF. -/
def encode (head : RequestHead) : Bytes := head.lines.flatMap (· ++ CRLF) ++ CRLF

/-- The grammar of a head. -/
structure WellFormed (head : RequestHead) : Prop where
  method : token head.method = true
  target : ValidTarget (toMethod head.method) head.target
  version : head.version = ascii "HTTP/1.1" ∨ head.version = ascii "HTTP/1.0"
  fields : ∀ field ∈ head.fields, ValidField field

/-- A line of a well-formed head is not empty and holds no line terminator, so that
the first double terminator is the one at the end. -/
theorem WellFormed.line {head : RequestHead} (h : head.WellFormed) {line : Bytes}
    (hline : line ∈ head.lines) : line ≠ [] ∧ 13 ∉ line ∧ 10 ∉ line := by
  have hcontrol : ∀ c : UInt8, c = 13 ∨ c = 10 →
      tokenChar c = false ∧ valueChar c = false ∧ ¬ targetByte c := by
    rintro c (rfl | rfl) <;> refine ⟨by decide, by decide, ?_⟩ <;> simp [targetByte]
  have hnone : ∀ c : UInt8, c = 13 ∨ c = 10 → c ∉ line := by
    intro c hc hmem
    obtain ⟨htoken, hvalue, htarget⟩ := hcontrol c hc
    rcases List.mem_cons.mp hline with rfl | hfield
    · have hspace : c ≠ 32 := by rcases hc with rfl | rfl <;> decide
      have hversion : c ∉ head.version := by
        rcases h.version with hv | hv <;> rw [hv] <;> rcases hc with rfl | rfl <;> decide
      have htargetMem : c ∉ head.target := fun hin => htarget (h.target.bytes c hin)
      have hmethod := not_mem_of_token h.method htoken
      simp [requestLine, hspace, hversion, htargetMem, hmethod] at hmem
    · obtain ⟨field, hin, rfl⟩ := List.mem_map.mp hfield
      have hcolon : c ≠ 58 := by rcases hc with rfl | rfl <;> decide
      have hname := not_mem_of_token (h.fields field hin).name htoken
      have hrest : c ∉ field.2 := by
        intro hc'
        have hallowed := List.all_eq_true.mp (h.fields field hin).value c hc'
        rw [hvalue] at hallowed
        cases hallowed
      simp [fieldLine, hcolon, hname, hrest] at hmem
  refine ⟨?_, hnone 13 (.inl rfl), hnone 10 (.inr rfl)⟩
  rcases List.mem_cons.mp hline with rfl | hfield
  · simp [requestLine]
  · obtain ⟨field, _, rfl⟩ := List.mem_map.mp hfield
    simp [fieldLine]

end RequestHead

/-- A line cut at its first colon. -/
def cutField (line : Bytes) : Field :=
  match findSub [58] line with
  | some i => (line.take i, line.drop (i + 1))
  | none => (line, [])

/-- A field line is cut into the field that it was made from. -/
theorem cutField_fieldLine {field : Field} (h : ValidField field) : cutField (fieldLine field) = field := by
  have hcolon : (58 : UInt8) ∉ field.1 := not_mem_of_token h.name (by decide)
  have hfind : findSub [58] (field.1 ++ 58 :: field.2) = some field.1.length :=
    findSub_of_not_mem hcolon field.2
  simp only [cutField, fieldLine, hfind, List.take_left, ← List.drop_drop, List.drop_left]
  rfl

/-- The field lines of a head: its lines behind the first and before the empty
one, each cut at its first colon. -/
def fieldLines (raw : Bytes) : List Field :=
  (((terminated CRLF (by simp) raw).drop 1).takeWhile (· ≠ [])).map cutField

/-- Cutting a well-formed head into lines gives its fields back, in their order and
with the blanks around their values. -/
theorem fieldLines_encode {head : RequestHead} (h : head.WellFormed) :
    fieldLines head.encode = head.fields := by
  have hblock : head.encode = (head.lines ++ [[]]).flatMap (· ++ CRLF) ++ [] := by
    simp [RequestHead.encode]
  have hcut : terminated CRLF (by simp) head.encode = head.lines ++ [[]] := by
    rw [hblock, terminated_flatMap]
    · rw [terminated]
      simp [findSub]
    · intro line hline
      rcases List.mem_append.mp hline with hline | hempty
      · exact (h.line hline).2.1
      · simp [List.mem_singleton.mp hempty]
  have hnonempty : ∀ line ∈ head.fields.map fieldLine, decide (line ≠ []) = true := by
    intro line hline
    exact decide_eq_true (h.line (List.mem_cons_of_mem _ hline)).1
  rw [fieldLines, hcut, RequestHead.lines, List.cons_append, List.drop_one, List.tail_cons,
    List.takeWhile_append_of_pos hnonempty]
  simp only [ne_eq, not_true_eq_false, decide_false, List.takeWhile_cons_of_neg, List.append_nil,
    Bool.false_eq_true, not_false_eq_true, List.map_map]
  calc head.fields.map (cutField ∘ fieldLine)
      = head.fields.map id := by
        apply List.map_congr_left
        intro field hfield
        exact cutField_fieldLine (h.fields field hfield)
    _ = head.fields := List.map_id _

/-- The blank line that ends a well-formed head is the only one in it. -/
theorem blank_line_at_end {head : RequestHead} (h : head.WellFormed) {j : Nat}
    (hat : CRLFCRLF <+: head.encode.drop j) : j + 4 = head.encode.length :=
  double_terminator_at_end (by decide) head.lines
    (fun _ hline => ⟨(h.line hline).1, not_infix_of_not_mem (h.line hline).2.1⟩) hat

/-- What remains of a request once its head has been read: the checks that
passed, and the fields they have set. -/
theorem finishHeaders_ok {req after : HttpRequest} {limits : HttpLimits}
    (h : finishHeaders req limits = .ok after) :
    after.headers = req.headers ∧ after.http_version = req.http_version ∧ after.method = req.method ∧
      checkHost after = .ok () ∧ checkTransferEncoding after = .ok () ∧
      readContentLength after limits = .ok after.content_length ∧ checkExpect after = .ok () ∧
      readKeepAlive after = .ok after.keep_alive := by
  simp only [finishHeaders, bind_eq_ok_iff] at h
  obtain ⟨_, hhost, _, htransfer, length, hlength, _, hexpect, keep, hkeep, cookies, _, h⟩ := h
  cases h
  exact ⟨rfl, rfl, rfl, hhost, htransfer, hlength, hexpect, hkeep⟩

/-- An accepted head is the encoding of a well-formed one; the header map holds
its fields and every check on them has passed. -/
theorem parse_headers_ok {raw : Bytes} {limits : HttpLimits} {req : HttpRequest}
    (h : parse_headers raw limits = .ok req) :
    ∃ head : RequestHead, raw = head.encode ∧ head.WellFormed ∧ req.method = toMethod head.method ∧
      req.http_version.bytes = head.version ∧ Collected head.fields req.headers ∧
      raw.length ≤ limits.max_header_bytes ∧ checkHost req = .ok () ∧
      checkTransferEncoding req = .ok () ∧ readContentLength req limits = .ok req.content_length ∧
      checkExpect req = .ok () ∧ readKeepAlive req = .ok req.keep_alive := by
  unfold parse_headers at h
  split at h
  · cases h
  · next hsize =>
    split at h
    · cases h
    · dsimp only at h
      split at h
      · cases h
      · next line_end hfind =>
        obtain ⟨line, rest, hraw, _, hline, hrest, _⟩ := StringView.find_cut hfind
        simp only [List.length_cons, List.length_nil] at hrest
        rw [hline, bind_ok, bind_eq_ok_iff] at h
        obtain ⟨started, hstarted, h⟩ := h
        rw [hrest, bind_ok, bind_eq_ok_iff] at h
        obtain ⟨collected, hcollected, hfinish⟩ := h
        obtain ⟨method, target, hshape, hmethod, htarget, hversion, hreqMethod, hheaders, _⟩ :=
          parseRequestLine_ok hstarted
        have hstart : Collected [] started.headers := by
          rw [hheaders]
          exact Collected.empty
        obtain ⟨fields, hfields, hvalid, hmap, hkept⟩ := parseHeaderLines_ok hcollected hstart
        obtain ⟨hheaders', hversion', hmethod', hhost, htransfer, hlength, hexpect, hkeep⟩ :=
          finishHeaders_ok hfinish
        refine ⟨⟨method, target, started.http_version.bytes, fields⟩, ?_, ⟨hmethod, htarget, hversion, hvalid⟩,
          ?_, ?_, ?_, Nat.le_of_not_lt hsize, hhost, htransfer, hlength, hexpect, hkeep⟩
        · simp only [StringView.ofBytes] at hraw
          simp only at hshape hfields
          rw [hraw, hshape, hfields]
          simp [RequestHead.encode, RequestHead.lines, RequestHead.requestLine, List.flatMap_map]
        · rw [hmethod', hkept, hreqMethod]
        · rw [hversion', hkept]
        · rw [hheaders']
          simpa using hmap

end octane.HttpParser
