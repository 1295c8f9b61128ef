import Octane.HttpResponse
import Octane.HttpParser.RequestHead

open search

namespace octane.HttpResponse

/-- A field as the serializer writes it. -/
def headerLine (entry : Bytes × Bytes) : Bytes := entry.1 ++ (ascii ": " ++ entry.2)

def statusLine (self : HttpResponse) : Bytes :=
  ascii "HTTP/1.1 " ++ (to_string self.status_code ++ (ascii " " ++ get_status_text_sv self.status_code))

/-- The statuses without a body, hence without a length. -/
def bodiless (self : HttpResponse) : Bool := self.status_code == 204 || self.status_code == 304

def contentLength (self : HttpResponse) : Bytes × Bytes :=
  (ascii "Content-Length", decimal.print self.active_body.length)

def connection (close : Bool) : Bytes × Bytes :=
  (ascii "Connection", ascii (if close then "close" else "keep-alive"))

/-- The fields the serializer generates. -/
def generatedFields (self : HttpResponse) (close : Bool) : List (Bytes × Bytes) :=
  (if self.custom_content_type then []
    else [(ascii "Content-Type", get_content_type_sv self.content_type)]) ++
  ((if self.bodiless then [] else [self.contentLength]) ++ [connection close])

/-- The custom fields that the serializer emits. -/
def emittedFields (self : HttpResponse) : List (Bytes × Bytes) :=
  self.headers.entries.filter fun entry => !ownedName entry.1

def headLines (self : HttpResponse) (close : Bool) : List Bytes :=
  self.statusLine :: (self.generatedFields close ++ self.emittedFields).map headerLine

/-- The loop over the custom headers, as the lines that it appends. -/
private theorem foldl_emit (entries : List (Bytes × Bytes)) (start : Bytes) :
    entries.foldl (fun response entry =>
      if ownedName entry.1 then response
      else response ++ entry.1 ++ ascii ": " ++ entry.2 ++ CRLF) start =
      start ++ ((entries.filter fun entry => !ownedName entry.1).map headerLine).flatMap (· ++ CRLF) := by
  induction entries generalizing start with
  | nil => simp
  | cons entry rest ih =>
    rw [List.foldl_cons, ih]
    by_cases howned : ownedName entry.1
    · simp [howned]
    · simp [howned, headerLine]

/-- A supported status is serialized as its lines, each ended by CRLF, and an empty
line. The source appends to one string; the loop over the custom headers is a fold. -/
theorem serialize_headers_eq {self : HttpResponse} (close : Bool)
    (hstatus : ¬ (self.status_code < 200 ∨ 599 < self.status_code)) :
    self.serialize_headers close = .ok ((self.headLines close).flatMap (· ++ CRLF) ++ CRLF) := by
  have hlength : to_string (self.active_body.length : Int) = decimal.print self.active_body.length := by
    simp [to_string]
  have hname : ascii "Content-Length: " = ascii "Content-Length" ++ ascii ": " := by decide
  have htype : ascii "Content-Type: " = ascii "Content-Type" ++ ascii ": " := by decide
  have hclose : (if close then ascii "Connection: close" ++ CRLF else ascii "Connection: keep-alive" ++ CRLF) =
      headerLine (connection close) ++ CRLF := by
    cases close <;> decide
  rw [serialize_headers, if_neg hstatus]
  simp only [foldl_emit, hlength, hname, htype, hclose]
  by_cases hcustom : self.custom_content_type
  · by_cases hbody : self.bodiless
    · have hno : ¬ (self.status_code ≠ 204 ∧ self.status_code ≠ 304) := by
        simpa [bodiless, or_iff_not_imp_left] using hbody
      simp [hcustom, hbody, hno, headLines, statusLine, generatedFields, emittedFields]
    · have hyes : self.status_code ≠ 204 ∧ self.status_code ≠ 304 := by
        simpa [bodiless] using hbody
      simp [hcustom, hbody, hyes, headLines, statusLine, generatedFields, emittedFields,
        headerLine, contentLength]
  · by_cases hbody : self.bodiless
    · have hno : ¬ (self.status_code ≠ 204 ∧ self.status_code ≠ 304) := by
        simpa [bodiless, or_iff_not_imp_left] using hbody
      simp [hcustom, hbody, hno, headLines, statusLine, generatedFields, emittedFields, headerLine]
    · have hyes : self.status_code ≠ 204 ∧ self.status_code ≠ 304 := by
        simpa [bodiless] using hbody
      simp [hcustom, hbody, hyes, headLines, statusLine, generatedFields, emittedFields,
        headerLine, contentLength]

/-- A serialized head comes from a supported status. -/
theorem serialize_headers_ok {self : HttpResponse} {close : Bool} {out : Bytes}
    (h : self.serialize_headers close = .ok out) :
    ¬ (self.status_code < 200 ∨ 599 < self.status_code) ∧
      out = (self.headLines close).flatMap (· ++ CRLF) ++ CRLF := by
  by_cases hstatus : self.status_code < 200 ∨ 599 < self.status_code
  · rw [serialize_headers, if_pos hstatus] at h
    cases h
  · rw [serialize_headers_eq close hstatus] at h
    cases h
    exact ⟨hstatus, rfl⟩

/-- A status outside of 200 to 599 is not serialized; nothing else is refused. -/
theorem serialize_headers_error {self : HttpResponse} (close : Bool)
    (hstatus : self.status_code < 200 ∨ 599 < self.status_code) :
    self.serialize_headers close = .error .invalid_argument := by
  rw [serialize_headers, if_pos hstatus]

/-- The body bytes behind a serialized head. -/
def sentBody (self : HttpResponse) (head : Bool) : Bytes :=
  if head = true ∨ self.status_code = 204 ∨ self.status_code = 304 then [] else self.active_body

/-- The whole serialization: the lines of the head, the blank line and the body as
far as it is sent. -/
theorem serialize_eq {self : HttpResponse} (close head : Bool)
    (hstatus : ¬ (self.status_code < 200 ∨ 599 < self.status_code)) :
    self.serialize close head =
      .ok ((self.headLines close).flatMap (· ++ CRLF) ++ CRLF ++ self.sentBody head) := by
  rw [serialize, serialize_headers_eq close hstatus, bind_ok, sentBody]
  by_cases hhead : head = true ∨ self.status_code = 204 ∨ self.status_code = 304
  · have hnone : ¬ ((!head) = true ∧ self.status_code ≠ 204 ∧ self.status_code ≠ 304) := by
      intro hsend
      obtain hhead | hno | hno := hhead
      · simp [hhead] at hsend
      · exact hsend.2.1 hno
      · exact hsend.2.2 hno
    rw [if_neg hnone, if_pos hhead, List.append_nil]
  · have hsend : (!head) = true ∧ self.status_code ≠ 204 ∧ self.status_code ≠ 304 := by
      simpa using hhead
    rw [if_pos hsend, if_neg hhead]

/-- A field that cannot add a line: a token for a name, a value without CR or LF. -/
structure ValidHeader (entry : Bytes × Bytes) : Prop where
  name : HttpParser.token entry.1 = true
  no_cr : 13 ∉ entry.2
  no_lf : 10 ∉ entry.2

/-- A text over digits and the printable characters of the generated fields. -/
def plain (text : Bytes) : Bool := text.all fun c => 32 ≤ c && c ≤ 126

/-- Plain text cannot end a line. -/
theorem not_mem_of_plain {text : Bytes} (h : plain text = true) : 13 ∉ text ∧ 10 ∉ text := by
  refine ⟨fun hmem => ?_, fun hmem => ?_⟩
  · exact absurd (List.all_eq_true.mp h 13 hmem) (by decide)
  · exact absurd (List.all_eq_true.mp h 10 hmem) (by decide)

theorem plain_print (n : Nat) : plain (decimal.print n) = true := by
  rw [plain, List.all_eq_true]
  intro c hc
  have hdigit := decimal.isDigit_iff.mp (decimal.isDigit_of_mem_print hc)
  simp only [Bool.and_eq_true, decide_eq_true_eq, UInt8.le_iff_toNat_le, UInt8.reduceToNat]
  omega

/-- No reason phrase ends a line, for any status; by the table of the source. -/
theorem plain_status_text (code : Int) : plain (get_status_text_sv code) = true := by
  have htable : ∀ entry ∈ statusTexts, plain (ascii entry.2) = true := by decide +kernel
  cases hlookup : statusTexts.lookup code with
  | none =>
    simp only [get_status_text_sv, hlookup, Option.getD_none]
    decide
  | some text =>
    simp only [get_status_text_sv, hlookup, Option.getD_some]
    obtain ⟨before, after, hsplit, _⟩ := List.lookup_eq_some_iff.mp hlookup
    exact htable (code, text) (by simp [hsplit])

theorem plain_content_type (type : ContentType) : plain (get_content_type_sv type) = true := by
  cases type <;> decide +kernel

/-- The generated fields can be read back like custom ones. -/
theorem generatedFields_valid {self : HttpResponse} {close : Bool} {entry : Bytes × Bytes}
    (h : entry ∈ self.generatedFields close) : ValidHeader entry := by
  have hvalid : ∀ name value : Bytes, HttpParser.token name = true → plain value = true →
      ValidHeader (name, value) := fun _ _ hname hvalue =>
    ⟨hname, (not_mem_of_plain hvalue).1, (not_mem_of_plain hvalue).2⟩
  rw [generatedFields, List.mem_append, List.mem_append] at h
  obtain htype | hlength | hconnection := h
  · split at htype
    · cases htype
    · rw [List.mem_singleton.mp htype]
      exact hvalid _ _ (by decide +kernel) (plain_content_type _)
  · split at hlength
    · cases hlength
    · rw [List.mem_singleton.mp hlength]
      exact hvalid _ _ (by decide +kernel) (plain_print _)
  · rw [List.mem_singleton.mp hconnection]
    exact hvalid _ _ (by decide +kernel) (by cases close <;> decide +kernel)

/-- A supported status is printed without a sign. -/
theorem to_string_of_supported {self : HttpResponse}
    (hstatus : ¬ (self.status_code < 200 ∨ 599 < self.status_code)) :
    to_string self.status_code = decimal.print self.status_code.toNat := by
  rw [to_string, if_neg (by omega)]

/-- The status line is one line, for every supported status. -/
theorem statusLine_valid {self : HttpResponse} (hstatus : ¬ (self.status_code < 200 ∨ 599 < self.status_code)) :
    self.statusLine ≠ [] ∧ 13 ∉ self.statusLine := by
  have hcode := (not_mem_of_plain (plain_print self.status_code.toNat)).1
  have htext := (not_mem_of_plain (plain_status_text self.status_code)).1
  have hversion : (13 : UInt8) ∉ ascii "HTTP/1.1 " := by decide
  have hspace : (13 : UInt8) ∉ ascii " " := by decide
  refine ⟨by simp [statusLine, ascii], ?_⟩
  rw [statusLine, to_string_of_supported hstatus]
  simp only [List.mem_append, not_or]
  exact ⟨hversion, hcode, hspace, htext⟩

/-- A valid header is one line. -/
theorem headerLine_valid {entry : Bytes × Bytes} (h : ValidHeader entry) :
    headerLine entry ≠ [] ∧ 13 ∉ headerLine entry := by
  have hname := HttpParser.not_mem_of_token h.name (c := 13) (by decide)
  have hcolon : (13 : UInt8) ∉ ascii ": " := by decide
  refine ⟨by simp [headerLine, ascii], ?_⟩
  rw [headerLine]
  simp only [List.mem_append, not_or]
  exact ⟨hname, hcolon, h.no_cr⟩

/-- The lines of a head with valid custom fields are cut apart again by CRLF. -/
theorem headLines_valid {self : HttpResponse} {close : Bool}
    (hstatus : ¬ (self.status_code < 200 ∨ 599 < self.status_code))
    (hvalid : ∀ entry ∈ self.emittedFields, ValidHeader entry) {line : Bytes}
    (hline : line ∈ self.headLines close) : line ≠ [] ∧ 13 ∉ line := by
  obtain rfl | hfield := List.mem_cons.mp hline
  · exact statusLine_valid hstatus
  · obtain ⟨entry, hentry, rfl⟩ := List.mem_map.mp hfield
    obtain hgenerated | hemitted := List.mem_append.mp hentry
    · exact headerLine_valid (generatedFields_valid hgenerated)
    · exact headerLine_valid (hvalid entry hemitted)

/-- Cutting at the first colon gives the name back; the value keeps the blank
that the serializer puts in front of it. -/
theorem cutField_headerLine {entry : Bytes × Bytes} (h : HttpParser.token entry.1 = true) :
    HttpParser.cutField (headerLine entry) = (entry.1, 32 :: entry.2) := by
  have hcolon : (58 : UInt8) ∉ entry.1 := HttpParser.not_mem_of_token h (by decide)
  have hline : headerLine entry = entry.1 ++ 58 :: 32 :: entry.2 := by
    rw [headerLine, show ascii ": " = [58, 32] by decide]
    rfl
  have hfind : findSub [58] (entry.1 ++ 58 :: 32 :: entry.2) = some entry.1.length :=
    findSub_of_not_mem hcolon (32 :: entry.2)
  rw [HttpParser.cutField, hline, hfind]
  simp [← List.drop_drop]

/-- What the first `Connection` line of a head says. -/
def announced (head : Bytes) : Option Bytes :=
  (HttpParser.firstField (HttpParser.fieldLines head) (ascii "connection")).map fun field =>
    HttpParser.trimmed field.2

/-- The fields that the serializer generates are the first ones read back,
whatever custom ones follow them. -/
theorem fieldLines_serialize_headers {self : HttpResponse} {close : Bool} {head : Bytes}
    (h : self.serialize_headers close = .ok head) :
    ∃ rest, HttpParser.fieldLines head =
      ((self.generatedFields close).map fun entry => (entry.1, 32 :: entry.2)) ++ rest := by
  obtain ⟨hstatus, rfl⟩ := serialize_headers_ok h
  have hlines : (self.headLines close).flatMap (· ++ CRLF) ++ CRLF =
      (self.statusLine :: (self.generatedFields close).map headerLine).flatMap (· ++ CRLF) ++
        ((self.emittedFields.map headerLine).flatMap (· ++ CRLF) ++ CRLF) := by
    rw [headLines, List.map_append, ← List.cons_append, List.flatMap_append, List.append_assoc]
  have hreturn : ∀ line ∈ self.statusLine :: (self.generatedFields close).map headerLine, (13 : UInt8) ∉ line := by
    intro line hline
    obtain rfl | hfield := List.mem_cons.mp hline
    · exact (statusLine_valid hstatus).2
    · obtain ⟨entry, hentry, rfl⟩ := List.mem_map.mp hfield
      exact (headerLine_valid (generatedFields_valid hentry)).2
  have hnonempty : ∀ line ∈ (self.generatedFields close).map headerLine, decide (line ≠ []) = true := by
    intro line hline
    obtain ⟨entry, hentry, rfl⟩ := List.mem_map.mp hline
    exact decide_eq_true (headerLine_valid (generatedFields_valid hentry)).1
  rw [hlines, HttpParser.fieldLines, terminated_flatMap _ hreturn, List.cons_append, List.drop_one,
    List.tail_cons, List.takeWhile_append_of_pos hnonempty, List.map_append, List.map_map]
  refine ⟨_, congrArg (· ++ _) (List.map_congr_left fun entry hentry => ?_)⟩
  exact cutField_headerLine (generatedFields_valid hentry).name

/-- A serialized head says whether the connection closes as the serializer was told: a
custom Connection field is dropped, so that it cannot say otherwise. -/
theorem announced_serialize_headers {self : HttpResponse} {close : Bool} {head : Bytes}
    (h : self.serialize_headers close = .ok head) :
    announced head = some (ascii (if close then "close" else "keep-alive")) := by
  obtain ⟨rest, hlines⟩ := fieldLines_serialize_headers h
  have htype : CaseInsensitiveEqual (ascii "Content-Type") (ascii "connection") = false := by decide
  have hlength : CaseInsensitiveEqual (ascii "Content-Length") (ascii "connection") = false := by decide
  have hconnection : CaseInsensitiveEqual (ascii "Connection") (ascii "connection") = true := by decide
  have hvalue : HttpParser.trimmed (32 :: (connection close).2) =
      ascii (if close then "close" else "keep-alive") := by
    cases close <;> decide
  have hfirst : HttpParser.firstField (HttpParser.fieldLines head) (ascii "connection") =
      some ((connection close).1, 32 :: (connection close).2) := by
    rw [hlines, HttpParser.firstField, generatedFields, List.map_append, List.map_append, List.append_assoc,
      List.append_assoc, List.find?_append, List.find?_append]
    have htypes : ((if self.custom_content_type then []
        else [(ascii "Content-Type", get_content_type_sv self.content_type)]).map
          fun entry : Bytes × Bytes => (entry.1, 32 :: entry.2)).find?
            (fun field => CaseInsensitiveEqual field.1 (ascii "connection")) = none := by
      split_ifs <;> simp [htype]
    have hlengths : ((if self.bodiless then [] else [self.contentLength]).map
          fun entry : Bytes × Bytes => (entry.1, 32 :: entry.2)).find?
            (fun field => CaseInsensitiveEqual field.1 (ascii "connection")) = none := by
      split_ifs <;> simp [contentLength, hlength]
    rw [htypes, hlengths, Option.none_or, Option.none_or, List.map_singleton, List.singleton_append,
      List.find?_cons_of_pos (by exact hconnection)]
  rw [announced, hfirst, Option.map_some, hvalue]

end octane.HttpResponse
