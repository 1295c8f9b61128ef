import Octane.HttpResponse.Injection

open search

namespace octane.HttpResponse

/-- What a client reads: one response, and the bytes behind it. -/
structure Reading where
  status_code : Nat
  fields : List (Bytes × Bytes)
  body : Bytes
  rest : Bytes
deriving DecidableEq

/-- A status line: the version, three digits, and a text behind a space. -/
def readStatus (line : Bytes) : Option Nat :=
  let code := (line.drop 9).take 3
  if ascii "HTTP/1.1 " <+: line ∧ code.length = 3 ∧ code.all decimal.isDigit ∧ (line.drop 12).head? = some 32 then
    some (decimal.value code)
  else none

/-- A field line, cut at its first colon and blank. -/
def readField (line : Bytes) : Option (Bytes × Bytes) :=
  (findSub (ascii ": ") line).map fun i => (line.take i, line.drop (i + 2))

/-- The length a response announces: it must do so on exactly one line. -/
def readLength (fields : List (Bytes × Bytes)) : Option Nat :=
  match named (ascii "content-length") fields with
  | [(_, digits)] => if digits ≠ [] ∧ digits.all decimal.isDigit then some (decimal.value digits) else none
  | _ => none

/-- The reference reader of a client; `head` is set when it asked with HEAD. -/
def readResponse (head : Bool) (input : Bytes) : Option Reading := do
  let i ← findSub CRLFCRLF input
  let lines := terminated CRLF CRLF_ne_nil (input.take (i + 2))
  let status_code ← readStatus (lines.headD [])
  let fields ← lines.tail.mapM readField
  let rest := input.drop (i + 4)
  if head || status_code == 204 || status_code == 304 then
    some { status_code, fields, body := [], rest }
  else
    let length ← readLength fields
    if length ≤ rest.length then
      some { status_code, fields, body := rest.take length, rest := rest.drop length }
    else none

/-- The status is read back from the status line, whatever phrase follows it. -/
theorem readStatus_statusLine {self : HttpResponse}
    (hstatus : ¬ (self.status_code < 200 ∨ 599 < self.status_code)) :
    readStatus self.statusLine = some self.status_code.toNat := by
  have hthree : ∀ n < 600, 200 ≤ n → (decimal.print n).length = 3 := by decide +kernel
  have hlength : (decimal.print self.status_code.toNat).length = 3 := hthree _ (by omega) (by omega)
  have hdigits : (decimal.print self.status_code.toNat).all decimal.isDigit = true :=
    List.all_eq_true.mpr fun c hc => decimal.isDigit_of_mem_print hc
  have hversion : (ascii "HTTP/1.1 ").length = 9 := by decide
  have hcode : (self.statusLine.drop 9).take 3 = decimal.print self.status_code.toNat := by
    rw [statusLine, to_string_of_supported hstatus, List.drop_left' hversion, List.take_left' hlength]
  have hblank : (self.statusLine.drop 12).head? = some 32 := by
    rw [show 12 = 9 + 3 from rfl, ← List.drop_drop, statusLine, to_string_of_supported hstatus,
      List.drop_left' hversion, List.drop_left' hlength]
    rfl
  have hstart : ascii "HTTP/1.1 " <+: self.statusLine := List.prefix_append _ _
  simp only [readStatus, hcode]
  rw [if_pos ⟨hstart, hlength, hdigits, hblank⟩, decimal.value_print]

/-- A line with a token for a name is read back as the field it was written from. -/
theorem readField_headerLine {entry : Bytes × Bytes} (h : HttpParser.token entry.1 = true) :
    readField (headerLine entry) = some entry := by
  have hcolon : (58 : UInt8) ∉ entry.1 := HttpParser.not_mem_of_token h (by decide)
  have hfind : findSub (ascii ": ") (headerLine entry) = some entry.1.length :=
    findSub_of_not_mem hcolon entry.2
  have hvalue : (headerLine entry).drop (entry.1.length + 2) = entry.2 := by
    rw [headerLine, ← List.drop_drop, List.drop_left]
    rfl
  rw [readField, hfind, Option.map_some, hvalue, headerLine, List.take_left]

/-- Fields with tokens as names are read back as they were. -/
theorem mapM_readField {fields : List (Bytes × Bytes)}
    (h : ∀ entry ∈ fields, HttpParser.token entry.1 = true) :
    (fields.map headerLine).mapM readField = some fields := by
  induction fields with
  | nil => rfl
  | cons entry fields ih =>
    have hrest := ih fun other hother => h other (List.mem_cons_of_mem _ hother)
    rw [List.map_cons, List.mapM_cons, readField_headerLine (h entry (by simp)), hrest]
    rfl

/-- The framing fields among those that the serializer generates. -/
theorem named_generatedFields (self : HttpResponse) (close : Bool) :
    named (ascii "transfer-encoding") (self.generatedFields close) = [] ∧
      named (ascii "content-length") (self.generatedFields close) =
        (if self.bodiless then [] else [self.contentLength]) := by
  have htransfer := (named_fields self close).1
  have hlength := (named_fields self close).2.1
  rw [named_append, named_emittedFields (fun key h => by simp [ownedName, h]), List.append_nil] at htransfer hlength
  exact ⟨htransfer, hlength⟩

/-- A length is read exactly where no custom line names the length again. -/
theorem readLength_custom_iff (self : HttpResponse) (close : Bool) (custom : List (Bytes × Bytes))
    (hbody : self.bodiless = false) (n : Nat) :
    readLength (self.generatedFields close ++ custom) = some n ↔
      n = self.active_body.length ∧ named (ascii "content-length") custom = [] := by
  have hdigits : (decimal.print self.active_body.length).all decimal.isDigit = true :=
    List.all_eq_true.mpr fun c hc => decimal.isDigit_of_mem_print hc
  rw [readLength, named_append, (named_generatedFields self close).2, hbody]
  cases hcustom : named (ascii "content-length") custom with
  | nil =>
    simp only [contentLength, Bool.false_eq_true, if_false, List.append_nil]
    rw [if_pos ⟨decimal.print_ne_nil _, hdigits⟩, decimal.value_print]
    simp [eq_comm]
  | cons => simp

/-- A generated length is read back; a custom field cannot take its place. -/
theorem readLength_fields (self : HttpResponse) (close : Bool) (hbody : self.bodiless = false) :
    readLength (self.generatedFields close ++ self.emittedFields) = some self.active_body.length :=
  (readLength_custom_iff self close self.emittedFields hbody self.active_body.length).mpr
    ⟨rfl, named_emittedFields fun key h => by simp [ownedName, h]⟩

/-- The lines that a custom field comes to: a value may hold the line break that
ends a line, and nothing keeps the serializer from writing it. -/
def writtenLines (entry : Bytes × Bytes) : List Bytes :=
  terminated CRLF CRLF_ne_nil (headerLine entry ++ CRLF)

def customLines (self : HttpResponse) : List Bytes := self.emittedFields.flatMap writtenLines

/-- The lines of a head as a client cuts them. -/
def wireLines (self : HttpResponse) (close : Bool) : List Bytes :=
  self.statusLine :: (self.generatedFields close).map headerLine ++ self.customLines

/-- The lines of a custom field are what the serializer writes for it. -/
theorem writtenLines_join (entry : Bytes × Bytes) :
    (writtenLines entry).flatMap (· ++ CRLF) = headerLine entry ++ CRLF :=
  (terminated_closed (by decide) (headerLine entry)).1

/-- A valid field comes to one line. -/
theorem writtenLines_valid {entry : Bytes × Bytes} (h : ValidHeader entry) :
    writtenLines entry = [headerLine entry] := by
  have hcut := terminated_of_findSub CRLF_ne_nil (findSub_of_not_mem (headerLine_valid h).2 [])
  rwa [List.append_nil, terminated_nil] at hcut

/-- The lines that the serializer makes itself are whole: none is empty, none has a line break. -/
theorem generated_lines_whole {self : HttpResponse} {close : Bool}
    (hstatus : ¬ (self.status_code < 200 ∨ 599 < self.status_code)) {line : Bytes}
    (hline : line ∈ self.statusLine :: (self.generatedFields close).map headerLine) : line ≠ [] ∧ 13 ∉ line := by
  obtain rfl | hfield := List.mem_cons.mp hline
  · exact statusLine_valid hstatus
  · obtain ⟨entry, hentry, rfl⟩ := List.mem_map.mp hfield
    exact headerLine_valid (generatedFields_valid hentry)

/-- No line of a head holds the line break that ends it. -/
theorem wireLines_whole {self : HttpResponse} {close : Bool}
    (hstatus : ¬ (self.status_code < 200 ∨ 599 < self.status_code)) {line : Bytes}
    (hline : line ∈ self.wireLines close) : ¬ CRLF <:+: line := by
  obtain hgenerated | hcustom := List.mem_append.mp hline
  · exact not_infix_of_not_mem (generated_lines_whole hstatus hgenerated).2
  · obtain ⟨entry, _, hwritten⟩ := List.mem_flatMap.mp hcustom
    exact (terminated_closed (by decide) (headerLine entry)).2 line hwritten

/-- Cut at its line breaks or not, a head is the same text. -/
theorem wireLines_join (self : HttpResponse) (close : Bool) :
    (self.wireLines close).flatMap (· ++ CRLF) = (self.headLines close).flatMap (· ++ CRLF) := by
  have hcustom : self.customLines.flatMap (· ++ CRLF) =
      (self.emittedFields.map headerLine).flatMap (· ++ CRLF) := by
    rw [customLines, List.flatMap_assoc, List.flatMap_map]
    simp only [writtenLines_join]
  rw [wireLines, headLines, List.map_append, ← List.cons_append, List.flatMap_append, List.flatMap_append,
    hcustom]

/-- The head on the wire is cut into its lines, also where custom fields hold line
breaks and come to several. -/
theorem terminated_wireLines {self : HttpResponse} (close : Bool)
    (hstatus : ¬ (self.status_code < 200 ∨ 599 < self.status_code)) :
    terminated CRLF CRLF_ne_nil ((self.headLines close).flatMap (· ++ CRLF)) = self.wireLines close := by
  calc terminated CRLF CRLF_ne_nil ((self.headLines close).flatMap (· ++ CRLF))
      = terminated CRLF CRLF_ne_nil ((self.wireLines close).flatMap (· ++ CRLF) ++ []) := by
        rw [wireLines_join, List.append_nil]
    _ = self.wireLines close ++ terminated CRLF CRLF_ne_nil [] :=
        terminated_lines _ _ (fun line hline => findSub_pair (by decide) (wireLines_whole hstatus hline)) []
    _ = self.wireLines close := by rw [terminated_nil, List.append_nil]

/-- The head of a response without an empty line is cut off whatever follows it; line
breaks within its values do not matter, only two in a row do. -/
theorem find_end_of_head {self : HttpResponse} (close : Bool)
    (hstatus : ¬ (self.status_code < 200 ∨ 599 < self.status_code))
    (hcustom : ∀ line ∈ self.customLines, line ≠ []) (tail : Bytes) :
    ∃ i, findSub CRLFCRLF ((self.headLines close).flatMap (· ++ CRLF) ++ CRLF ++ tail) = some i ∧
      ((self.headLines close).flatMap (· ++ CRLF) ++ CRLF ++ tail).take (i + 2) =
        (self.headLines close).flatMap (· ++ CRLF) ∧
      ((self.headLines close).flatMap (· ++ CRLF) ++ CRLF ++ tail).drop (i + 4) = tail := by
  have hlines : ∀ line ∈ self.wireLines close, line ≠ [] ∧ ¬ CRLF <:+: line := by
    intro line hline
    refine ⟨?_, wireLines_whole hstatus hline⟩
    obtain hgenerated | hwritten := List.mem_append.mp hline
    · exact (generated_lines_whole hstatus hgenerated).1
    · exact hcustom line hwritten
  have hne : self.wireLines close ≠ [] := by simp [wireLines]
  have hfind : findSub CRLFCRLF ((self.wireLines close).flatMap (· ++ CRLF) ++ CRLF ++ tail) =
      some (((self.wireLines close).flatMap (· ++ CRLF)).length - 2) :=
    findSub_double_terminator (by decide) hne hlines tail
  rw [wireLines_join] at hfind
  have htwo : 2 ≤ ((self.headLines close).flatMap (· ++ CRLF)).length := by
    rw [headLines, List.flatMap_cons, List.length_append, List.length_append]
    exact Nat.le_add_right_of_le (Nat.le_add_left _ _)
  refine ⟨_, hfind, ?_, ?_⟩
  · rw [Nat.sub_add_cancel htwo, List.append_assoc, List.take_left]
  · apply List.drop_left'
    rw [List.length_append, show CRLF.length = 2 from rfl]
    omega

theorem readField_nil : readField [] = none := by decide

/-- The generated fields are always read; whether the rest is depends on the custom lines. -/
theorem mapM_readField_generated (self : HttpResponse) (close : Bool) {lines : List Bytes} :
    ((self.generatedFields close).map headerLine ++ lines).mapM readField =
      (lines.mapM readField).map (self.generatedFields close ++ ·) := by
  have hgenerated : ((self.generatedFields close).map headerLine).mapM readField =
      some (self.generatedFields close) :=
    mapM_readField fun entry hentry => (generatedFields_valid hentry).name
  rw [List.mapM_append, hgenerated]
  cases lines.mapM readField <;> rfl

/-- Reading up to the end of the head, with any bytes behind it, where every line
that the custom fields come to is a field. -/
theorem readResponse_lines {self : HttpResponse} {close : Bool}
    (hstatus : ¬ (self.status_code < 200 ∨ 599 < self.status_code)) {custom : List (Bytes × Bytes)}
    (hcustom : self.customLines.mapM readField = some custom) (head : Bool) (tail : Bytes) :
    readResponse head ((self.headLines close).flatMap (· ++ CRLF) ++ CRLF ++ tail) =
      let status_code := self.status_code.toNat
      let fields := self.generatedFields close ++ custom
      if head || status_code == 204 || status_code == 304 then
        some { status_code, fields, body := [], rest := tail }
      else (readLength fields).bind fun length =>
        if length ≤ tail.length then
          some { status_code, fields, body := tail.take length, rest := tail.drop length }
        else none := by
  have hne : ∀ line ∈ self.customLines, line ≠ [] := by
    rintro line hline rfl
    obtain ⟨before, behind, hsplit⟩ := List.append_of_mem hline
    rw [hsplit, List.mapM_append, List.mapM_cons, readField_nil] at hcustom
    cases hbefore : before.mapM readField with
    | none =>
      rw [hbefore] at hcustom
      cases hcustom
    | some fields =>
      rw [hbefore] at hcustom
      cases hcustom
  obtain ⟨i, hfind, htake, hdrop⟩ := find_end_of_head close hstatus hne tail
  rw [readResponse, hfind]
  simp only [Option.bind_eq_bind, Option.bind_some, htake, hdrop, terminated_wireLines close hstatus]
  simp only [wireLines, List.cons_append, List.headD_cons, List.tail_cons, readStatus_statusLine hstatus,
    mapM_readField_generated, hcustom, Option.map_some, Option.bind_some]

/-- Fields that keep to their lines are read as they were set. -/
theorem customLines_valid {self : HttpResponse} (hvalid : ∀ entry ∈ self.emittedFields, ValidHeader entry) :
    self.customLines.mapM readField = some self.emittedFields := by
  have hlines : self.customLines = self.emittedFields.map headerLine := by
    rw [customLines, List.map_eq_flatMap]
    exact List.flatMap_congr fun entry hentry => writtenLines_valid (hvalid entry hentry)
  rw [hlines]
  exact mapM_readField fun entry hentry => (hvalid entry hentry).name

/-- Where the custom fields are valid, the head is read as what was set. -/
theorem readResponse_head {self : HttpResponse} {close : Bool}
    (hstatus : ¬ (self.status_code < 200 ∨ 599 < self.status_code))
    (hvalid : ∀ entry ∈ self.emittedFields, ValidHeader entry) (head : Bool) (tail : Bytes) :
    readResponse head ((self.headLines close).flatMap (· ++ CRLF) ++ CRLF ++ tail) =
      let status_code := self.status_code.toNat
      let fields := self.generatedFields close ++ self.emittedFields
      if head || status_code == 204 || status_code == 304 then
        some { status_code, fields, body := [], rest := tail }
      else (readLength fields).bind fun length =>
        if length ≤ tail.length then
          some { status_code, fields, body := tail.take length, rest := tail.drop length }
        else none :=
  readResponse_lines hstatus (customLines_valid hvalid) head tail

/-- What a client knows once it has read a response that was sent with these flags. -/
structure Recovers (res : HttpResponse) (close head : Bool) (reading : Reading) : Prop where
  status_code : (reading.status_code : Int) = res.status_code
  fields : reading.fields = res.generatedFields close ++ res.emittedFields
  custom : ∀ entry ∈ res.headers.entries, ownedName entry.1 = false → entry ∈ reading.fields
  connection : named (ascii "connection") reading.fields =
    [(ascii "Connection", ascii (if close then "close" else "keep-alive"))]
  content_length : named (ascii "content-length") reading.fields =
    if res.status_code = 204 ∨ res.status_code = 304 then []
    else [(ascii "Content-Length", decimal.print res.active_body.length)]
  body : reading.body =
    if head = true ∨ res.status_code = 204 ∨ res.status_code = 304 then [] else res.active_body

/-- A serialized response is read back as it was built, from any stream that
starts with it, and what follows it is left to be read. -/
theorem readResponse_serialize (self : HttpResponse) (close head : Bool) (rest : Bytes)
    (hstatus : 200 ≤ self.status_code ∧ self.status_code ≤ 599)
    (hvalid : ∀ entry ∈ self.headers.entries, ValidHeader entry) :
    ∃ out reading, self.serialize close head = .ok out ∧
      readResponse head (out ++ rest) = some reading ∧ reading.rest = rest ∧
      self.Recovers close head reading := by
  have hsupported : ¬ (self.status_code < 200 ∨ 599 < self.status_code) := by omega
  have hemitted : ∀ entry ∈ self.emittedFields, ValidHeader entry := fun entry hentry =>
    hvalid entry (List.mem_filter.mp hentry).1
  have hcode : ((self.status_code.toNat : Nat) : Int) = self.status_code := by omega
  have hbodiless : self.bodiless = true ↔ self.status_code = 204 ∨ self.status_code = 304 := by
    simp [bodiless]
  let reading : Reading :=
    { status_code := self.status_code.toNat
      fields := self.generatedFields close ++ self.emittedFields
      body := self.sentBody head
      rest }
  refine ⟨_, reading, serialize_eq close head hsupported, ?_, rfl, ?_⟩
  · rw [List.append_assoc, readResponse_head hsupported hemitted]
    have hskip_iff : (head || self.status_code.toNat == 204 || self.status_code.toNat == 304) = true ↔
        head = true ∨ self.status_code = 204 ∨ self.status_code = 304 := by
      have h204 : self.status_code.toNat = 204 ↔ self.status_code = 204 := by omega
      have h304 : self.status_code.toNat = 304 ↔ self.status_code = 304 := by omega
      simp only [Bool.or_eq_true, beq_iff_eq, h204, h304, or_assoc]
    by_cases hnone : head = true ∨ self.status_code = 204 ∨ self.status_code = 304
    · have hskip := hskip_iff.mpr hnone
      simp only [hskip, if_true, reading, sentBody, if_pos hnone, List.nil_append]
    · have hkeep := Bool.eq_false_iff.mpr fun h => hnone (hskip_iff.mp h)
      have hlength := readLength_fields self close
        (Bool.eq_false_iff.mpr fun h => hnone (.inr (hbodiless.mp h)))
      simp only [hkeep, hlength, Option.bind_some, Bool.false_eq_true, if_false, reading, sentBody,
        if_neg hnone, List.take_left, List.drop_left]
      rw [if_pos (by simp only [List.length_append]; omega)]
  · refine ⟨hcode, rfl, ?_, (named_fields self close).2.2, ?_, rfl⟩
    · intro entry hentry howned
      exact List.mem_append_right _ (List.mem_filter.mpr ⟨hentry, by simp [howned]⟩)
    · rw [(named_fields self close).2.1]
      by_cases hbody : self.status_code = 204 ∨ self.status_code = 304
      · rw [if_pos (hbodiless.mpr hbody), if_pos hbody]
      · rw [if_neg (fun h => hbody (hbodiless.mp h)), if_neg hbody]
        rfl

/-- A response to HEAD with a custom field, followed by a second response. -/
theorem readResponse_serialize_head :
    ∃ out reading, (({} : HttpResponse).text (ascii "abc") |>.header (ascii "X-Test") (ascii "yes")).serialize
        true true = .ok out ∧
      readResponse true (out ++ ascii "HTTP/1.1 ") = some reading ∧ reading.rest = ascii "HTTP/1.1 " ∧
      (({} : HttpResponse).text (ascii "abc") |>.header (ascii "X-Test") (ascii "yes")).Recovers
        true true reading :=
  readResponse_serialize _ true true (ascii "HTTP/1.1 ") (by decide) (by
    intro entry hentry
    rw [List.mem_singleton.mp hentry]
    exact ⟨by decide +kernel, by decide, by decide⟩)

end octane.HttpResponse
