import Octane.HttpResponse.Head

open search

namespace octane.HttpResponse

/-- The fields of a list with a name, in any letter case. -/
def named (name : Bytes) (fields : List (Bytes × Bytes)) : List (Bytes × Bytes) :=
  fields.filter fun field => CaseInsensitiveEqual field.1 name

/-- The fields of a name are found in each part of a head. -/
theorem named_append (name : Bytes) (first second : List (Bytes × Bytes)) :
    named name (first ++ second) = named name first ++ named name second :=
  List.filter_append ..

/-- No emitted custom field has a name that the serializer owns. -/
theorem named_emittedFields {self : HttpResponse} {name : Bytes}
    (howned : ∀ key, CaseInsensitiveEqual key name = true → ownedName key = true) :
    named name self.emittedFields = [] := by
  rw [named, List.filter_eq_nil_iff]
  intro entry hentry hname
  have hnot := (List.mem_filter.mp hentry).2
  rw [howned entry.1 hname] at hnot
  cases hnot

/-- The owned names among all fields of a head: what the serializer generates, since
it skips custom fields under these names in every spelling. -/
theorem named_fields (self : HttpResponse) (close : Bool) :
    named (ascii "transfer-encoding") (self.generatedFields close ++ self.emittedFields) = [] ∧
      named (ascii "content-length") (self.generatedFields close ++ self.emittedFields) =
        (if self.bodiless then [] else [self.contentLength]) ∧
      named (ascii "connection") (self.generatedFields close ++ self.emittedFields) =
        [connection close] := by
  have htype : ∀ name ∈ [ascii "transfer-encoding", ascii "content-length", ascii "connection"],
      CaseInsensitiveEqual (ascii "Content-Type") name = false := by decide +kernel
  have hlength : CaseInsensitiveEqual (ascii "Content-Length") (ascii "content-length") = true ∧
      CaseInsensitiveEqual (ascii "Content-Length") (ascii "transfer-encoding") = false ∧
      CaseInsensitiveEqual (ascii "Content-Length") (ascii "connection") = false := by decide +kernel
  have hconnection : CaseInsensitiveEqual (ascii "Connection") (ascii "connection") = true ∧
      CaseInsensitiveEqual (ascii "Connection") (ascii "transfer-encoding") = false ∧
      CaseInsensitiveEqual (ascii "Connection") (ascii "content-length") = false := by decide +kernel
  have hgenerated : ∀ name ∈ [ascii "transfer-encoding", ascii "content-length", ascii "connection"],
      named name (self.generatedFields close) =
        named name (if self.bodiless then [] else [self.contentLength]) ++
          named name [connection close] := by
    intro name hname
    rw [generatedFields, named_append, named_append]
    by_cases hcustom : self.custom_content_type
    · simp [hcustom, named]
    · simp [hcustom, named, htype name hname]
  refine ⟨?_, ?_, ?_⟩
  · rw [named_append, named_emittedFields (fun key h => by simp [ownedName, h]),
      hgenerated _ (by simp)]
    by_cases hbody : self.bodiless <;> simp [named, hbody, contentLength, connection, hlength, hconnection]
  · rw [named_append, named_emittedFields (fun key h => by simp [ownedName, h]),
      hgenerated _ (by simp)]
    by_cases hbody : self.bodiless <;> simp [named, hbody, contentLength, connection, hlength, hconnection]
  · rw [named_append, named_emittedFields (fun key h => by simp [ownedName, h]),
      hgenerated _ (by simp)]
    by_cases hbody : self.bodiless <;> simp [named, hbody, contentLength, connection, hlength, hconnection]

/-- The field lines of a serialized head: behind the status line and before
the empty line, each cut at its first colon. -/
def cutHead (out : Bytes) : List (Bytes × Bytes) :=
  ((terminated CRLF CRLF_ne_nil out).drop 1).dropLast.map HttpParser.cutField

/-- A field as it is cut from its line, with the blank behind the colon. -/
def onWire (field : Bytes × Bytes) : Bytes × Bytes := (field.1, 32 :: field.2)

/-- What the reader trims off the values does not change which names there are. -/
theorem named_map_onWire (name : Bytes) (fields : List (Bytes × Bytes)) :
    named name (fields.map onWire) = (named name fields).map onWire := by
  rw [named, List.filter_map]
  rfl

/-- What the serializer promises about the fields that a handler has set: a
status or a field it cannot emit makes it throw, and in what it returns no
field has added a line or taken a framing name. -/
structure InjectionSafe (res : HttpResponse) (close : Bool) : Prop where
  throws_iff : res.serialize_headers close = .error .invalid_argument ↔
    (res.status_code < 200 ∨ 599 < res.status_code) ∨
      ∃ entry ∈ res.emittedFields, ¬ ValidHeader entry
  otherwise_returns : ¬ ((res.status_code < 200 ∨ 599 < res.status_code) ∨
      ∃ entry ∈ res.emittedFields, ¬ ValidHeader entry) → ∃ out, res.serialize_headers close = .ok out
  lines : ∀ out, res.serialize_headers close = .ok out →
    out = (res.headLines close ++ [[]]).flatMap (· ++ CRLF) ∧
      terminated CRLF (by simp) out = res.headLines close ++ [[]]
  framing : ∀ out, res.serialize_headers close = .ok out →
    named (ascii "transfer-encoding") (cutHead out) = [] ∧
      named (ascii "content-length") (cutHead out) =
        (if res.bodiless then [] else [onWire res.contentLength]) ∧
      named (ascii "connection") (cutHead out) = [onWire (connection close)]

/-- A head without line breaks in its fields is cut into the lines that were
written, and the blank line. -/
theorem terminated_headLines {self : HttpResponse} {close : Bool}
    (hstatus : ¬ (self.status_code < 200 ∨ 599 < self.status_code))
    (hvalid : ∀ entry ∈ self.emittedFields, ValidHeader entry) :
    terminated CRLF (by simp) ((self.headLines close).flatMap (· ++ CRLF) ++ CRLF) =
      self.headLines close ++ [[]] := by
  have hclosed : terminated CRLF (by simp) (CRLF ++ []) = [[]] := by decide +kernel
  have hlines : terminated CRLF (by simp) ((self.headLines close).flatMap (· ++ CRLF) ++ CRLF) =
      self.headLines close ++ terminated CRLF (by simp) CRLF :=
    terminated_flatMap (self.headLines close)
      (fun line hline => (headLines_valid hstatus hvalid hline).2) CRLF
  rw [hlines]
  simpa using hclosed

/-- The fields of a head with valid custom fields are read off its lines. -/
theorem cutHead_headLines {self : HttpResponse} {close : Bool}
    (hstatus : ¬ (self.status_code < 200 ∨ 599 < self.status_code))
    (hvalid : ∀ entry ∈ self.emittedFields, ValidHeader entry) :
    cutHead ((self.headLines close).flatMap (· ++ CRLF) ++ CRLF) =
      (self.generatedFields close ++ self.emittedFields).map onWire := by
  have hfields : ∀ entry ∈ self.generatedFields close ++ self.emittedFields,
      (HttpParser.cutField ∘ headerLine) entry = onWire entry := by
    intro entry hentry
    obtain hgenerated | hemitted := List.mem_append.mp hentry
    · exact cutField_headerLine (generatedFields_valid hgenerated).name
    · exact cutField_headerLine (hvalid entry hemitted).name
  rw [cutHead, terminated_headLines hstatus hvalid, headLines, List.cons_append,
    List.drop_one, List.tail_cons, List.dropLast_concat, List.map_map]
  exact List.map_congr_left hfields

/-- The promise is kept exactly when there is nothing to reject but the status:
the serializer never looks at the custom fields it emits. -/
theorem injectionSafe_iff (self : HttpResponse) (close : Bool) :
    self.InjectionSafe close ↔
      (self.status_code < 200 ∨ 599 < self.status_code) ∨
        ∀ entry ∈ self.emittedFields, ValidHeader entry := by
  constructor
  · intro hsafe
    by_contra hbad
    simp only [not_or, not_forall] at hbad
    obtain ⟨hstatus, entry, hentry, hinvalid⟩ := hbad
    have hthrows := hsafe.throws_iff.mpr (.inr ⟨entry, hentry, hinvalid⟩)
    rw [serialize_headers_eq close (by simpa using hstatus)] at hthrows
    cases hthrows
  · intro hcases
    by_cases hstatus : self.status_code < 200 ∨ 599 < self.status_code
    · have hthrows := serialize_headers_error close hstatus
      refine ⟨?_, fun hnot => absurd (.inl hstatus) hnot, fun out h => ?_, fun out h => ?_⟩
      · exact ⟨fun _ => .inl hstatus, fun _ => hthrows⟩
      · rw [hthrows] at h
        cases h
      · rw [hthrows] at h
        cases h
    · have hvalid := hcases.resolve_left hstatus
      have hreturns := serialize_headers_eq close hstatus
      refine ⟨?_, fun _ => ⟨_, hreturns⟩, fun out h => ?_, fun out h => ?_⟩
      · rw [hreturns]
        constructor
        · intro h
          cases h
        · intro hbad
          obtain ⟨entry, hentry, hinvalid⟩ := hbad.resolve_left hstatus
          exact absurd (hvalid entry hentry) hinvalid
      · obtain ⟨_, rfl⟩ := serialize_headers_ok h
        exact ⟨by simp, terminated_headLines hstatus hvalid⟩
      · obtain ⟨_, rfl⟩ := serialize_headers_ok h
        obtain ⟨htransfer, hlength, hconnection⟩ := named_fields self close
        rw [cutHead_headLines hstatus hvalid, named_map_onWire, named_map_onWire, named_map_onWire, htransfer, hlength, hconnection]
        exact ⟨rfl, by cases self.bodiless <;> rfl, rfl⟩

/-- The response that the parser tests expect to be rejected is serialized. -/
theorem injected_line_serialized :
    ¬ ((({} : HttpResponse).text (ascii "abc")).header (ascii "X-Test")
        (ascii "value\r\nInjected: yes")).InjectionSafe false := by
  intro hsafe
  have hentry : (ascii "X-Test", ascii "value\r\nInjected: yes") ∈
      ((({} : HttpResponse).text (ascii "abc")).header (ascii "X-Test")
        (ascii "value\r\nInjected: yes")).emittedFields := by decide +kernel
  have hinvalid : ¬ ValidHeader (ascii "X-Test", ascii "value\r\nInjected: yes") := by
    intro hvalid
    exact hvalid.no_cr (by decide +kernel)
  have hthrows := hsafe.throws_iff.mpr (.inr ⟨_, hentry, hinvalid⟩)
  obtain ⟨out, hout⟩ := exists_ok_of_isOk (x := ((({} : HttpResponse).text (ascii "abc")).header
    (ascii "X-Test") (ascii "value\r\nInjected: yes")).serialize_headers false) (by decide +kernel)
  rw [hout] at hthrows
  cases hthrows

end octane.HttpResponse
