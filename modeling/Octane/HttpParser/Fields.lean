import Octane.HttpParser.RequestLine

open search

namespace octane.HttpParser

/-- A string without the blanks at its ends. -/
def trimmed (s : Bytes) : Bytes := (s.dropWhile isBlank).rdropWhile isBlank

/-- What is left of a view once its leading blanks are gone. -/
theorem trimFront_bytes (off : Nat) (s : Bytes) : (trimFront off s).bytes = s.dropWhile isBlank := by
  induction s generalizing off with
  | nil => rfl
  | cons c rest ih =>
    by_cases hc : isBlank c
    · simp [trimFront, hc, ih]
    · simp [trimFront, hc]

@[simp] theorem trim_bytes (s : StringView) : (trim s).bytes = trimmed s.bytes := by
  simp [trim, trimmed, trimFront_bytes]

theorem mem_dropWhile_or {p : UInt8 → Bool} {s : Bytes} {c : UInt8} (h : c ∈ s) :
    c ∈ s.dropWhile p ∨ p c = true := by
  rw [← List.takeWhile_append_dropWhile (p := p) (l := s)] at h
  rcases List.mem_append.mp h with htaken | hkept
  · exact .inr (List.mem_takeWhile_imp htaken)
  · exact .inl hkept

/-- Trimming removes blanks only. -/
theorem mem_trimmed_or {s : Bytes} {c : UInt8} (h : c ∈ s) : c ∈ trimmed s ∨ isBlank c = true := by
  rcases mem_dropWhile_or (p := isBlank) h with hkept | hblank
  · rcases mem_dropWhile_or (p := isBlank) (List.mem_reverse.mpr hkept) with hlast | hblank
    · exact .inl (List.mem_reverse.mpr hlast)
    · exact .inr hblank
  · exact .inr hblank

theorem valueChar_of_isBlank {c : UInt8} (h : isBlank c = true) : valueChar c = true := by
  simp only [isBlank, Bool.or_eq_true, beq_iff_eq] at h
  rcases h with rfl | rfl <;> decide

/-- Blanks are allowed in values, so that it is enough to look at the trimmed one. -/
theorem all_valueChar_of_trimmed {s : Bytes} (h : (trimmed s).all valueChar = true) :
    s.all valueChar = true := by
  rw [List.all_eq_true] at h ⊢
  intro c hc
  exact (mem_trimmed_or hc).elim (h c) valueChar_of_isBlank

/-- A field line of a head: its name and what follows the colon. -/
abbrev Field := Bytes × Bytes

/-- A field line as the wire has it. -/
def fieldLine (field : Field) : Bytes := field.1 ++ 58 :: field.2

structure ValidField (field : Field) : Prop where
  name : token field.1 = true
  value : field.2.all valueChar = true

/-- The names that may not be repeated. -/
def framingNames : List Bytes :=
  [ascii "content-length", ascii "host", ascii "transfer-encoding"]

/-- The test of the source for the three framing names, as a membership. -/
theorem framingNames_any (key : Bytes) :
    (iequals key (ascii "content-length") || iequals key (ascii "host") ||
      iequals key (ascii "transfer-encoding")) = framingNames.any (CaseInsensitiveEqual key) := by
  simp [framingNames, iequals, Bool.or_assoc]

/-- The first field with a name, in any letter case. -/
def firstField (fields : List Field) (name : Bytes) : Option Field :=
  fields.find? fun field => CaseInsensitiveEqual field.1 name

/-- The header map holds the trimmed value of the first field of each name, and
no framing name has been given twice. -/
structure Collected (fields : List Field) (headers : HeaderMap) : Prop where
  lookup : ∀ name, (headers.get HeaderMap.keyEq (.ofBytes name)).map (·.bytes) =
    (firstField fields name).map fun field => trimmed field.2
  unique : ∀ name ∈ framingNames,
    (fields.filter fun field => CaseInsensitiveEqual field.1 name).length ≤ 1

/-- No line, no entry: where the loop over the header lines begins. -/
theorem Collected.empty : Collected [] {} where
  lookup _ := rfl
  unique _ _ := by simp

/-- An absent key of the map is a name that no field line has had. -/
theorem Collected.not_mem_of_find_none {fields : List Field} {headers : HeaderMap}
    (h : Collected fields headers) {key : StringView}
    (hnone : headers.find HeaderMap.keyEq key = none) :
    ∀ field ∈ fields, CaseInsensitiveEqual field.1 key.bytes = false := by
  have hlookup := h.lookup key.bytes
  have hsame : HeaderMap.keyEq key (.ofBytes key.bytes) = true := CaseInsensitiveEqual_refl key.bytes
  rw [UnorderedMap.get, ← HeaderMap.keyEq_lawful.find_congr hsame, hnone] at hlookup
  have hfirst : firstField fields key.bytes = none := Option.map_eq_none_iff.mp hlookup.symm
  simpa [firstField] using hfirst

/-- A lookup by name sees the first field of that name, trimmed. -/
theorem Collected.header_bytes {fields : List Field} {req : HttpRequest}
    (h : Collected fields req.headers) (name : Bytes) :
    (req.header name).bytes = ((firstField fields name).map fun field => trimmed field.2).getD [] := by
  rw [← h.lookup name, HttpRequest.header]
  cases req.headers.get HeaderMap.keyEq (.ofBytes name) <;> rfl

/-- Storing one more field keeps the map in step with the lines read: the first value
of each name stays, and a framing name that comes again has been refused before. -/
theorem Collected.add {fields : List Field} {headers : HeaderMap} (h : Collected fields headers)
    {field : Field} {key value : StringView} (hkey : key.bytes = field.1)
    (hvalue : value.bytes = trimmed field.2)
    (hfresh : ∀ name ∈ framingNames, CaseInsensitiveEqual field.1 name = true →
      headers.find HeaderMap.keyEq key = none) :
    Collected (fields ++ [field]) (headers.try_emplace HeaderMap.keyEq key value).1 where
  lookup name := by
    have hlookup := h.lookup name
    have hsame : HeaderMap.keyEq key (.ofBytes name) = CaseInsensitiveEqual field.1 name := by
      rw [← hkey]
      rfl
    simp only [UnorderedMap.get, firstField, UnorderedMap.find_try_emplace HeaderMap.keyEq_lawful,
      List.find?_append, hsame] at hlookup ⊢
    cases hold : headers.find HeaderMap.keyEq (.ofBytes name) with
    | some entry =>
      cases hfirst : fields.find? fun field => CaseInsensitiveEqual field.1 name with
      | none => simp [hold, hfirst] at hlookup
      | some first => simpa [hold, hfirst] using hlookup
    | none =>
      cases hfirst : fields.find? fun field => CaseInsensitiveEqual field.1 name with
      | some first => simp [hold, hfirst] at hlookup
      | none => by_cases hname : CaseInsensitiveEqual field.1 name <;> simp [hname, hvalue]
  unique name hname := by
    rw [List.filter_append]
    by_cases hmatch : CaseInsensitiveEqual field.1 name = true
    · have hnone := h.not_mem_of_find_none (hfresh name hname hmatch)
      have hbefore : fields.filter (fun other => CaseInsensitiveEqual other.1 name) = [] := by
        rw [List.filter_eq_nil_iff]
        intro other hother hequal
        have hback := CaseInsensitiveEqual_trans hequal (CaseInsensitiveEqual_symm hmatch)
        have hdiff := hnone other hother
        rw [hkey, hback] at hdiff
        cases hdiff
      simp [hbefore, hmatch]
    · simpa [hmatch] using h.unique name hname

/-- What an accepted field line looks like, and what it stores: a token, a colon and a
value, whose blanks are trimmed and whose bytes are allowed. -/
theorem parseHeaderLine_ok {line : StringView} {req after : HttpRequest}
    (h : parseHeaderLine line req = .ok after) :
    ∃ field : Field, ∃ key value : StringView, line.bytes = fieldLine field ∧ ValidField field ∧
      key.bytes = field.1 ∧ value.bytes = trimmed field.2 ∧
      (∀ name ∈ framingNames, CaseInsensitiveEqual field.1 name = true →
        req.headers.find HeaderMap.keyEq key = none) ∧
      after = { req with headers := (req.headers.try_emplace HeaderMap.keyEq key value).1 } := by
  rw [parseHeaderLine, ascii_colon] at h
  split at h
  · cases h
  · next colon hcolon =>
    obtain ⟨name, rest, hline, _, _, hname, hrest, _⟩ := StringView.find_char_cut hcolon
    rw [hname, bind_ok] at h
    split at h
    · next htoken =>
      rw [hrest, bind_ok] at h
      dsimp only at h htoken
      split at h
      · next hvalid =>
        split at h
        · cases h
        · next hkept =>
          refine ⟨(name, rest), { off := line.off, bytes := name },
            trim { off := line.off + (colon + 1), bytes := rest }, hline,
            ⟨htoken, all_valueChar_of_trimmed ?_⟩, rfl, by simp, ?_, ?_⟩
          · simpa using hvalid
          · intro framing hframing hmatch
            rw [← UnorderedMap.try_emplace_inserted]
            by_contra hold
            apply hkept
            rw [framingNames_any]
            simp only [Bool.and_eq_true, Bool.not_eq_true', List.any_eq_true]
            exact ⟨by simpa using hold, framing, hframing, hmatch⟩
          · cases h
            rfl
      · cases h
    · cases h

/-- What the loop over the field lines has read, and what it has stored. By the
recursion of the loop; `Collected` is the invariant that carries it. -/
theorem parseHeaderLines_ok {head : StringView} {req after : HttpRequest}
    (h : parseHeaderLines head req = .ok after) {done : List Field}
    (hdone : Collected done req.headers) :
    ∃ fields, head.bytes = fields.flatMap (fun field => fieldLine field ++ CRLF) ++ CRLF ∧
      (∀ field ∈ fields, ValidField field) ∧ Collected (done ++ fields) after.headers ∧
      after = { req with headers := after.headers } := by
  induction hsize : head.size using Nat.strongRecOn generalizing head req done with
  | ind n ih =>
    rw [parseHeaderLines_unrolled] at h
    by_cases hend : head.bytes = CRLF
    · rw [if_pos hend] at h
      cases h
      exact ⟨[], by simp [hend], by simp, by simpa using hdone, rfl⟩
    · rw [if_neg hend] at h
      cases hfind : head.find CRLF with
      | none =>
        rw [hfind] at h
        cases h
      | some eol =>
        obtain ⟨before, tail, hbytes, _, hfirst, _, hcut⟩ := StringView.find_cut hfind
        rw [hfind, Option.elim_some, hfirst, bind_ok, bind_eq_ok_iff] at h
        obtain ⟨next, hline, h⟩ := h
        rw [show eol + 2 = eol + List.length CRLF from rfl, hcut, bind_ok] at h
        obtain ⟨field, key, value, hshape, hvalid, hkey, hvalue, hfresh, hnext⟩ := parseHeaderLine_ok hline
        have hadd := hdone.add hkey hvalue hfresh
        have hheaders : next.headers = (req.headers.try_emplace HeaderMap.keyEq key value).1 := by rw [hnext]
        rw [← hheaders] at hadd
        have hshorter : tail.length < n := by
          rw [← hsize, StringView.size, hbytes, List.length_append, List.length_append, List.length_cons]
          omega
        obtain ⟨fields, hfields, hallValid, hcollected, hafter⟩ := ih _ hshorter h hadd rfl
        refine ⟨field :: fields, ?_, ?_, ?_, ?_⟩
        · simp only at hshape hfields
          rw [hbytes, hfields]
          simp [hshape]
        · exact List.forall_mem_cons.mpr ⟨hvalid, hallValid⟩
        · simpa using hcollected
        · rw [hafter, hnext]

end octane.HttpParser
