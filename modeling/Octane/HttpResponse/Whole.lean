import Octane.HttpResponse.Reader

open search

namespace octane.HttpResponse

/-- Whether a client measures the body by the length that the head announces: what
answers HEAD has none, nor has a 204 or a 304. -/
def Measured (asked : Bool) (status_code : Int) : Prop := asked = false ∧ status_code ≠ 204 ∧ status_code ≠ 304

instance (asked : Bool) (status_code : Int) : Decidable (Measured asked status_code) :=
  inferInstanceAs (Decidable (_ ∧ _ ∧ _))

/-- One complete response to the request that was sent (`asked` when it was HEAD).
The client reads the head and finds the body behind it, with nothing left over, and
no other framing contradicts the length that measures the body. -/
structure Whole (asked : Bool) (header body : Bytes) (reading : Reading) : Prop where
  read : readResponse asked (header ++ body) = some reading
  body : reading.body = body
  rest : reading.rest = []
  unchunked : Measured asked reading.status_code → named (ascii "transfer-encoding") reading.fields = []

/-- The test by which the reader skips the body, as a proposition about the status. -/
theorem skipped_iff (asked : Bool) (status_code : Nat) :
    (asked || status_code == 204 || status_code == 304) = true ↔ ¬ Measured asked status_code := by
  have h204 : (status_code : Int) = 204 ↔ status_code = 204 := by omega
  have h304 : (status_code : Int) = 304 ↔ status_code = 304 := by omega
  simp only [Measured, Bool.or_eq_true, beq_iff_eq, ne_eq, not_and_or, not_not, Bool.not_eq_false, or_assoc,
    h204, h304]

/-- What the reader has found, once it has read a response. -/
theorem readResponse_inv {asked : Bool} {input : Bytes} {reading : Reading}
    (h : readResponse asked input = some reading) :
    ∃ i, findSub CRLFCRLF input = some i ∧ input.drop (i + 4) = reading.body ++ reading.rest ∧
      readStatus ((terminated CRLF CRLF_ne_nil (input.take (i + 2))).headD []) = some reading.status_code ∧
      (terminated CRLF CRLF_ne_nil (input.take (i + 2))).tail.mapM readField = some reading.fields ∧
      if Measured asked reading.status_code then readLength reading.fields = some reading.body.length
      else reading.body = [] := by
  rw [readResponse] at h
  simp only [Option.bind_eq_bind, Option.bind_eq_some_iff] at h
  obtain ⟨i, hfind, status_code, hstatus, fields, hfields, h⟩ := h
  by_cases hskip : (asked || status_code == 204 || status_code == 304) = true
  · rw [if_pos hskip, Option.some.injEq] at h
    subst h
    refine ⟨i, hfind, rfl, hstatus, hfields, ?_⟩
    rw [if_neg ((skipped_iff _ _).mp hskip)]
  · rw [if_neg hskip] at h
    obtain ⟨length, hlength, h⟩ := Option.bind_eq_some_iff.mp h
    split_ifs at h with hroom
    cases h
    refine ⟨i, hfind, (List.take_append_drop length _).symm, hstatus, hfields, ?_⟩
    rw [if_pos (not_not.mp fun h => hskip ((skipped_iff _ _).mpr h)), hlength, List.length_take, Nat.min_eq_left hroom]

/-- What the head of a whole response is read as: the lines that were generated,
and then whatever the custom fields came to. -/
theorem Whole.fields {self : HttpResponse} {close asked : Bool} {header body : Bytes} {reading : Reading}
    (hhead : self.serialize_headers close = .ok header) (h : Whole asked header body reading) :
    (reading.status_code : Int) = self.status_code ∧ ∃ custom, self.customLines.mapM readField = some custom ∧
      reading.fields = self.generatedFields close ++ custom := by
  obtain ⟨hsupported, rfl⟩ := serialize_headers_ok hhead
  obtain ⟨i, hfind, hdrop, hstatus, hfields, _⟩ := readResponse_inv h.read
  have hroom := findSub_add_length_le hfind
  have hfour : CRLFCRLF.length = 4 := rfl
  have htwo : CRLF.length = 2 := rfl
  have hend : i + 2 = ((self.headLines close).flatMap (· ++ CRLF)).length := by
    have hlength := congrArg List.length hdrop
    rw [h.body, h.rest, List.append_nil] at hlength
    simp only [List.length_drop, List.length_append] at hlength hroom
    omega
  rw [hend, List.append_assoc, List.take_left, terminated_wireLines close hsupported, wireLines] at hstatus hfields
  rw [List.cons_append, List.headD_cons, readStatus_statusLine hsupported, Option.some.injEq] at hstatus
  rw [List.cons_append, List.tail_cons, mapM_readField_generated, Option.map_eq_some_iff] at hfields
  obtain ⟨custom, hcustom, hread⟩ := hfields
  exact ⟨by omega, custom, hcustom, hread.symm⟩

/-- A field under a name that the serializer skips is not emitted. -/
theorem emittedFields_header {self : HttpResponse} {key : Bytes} (howned : ownedName key = true) (val : Bytes) :
    (self.header key val).emittedFields = self.emittedFields := by
  have hreplaced : ∀ entries : List (Bytes × Bytes),
      (entries.map fun entry => if equal_to entry.1 key then (entry.1, val) else entry).filter
          (fun entry => !ownedName entry.1) = entries.filter fun entry => !ownedName entry.1 := by
    intro entries
    induction entries with
    | nil => rfl
    | cons entry entries ih =>
      rw [List.map_cons]
      by_cases hkey : equal_to entry.1 key = true
      · have hskipped : ownedName entry.1 = true := by
          rw [equal_to_iff.mp hkey]
          exact howned
        rw [if_pos hkey, List.filter_cons_of_neg (by simp [hskipped]), List.filter_cons_of_neg (by simp [hskipped]), ih]
      · rw [if_neg hkey, List.filter_cons, List.filter_cons, ih]
  change (self.headers.assign equal_to key val).entries.filter (fun entry => !ownedName entry.1) = _
  unfold UnorderedMap.assign
  cases self.headers.find equal_to key with
  | none => simp [howned, emittedFields]
  | some found => exact hreplaced self.headers.entries

end octane.HttpResponse
