import Octane.HttpResponse.Setters
import Octane.HttpResponse.Injection

namespace octane

/-- The value of the last `header` call for a name in any letter case. -/
def Setter.lastValue (calls : List Setter) (name : Bytes) : Option Bytes :=
  ((Setter.fields calls).reverse.find? fun field => CaseInsensitiveEqual field.1 name).map Prod.snd

namespace HttpResponse

/-- No two fields have names that are equal up to case. -/
def DistinctNames (fields : List (Bytes × Bytes)) : Prop :=
  fields.Pairwise fun first second => CaseInsensitiveEqual first.1 second.1 = false

/-- The field lines of a head that some calls have prepared. -/
structure UniqueFields (calls : List Setter) (lines : List (Bytes × Bytes)) : Prop where
  distinct : DistinctNames lines
  content_type : (named (ascii "Content-Type") lines).length = 1
  last_value : ∀ line ∈ lines, ownedName line.1 = false →
    ∀ value, Setter.lastValue calls line.1 = some value → line = onWire (line.1, value)

/-- Under one spelling of a name the last value set is what the map holds. -/
theorem performAll_get (calls : List Setter) (name : Bytes) :
    (({} : HttpResponse).performAll calls).headers.get equal_to name =
      ((Setter.fields calls).reverse.find? fun field => equal_to field.1 name).map Prod.snd := by
  rw [performAll_headers, UnorderedMap.get_foldl_assign equal_to_lawful, UnorderedMap.get_empty, Option.or_none]

/-- An emitted field is one that a call has set, and the last one under its exact name. -/
theorem emittedFields_performAll {calls : List Setter} {entry : Bytes × Bytes}
    (h : entry ∈ (({} : HttpResponse).performAll calls).emittedFields) :
    ownedName entry.1 = false ∧ entry ∈ Setter.fields calls ∧
      ((Setter.fields calls).reverse.find? fun field => equal_to field.1 entry.1) = some entry := by
  obtain ⟨hmem, howned⟩ := List.mem_filter.mp h
  have hget := UnorderedMap.Unique.get_of_mem equal_to_lawful
    (({} : HttpResponse).performAll calls).headers_unique hmem
  rw [performAll_get] at hget
  obtain ⟨field, hfind, hvalue⟩ := Option.map_eq_some_iff.mp hget
  have hname : field.1 = entry.1 := by simpa [equal_to_iff] using List.find?_some hfind
  obtain rfl : field = entry := Prod.ext hname hvalue
  exact ⟨by simpa using howned, List.mem_reverse.mp (List.mem_of_find?_eq_some hfind), hfind⟩

/-- Every name that a call has set is emitted, unless the serializer owns it. -/
theorem exists_emittedFields {calls : List Setter} {field : Bytes × Bytes} (h : field ∈ Setter.fields calls)
    (howned : ownedName field.1 = false) :
    ∃ entry ∈ (({} : HttpResponse).performAll calls).emittedFields, entry.1 = field.1 := by
  have hfind : (((Setter.fields calls).reverse.find? fun other => equal_to other.1 field.1)).isSome := by
    rw [List.find?_isSome]
    exact ⟨field, List.mem_reverse.mpr h, equal_to_iff.mpr rfl⟩
  have hget : ((({} : HttpResponse).performAll calls).headers.get equal_to field.1).isSome := by
    rw [performAll_get, Option.isSome_map]
    exact hfind
  rw [UnorderedMap.get, Option.isSome_map] at hget
  obtain ⟨entry, hentry⟩ := Option.isSome_iff_exists.mp hget
  have hname : entry.1 = field.1 := equal_to_iff.mp (UnorderedMap.eqv_of_find hentry)
  refine ⟨entry, List.mem_filter.mpr ⟨UnorderedMap.mem_of_find hentry, ?_⟩, hname⟩
  rw [hname, howned]
  rfl

/-- Whether the serializer skips a name does not depend on its letter case. -/
theorem ownedName_congr {name other : Bytes} (h : CaseInsensitiveEqual name other = true) :
    ownedName name = ownedName other := by
  have hsame : ∀ owned, CaseInsensitiveEqual name owned = CaseInsensitiveEqual other owned := by
    intro owned
    rw [Bool.eq_iff_iff, CaseInsensitiveEqual_iff, CaseInsensitiveEqual_iff, CaseInsensitiveEqual_iff.mp h]
  rw [ownedName, ownedName, hsame, hsame, hsame]

/-- Emitted under two spellings, a name stands on two lines: the map compares names
byte by byte and the reader does not. -/
theorem distinctNames_emittedFields_iff (calls : List Setter) :
    DistinctNames (({} : HttpResponse).performAll calls).emittedFields ↔
      ∀ first ∈ Setter.fields calls, ∀ second ∈ Setter.fields calls, ownedName first.1 = false →
        CaseInsensitiveEqual first.1 second.1 = true → first.1 = second.1 := by
  have hsymm : Std.Symm fun first second : Bytes × Bytes => CaseInsensitiveEqual first.1 second.1 = false :=
    ⟨fun first second h => Bool.eq_false_of_not_eq_true fun hback => by
      simp [CaseInsensitiveEqual_symm hback] at h⟩
  constructor
  · intro hdistinct first hfirst second hsecond howned hsame
    obtain ⟨one, hone, hname⟩ := exists_emittedFields hfirst howned
    obtain ⟨two, htwo, hother⟩ := exists_emittedFields hsecond (ownedName_congr hsame ▸ howned)
    by_contra hne
    have hentries : one ≠ two := fun heq => hne (by rw [← hname, ← hother, heq])
    have hapart := List.Pairwise.forall hdistinct hone htwo hentries
    rw [hname, hother, hsame] at hapart
    cases hapart
  · intro hspelled
    have hunique : (({} : HttpResponse).performAll calls).emittedFields.Pairwise
        fun first second => equal_to first.1 second.1 = false :=
      List.Pairwise.filter _ (({} : HttpResponse).performAll calls).headers_unique
    refine hunique.imp_of_mem fun {first second} hfirst hsecond hapart => ?_
    obtain ⟨howned, hset, _⟩ := emittedFields_performAll hfirst
    obtain ⟨_, hother, _⟩ := emittedFields_performAll hsecond
    refine Bool.eq_false_of_not_eq_true fun hsame => ?_
    rw [equal_to_iff.mpr (hspelled first hset second hother howned hsame)] at hapart
    cases hapart

/-- The shortcuts of the test change nothing. -/
theorem namesContentType_eq (key : Bytes) :
    namesContentType key = CaseInsensitiveEqual key (ascii "Content-Type") := by
  have hlower : (ascii "content-type").map foldCase = (ascii "Content-Type").map foldCase := by decide +kernel
  rw [namesContentType, Bool.eq_iff_iff, Bool.and_eq_true, CaseInsensitiveEqual_iff, CaseInsensitiveEqual_iff,
    hlower, and_iff_right_iff_imp]
  intro hfold
  cases key with
  | nil => cases hfold
  | cons c rest =>
    have hlength : (c :: rest).length = (ascii "Content-Type").length := by
      simpa using congrArg List.length hfold
    have hfirst : foldCase c = 99 := (List.cons.inj hfold).1
    have hcases : c = 99 ∨ c = 67 := by
      rw [foldCase] at hfirst
      split at hfirst
      · exact .inr (eq_sub_of_add_eq hfirst)
      · exact .inl hfirst
    obtain rfl | rfl := hcases
    · rw [hlength]
      rfl
    · rw [hlength]
      rfl

/-- The serializer writes a Content-Type of its own exactly where no emitted field
is one in any spelling. -/
theorem not_custom_content_type_iff {self : HttpResponse} :
    self.custom_content_type = false ↔
      ∀ entry ∈ self.emittedFields, CaseInsensitiveEqual entry.1 (ascii "Content-Type") = false := by
  have hfree : ∀ name, CaseInsensitiveEqual name (ascii "Content-Type") = true → ownedName name = false := by
    intro name hname
    rw [ownedName_congr hname]
    decide +kernel
  simp only [custom_content_type, List.any_eq_false, namesContentType_eq, Bool.not_eq_true]
  constructor
  · intro hnone entry hentry
    exact hnone entry (List.mem_filter.mp hentry).1
  · intro hnone entry hentry
    refine Bool.eq_false_of_not_eq_true fun hname => ?_
    have hemitted : entry ∈ self.emittedFields :=
      List.mem_filter.mpr ⟨hentry, by rw [hfree entry.1 hname]; rfl⟩
    rw [hnone entry hemitted] at hname
    cases hname

/-- The generated fields have distinct names, which no emitted field has, so that only
the emitted ones can clash with each other. -/
theorem distinctNames_fields_iff (self : HttpResponse) (close : Bool) :
    DistinctNames (self.generatedFields close ++ self.emittedFields) ↔ DistinctNames self.emittedFields := by
  have hgenerated : DistinctNames (self.generatedFields close) := by
    cases hcustom : self.custom_content_type <;> cases hbody : self.bodiless <;>
      simp only [generatedFields, hcustom, hbody, contentLength, connection, DistinctNames] <;>
      simp <;> decide +kernel
  have happart : ∀ field ∈ self.generatedFields close, ∀ entry ∈ self.emittedFields,
      CaseInsensitiveEqual field.1 entry.1 = false := by
    intro field hfield entry hentry
    refine Bool.eq_false_of_not_eq_true fun hsame => ?_
    have hfree : ownedName entry.1 = false := by simpa using (List.mem_filter.mp hentry).2
    rw [← ownedName_congr hsame] at hfree
    have howned : ownedName (ascii "Content-Length") = true ∧ ownedName (ascii "Connection") = true := by
      decide +kernel
    rw [generatedFields, List.mem_append, List.mem_append] at hfield
    obtain htype | hlength | hconnection := hfield
    · split at htype
      · cases htype
      · rename_i hcustom
        have hnone := not_custom_content_type_iff.mp (by simpa using hcustom) entry hentry
        rw [List.mem_singleton.mp htype] at hsame
        rw [CaseInsensitiveEqual_symm hsame] at hnone
        cases hnone
    · split at hlength
      · cases hlength
      · rw [List.mem_singleton.mp hlength] at hfree
        exact absurd (howned.1.symm.trans hfree) (by simp)
    · rw [List.mem_singleton.mp hconnection] at hfree
      exact absurd (howned.2.symm.trans hfree) (by simp)
  rw [DistinctNames, List.pairwise_append]
  exact ⟨fun h => h.2.1, fun h => ⟨hgenerated, h, happart⟩⟩

/-- Names that are distinct up to letter case come once each. -/
theorem length_named_le_one {fields : List (Bytes × Bytes)} (h : DistinctNames fields) (name : Bytes) :
    (named name fields).length ≤ 1 := by
  have hnamed : DistinctNames (named name fields) := List.Pairwise.filter _ h
  have hname : ∀ field ∈ named name fields, CaseInsensitiveEqual field.1 name = true :=
    fun field hfield => (List.mem_filter.mp hfield).2
  cases hcases : named name fields with
  | nil => simp
  | cons first rest =>
    cases rest with
    | nil => simp
    | cons second rest =>
      rw [hcases] at hnamed hname
      have hsame := CaseInsensitiveEqual_trans (hname first (by simp))
        (CaseInsensitiveEqual_symm (hname second (by simp)))
      rw [List.rel_of_pairwise_cons hnamed (by simp)] at hsame
      cases hsame

/-- There is one Content-Type, the handler's or the serializer's. -/
theorem named_content_type {self : HttpResponse} (close : Bool) (h : DistinctNames self.emittedFields) :
    (named (ascii "Content-Type") (self.generatedFields close ++ self.emittedFields)).length = 1 := by
  refine le_antisymm (length_named_le_one ((distinctNames_fields_iff self close).mpr h) _) ?_
  rw [Nat.one_le_iff_ne_zero, ne_eq, List.length_eq_zero_iff, named, List.filter_eq_nil_iff]
  intro hnone
  cases hcustom : self.custom_content_type with
  | false =>
    refine hnone (ascii "Content-Type", get_content_type_sv self.content_type) ?_ (CaseInsensitiveEqual_refl _)
    simp [generatedFields, hcustom]
  | true =>
    have hemitted : self.custom_content_type = false :=
      not_custom_content_type_iff.mpr fun entry hentry =>
        by simpa using hnone entry (List.mem_append_right _ hentry)
    rw [hcustom] at hemitted
    cases hemitted

/-- With one spelling for each name, what a name was last set to is what is emitted. -/
theorem lastValue_of_emitted {calls : List Setter} {entry : Bytes × Bytes}
    (hspelled : ∀ field ∈ Setter.fields calls, CaseInsensitiveEqual entry.1 field.1 = true → entry.1 = field.1)
    (h : entry ∈ (({} : HttpResponse).performAll calls).emittedFields) :
    Setter.lastValue calls entry.1 = some entry.2 := by
  obtain ⟨_, _, hlast⟩ := emittedFields_performAll h
  have hsame : ∀ field ∈ (Setter.fields calls).reverse,
      CaseInsensitiveEqual field.1 entry.1 = equal_to field.1 entry.1 := by
    intro field hfield
    rw [Bool.eq_iff_iff, equal_to_iff]
    constructor
    · intro hname
      exact (hspelled field (List.mem_reverse.mp hfield) (CaseInsensitiveEqual_symm hname)).symm
    · intro hname
      rw [hname]
      exact CaseInsensitiveEqual_refl _
  rw [Setter.lastValue, List.find?_congr hsame, hlast]
  rfl

/-- A name that the serializer writes for want of a custom one was never set. -/
theorem lastValue_of_generated {calls : List Setter} {close : Bool} {field : Bytes × Bytes}
    (hdistinct : DistinctNames ((({} : HttpResponse).performAll calls).generatedFields close ++
      (({} : HttpResponse).performAll calls).emittedFields))
    (h : field ∈ (({} : HttpResponse).performAll calls).generatedFields close)
    (howned : ownedName field.1 = false) : Setter.lastValue calls field.1 = none := by
  rw [Setter.lastValue, Option.map_eq_none_iff, List.find?_eq_none]
  intro set hset hname
  obtain ⟨entry, hentry, hspelled⟩ :=
    exists_emittedFields (List.mem_reverse.mp hset) ((ownedName_congr hname).trans howned)
  have hapart := (List.pairwise_append.mp hdistinct).2.2 field h entry hentry
  rw [hspelled, CaseInsensitiveEqual_symm hname] at hapart
  cases hapart

/-- The map of a response compares names as they are spelled: its fields are
unique by name exactly where no name is set in two spellings. -/
theorem uniqueFields_iff (calls : List Setter) (close : Bool)
    (hvalid : ∀ field ∈ Setter.fields calls, ValidHeader field) :
    (∀ out, (({} : HttpResponse).performAll calls).serialize_headers close = .ok out →
        UniqueFields calls (cutHead out)) ↔
      (Setter.lastStatus calls < 200 ∨ 599 < Setter.lastStatus calls) ∨
        ∀ first ∈ Setter.fields calls, ∀ second ∈ Setter.fields calls, ownedName first.1 = false →
          CaseInsensitiveEqual first.1 second.1 = true → first.1 = second.1 := by
  have hstatus : (({} : HttpResponse).performAll calls).status_code = Setter.lastStatus calls :=
    performAll_status_code {} calls
  have hemitted : ∀ entry ∈ (({} : HttpResponse).performAll calls).emittedFields, ValidHeader entry :=
    fun entry hentry => hvalid entry (emittedFields_performAll hentry).2.1
  rw [← distinctNames_emittedFields_iff, ← hstatus]
  constructor
  · intro hunique
    rw [or_iff_not_imp_left]
    intro hsupported
    have hdistinct := (hunique _ (serialize_headers_eq close hsupported)).distinct
    rw [cutHead_headLines hsupported hemitted, DistinctNames, List.pairwise_map] at hdistinct
    exact (distinctNames_fields_iff _ close).mp hdistinct
  · intro hcases out hout
    obtain ⟨hsupported, rfl⟩ := serialize_headers_ok hout
    have hdistinct := hcases.resolve_left hsupported
    have hspelled := (distinctNames_emittedFields_iff calls).mp hdistinct
    rw [cutHead_headLines hsupported hemitted]
    refine ⟨?_, ?_, ?_⟩
    · rw [DistinctNames, List.pairwise_map]
      exact (distinctNames_fields_iff _ close).mpr hdistinct
    · rw [named_map_onWire, List.length_map]
      exact named_content_type close hdistinct
    · intro line hline howned value hvalue
      obtain ⟨entry, hentry, rfl⟩ := List.mem_map.mp hline
      obtain hgenerated | hset := List.mem_append.mp hentry
      · have hnone := lastValue_of_generated ((distinctNames_fields_iff _ close).mpr hdistinct) hgenerated howned
        rw [show (onWire entry).1 = entry.1 from rfl, hnone] at hvalue
        cases hvalue
      · obtain ⟨_, hfield, _⟩ := emittedFields_performAll hset
        have hlast := lastValue_of_emitted
          (fun field hother => hspelled entry hfield field hother howned) hset
        rw [show (onWire entry).1 = entry.1 from rfl, hlast] at hvalue
        cases hvalue
        rfl

/-- A name set twice in one spelling. -/
def setAgain : List Setter :=
  [.header (ascii "X-Frame") (ascii "a"), .json (ascii "[]"), .header (ascii "X-Frame") (ascii "b")]

theorem uniqueFields_iff_setAgain :
    ∃ out, (({} : HttpResponse).performAll setAgain).serialize_headers false = .ok out ∧
      UniqueFields setAgain (cutHead out) := by
  have hvalid : ∀ field ∈ Setter.fields setAgain, ValidHeader field := by
    intro field hfield
    obtain rfl | rfl : field = (ascii "X-Frame", ascii "a") ∨ field = (ascii "X-Frame", ascii "b") := by
      simpa [setAgain, Setter.fields, Setter.field?, eq_comm] using hfield
    · exact ⟨by decide +kernel, by decide +kernel, by decide +kernel⟩
    · exact ⟨by decide +kernel, by decide +kernel, by decide +kernel⟩
  obtain ⟨out, hout⟩ := exists_ok_of_isOk
    (x := (({} : HttpResponse).performAll setAgain).serialize_headers false) (by decide +kernel)
  exact ⟨out, hout, (uniqueFields_iff setAgain false hvalid).mpr (.inr (by decide +kernel)) out hout⟩

/-- The content type set in two spellings. -/
def setTwice : List Setter :=
  [.header (ascii "Content-Type") (ascii "text/html"), .header (ascii "content-type") (ascii "text/css")]

theorem two_content_types : ¬ ∀ out,
    (({} : HttpResponse).performAll setTwice).serialize_headers false = .ok out →
      UniqueFields setTwice (cutHead out) := by
  intro hunique
  obtain ⟨out, hout⟩ := exists_ok_of_isOk
    (x := (({} : HttpResponse).performAll setTwice).serialize_headers false) (by decide +kernel)
  have hone := (hunique out hout).content_type
  obtain ⟨_, rfl⟩ := serialize_headers_ok hout
  revert hone
  decide +kernel

end HttpResponse

end octane
