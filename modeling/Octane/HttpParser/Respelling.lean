import Octane.HttpParser.Refusal

open search

namespace octane.HttpParser

/-- What someone between a client and the server may do to the lines of a head: write a name in
other letters or a value between other blanks, and exchange lines of different names. -/
inductive Rewrites : List Field → List Field → Prop where
  | respells (before after : List Field) {field other : Field}
      (hname : CaseInsensitiveEqual field.1 other.1 = true) (hvalue : trimmed field.2 = trimmed other.2) :
      Rewrites (before ++ field :: after) (before ++ other :: after)
  | exchanges (before after : List Field) {first second : Field}
      (hnames : CaseInsensitiveEqual first.1 second.1 = false) :
      Rewrites (before ++ first :: second :: after) (before ++ second :: first :: after)

/-- Every name has the same first value and as many lines. -/
structure SameFields (fields others : List Field) : Prop where
  first : ∀ name, ((firstField fields name).map fun field => trimmed field.2) =
    (firstField others name).map fun field => trimmed field.2
  count : ∀ name, (fields.filter fun field => CaseInsensitiveEqual field.1 name).length =
    (others.filter fun field => CaseInsensitiveEqual field.1 name).length

theorem SameFields.refl (fields : List Field) : SameFields fields fields := ⟨fun _ => rfl, fun _ => rfl⟩

theorem SameFields.symm {fields others : List Field} (h : SameFields fields others) : SameFields others fields :=
  ⟨fun name => (h.first name).symm, fun name => (h.count name).symm⟩

theorem SameFields.trans {fields others more : List Field} (h : SameFields fields others)
    (h' : SameFields others more) : SameFields fields more :=
  ⟨fun name => (h.first name).trans (h'.first name), fun name => (h.count name).trans (h'.count name)⟩

/-- Fields that say the same do so between any others: a rewriting in the middle of
a head is one of the head. -/
theorem SameFields.append {fields others : List Field} (h : SameFields fields others) (before after : List Field) :
    SameFields (before ++ (fields ++ after)) (before ++ (others ++ after)) where
  first name := by
    have hfirst := h.first name
    simp only [firstField, List.find?_append, Option.map_or] at hfirst ⊢
    rw [hfirst]
  count name := by
    have hcount := h.count name
    simp only [List.filter_append, List.length_append] at hcount ⊢
    rw [hcount]

/-- A name can be asked for under any of its spellings. -/
theorem CaseInsensitiveEqual_congr {a b : Bytes} (h : CaseInsensitiveEqual a b = true) (c : Bytes) :
    CaseInsensitiveEqual a c = CaseInsensitiveEqual b c :=
  Bool.eq_iff_iff.mpr ⟨CaseInsensitiveEqual_trans (CaseInsensitiveEqual_symm h), CaseInsensitiveEqual_trans h⟩

/-- Each rewriting leaves what the fields say: letter case and blanks are not looked
at, and lines of different names are looked up apart. -/
theorem Rewrites.sameFields {fields others : List Field} (h : Rewrites fields others) : SameFields fields others := by
  cases h with
  | respells before after hname hvalue =>
    rename_i field other
    have hline : SameFields [field] [other] := by
      refine ⟨fun name => ?_, fun name => ?_⟩
      · simp only [firstField, List.find?_cons, List.find?_nil, CaseInsensitiveEqual_congr hname name]
        cases CaseInsensitiveEqual other.1 name
        · rfl
        · exact congrArg some hvalue
      · simp only [List.filter_cons, List.filter_nil, CaseInsensitiveEqual_congr hname name]
        cases CaseInsensitiveEqual other.1 name <;> rfl
    exact hline.append before after
  | exchanges before after hnames =>
    rename_i first second
    -- at most one of the two lines has the name that is looked up
    have hone : ∀ name, CaseInsensitiveEqual first.1 name = true → CaseInsensitiveEqual second.1 name = false := by
      intro name hfirst
      refine Bool.eq_false_of_not_eq_true fun hsecond => ?_
      rw [CaseInsensitiveEqual_trans hfirst (CaseInsensitiveEqual_symm hsecond)] at hnames
      cases hnames
    have hlines : SameFields [first, second] [second, first] := by
      refine ⟨fun name => ?_, fun name => ?_⟩
      · have hname := hone name
        simp only [firstField, List.find?_cons, List.find?_nil]
        cases hfirst : CaseInsensitiveEqual first.1 name <;> cases hsecond : CaseInsensitiveEqual second.1 name
        · rfl
        · rfl
        · rfl
        · rw [hname hfirst] at hsecond
          cases hsecond
      · simp only [List.filter_cons, List.filter_nil]
        cases CaseInsensitiveEqual first.1 name <;> cases CaseInsensitiveEqual second.1 name <;> rfl
    exact hlines.append before after

/-- Letter case does not decide what may stand in a name; checked for every byte. -/
theorem tokenChar_foldCase : ∀ c : UInt8, tokenChar (foldCase c) = tokenChar c := by
  decide +kernel

/-- Letter case does not matter to whether a name is a token. -/
theorem token_congr {a b : Bytes} (h : CaseInsensitiveEqual a b = true) : token a = token b := by
  have hfold : ∀ text : Bytes, token (text.map foldCase) = token text := by
    intro text
    simp [token, List.all_map, Function.comp_def, tokenChar_foldCase]
  rw [← hfold a, ← hfold b, CaseInsensitiveEqual_iff.mp h]

/-- A rewriting makes no invalid field out of valid ones. -/
theorem Rewrites.valid {fields others : List Field} (h : Rewrites fields others)
    (hvalid : ∀ field ∈ fields, ValidField field) : ∀ field ∈ others, ValidField field := by
  cases h with
  | respells before after hname hvalue =>
    rename_i field other
    have hfield := hvalid field (List.mem_append_right _ (List.mem_cons_self ..))
    have hother : ValidField other := by
      refine ⟨(token_congr hname).symm.trans hfield.name, all_valueChar_of_trimmed ?_⟩
      rw [← hvalue, List.all_eq_true]
      exact fun c hc => List.all_eq_true.mp hfield.value c ((trimmed_sublist _).subset hc)
    intro more hmore
    obtain hbefore | hrest := List.mem_append.mp hmore
    · exact hvalid more (List.mem_append_left _ hbefore)
    · obtain rfl | hafter := List.mem_cons.mp hrest
      · exact hother
      · exact hvalid more (List.mem_append_right _ (List.mem_cons_of_mem _ hafter))
  | exchanges before after hnames =>
    intro more hmore
    refine hvalid more ?_
    simp only [List.mem_append, List.mem_cons] at hmore ⊢
    exact hmore.imp_right or_left_comm.mp

/-- However many lines are rewritten, the names keep their first values and their numbers of lines. -/
theorem sameFields_of_rewrites {fields others : List Field} (h : Relation.ReflTransGen Rewrites fields others) :
    SameFields fields others := by
  induction h with
  | refl => exact .refl fields
  | tail _ hrewrites ih => exact ih.trans hrewrites.sameFields

/-- Any number of rewritings keep valid fields valid, by induction on their sequence.
-/
theorem valid_of_rewrites {fields others : List Field} (h : Relation.ReflTransGen Rewrites fields others)
    (hvalid : ∀ field ∈ fields, ValidField field) : ∀ field ∈ others, ValidField field := by
  induction h with
  | refl => exact hvalid
  | tail _ hrewrites ih => exact hrewrites.valid ih

namespace RequestHead

/-- The head as it may have become on the way to the server. -/
structure Respelled (head other : RequestHead) : Prop where
  method : other.method = head.method
  target : other.target = head.target
  version : other.version = head.version
  fields : Relation.ReflTransGen Rewrites head.fields other.fields

/-- Heads that the parser has no reason to treat differently. -/
structure SameParts (head other : RequestHead) : Prop where
  method : other.method = head.method
  target : other.target = head.target
  version : other.version = head.version
  fields : SameFields head.fields other.fields

variable {head other : RequestHead} {limits : HttpLimits} {req req' : HttpRequest}

theorem SameParts.symm (h : head.SameParts other) : other.SameParts head :=
  ⟨h.method.symm, h.target.symm, h.version.symm, h.fields.symm⟩

/-- Respelled heads have the same request line and say the same in their fields. -/
theorem Respelled.sameParts (h : head.Respelled other) : head.SameParts other :=
  ⟨h.method, h.target, h.version, sameFields_of_rewrites h.fields⟩

/-- A respelled head is still one of the grammar. -/
theorem Respelled.wellFormed (h : head.Respelled other) (hhead : head.WellFormed) : other.WellFormed := by
  refine ⟨?_, ?_, ?_, valid_of_rewrites h.fields hhead.fields⟩
  · rw [h.method]
    exact hhead.method
  · rw [h.method, h.target]
    exact hhead.target
  · rw [h.version]
    exact hhead.version

/-- What a field says survives a respelling. -/
theorem SameParts.value (h : head.SameParts other) (name : Bytes) : other.value name = head.value name := by
  rw [RequestHead.value, ← h.fields.first, RequestHead.value]

/-- A request that names its host does so after a respelling. -/
theorem SameParts.addressed (h : head.SameParts other) (haddressed : head.Addressed) : other.Addressed := by
  refine ⟨fun name hname => ?_, ?_, ?_⟩
  · rw [← h.fields.count]
    exact haddressed.once name hname
  · rw [h.version, h.value]
    exact haddressed.host
  · rw [h.value]
    exact haddressed.host_chars

/-- Acceptance is about what the fields say, not how they are spelled. -/
theorem SameParts.acceptable (h : head.SameParts other) (hfields : head.Acceptable limits) :
    other.Acceptable limits := by
  refine ⟨h.addressed hfields.toAddressed, ?_, ?_, ?_, ?_⟩
  · rw [h.value]
    exact hfields.transfer_encoding
  · rw [h.value]
    exact hfields.digits
  · rw [h.value]
    exact hfields.length
  · rw [h.value]
    exact hfields.expect

/-- A reason to refuse the one is a reason to refuse the other. -/
theorem SameParts.refused (h : head.SameParts other) {status : Nat} (hrefused : head.Refused limits status) :
    other.Refused limits status := by
  have hvalue := h.value
  cases hrefused with
  | misaddressed haddressed => exact .misaddressed fun hother => haddressed (h.symm.addressed hother)
  | ambiguous haddressed htransfer hlength =>
    exact .ambiguous (h.addressed haddressed) (by rwa [hvalue]) (by rwa [hvalue])
  | transfer_encoding haddressed htransfer hlength =>
    exact .transfer_encoding (h.addressed haddressed) (by rwa [hvalue]) (by rwa [hvalue])
  | length haddressed htransfer hlength =>
    exact .length (h.addressed haddressed) (by rwa [hvalue]) (by rwa [hvalue])
  | too_large haddressed htransfer hdigits hrange hlarge =>
    exact .too_large (h.addressed haddressed) (by rwa [hvalue]) (by rwa [hvalue]) (by rwa [hvalue])
      (by rwa [hvalue])
  | expectation haddressed htransfer hdigits hlength hexpect =>
    exact .expectation (h.addressed haddressed) (by rwa [hvalue]) (by rwa [hvalue]) (by rwa [hvalue])
      (by rwa [hvalue])

end RequestHead

/-- Two requests that a handler cannot tell apart. -/
structure SameReading (req other : HttpRequest) : Prop where
  method : other.method = req.method
  path : other.path.bytes = req.path.bytes
  http_version : other.http_version.bytes = req.http_version.bytes
  query : ∀ key, other.query.bytesOf key = req.query.bytesOf key
  headers : ∀ name, (other.headers.get HeaderMap.keyEq (.ofBytes name)).map StringView.bytes =
    (req.headers.get HeaderMap.keyEq (.ofBytes name)).map StringView.bytes
  cookies : ∀ key, other.cookies.bytesOf key = req.cookies.bytesOf key
  content_length : other.content_length = req.content_length
  keep_alive : other.keep_alive = req.keep_alive
  content_type : other.content_type = req.content_type
  body : other.body = req.body
  params : other.params = req.params

/-- Two heads that say the same are read to requests that cannot be told apart. -/
theorem RequestHead.Reads.sameReading {head other : RequestHead} {req req' : HttpRequest} (h : head.SameParts other)
    (hreads : head.Reads req) (hreads' : other.Reads req') : SameReading req req' where
  method := by rw [hreads.method, hreads'.method, h.method]
  path := by rw [hreads.path, hreads'.path, h.target]
  http_version := by rw [hreads.http_version, hreads'.http_version, h.version]
  query key := by rw [hreads.query, hreads'.query, h.target]
  headers name := by rw [hreads.headers, hreads'.headers, h.fields.first]
  cookies key := by rw [hreads.cookies, hreads'.cookies, h.value]
  content_length := by rw [hreads.content_length, hreads'.content_length, h.value]
  keep_alive := by rw [hreads.keep_alive, hreads'.keep_alive, h.value, h.version]
  content_type := by rw [hreads.content_type, hreads'.content_type, h.value]
  body := by rw [hreads.body, hreads'.body]
  params := by rw [hreads.params, hreads'.params]

/-- A head that was respelled on the way is refused with the same status, or read to a request
that cannot be told from the one that was sent. -/
theorem RequestHead.Respelled.parsed {head other : RequestHead} {limits : HttpLimits} (h : head.Respelled other)
    (hhead : head.WellFormed) (hsize : head.encode.length ≤ limits.max_header_bytes)
    (hsize' : other.encode.length ≤ limits.max_header_bytes) :
    (∃ status : Nat, parse_headers head.encode limits = .error (.HttpParseError status) ∧
        parse_headers other.encode limits = .error (.HttpParseError status)) ∨
      ∃ req req', parse_headers head.encode limits = .ok req ∧ parse_headers other.encode limits = .ok req' ∧
        SameReading req req' := by
  have hother := h.wellFormed hhead
  by_cases hfields : head.Acceptable limits
  · obtain ⟨req, hparse⟩ := (hhead.accepted_iff hsize).mpr hfields
    obtain ⟨req', hparse'⟩ := (hother.accepted_iff hsize').mpr (h.sameParts.acceptable hfields)
    exact .inr ⟨req, req', hparse, hparse', (hhead.reads hparse).sameReading h.sameParts (hother.reads hparse')⟩
  · obtain ⟨status, hrefused⟩ := exists_refused hfields
    exact .inl ⟨status, hhead.refused hsize hrefused, hother.refused hsize' (h.sameParts.refused hrefused)⟩

end octane.HttpParser
