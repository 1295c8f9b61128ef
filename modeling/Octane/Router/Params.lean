import Octane.Router.Completeness

open search

namespace octane.Router

variable {F : Type}

/-- The parameters that the handler of a route finds are those of its own
pattern, and there are none where no pattern was used. The routes stand for
their handlers, so that it is known which one is about to run. -/
structure ParamsOfRoute (routes : List (Route F)) (req : HttpRequest) : Prop where
  dynamic : ∀ route after, (register id routes).select req = (some route, after) →
    isDynamic route.path = true → ∀ name,
      (after.params.get StringMap.keyEq (.ofBytes name)).map StringView.bytes =
        Pattern.valueOf ((toPattern route.path).bindings (segments req.path.bytes)) name
  static : ∀ route after, (register id routes).select req = (some route, after) →
    isDynamic route.path = false → after.params = {}
  failed : ∀ after, (register id routes).select req = (none, after) → after.params = {}

/-- The table gives a path the names of the pattern it leads to, and it does
not pass a parameter where it leads nowhere. -/
structure NamesKept (table : PatternTable Bytes Bytes (Route F)) (path : List Bytes) : Prop where
  arriving : ∀ pattern route, table.Latest (pattern, route) → pattern.Matches path →
    table.Unshadowed pattern path → ∀ name,
      Pattern.valueOf ((table.renamed pattern).bindings path) name =
        Pattern.valueOf (pattern.bindings path) name
  failing : (∀ entry ∈ table, entry.1.Matches path → ¬ table.Unshadowed entry.1 path) →
    ∀ entry ∈ table, ∀ before name, before ++ [.parameter name] <+: entry.1 →
      Pattern.Matches (before ++ [.parameter name]) (path.take (before.length + 1)) →
        ¬ table.Unshadowed (before ++ [.parameter name]) path

/-- The parameter map after a sequence of writes: the last write of a name wins. -/
theorem get_writeParams (params : StringMap) (bindings : List (Bytes × StringView)) (name : Bytes) :
    (Trie.writeParams params bindings).get StringMap.keyEq (.ofBytes name) =
      (Pattern.valueOf bindings name).or (params.get StringMap.keyEq (.ofBytes name)) := by
  have hkey : ∀ binding : Bytes × StringView,
      StringMap.keyEq (.ofBytes binding.1) (.ofBytes name) = decide (binding.1 = name) := by
    intro binding
    rw [Bool.eq_iff_iff]
    simp [StringMap.keyEq, StringView.ofBytes]
  have hwrites : Trie.writeParams params bindings =
      (bindings.map fun binding => (StringView.ofBytes binding.1, binding.2)).foldl
        (fun m entry => m.assign StringMap.keyEq entry.1 entry.2) params := by
    rw [Trie.writeParams, List.foldl_map]
  rw [hwrites, UnorderedMap.get_foldl_assign StringMap.keyEq_lawful, ← List.map_reverse, List.find?_map,
    Option.map_map, Pattern.valueOf]
  simp only [Function.comp_def, hkey]

/-- The map stays empty exactly where nothing was written to it. -/
theorem writeParams_eq_empty_iff (bindings : List (Bytes × StringView)) :
    Trie.writeParams {} bindings = {} ↔ bindings = [] := by
  constructor
  · intro h
    obtain rfl | ⟨earlier, last, rfl⟩ := List.eq_nil_or_concat' bindings
    · rfl
    · rw [Trie.writeParams, List.foldl_append] at h
      exact absurd (congrArg UnorderedMap.entries h) (UnorderedMap.assign_entries_ne_nil _ _ _)
  · rintro rfl
    rfl

/-- Where the descent arrives, the names that count are those recorded on the way. -/
theorem namesKept_iff_of_found {table : PatternTable Bytes Bytes (Route F)} {path : List StringView}
    (hown : ∀ pattern route, (pattern, route) ∈ table → pattern = toPattern route.path) {own : Route F}
    (hfound : (table.descent StringView.bytes path).2 = some own) :
    NamesKept table (path.map StringView.bytes) ↔ ∀ name,
      (Pattern.valueOf (table.descent StringView.bytes path).1 name).map StringView.bytes =
        Pattern.valueOf ((toPattern own.path).bindings (path.map StringView.bytes)) name := by
  have hrecorded : ∀ pattern route, table.Latest (pattern, route) →
      pattern.Matches (path.map StringView.bytes) →
      table.Unshadowed pattern (path.map StringView.bytes) →
      route = own ∧ pattern = toPattern own.path ∧ ∀ name,
        (Pattern.valueOf (table.descent StringView.bytes path).1 name).map StringView.bytes =
          Pattern.valueOf ((table.renamed pattern).bindings (path.map StringView.bytes)) name := by
    intro pattern route hlatest hmatches hclear
    have hdescent := PatternTable.descent_of_unshadowed hlatest hmatches hclear
    have hsame : route = own := by simpa [hdescent] using hfound
    refine ⟨hsame, hsame ▸ hown pattern route hlatest.mem, fun name => ?_⟩
    rw [hdescent, Pattern.bindings_map, Pattern.valueOf_map]
  obtain ⟨pattern, hlatest, hmatches, hclear⟩ := PatternTable.exists_of_descent hfound
  constructor
  · intro hkept name
    obtain ⟨_, hpattern, hnames⟩ := hrecorded pattern own hlatest hmatches hclear
    rw [hnames, hkept.arriving pattern own hlatest hmatches hclear, hpattern]
  · intro hnames
    refine ⟨fun other route hother hfits hopen name => ?_, fun hnone => ?_⟩
    · obtain ⟨_, hpattern, hrenamed⟩ := hrecorded other route hother hfits hopen
      rw [← hrenamed, hnames, hpattern]
    · exact absurd hclear (hnone _ hlatest.mem hmatches)

/-- Where it ends on the way, nothing may have been recorded. -/
theorem namesKept_iff_of_lost {table : PatternTable Bytes Bytes (Route F)} {path : List StringView}
    (hlost : (table.descent StringView.bytes path).2 = none) :
    NamesKept table (path.map StringView.bytes) ↔ (table.descent StringView.bytes path).1 = [] := by
  have hnever : ∀ pattern route, table.Latest (pattern, route) →
      pattern.Matches (path.map StringView.bytes) →
      ¬ table.Unshadowed pattern (path.map StringView.bytes) := by
    intro pattern route hlatest hmatches hclear
    rw [PatternTable.descent_of_unshadowed hlatest hmatches hclear] at hlost
    cases hlost
  rw [← not_iff_not, ← ne_eq (a := Prod.fst _), PatternTable.descent_bindings_ne_nil_iff]
  constructor
  · intro hnot
    by_contra hnone
    simp only [PatternTable.PassesParameter, not_exists, not_and] at hnone
    refine hnot ⟨fun pattern route hlatest hmatches hclear => ?_, fun _ entry hentry before name => ?_⟩
    · exact absurd hclear (hnever pattern route hlatest hmatches)
    · exact hnone entry hentry before name
  · rintro ⟨entry, hentry, before, name, hstart, hmatches, hclear⟩ hkept
    refine hkept.failing (fun other hother hfits hopen => ?_) entry hentry before name hstart hmatches hclear
    obtain ⟨⟨pattern, route⟩, hlatest, hshape⟩ := PatternTable.exists_latest hother
    exact hnever pattern route hlatest (PatternTable.matches_of_shape hshape hfits) (hopen.of_shape hshape)

/-- Where nothing is found, there must be no parameters. -/
theorem paramsOfRoute_of_none {routes : List (Route F)} {req after : HttpRequest}
    (hselect : (register id routes).select req = (none, after)) :
    ParamsOfRoute routes req ↔ after.params = {} := by
  refine ⟨fun h => h.failed after hselect, fun hempty => ⟨fun route other h => ?_, fun route other h => ?_,
    fun other h => ?_⟩⟩
  · rw [hselect] at h
    cases h
  · rw [hselect] at h
    cases h
  · rw [hselect] at h
    cases h
    exact hempty

/-- Where a static route is found, there must be no parameters. -/
theorem paramsOfRoute_of_static {routes : List (Route F)} {req after : HttpRequest} {own : Route F}
    (hselect : (register id routes).select req = (some own, after)) (hpath : isDynamic own.path = false) :
    ParamsOfRoute routes req ↔ after.params = {} := by
  refine ⟨fun h => h.static own after hselect hpath, fun hempty => ⟨fun route other h hdynamic => ?_,
    fun route other h _ => ?_, fun other h => ?_⟩⟩
  · rw [hselect] at h
    cases h
    simp [hpath] at hdynamic
  · rw [hselect] at h
    cases h
    exact hempty
  · rw [hselect] at h
    cases h

/-- Where a pattern is found, its bindings are the parameters. -/
theorem paramsOfRoute_of_dynamic {routes : List (Route F)} {req after : HttpRequest} {own : Route F}
    (hselect : (register id routes).select req = (some own, after)) (hpath : isDynamic own.path = true) :
    ParamsOfRoute routes req ↔ ∀ name,
      (after.params.get StringMap.keyEq (.ofBytes name)).map StringView.bytes =
        Pattern.valueOf ((toPattern own.path).bindings (segments req.path.bytes)) name := by
  refine ⟨fun h => h.dynamic own after hselect hpath, fun hnames => ⟨fun route other h _ => ?_,
    fun route other h hfixed => ?_, fun other h => ?_⟩⟩
  · rw [hselect] at h
    cases h
    exact hnames
  · rw [hselect] at h
    cases h
    simp [hpath] at hfixed
  · rw [hselect] at h
    cases h

/-- Parameters are those of the matched route exactly when a static route has
the path, or no later pattern has renamed a parameter on the way and no
parameter is passed on a way that ends. -/
theorem paramsOfRoute_iff (routes : List (Route F)) (req : HttpRequest) (hparams : req.params = {}) :
    ParamsOfRoute routes req ↔
      (∃ route ∈ routes, isFor req.method route = true ∧ isDynamic route.path = false ∧
          route.path = req.path.bytes) ∨
        NamesKept (patternTable routes req.method) (segments req.path.bytes) := by
  have hselect := select_register id routes req
  by_cases hmethod : req.method = .UNKNOWN
  · have htable : patternTable routes req.method = [] := by
      simp [patternTable, isFor, hmethod]
    rw [if_pos hmethod] at hselect
    refine iff_of_true ((paramsOfRoute_of_none hselect).mpr hparams) (.inr ?_)
    rw [htable]
    refine ⟨fun pattern route hlatest => absurd hlatest.mem List.not_mem_nil, fun _ entry h => ?_⟩
    exact absurd h List.not_mem_nil
  · rw [if_neg hmethod] at hselect
    cases hstatic : staticRoute routes req.method req.path.bytes with
    | some own =>
      rw [hstatic] at hselect
      obtain ⟨hmem, hfor, hpath, hsame⟩ := staticRoute_some hstatic
      exact iff_of_true ((paramsOfRoute_of_static hselect hpath).mpr hparams)
        (.inl ⟨own, hmem, hfor, hpath, hsame⟩)
    | none =>
      have hno : ¬ ∃ route ∈ routes, isFor req.method route = true ∧ isDynamic route.path = false ∧
          route.path = req.path.bytes := by
        rintro ⟨route, hmem, hfor, hpath, hsame⟩
        exact staticRoute_none hstatic hmem hfor hpath hsame
      rw [or_iff_right hno, ← partsFrom_eq_segments]
      rw [hstatic, hparams] at hselect
      dsimp only at hselect
      cases hfound : ((patternTable routes req.method).descent StringView.bytes
          (Trie.partsFrom req.path 0)).2 with
      | some own =>
        have hdynamic := (mem_patternTable.mp (PatternTable.exists_of_descent hfound).choose_spec.1.mem).2.2.1
        rw [hfound] at hselect
        rw [namesKept_iff_of_found (fun pattern route h => (mem_patternTable.mp h).2.2.2) hfound,
          paramsOfRoute_of_dynamic hselect hdynamic, ← partsFrom_eq_segments]
        refine forall_congr' fun name => ?_
        rw [get_writeParams, UnorderedMap.get_empty, Option.or_none]
        rfl
      | none =>
        rw [hfound] at hselect
        rw [namesKept_iff_of_lost hfound, ← writeParams_eq_empty_iff]
        exact paramsOfRoute_of_none hselect

/-- Two patterns through `/users` that agree on the name of its parameter, and
one beside them. -/
def postingRoutes : List (Route Nat) :=
  [⟨ascii "GET", ascii "/users/:id", 1⟩, ⟨ascii "GET", ascii "/users/:id/posts/:post", 2⟩,
    ⟨ascii "GET", ascii "/users/me", 3⟩, ⟨ascii "GET", ascii "/files/:name", 4⟩]

def postingRequest : HttpRequest :=
  { method := .GET, path := .ofBytes (ascii "/users/5/posts/7") }

/-- The two parameters of the longer pattern come with their own names. -/
theorem postingRoutes_kept :
    NamesKept (patternTable postingRoutes .GET) (segments (ascii "/users/5/posts/7")) := by
  have hfound : ((patternTable postingRoutes .GET).descent StringView.bytes
      ([ascii "users", ascii "5", ascii "posts", ascii "7"].map .ofBytes)).2 =
        some ⟨ascii "GET", ascii "/users/:id/posts/:post", 2⟩ := by decide +kernel
  have hrecorded : (((patternTable postingRoutes .GET).descent StringView.bytes
      ([ascii "users", ascii "5", ascii "posts", ascii "7"].map .ofBytes)).1.map fun binding =>
        (binding.1, binding.2.bytes)) =
      (toPattern (ascii "/users/:id/posts/:post")).bindings
        [ascii "users", ascii "5", ascii "posts", ascii "7"] := by decide +kernel
  have hsegments : segments (ascii "/users/5/posts/7") =
      ([ascii "users", ascii "5", ascii "posts", ascii "7"].map StringView.ofBytes).map StringView.bytes := by
    decide +kernel
  rw [hsegments, namesKept_iff_of_found (fun pattern route h => (mem_patternTable.mp h).2.2.2) hfound]
  intro name
  rw [← Pattern.valueOf_map, hrecorded]
  rfl

theorem paramsOfRoute_iff_posts : ParamsOfRoute postingRoutes postingRequest :=
  (paramsOfRoute_iff postingRoutes postingRequest rfl).mpr (.inr postingRoutes_kept)

/-- A second pattern through `/users` renames the parameter of the first. -/
theorem renamed_parameter_lost :
    ¬ ParamsOfRoute [⟨ascii "GET", ascii "/users/:id", 1⟩, ⟨ascii "GET", ascii "/users/:uid/posts", 2⟩]
      { method := .GET, path := .ofBytes (ascii "/users/5") } := by
  intro hright
  have hran : ((register id [(⟨ascii "GET", ascii "/users/:id", 1⟩ : Route Nat),
      ⟨ascii "GET", ascii "/users/:uid/posts", 2⟩]).select
        { method := .GET, path := .ofBytes (ascii "/users/5") }).1 =
      some ⟨ascii "GET", ascii "/users/:id", 1⟩ := by decide +kernel
  have hnone : ((register id [(⟨ascii "GET", ascii "/users/:id", 1⟩ : Route Nat),
      ⟨ascii "GET", ascii "/users/:uid/posts", 2⟩]).select
        { method := .GET, path := .ofBytes (ascii "/users/5") }).2.params.get
          StringMap.keyEq (.ofBytes (ascii "id")) = none := by decide +kernel
  have hid := hright.dynamic _ _ (Prod.ext hran rfl) (by decide +kernel) (ascii "id")
  have hown : Pattern.valueOf ((toPattern (ascii "/users/:id")).bindings (segments (ascii "/users/5")))
      (ascii "id") = some (ascii "5") := by decide +kernel
  rw [hnone] at hid
  cases hid.trans hown

end octane.Router
