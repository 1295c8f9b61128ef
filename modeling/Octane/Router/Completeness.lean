import Octane.Router.Resolution

open search

namespace octane

variable {F : Type}

/-- The path is the route's own, or fits its pattern. -/
def Route.Matches (route : Route F) (path : Bytes) : Prop :=
  if Router.isDynamic route.path then (toPattern route.path).Matches (segments path)
  else route.path = path

namespace Router

/-- A request that some route for its method matches is handled, and by such a route. -/
def Complete (routes : List (Route F)) (req : HttpRequest) : Prop :=
  (∃ route ∈ routes, isFor req.method route = true ∧ route.Matches req.path.bytes) →
    ∃ route ∈ routes, isFor req.method route = true ∧ route.Matches req.path.bytes ∧
      ∃ params, ∀ call res, (register Route.handler routes).resolve call req res =
        (true, call route.handler { req with params } res)

/-- The patterns that a trie holds are those of the routes of its method with a parameter. -/
theorem mem_patternTable {routes : List (Route F)} {method : HttpMethod}
    {pattern : Pattern Bytes Bytes} {route : Route F} :
    (pattern, route) ∈ patternTable routes method ↔
      route ∈ routes ∧ isFor method route = true ∧ isDynamic route.path = true ∧
        pattern = toPattern route.path := by
  simp only [patternTable, List.mem_map, List.mem_filter, Bool.and_eq_true, Prod.mk.injEq]
  constructor
  · rintro ⟨own, ⟨hmem, hfor, hpath⟩, rfl, rfl⟩
    exact ⟨hmem, hfor, hpath, rfl⟩
  · rintro ⟨hmem, hfor, hpath, rfl⟩
    exact ⟨route, ⟨hmem, hfor, hpath⟩, rfl, rfl⟩

/-- The static route for a path is one for the method and has the path as its own. -/
theorem staticRoute_some {routes : List (Route F)} {method : HttpMethod} {path : Bytes}
    {route : Route F} (h : staticRoute routes method path = some route) :
    route ∈ routes ∧ isFor method route = true ∧ isDynamic route.path = false ∧ route.path = path := by
  obtain ⟨hmem, hkept⟩ := List.mem_filter.mp (List.mem_of_getLast? h)
  simp only [Bool.and_eq_true, Bool.not_eq_true', beq_iff_eq] at hkept
  obtain ⟨⟨hfor, hpath⟩, hsame⟩ := hkept
  exact ⟨hmem, hfor, hpath, hsame⟩

theorem matches_of_static {route : Route F} {path : Bytes} (hpath : isDynamic route.path = false)
    (hsame : route.path = path) : route.Matches path := by
  rw [Route.Matches, if_neg (by simp [hpath])]
  exact hsame

/-- What the static tier finds was registered for the method and has the path. -/
theorem mem_of_staticRoute {routes : List (Route F)} {method : HttpMethod} {path : Bytes}
    {route : Route F} (h : staticRoute routes method path = some route) :
    route ∈ routes ∧ isFor method route = true ∧ route.Matches path := by
  obtain ⟨hmem, hfor, hpath, hsame⟩ := staticRoute_some h
  exact ⟨hmem, hfor, matches_of_static hpath hsame⟩

/-- Where the static tier finds nothing, no route is spelled as the path. -/
theorem staticRoute_none {routes : List (Route F)} {method : HttpMethod} {path : Bytes}
    (h : staticRoute routes method path = none) {route : Route F} (hmem : route ∈ routes)
    (hfor : isFor method route = true) (hpath : isDynamic route.path = false) : route.path ≠ path := by
  rw [staticRoute, List.getLast?_eq_none_iff, List.filter_eq_nil_iff] at h
  intro hsame
  exact h route hmem (by simp [hfor, hpath, hsame.symm])

/-- A route that matches where the static lookup has failed has a parameter. -/
theorem staticRoute_eq_none {routes : List (Route F)} {method : HttpMethod} {path : Bytes}
    (h : staticRoute routes method path = none) {route : Route F} (hmem : route ∈ routes)
    (hfor : isFor method route = true) (hmatches : route.Matches path) : isDynamic route.path = true := by
  by_contra hpath
  rw [Route.Matches, if_neg hpath] at hmatches
  exact staticRoute_none h hmem hfor (Bool.eq_false_of_not_eq_true hpath) hmatches

/-- Routes are never for the unknown method: `add` drops a route whose method it
does not know. -/
theorem method_ne_unknown {method : HttpMethod} {route : Route F} (h : isFor method route = true) :
    method ≠ .UNKNOWN := by
  simp only [isFor, Bool.and_eq_true, bne_iff_ne] at h
  exact h.2

/-- `resolve` calls the handler that was selected, on the request as the lookup has left it. -/
theorem resolve_of_select {H : Type} {router : Router H} {req after : HttpRequest} {handler : H}
    (h : router.select req = (some handler, after)) (call : H → HttpRequest → HttpResponse → HandlerResult)
    (res : HttpResponse) : router.resolve call req res = (true, call handler after res) := by
  rw [resolve, h]

/-- The parts that `search` walks over are the segments of the path. -/
theorem partsFrom_eq_segments (path : StringView) :
    (Trie.partsFrom path 0).map StringView.bytes = segments path.bytes :=
  Trie.partsFrom_bytes path 0

/-- A handled request has a matching route that is static or that no literal leads
away from: the static tier was tried first, then the descent arrived. -/
theorem exists_unshadowed_of_resolve {routes : List (Route F)} {req : HttpRequest} {route : Route F}
    {params : StringMap} (hfor : isFor req.method route = true)
    (hresolve : ∀ call res, (register Route.handler routes).resolve call req res =
      (true, call route.handler { req with params } res)) :
    ∃ own ∈ routes, isFor req.method own = true ∧ own.Matches req.path.bytes ∧
      (isDynamic own.path = true → (patternTable routes req.method).Unshadowed
        (toPattern own.path) (segments req.path.bytes)) := by
  have hselect := select_register Route.handler routes req
  rw [if_neg (method_ne_unknown hfor)] at hselect
  cases hstatic : staticRoute routes req.method req.path.bytes with
  | some own =>
    obtain ⟨hmem, hown, hpath, hsame⟩ := staticRoute_some hstatic
    exact ⟨own, hmem, hown, matches_of_static hpath hsame, fun h => by simp [hpath] at h⟩
  | none =>
    rw [hstatic] at hselect
    cases hfound : ((patternTable routes req.method).descent StringView.bytes
        (Trie.partsFrom req.path 0)).2 with
    | none =>
      have hrun := hresolve (fun _ req res => { req, res }) {}
      simp only [resolve, hselect, hfound, Option.map_none, Prod.mk.injEq, Bool.false_eq_true,
        false_and] at hrun
    | some own =>
      obtain ⟨pattern, hlatest, hmatches, hclear⟩ := PatternTable.exists_of_descent hfound
      obtain ⟨hmem, hown, hpath, rfl⟩ := mem_patternTable.mp hlatest.mem
      rw [partsFrom_eq_segments] at hmatches hclear
      exact ⟨own, hmem, hown, by rwa [Route.Matches, if_pos hpath], fun _ => hclear⟩

/-- A request for an unshadowed route is handled, maybe by another route of the same
shape that was added later. -/
theorem complete_of_unshadowed {routes : List (Route F)} {req : HttpRequest} {route : Route F}
    (hmem : route ∈ routes) (hfor : isFor req.method route = true)
    (hmatches : route.Matches req.path.bytes)
    (hclear : isDynamic route.path = true → (patternTable routes req.method).Unshadowed
      (toPattern route.path) (segments req.path.bytes)) :
    Complete routes req := by
  intro _
  have hselect := select_register Route.handler routes req
  rw [if_neg (method_ne_unknown hfor)] at hselect
  cases hstatic : staticRoute routes req.method req.path.bytes with
  | some own =>
    obtain ⟨hmem, hown, hmatches⟩ := mem_of_staticRoute hstatic
    rw [hstatic] at hselect
    exact ⟨own, hmem, hown, hmatches, req.params, fun call res => resolve_of_select hselect call res⟩
  | none =>
    have hpath := staticRoute_eq_none hstatic hmem hfor hmatches
    rw [Route.Matches, if_pos hpath] at hmatches
    have hentry := mem_patternTable.mpr ⟨hmem, hfor, hpath, rfl⟩
    obtain ⟨⟨pattern, own⟩, hlatest, hshape⟩ := PatternTable.exists_latest hentry
    have hfits : Pattern.Matches pattern ((Trie.partsFrom req.path 0).map StringView.bytes) :=
      partsFrom_eq_segments req.path ▸ PatternTable.matches_of_shape hshape hmatches
    have hopen : (patternTable routes req.method).Unshadowed pattern
        ((Trie.partsFrom req.path 0).map StringView.bytes) :=
      partsFrom_eq_segments req.path ▸ (hclear hpath).of_shape hshape
    have hdescent := PatternTable.descent_of_unshadowed hlatest hfits hopen
    rw [partsFrom_eq_segments] at hfits
    obtain ⟨hmem, hown, hpath, rfl⟩ := mem_patternTable.mp hlatest.mem
    rw [hstatic, hdescent] at hselect
    exact ⟨own, hmem, hown, by rwa [Route.Matches, if_pos hpath], _, fun call res =>
      resolve_of_select hselect call res⟩

/-- A matching route is lost exactly where every matching route is dynamic and
has a parameter beside a literal that leads away from it. -/
theorem complete_iff (routes : List (Route F)) (req : HttpRequest) :
    Complete routes req ↔
      (∀ route ∈ routes, isFor req.method route = true → ¬ route.Matches req.path.bytes) ∨
        ∃ route ∈ routes, isFor req.method route = true ∧ route.Matches req.path.bytes ∧
          (isDynamic route.path = true → (patternTable routes req.method).Unshadowed
            (toPattern route.path) (segments req.path.bytes)) := by
  constructor
  · intro hcomplete
    by_cases hany : ∃ route ∈ routes, isFor req.method route = true ∧ route.Matches req.path.bytes
    · obtain ⟨route, _, hfor, _, params, hresolve⟩ := hcomplete hany
      exact .inr (exists_unshadowed_of_resolve hfor hresolve)
    · simp only [not_exists, not_and] at hany
      exact .inl hany
  · rintro (hnone | ⟨route, hmem, hfor, hmatches, hclear⟩)
    · rintro ⟨route, hmem, hfor, hmatches⟩
      exact absurd hmatches (hnone route hmem hfor)
    · exact complete_of_unshadowed hmem hfor hmatches hclear

/-- `/users/me/:section` takes `/users/me` away from `/users/:id`. -/
theorem shadowed_route_lost :
    ¬ Complete [⟨ascii "GET", ascii "/users/me/:section", 1⟩, ⟨ascii "GET", ascii "/users/:id", 2⟩]
      { method := .GET, path := .ofBytes (ascii "/users/me") } := by
  intro hcomplete
  have hmatches : (⟨ascii "GET", ascii "/users/:id", 2⟩ : Route Nat).Matches (ascii "/users/me") := by
    have hpattern : toPattern (ascii "/users/:id") =
        [.literal (ascii "users"), .parameter (ascii "id")] := by decide +kernel
    have hsegments : segments (ascii "/users/me") = [ascii "users", ascii "me"] := by decide +kernel
    have hdynamic : isDynamic (ascii "/users/:id") = true := by decide +kernel
    simp only [Route.Matches, hdynamic, if_true, hpattern, hsegments]
    exact .cons (.inr rfl) (.cons (.inl rfl) .nil)
  obtain ⟨route, _, _, _, params, hresolve⟩ := hcomplete
    ⟨⟨ascii "GET", ascii "/users/:id", 2⟩, by simp, by decide +kernel, hmatches⟩
  have hlost : ((register Route.handler [⟨ascii "GET", ascii "/users/me/:section", 1⟩,
      ⟨ascii "GET", ascii "/users/:id", 2⟩] : Router Nat).select
      { method := .GET, path := .ofBytes (ascii "/users/me") }).1 = none := by decide +kernel
  have hrun := congrArg Prod.fst (hresolve (fun _ req res => { req, res }) {})
  rw [resolve] at hrun
  split at hrun
  · next hselect =>
    rw [hselect] at hlost
    cases hlost
  · cases hrun

end Router

end octane
