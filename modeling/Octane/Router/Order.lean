import Octane.Router.Soundness

open search

namespace octane

variable {F : Type}

theorem Route.Replaces.refl (route : Route F) : route.Replaces route := by
  refine ⟨rfl, ?_⟩
  split_ifs with hpath
  · exact ⟨hpath, rfl⟩
  · rfl

namespace Router

/-- The route is among those that were added, and none that was added later has
taken its place. -/
def Survives (routes : List (Route F)) (route : Route F) : Prop :=
  ∃ before after, routes = before ++ route :: after ∧ ∀ later ∈ after, ¬ later.Replaces route

/-- Whatever the router keeps of these routes it keeps of the others, too, with the
same handler. -/
def Covers (routes others : List (Route F)) : Prop :=
  ∀ route, Survives routes route → stringToMethod route.method ≠ .UNKNOWN →
    ∃ own, Survives others own ∧ own.Replaces route ∧ own.handler = route.handler

/-- Two routers call the same handler for a request, or both none, whatever calling does. -/
def SameHandler (router other : Router F) (req : HttpRequest) : Prop :=
  (∃ handler params params', ∀ call res,
    router.resolve call req res = (true, call handler { req with params } res) ∧
      other.resolve call req res = (true, call handler { req with params := params' } res)) ∨
  ∃ params params', ∀ call res,
    router.resolve call req res = (false, { req := { req with params }, res }) ∧
      other.resolve call req res = (false, { req := { req with params := params' }, res })

/-- A route that survives was registered. -/
theorem Survives.mem {routes : List (Route F)} {route : Route F} (h : Survives routes route) :
    route ∈ routes := by
  obtain ⟨before, after, rfl, _⟩ := h
  simp

/-- The last of the routes that a filter keeps. -/
theorem getLast?_filter_eq_some_iff {keep : Route F → Bool} {routes : List (Route F)} {route : Route F} :
    (routes.filter keep).getLast? = some route ↔
      ∃ before after, routes = before ++ route :: after ∧ keep route = true ∧
        ∀ later ∈ after, keep later = false := by
  rw [← List.filterMap_eq_filter, getLast?_filterMap_eq_some_iff]
  constructor
  · rintro ⟨before, found, after, rfl, hfound, hafter⟩
    obtain ⟨rfl, hkeep⟩ := Option.guard_eq_some_iff.mp hfound
    exact ⟨before, after, rfl, hkeep, fun later hlater => by simpa using hafter later hlater⟩
  · rintro ⟨before, after, rfl, hkeep, hafter⟩
    exact ⟨before, route, after, rfl, by simp [hkeep], fun later hlater => by simpa using hafter later hlater⟩

/-- The static route for a path is the one that survives. -/
theorem staticRoute_iff_survives {routes : List (Route F)} {method : HttpMethod} {path : Bytes}
    {route : Route F} :
    staticRoute routes method path = some route ↔
      Survives routes route ∧ isFor method route = true ∧ isDynamic route.path = false ∧ route.path = path := by
  rw [staticRoute, getLast?_filter_eq_some_iff]
  simp only [Bool.and_eq_true, Bool.not_eq_true', beq_iff_eq]
  constructor
  · rintro ⟨before, after, rfl, ⟨⟨hfor, hpath⟩, rfl⟩, hafter⟩
    refine ⟨⟨before, after, rfl, fun later hlater hreplaces => ?_⟩, hfor, hpath, rfl⟩
    have hagain : later.path = route.path := by simpa [Route.Replaces, hpath] using hreplaces.2
    have hnot := hafter later hlater
    simp [isFor_of_replaces hfor hreplaces, hagain, hpath] at hnot
  · rintro ⟨⟨before, after, rfl, hafter⟩, hfor, hpath, hsame⟩
    refine ⟨before, after, rfl, ⟨⟨hfor, hpath⟩, hsame⟩, fun later hlater => ?_⟩
    by_contra hkept
    simp only [Bool.not_eq_false, Bool.and_eq_true, Bool.not_eq_true', beq_iff_eq] at hkept
    refine hafter later hlater ⟨?_, ?_⟩
    · simp only [isFor, Bool.and_eq_true, beq_iff_eq] at hfor hkept
      exact hkept.1.1.1.trans hfor.1.symm
    · rw [if_neg (by simp [hpath]), hkept.2, hsame]

/-- The latest entry for a pattern is the route that survives: what replaces it has
the same method and the same shape. -/
theorem latest_iff_survives {routes : List (Route F)} {method : HttpMethod} {pattern : Pattern Bytes Bytes}
    {route : Route F} :
    (patternTable routes method).Latest (pattern, route) ↔
      Survives routes route ∧ isFor method route = true ∧ isDynamic route.path = true ∧
        pattern = toPattern route.path := by
  constructor
  · intro hlatest
    obtain ⟨_, hfor, hpath, rfl⟩ := mem_patternTable.mp hlatest.mem
    refine ⟨?_, hfor, hpath, rfl⟩
    obtain ⟨before, after, htable, hafter⟩ := hlatest
    obtain ⟨front, back, hfilter, _, hback⟩ := List.map_eq_append_iff.mp htable
    obtain ⟨own, last, rfl, hown, rfl⟩ := List.map_eq_cons_iff.mp hback
    obtain rfl : own = route := (Prod.mk.inj hown).2
    obtain ⟨skipped, rest, rfl, _, hrest⟩ := List.filter_eq_append_iff.mp hfilter
    obtain ⟨dropped, later, rfl, _, _, rfl⟩ := List.filter_eq_cons_iff.mp hrest
    refine ⟨skipped ++ dropped, later, by simp, fun other hother hreplaces => ?_⟩
    have hagain := hreplaces.2
    rw [if_pos hpath] at hagain
    have hkept : other ∈ later.filter fun route => isFor method route && isDynamic route.path :=
      List.mem_filter.mpr ⟨hother, by simp [isFor_of_replaces hfor hreplaces, hagain.1]⟩
    exact hafter _ (List.mem_map_of_mem hkept) hagain.2
  · rintro ⟨⟨before, after, rfl, hafter⟩, hfor, hpath, rfl⟩
    refine ⟨patternTable before method, patternTable after method, ?_, fun entry hentry hshape => ?_⟩
    · simp [patternTable, hfor, hpath]
    · obtain ⟨pattern, later⟩ := entry
      obtain ⟨hlater, hown, hdynamic, rfl⟩ := mem_patternTable.mp hentry
      simp only [isFor, Bool.and_eq_true, beq_iff_eq] at hfor hown
      exact hafter later hlater ⟨hown.1.trans hfor.1.symm, by rw [if_pos hpath]; exact ⟨hdynamic, hshape⟩⟩

/-- A route is for a method when its text names it and the method is known. -/
theorem isFor_iff {method : HttpMethod} {route : Route F} :
    isFor method route = true ↔ stringToMethod route.method = method ∧ method ≠ .UNKNOWN := by
  simp [isFor]

/-- The routes that survive decide what the static tier has for a path. -/
theorem Covers.staticRoute {routes others : List (Route F)} (h : Covers routes others) {method : HttpMethod}
    {path : Bytes} {route : Route F} (hstatic : Router.staticRoute routes method path = some route) :
    ∃ own, Router.staticRoute others method path = some own ∧ own.handler = route.handler := by
  obtain ⟨hsurvives, hfor, hpath, hsame⟩ := staticRoute_iff_survives.mp hstatic
  have hknown := isFor_iff.mp hfor
  obtain ⟨own, hown, hreplaces, hhandler⟩ := h route hsurvives (by rw [hknown.1]; exact hknown.2)
  have hagain : own.path = route.path := by simpa [Route.Replaces, hpath] using hreplaces.2
  exact ⟨own, staticRoute_iff_survives.mpr ⟨hown, isFor_of_replaces hfor hreplaces, by rwa [hagain],
    hagain.trans hsame⟩, hhandler⟩

/-- And they decide what the dynamic tier has for a pattern. -/
theorem Covers.patternTable {routes others : List (Route F)} (h : Covers routes others) (method : HttpMethod) :
    ((Router.patternTable routes method).mapResults Route.handler).Covers
      ((Router.patternTable others method).mapResults Route.handler) := by
  intro pattern handler hlatest
  obtain ⟨route, hroute, rfl⟩ := PatternTable.latest_mapResults.mp hlatest
  obtain ⟨hsurvives, hfor, hpath, rfl⟩ := latest_iff_survives.mp hroute
  have hknown := isFor_iff.mp hfor
  obtain ⟨own, hown, hreplaces, hhandler⟩ := h route hsurvives (by rw [hknown.1]; exact hknown.2)
  have hagain := hreplaces.2
  rw [if_pos hpath] at hagain
  exact ⟨toPattern own.path, hagain.2, PatternTable.latest_mapResults.mpr
    ⟨own, latest_iff_survives.mpr ⟨hown, isFor_of_replaces hfor hreplaces, hagain.1, rfl⟩, hhandler⟩⟩

/-- Routers that keep the same select the same: the static tier by the path, the
descent by the latest entries, which are the survivors. -/
theorem select_congr {routes others : List (Route F)} (h : Covers routes others) (h' : Covers others routes)
    (req : HttpRequest) :
    ((register Route.handler routes).select req).1 = ((register Route.handler others).select req).1 := by
  rw [select_register, select_register]
  split_ifs
  · rfl
  · cases hstatic : Router.staticRoute routes req.method req.path.bytes with
    | some route =>
      obtain ⟨own, hown, hhandler⟩ := h.staticRoute hstatic
      rw [hown]
      exact congrArg some hhandler.symm
    | none =>
      have hnone : Router.staticRoute others req.method req.path.bytes = none := by
        cases hother : Router.staticRoute others req.method req.path.bytes with
        | none => rfl
        | some own =>
          obtain ⟨route, hroute, _⟩ := h'.staticRoute hother
          rw [hstatic] at hroute
          cases hroute
      have hdescent := PatternTable.descent_congr StringView.bytes (h.patternTable req.method)
        (h'.patternTable req.method) (Trie.partsFrom req.path 0)
      rw [PatternTable.descent_mapResults, PatternTable.descent_mapResults] at hdescent
      rw [hnone]
      exact hdescent

/-- What is called depends on what is selected only. -/
theorem sameHandler_of_select {router other : Router F} {req : HttpRequest}
    (h : (router.select req).1 = (other.select req).1) : SameHandler router other req := by
  have hkept : ∀ router : Router F, ∃ params, (router.select req).2 = { req with params } := by
    intro router
    rw [select]
    split_ifs
    · exact ⟨req.params, rfl⟩
    · split
      · exact ⟨req.params, rfl⟩
      · exact ⟨_, rfl⟩
  obtain ⟨params, hreq⟩ := hkept router
  obtain ⟨params', hreq'⟩ := hkept other
  have hselect : router.select req = ((router.select req).1, { req with params }) := by rw [← hreq]
  have hselect' : other.select req = ((router.select req).1, { req with params := params' }) := by
    rw [h, ← hreq']
  cases hfound : (router.select req).1 with
  | some handler =>
    rw [hfound] at hselect hselect'
    exact .inl ⟨handler, params, params', fun call res =>
      ⟨resolve_of_select hselect call res, resolve_of_select hselect' call res⟩⟩
  | none =>
    rw [hfound] at hselect hselect'
    exact .inr ⟨params, params', fun call res => ⟨by rw [resolve, hselect], by rw [resolve, hselect']⟩⟩

/-- Which handler a request makes the router call depends on the routes that nothing
has replaced, and not on the order in which they were added, across methods, tiers and
patterns, nor on what they have replaced. -/
theorem registration_order_irrelevant {routes others : List (Route F)} (h : Covers routes others)
    (h' : Covers others routes) (req : HttpRequest) :
    SameHandler (register Route.handler routes) (register Route.handler others) req :=
  sameHandler_of_select (select_congr h h' req)

instance (later route : Route F) : Decidable (later.Replaces route) := inferInstanceAs (Decidable (_ ∧ _))

/-- Where no route takes the place of another, all of them survive in every order. -/
theorem covers_of_perm {routes others : List (Route F)} (hperm : routes.Perm others)
    (hdistinct : others.Pairwise fun route later => ¬ later.Replaces route) : Covers routes others := by
  intro route hroute _
  obtain ⟨before, after, rfl⟩ := List.append_of_mem (hperm.subset hroute.mem)
  refine ⟨route, ⟨before, after, rfl, fun later hlater => ?_⟩, .refl route, rfl⟩
  have hbehind := (List.pairwise_append.mp hdistinct).2.1
  exact (List.pairwise_cons.mp hbehind).1 later hlater

/-- A static route, two patterns that share a prefix, and the same pattern for another method. -/
def userRoutes : List (Route Nat) :=
  [⟨ascii "GET", ascii "/users/me", 1⟩, ⟨ascii "GET", ascii "/users/:id", 2⟩,
    ⟨ascii "GET", ascii "/users/:id/posts", 3⟩, ⟨ascii "PUT", ascii "/users/:id", 4⟩]

def userRequest : HttpRequest := { method := .GET, path := .ofBytes (ascii "/users/7/posts") }

/-- Static routes, patterns and another method, registered forwards and backwards. -/
theorem registration_order_irrelevant_users :
    SameHandler (register Route.handler userRoutes) (register Route.handler userRoutes.reverse) userRequest := by
  have hdistinct : userRoutes.Pairwise fun route later => ¬ later.Replaces route := by decide +kernel
  have hreversed : userRoutes.reverse.Pairwise fun route later => ¬ later.Replaces route := by decide +kernel
  exact registration_order_irrelevant (covers_of_perm (List.reverse_perm userRoutes).symm hreversed)
    (covers_of_perm (List.reverse_perm userRoutes) hdistinct) userRequest

end Router

end octane
