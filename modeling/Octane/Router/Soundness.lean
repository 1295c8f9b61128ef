import Octane.Router.Completeness

open search

namespace octane

variable {F : Type}

/-- A later route that takes the place of an earlier one: the same path, or the
same pattern up to the names of its parameters. -/
def Route.Replaces (later route : Route F) : Prop :=
  Router.stringToMethod later.method = Router.stringToMethod route.method ∧
    if Router.isDynamic route.path then
      Router.isDynamic later.path = true ∧ (toPattern later.path).shape = (toPattern route.path).shape
    else later.path = route.path

namespace Router

/-- The request makes `resolve` call this handler and no other. -/
def Runs (routes : List (Route F)) (req : HttpRequest) (handler : F) : Prop :=
  ∃ params, ∀ call res, (register Route.handler routes).resolve call req res =
    (true, call handler { req with params } res)

/-- The route at a position among those that were added is the one for the
request: of its method, matching, replaced by none, and without a static rival
where it is a pattern. -/
structure Serves (routes : List (Route F)) (req : HttpRequest) (i : Nat) (route : Route F) : Prop where
  added : routes[i]? = some route
  method : isFor req.method route = true
  matching : route.Matches req.path.bytes
  last : ∀ (j : Nat) (later : Route F), i < j → routes[j]? = some later → ¬ later.Replaces route
  preferred : isDynamic route.path = true → ∀ other ∈ routes, isFor req.method other = true →
    isDynamic other.path = false → other.path ≠ req.path.bytes

/-- Whatever runs is the handler of the route for the request, a static route
for the path wins, and no other route's handler runs. -/
structure Sound (routes : List (Route F)) (req : HttpRequest) : Prop where
  served : ∀ call res, ((register Route.handler routes).resolve call req res).1 = true →
    ∃ i route, Serves routes req i route ∧ Runs routes req route.handler
  only : ∀ handler : F, Runs routes req handler →
    ∃ i route, Serves routes req i route ∧ route.handler = handler
  static : ∀ route ∈ routes, isFor req.method route = true → isDynamic route.path = false →
    route.path = req.path.bytes →
      ∃ i own, Serves routes req i own ∧ isDynamic own.path = false ∧ Runs routes req own.handler
  never : ∀ (i : Nat) (route : Route F), routes[i]? = some route →
    (∀ (j : Nat) (other : Route F), routes[j]? = some other → other.handler = route.handler → j = i) →
      isFor req.method route = false ∨ ¬ route.Matches req.path.bytes ∨
        (∃ (j : Nat) (later : Route F), i < j ∧ routes[j]? = some later ∧ later.Replaces route) →
          ¬ Runs routes req route.handler

/-- What a filter keeps stands at a position of the list, and what the filter
keeps behind it is all that it keeps from there on. -/
theorem exists_index_of_filter {keep : Route F → Bool} {routes before after : List (Route F)}
    {route : Route F} (h : routes.filter keep = before ++ route :: after) :
    ∃ i, routes[i]? = some route ∧ keep route = true ∧
      ∀ (j : Nat) (other : Route F), i < j → routes[j]? = some other → keep other = true → other ∈ after := by
  obtain ⟨front, back, rfl, hfront, hback⟩ := List.filter_eq_append_iff.mp h
  obtain ⟨skipped, last, rfl, _, hkept, rfl⟩ := List.filter_eq_cons_iff.mp hback
  refine ⟨front.length + skipped.length, by simp, hkept, ?_⟩
  intro j other hj hother hkeep
  have hlast : ((front ++ skipped ++ [route]) ++ last)[j]? = some other := by simpa using hother
  rw [List.getElem?_append_right (by simp; omega)] at hlast
  exact List.mem_filter.mpr ⟨List.mem_of_getElem? hlast, hkeep⟩

/-- The method of what the router keeps is the request's. -/
theorem isFor_of_replaces {method : HttpMethod} {later route : Route F} (hfor : isFor method route = true)
    (hreplaces : later.Replaces route) : isFor method later = true := by
  rw [isFor, hreplaces.1]
  exact hfor

/-- What the static tier finds serves the request: it is the latest route with
exactly this path. -/
theorem serves_of_staticRoute {routes : List (Route F)} {req : HttpRequest} {route : Route F}
    (h : staticRoute routes req.method req.path.bytes = some route) :
    isDynamic route.path = false ∧ ∃ i, Serves routes req i route := by
  obtain ⟨before, hfilter⟩ := List.getLast?_eq_some_iff.mp h
  obtain ⟨i, hadded, _, hafter⟩ := exists_index_of_filter hfilter
  obtain ⟨_, hfor, hpath, hsame⟩ := staticRoute_some h
  refine ⟨hpath, i, hadded, hfor, matches_of_static hpath hsame, ?_, fun hdynamic => by simp [hpath] at hdynamic⟩
  intro j later hj hlater hreplaces
  have hown := isFor_of_replaces hfor hreplaces
  have hagain : later.path = route.path := by simpa [Route.Replaces, hpath] using hreplaces.2
  have hplain : isDynamic later.path = false := by rwa [hagain]
  have hmem := hafter j later hj hlater (by rw [hown, hplain, hagain, hsame]; simp)
  cases hmem

/-- What the trie finds serves it where the static tier has found nothing. -/
theorem serves_of_descent {routes : List (Route F)} {req : HttpRequest} {route : Route F}
    (hstatic : staticRoute routes req.method req.path.bytes = none)
    (h : ((patternTable routes req.method).descent StringView.bytes
      (Trie.partsFrom req.path 0)).2 = some route) :
    ∃ i, Serves routes req i route := by
  obtain ⟨pattern, hlatest, hmatches, _⟩ := PatternTable.exists_of_descent h
  obtain ⟨_, hfor, hpath, rfl⟩ := mem_patternTable.mp hlatest.mem
  rw [partsFrom_eq_segments] at hmatches
  obtain ⟨before, after, htable, hafter⟩ := hlatest
  obtain ⟨front, back, hfilter, _, hback⟩ := List.map_eq_append_iff.mp htable
  obtain ⟨own, last, rfl, hown, rfl⟩ := List.map_eq_cons_iff.mp hback
  obtain rfl : own = route := (Prod.mk.inj hown).2
  obtain ⟨i, hadded, _, hbehind⟩ := exists_index_of_filter hfilter
  refine ⟨i, hadded, hfor, by rwa [Route.Matches, if_pos hpath], ?_, ?_⟩
  · intro j later hj hlater hreplaces
    have hagain := hreplaces.2
    rw [if_pos hpath] at hagain
    have hmem := hbehind j later hj hlater (by simp [isFor_of_replaces hfor hreplaces, hagain.1])
    exact hafter _ (List.mem_map_of_mem hmem) hagain.2
  · intro _ other hmem hother hfixed
    exact staticRoute_none hstatic hmem hother hfixed

/-- A lookup that finds a handler finds that of the route for the request. -/
theorem serves_of_select {routes : List (Route F)} {req after : HttpRequest} {handler : F}
    (h : (register Route.handler routes).select req = (some handler, after)) :
    ∃ i route, Serves routes req i route ∧ route.handler = handler ∧
      ∃ params, after = { req with params } := by
  rw [select_register] at h
  split_ifs at h with hunknown
  · cases h
  · cases hstatic : staticRoute routes req.method req.path.bytes with
    | some route =>
      obtain ⟨_, i, hserves⟩ := serves_of_staticRoute hstatic
      rw [hstatic] at h
      obtain ⟨hhandler, hreq⟩ := Prod.mk.inj h
      exact ⟨i, route, hserves, Option.some.inj hhandler, req.params, hreq.symm⟩
    | none =>
      rw [hstatic] at h
      obtain ⟨hhandler, hreq⟩ := Prod.mk.inj h
      obtain ⟨route, hfound, hlabel⟩ := Option.map_eq_some_iff.mp hhandler
      obtain ⟨i, hserves⟩ := serves_of_descent hstatic hfound
      exact ⟨i, route, hserves, hlabel, _, hreq.symm⟩

/-- A selected handler is one that runs. -/
theorem runs_of_select {routes : List (Route F)} {req after : HttpRequest} {handler : F}
    (h : (register Route.handler routes).select req = (some handler, after)) :
    Runs routes req handler := by
  obtain ⟨_, _, _, _, params, rfl⟩ := serves_of_select h
  exact ⟨params, resolve_of_select h⟩

/-- Handlers may do different things, so the one that runs is the one that was found. -/
theorem select_of_runs {routes : List (Route F)} {req : HttpRequest} {handler : F}
    (h : Runs routes req handler) :
    ∃ after, (register Route.handler routes).select req = (some handler, after) := by
  classical
  obtain ⟨params, hresolve⟩ := h
  have hrun := hresolve (fun own req res =>
    { req, res, thrown := if own = handler then some .other else none }) {}
  rw [resolve] at hrun
  split at hrun
  · next own after hselect =>
    have hthrown := congrArg (fun run => run.2.thrown) hrun
    simp only [if_true, ite_eq_left_iff, reduceCtorEq, imp_false, not_not] at hthrown
    exact ⟨after, by rw [hselect, hthrown]⟩
  · cases hrun

/-- What runs is the handler of a route that serves the request. -/
theorem serves_of_runs {routes : List (Route F)} {req : HttpRequest} {handler : F}
    (h : Runs routes req handler) : ∃ i route, Serves routes req i route ∧ route.handler = handler := by
  obtain ⟨after, hselect⟩ := select_of_runs h
  obtain ⟨i, route, hserves, hhandler, _⟩ := serves_of_select hselect
  exact ⟨i, route, hserves, hhandler⟩

/-- The static route for a path is found, whatever patterns match it as well. -/
theorem runs_of_static {routes : List (Route F)} {req : HttpRequest} {route : Route F}
    (hmem : route ∈ routes) (hfor : isFor req.method route = true) (hpath : isDynamic route.path = false)
    (hsame : route.path = req.path.bytes) :
    ∃ i own, Serves routes req i own ∧ isDynamic own.path = false ∧ Runs routes req own.handler := by
  cases hstatic : staticRoute routes req.method req.path.bytes with
  | none => exact absurd hsame (staticRoute_none hstatic hmem hfor hpath)
  | some own =>
    obtain ⟨hown, i, hserves⟩ := serves_of_staticRoute hstatic
    have hselect := select_register Route.handler routes req
    rw [if_neg (method_ne_unknown hfor), hstatic] at hselect
    exact ⟨i, own, hserves, hown, runs_of_select hselect⟩

/-- For every list of registrations: a handler that `resolve` calls is that of the
latest route that serves the request, registered for its own method, and a static
route with its path comes before every pattern. -/
theorem resolve_sound (routes : List (Route F)) (req : HttpRequest) : Sound routes req where
  served call res hran := by
    rw [resolve] at hran
    split at hran
    · next handler after hselect =>
      obtain ⟨i, route, hserves, rfl, _⟩ := serves_of_select hselect
      exact ⟨i, route, hserves, runs_of_select hselect⟩
    · cases hran
  only handler hruns := serves_of_runs hruns
  static route hmem hfor hpath hsame := runs_of_static hmem hfor hpath hsame
  never i route hadded halone hother hruns := by
    obtain ⟨j, own, hserves, hhandler⟩ := serves_of_runs hruns
    obtain rfl := halone j own hserves.added hhandler
    obtain rfl : own = route := Option.some.inj (hserves.added.symm.trans hadded)
    obtain hmethod | hmatching | ⟨k, later, hk, hlater, hreplaces⟩ := hother
    · exact absurd hserves.method (by simp [hmethod])
    · exact hmatching hserves.matching
    · exact hserves.last k later hk hlater hreplaces

end Router

end octane
