import Octane.Router
import Octane.Trie.Descent

open search

namespace octane

/-- A call of `Router::add`. -/
structure Route (F : Type) where
  method : Bytes
  path : Bytes
  handler : F
deriving DecidableEq

namespace Router

variable {F H : Type}

/-- The router after a sequence of `add` calls; `label` says what is registered for each. -/
def register (label : Route F → H) (routes : List (Route F)) : Router H :=
  routes.foldl (fun router route => router.add route.method route.path (label route)) {}

/-- `add` keeps the route, and under this method. -/
def isFor (method : HttpMethod) (route : Route F) : Bool :=
  stringToMethod route.method == method && method != .UNKNOWN

/-- The patterns that the trie of a method receives, in order. -/
def patternTable (routes : List (Route F)) (method : HttpMethod) : PatternTable Bytes Bytes (Route F) :=
  (routes.filter fun route => isFor method route && isDynamic route.path).map fun route =>
    (toPattern route.path, route)

/-- The last route without a parameter that was added under a path. -/
def staticRoute (routes : List (Route F)) (method : HttpMethod) (path : Bytes) : Option (Route F) :=
  (routes.filter fun route => isFor method route && !isDynamic route.path && route.path == path).getLast?

/-- Registering one more route is one more call of `add`; the inductions over
registrations step with it. -/
theorem register_append (label : Route F → H) (routes : List (Route F)) (route : Route F) :
    register label (routes ++ [route]) =
      (register label routes).add route.method route.path (label route) := by
  rw [register, List.foldl_append]
  rfl

/-- A route with a parameter is added to the patterns of its method, at the end. -/
theorem patternTable_append (routes : List (Route F)) (route : Route F) (method : HttpMethod) :
    patternTable (routes ++ [route]) method = patternTable routes method ++
      if isFor method route && isDynamic route.path then [(toPattern route.path, route)] else [] := by
  rw [patternTable, List.filter_append, List.map_append, patternTable]
  cases hkept : isFor method route && isDynamic route.path <;> simp [hkept]

/-- A static route with the path takes the place of every earlier one. -/
theorem staticRoute_append (routes : List (Route F)) (route : Route F) (method : HttpMethod)
    (path : Bytes) :
    staticRoute (routes ++ [route]) method path =
      if isFor method route && !isDynamic route.path && route.path == path then some route
      else staticRoute routes method path := by
  rw [staticRoute, List.filter_append, staticRoute]
  cases hkept : isFor method route && !isDynamic route.path && route.path == path
  · simp only [List.filter_cons, hkept, Bool.false_eq_true, if_false, List.filter_nil, List.append_nil]
  · simp only [List.filter_cons, hkept, if_true, List.filter_nil, List.getLast?_concat]

/-- The two tiers hold what the sequence of `add` calls says: for each method the
patterns in their order, and for each static path the last route. -/
theorem register_spec (label : Route F → H) (routes : List (Route F)) {method : HttpMethod}
    (hmethod : method ≠ .UNKNOWN) :
    ((register label routes).dynamic_ method).root_.Represents
        ((patternTable routes method).mapResults label) ∧
      ∀ path, ((register label routes).static_routes_ method).get equal_to path =
        (staticRoute routes method path).map label := by
  induction routes using List.reverseRecOn with
  | nil => exact ⟨TrieNode.represents_empty, fun path => rfl⟩
  | append_singleton routes route ih =>
    obtain ⟨hdynamic, hstatic⟩ := ih
    simp only [register_append, add, patternTable_append, staticRoute_append]
    by_cases hfor : stringToMethod route.method = method
    · have hunknown : ¬ stringToMethod route.method = .UNKNOWN := fun h => hmethod (hfor ▸ h)
      have hkept : isFor method route = true := by simp [isFor, hfor, hmethod]
      by_cases hpath : isDynamic route.path
      · have hinsert := Trie.insert_loop_represents route.path (label route) _ 0 hdynamic
        rw [if_neg hunknown, if_pos hpath]
        simp only [hkept, hpath, hfor, Function.update_self, Bool.and_self, if_true, Bool.not_true,
          Bool.and_false, Bool.false_and, Bool.false_eq_true, if_false]
        exact ⟨by simpa [PatternTable.mapResults, Trie.insert, toPattern] using hinsert, hstatic⟩
      · rw [if_neg hunknown, if_neg hpath]
        simp only [hkept, hpath, hfor, Function.update_self, Bool.and_false, Bool.false_eq_true,
          if_false, List.append_nil, Bool.not_false, Bool.and_self, Bool.true_and, beq_iff_eq]
        refine ⟨hdynamic, fun path => ?_⟩
        rw [UnorderedMap.get_assign equal_to_lawful, hstatic]
        by_cases hsame : route.path = path <;> simp [equal_to_iff, hsame]
    · have hother : isFor method route = false := by simp [isFor, hfor]
      have hne : method ≠ stringToMethod route.method := fun h => hfor h.symm
      simp only [hother, Bool.false_and, Bool.false_eq_true, if_false, List.append_nil]
      split_ifs
      · exact ⟨hdynamic, hstatic⟩
      · simp only [Function.update_of_ne hne]
        exact ⟨hdynamic, hstatic⟩
      · simp only [Function.update_of_ne hne]
        exact ⟨hdynamic, hstatic⟩

/-- What `select` finds after a sequence of `add` calls. -/
theorem select_register (label : Route F → H) (routes : List (Route F)) (req : HttpRequest) :
    (register label routes).select req =
      if req.method = .UNKNOWN then (none, req)
      else
        match staticRoute routes req.method req.path.bytes with
        | some route => (some (label route), req)
        | none =>
          let found := (patternTable routes req.method).descent StringView.bytes (Trie.partsFrom req.path 0)
          (found.2.map label, { req with params := Trie.writeParams req.params found.1 }) := by
  by_cases hmethod : req.method = .UNKNOWN
  · rw [select, if_pos hmethod, if_pos (by rw [hmethod]; decide)]
  · have hindex : ¬ 7 ≤ req.method.index := by
      cases hreq : req.method <;> simp_all [HttpMethod.index]
    obtain ⟨hdynamic, hstatic⟩ := register_spec label routes hmethod
    rw [select, if_neg hindex, if_neg hmethod, hstatic]
    cases staticRoute routes req.method req.path.bytes with
    | some route => rfl
    | none =>
      simp only [Option.map_none, Trie.search, Trie.search_loop_represents req.path _ 0 req.params hdynamic,
        PatternTable.descent_mapResults]

end Router

end octane
