import Octane.Router.Soundness

open search

namespace octane

/-- A route is static where there is no colon in its path. -/
theorem Router.isDynamic_eq_false_iff {path : Bytes} : Router.isDynamic path = false ↔ 58 ∉ path := by
  rw [Router.isDynamic, Option.isSome_eq_false_iff, Option.isNone_iff_eq_none]
  exact findSub_singleton_eq_none_iff

/-- A path without a colon stands for the literals that it spells out. -/
theorem shape_toPattern {path : Bytes} (hcolon : 58 ∉ path) :
    (toPattern path).shape = (segments path).map some := by
  rw [toPattern, Pattern.shape, List.map_map]
  refine List.map_congr_left fun part hpart => ?_
  cases part with
  | nil => rfl
  | cons c rest =>
    have hne : c ≠ 58 := by
      rintro rfl
      exact hcolon (mem_of_mem_segments hpart List.mem_cons_self)
    rw [Function.comp_apply, toSegment, if_neg hne]
    rfl

namespace Router

variable {F : Type}

/-- A trie into which the routes of a method are inserted, in their order. -/
def insertAll (method : HttpMethod) (routes : List (Route F)) : Trie F :=
  (routes.filter (isFor method)).foldl (fun trie route => trie.insert route.path route.handler) {}

/-- The last route with the segments of a path. -/
def segmentRoute (routes : List (Route F)) (method : HttpMethod) (path : Bytes) : Option (Route F) :=
  (routes.filter fun route => isFor method route && segments route.path == segments path).getLast?

/-- The trie represents the patterns inserted, in their order. -/
theorem insertAll_represents (method : HttpMethod) (routes : List (Route F)) :
    (insertAll method routes).root_.Represents
      ((routes.filter (isFor method)).map fun route => (toPattern route.path, route.handler)) := by
  rw [insertAll]
  induction routes.filter (isFor method) using List.reverseRecOn with
  | nil => exact TrieNode.represents_empty
  | append_singleton routes route ih =>
    have hinsert := Trie.insert_loop_represents route.path route.handler _ 0 ih
    rw [List.foldl_append, List.map_append]
    exact hinsert

/-- Searching the trie finds the last route with the segments of the path. All routes
are spelled with literals, so that the descent has no choice. -/
theorem search_insertAll {routes : List (Route F)} (hstatic : ∀ route ∈ routes, 58 ∉ route.path)
    (method : HttpMethod) (path : StringView) (params : StringMap) :
    ((insertAll method routes).search path params).1 =
      (segmentRoute routes method path.bytes).map Route.handler := by
  have hshape : ∀ route ∈ routes.filter (isFor method),
      (toPattern route.path).shape = (segments route.path).map some := fun route hroute =>
    shape_toPattern (hstatic route (List.mem_filter.mp hroute).1)
  have hliteral : ∀ entry ∈ (routes.filter (isFor method)).map fun route => (toPattern route.path, route.handler),
      ∀ seg ∈ entry.1, seg.shape ≠ none := by
    intro entry hentry seg hseg
    obtain ⟨route, hroute, rfl⟩ := List.mem_map.mp hentry
    have hmem : seg.shape ∈ (toPattern route.path).shape := List.mem_map_of_mem hseg
    rw [hshape route hroute] at hmem
    obtain ⟨text, _, htext⟩ := List.mem_map.mp hmem
    rw [← htext]
    simp
  have hspelled : ∀ route ∈ routes.filter (isFor method),
      decide ((toPattern route.path).shape = (segments path.bytes).map some) =
        (segments route.path == segments path.bytes) := by
    intro route hroute
    rw [hshape route hroute, Bool.eq_iff_iff, decide_eq_true_iff, beq_iff_eq]
    exact (Option.some_injective _).list_map.eq_iff
  have hfilter : (routes.filter (isFor method)).filter
      (fun route => decide ((toPattern route.path).shape = (segments path.bytes).map some)) =
        routes.filter fun route => isFor method route && segments route.path == segments path.bytes := by
    rw [List.filter_congr hspelled, List.filter_filter]
    exact List.filter_congr fun route _ => Bool.and_comm _ _
  rw [Trie.search, Trie.search_loop_represents path _ 0 params (insertAll_represents method routes)]
  dsimp only
  rw [PatternTable.descent_literals hliteral, partsFrom_eq_segments, List.filter_map, List.getLast?_map,
    Option.map_map, segmentRoute, ← hfilter]
  rfl

/-- Where no route has a parameter, `resolve` finds in the static map or nowhere. -/
theorem select_static {routes : List (Route F)} (hstatic : ∀ route ∈ routes, 58 ∉ route.path) (req : HttpRequest) :
    ((register Route.handler routes).select req).1 =
      (staticRoute routes req.method req.path.bytes).map Route.handler := by
  rw [select_register]
  split_ifs with hunknown
  · have hnone : staticRoute routes req.method req.path.bytes = none := by
      rw [staticRoute, List.getLast?_eq_none_iff, List.filter_eq_nil_iff]
      intro route _
      simp [isFor, hunknown]
    rw [hnone]
    rfl
  · have hempty : patternTable routes req.method = [] := by
      rw [patternTable, List.map_eq_nil_iff, List.filter_eq_nil_iff]
      intro route hroute
      simp [isDynamic_eq_false_iff.mpr (hstatic route hroute)]
    cases hfound : staticRoute routes req.method req.path.bytes with
    | some route => rfl
    | none =>
      have hnothing : ((patternTable routes req.method).descent StringView.bytes
          (Trie.partsFrom req.path 0)).2 = none := by
        rw [hempty, PatternTable.descent_literals (by simp)]
        rfl
      dsimp only
      rw [hnothing]

/-- The static map compares paths as they are spelled and the trie compares
segments: what the map finds the trie finds, and they find the same exactly where
no route has the segments of the path, or the last one that has them and the last
one that is spelled as the path have the same handler. -/
theorem static_tier_iff {routes : List (Route F)} (hstatic : ∀ route ∈ routes, 58 ∉ route.path)
    (req : HttpRequest) :
    (((register Route.handler routes).select req).1.isSome →
        ((insertAll req.method routes).search req.path req.params).1.isSome) ∧
      (((register Route.handler routes).select req).1 =
          ((insertAll req.method routes).search req.path req.params).1 ↔
        ∀ latest, segmentRoute routes req.method req.path.bytes = some latest →
          ∃ spelled, staticRoute routes req.method req.path.bytes = some spelled ∧
            spelled.handler = latest.handler) := by
  rw [select_static hstatic, search_insertAll hstatic]
  have hcovered : (staticRoute routes req.method req.path.bytes).isSome →
      (segmentRoute routes req.method req.path.bytes).isSome := by
    intro hsome
    obtain ⟨route, hroute⟩ := Option.isSome_iff_exists.mp hsome
    obtain ⟨hmem, hfor, _, hsame⟩ := staticRoute_some hroute
    rw [segmentRoute, List.getLast?_isSome]
    exact List.ne_nil_of_mem (List.mem_filter.mpr ⟨hmem, by simp [hfor, hsame]⟩)
  refine ⟨by simpa only [Option.isSome_map] using hcovered, ?_⟩
  cases hlatest : segmentRoute routes req.method req.path.bytes with
  | none =>
    have hnone : staticRoute routes req.method req.path.bytes = none := by
      rw [hlatest] at hcovered
      cases hspelled : staticRoute routes req.method req.path.bytes with
      | none => rfl
      | some route => simp [hspelled] at hcovered
    simp [hnone]
  | some latest =>
    constructor
    · intro hagree other hother
      cases hother
      obtain ⟨spelled, hspelled, hhandler⟩ := Option.map_eq_some_iff.mp hagree
      exact ⟨spelled, hspelled, hhandler⟩
    · intro hsame
      obtain ⟨spelled, hspelled, hhandler⟩ := hsame latest rfl
      rw [hspelled, Option.map_some, Option.map_some, hhandler]

/-- Routes that have the same segments under several spellings. -/
def spelledRoutes : List (Route Nat) :=
  [⟨ascii "GET", ascii "/a", 1⟩, ⟨ascii "GET", ascii "/a//b", 2⟩, ⟨ascii "GET", ascii "/a/b", 3⟩,
    ⟨ascii "POST", ascii "/a/b", 4⟩, ⟨ascii "GET", ascii "/a/b/", 5⟩]

theorem spelledRoutes_plain : ∀ route ∈ spelledRoutes, 58 ∉ route.path := by decide +kernel

def spelledRequest (path : Bytes) : HttpRequest := { method := .GET, path := .ofBytes path }

/-- The last spelling is found alike, an earlier one is not. -/
theorem static_tier_iff_spelled :
    ((register Route.handler spelledRoutes).select (spelledRequest (ascii "/a/b/"))).1 =
        ((insertAll .GET spelledRoutes).search (.ofBytes (ascii "/a/b/")) {}).1 ∧
      ((register Route.handler spelledRoutes).select (spelledRequest (ascii "/a//b"))).1 ≠
        ((insertAll .GET spelledRoutes).search (.ofBytes (ascii "/a//b")) {}).1 := by
  have hlatest : segmentRoute spelledRoutes .GET (ascii "/a//b") = some ⟨ascii "GET", ascii "/a/b/", 5⟩ := by
    decide +kernel
  refine ⟨(static_tier_iff spelledRoutes_plain (spelledRequest (ascii "/a/b/"))).2.mpr ?_, fun hsame => ?_⟩
  · intro latest hlast
    exact ⟨⟨ascii "GET", ascii "/a/b/", 5⟩, by decide +kernel, by
      have hown : segmentRoute spelledRoutes .GET (ascii "/a/b/") = some ⟨ascii "GET", ascii "/a/b/", 5⟩ := by
        decide +kernel
      cases hown.symm.trans hlast
      rfl⟩
  · obtain ⟨spelled, hspelled, hhandler⟩ :=
      (static_tier_iff spelledRoutes_plain (spelledRequest (ascii "/a//b"))).2.mp hsame _ hlatest
    have hown : staticRoute spelledRoutes .GET (ascii "/a//b") = some ⟨ascii "GET", ascii "/a//b", 2⟩ := by
      decide +kernel
    cases hown.symm.trans hspelled
    cases hhandler

/-- One route, and a request for its path with a slash behind it. -/
def homeRoute : List (Route Unit) := [⟨ascii "GET", ascii "/a", ()⟩]

def slashRequest : HttpRequest := { method := .GET, path := .ofBytes (ascii "/a/") }

theorem homeRoute_plain : ∀ route ∈ homeRoute, 58 ∉ route.path := by decide

/-- The trie takes the slash for nothing, the static map does not. -/
theorem trailing_slash_differs :
    ((register Route.handler homeRoute).select slashRequest).1 = none ∧
      ((insertAll slashRequest.method homeRoute).search slashRequest.path slashRequest.params).1 = some () := by
  rw [select_static homeRoute_plain, search_insertAll homeRoute_plain]
  decide +kernel

end Router

end octane
