import Octane.Lib.HashTable
import Octane.HttpTypes.Hash
import Octane.Router.Resolution

namespace octane

/-- The bytes of a path: those of a string of `path_storage_`, or of a buffer elsewhere. -/
structure PathView where
  slot : Option Nat
  bytes : Bytes
deriving DecidableEq

namespace PathView

def hash (view : PathView) : UInt64 := StringViewHash view.bytes

/-- What a reader of the view gets now. -/
def read (path_storage_ : List Bytes) (view : PathView) : Option Bytes :=
  match view.slot with
  | some slot => path_storage_[slot]?
  | none => some view.bytes

/-- `std::equal_to` reads both sides each time; a view that points nowhere equals nothing. -/
def equal_to (path_storage_ : List Bytes) (a b : PathView) : Bool :=
  match a.read path_storage_, b.read path_storage_ with
  | some a, some b => octane.equal_to a b
  | _, _ => false

/-- The comparison of the bytes that the views were made for. -/
def sameBytes (a b : PathView) : Bool := octane.equal_to a.bytes b.bytes

/-- Views that show the same bytes fall into one bucket. -/
theorem hash_respects : Respects hash sameBytes where
  lawful := {
    refl := fun _ => equal_to_lawful.refl _
    symm := equal_to_lawful.symm
    trans := equal_to_lawful.trans }
  congr := fun {k l} h => by rw [hash, hash, equal_to_iff.mp h]

/-- The view points into the storage, at the bytes it was made for. -/
def Live (path_storage_ : List Bytes) (view : PathView) : Prop :=
  ∃ slot, view.slot = some slot ∧ path_storage_[slot]? = some view.bytes

/-- A live view still shows what it was made to show. -/
theorem Live.read {path_storage_ : List Bytes} {view : PathView} (h : view.Live path_storage_) :
    view.read path_storage_ = some view.bytes := by
  obtain ⟨slot, hslot, hbytes⟩ := h
  rw [PathView.read, hslot]
  exact hbytes

/-- A string added behind the others moves none of them. -/
theorem Live.append {path_storage_ : List Bytes} {view : PathView} (h : view.Live path_storage_)
    (added : List Bytes) : view.Live (path_storage_ ++ added) := by
  obtain ⟨slot, hslot, hbytes⟩ := h
  refine ⟨slot, hslot, ?_⟩
  rw [List.getElem?_append_left (List.getElem?_eq_some_iff.mp hbytes).1]
  exact hbytes

/-- The view of the path that has just been stored is live. -/
theorem live_back (path_storage_ : List Bytes) (path : Bytes) :
    Live (path_storage_ ++ [path]) ⟨some path_storage_.length, path⟩ :=
  ⟨path_storage_.length, rfl, List.getElem?_concat_length⟩

theorem equal_to_bytes (a b : PathView) : octane.equal_to a.bytes b.bytes = sameBytes a b := rfl

/-- Comparing two live views through the storage compares their bytes. -/
theorem equal_to_eq {path_storage_ : List Bytes} {a b : PathView} (ha : a.Live path_storage_)
    (hb : b.read path_storage_ = some b.bytes) : equal_to path_storage_ a b = sameBytes a b := by
  rw [equal_to, ha.read, hb]
  rfl

end PathView

/-- The router with the strings that the keys of its static tier point into. -/
structure StoredRouter (layout : Layout UInt64) (H : Type) where
  static_routes_ : HttpMethod → HashTable PathView.hash layout H := fun _ =>
    HashTable.empty PathView.hash layout
  dynamic_ : HttpMethod → Trie H := fun _ => {}
  path_storage_ : List Bytes := []

namespace StoredRouter

variable {layout : Layout UInt64} {F H : Type}

def add (self : StoredRouter layout H) (method path : Bytes) (handler : H) : StoredRouter layout H :=
  let m := Router.stringToMethod method
  if m = .UNKNOWN then self
  else if Router.isDynamic path then
    { self with dynamic_ := Function.update self.dynamic_ m ((self.dynamic_ m).insert path handler) }
  else
    let path_storage_ := self.path_storage_ ++ [path]
    let persistent_view : PathView := ⟨some self.path_storage_.length, path⟩
    { self with
      path_storage_
      static_routes_ := Function.update self.static_routes_ m
        ((self.static_routes_ m).assign (PathView.equal_to path_storage_) persistent_view handler) }

/-- The lookups of `resolve`. The path of the request lies in the buffer of its connection. -/
def select (self : StoredRouter layout H) (req : HttpRequest) : Option H × HttpRequest :=
  if 7 ≤ req.method.index then (none, req)
  else
    match (self.static_routes_ req.method).find (PathView.equal_to self.path_storage_)
        ⟨none, req.path.bytes⟩ with
    | some entry => (some entry.2, req)
    | none =>
      let found := (self.dynamic_ req.method).search req.path req.params
      (found.1, { req with params := found.2 })

def resolve (call : H → HttpRequest → HttpResponse → HandlerResult) (self : StoredRouter layout H)
    (req : HttpRequest) (res : HttpResponse) : Bool × HandlerResult :=
  match self.select req with
  | (some handler, req) => (true, call handler req res)
  | (none, req) => (false, { req, res })

variable (layout) in
def register (label : Route F → H) (routes : List (Route F)) : StoredRouter layout H :=
  routes.foldl (fun router route => router.add route.method route.path (label route)) {}

/-- The keys of a table point into the storage, and the table holds what a map with the
paths themselves holds. -/
structure Keeps (path_storage_ : List Bytes) (table : HashTable PathView.hash layout H)
    (routes : UnorderedMap Bytes H) : Prop where
  live : ∀ entry ∈ table.entries, entry.1.Live path_storage_
  holds : ∃ map : UnorderedMap PathView H, table.Holds PathView.sameBytes map ∧
    map.mapEntries PathView.bytes id = routes

theorem Keeps.empty (path_storage_ : List Bytes) :
    Keeps path_storage_ (HashTable.empty PathView.hash layout : HashTable _ _ H) {} where
  live entry hentry := by
    have hempty : (HashTable.empty PathView.hash layout).Holds PathView.sameBytes ({} : UnorderedMap _ H) :=
      .empty
    have hmem := hempty.entries.mem_iff.mp hentry
    cases hmem
  holds := ⟨{}, HashTable.Holds.empty, rfl⟩

variable {path_storage_ : List Bytes} {table : HashTable PathView.hash layout H} {routes : UnorderedMap Bytes H}

/-- Further paths in the storage disturb no key: a deque leaves its elements where they are. -/
theorem Keeps.append (h : Keeps path_storage_ table routes) (added : List Bytes) :
    Keeps (path_storage_ ++ added) table routes where
  live entry hentry := (h.live entry hentry).append added
  holds := h.holds

/-- Comparing what the storage holds now is comparing the bytes that the views were made for. -/
theorem Keeps.equal_to_eq (h : Keeps path_storage_ table routes) {view : PathView}
    (hview : view.read path_storage_ = some view.bytes) :
    ∀ entry ∈ table.entries,
      PathView.equal_to path_storage_ entry.1 view = PathView.sameBytes entry.1 view :=
  fun entry hentry => PathView.equal_to_eq (h.live entry hentry) hview

/-- An assignment under a live view is one under the path that it shows. -/
theorem Keeps.assign (h : Keeps path_storage_ table routes) {view : PathView} (hview : view.Live path_storage_)
    (handler : H) : Keeps path_storage_ (table.assign (PathView.equal_to path_storage_) view handler)
      (routes.assign equal_to view.bytes handler) := by
  obtain ⟨map, hholds, hmap⟩ := h.holds
  have hnew := hholds.assign PathView.hash_respects view handler
  rw [HashTable.assign_congr (h.equal_to_eq hview.read)]
  refine ⟨fun entry hentry => ?_, _, hnew, ?_⟩
  · -- the key of an entry is one that was there or the one just made
    obtain hold | rfl | ⟨old, hold, rfl⟩ := UnorderedMap.mem_assign (hnew.entries.mem_iff.mp hentry)
    · exact h.live entry (hholds.entries.mem_iff.mpr hold)
    · exact hview
    · exact h.live old (hholds.entries.mem_iff.mpr hold)
  · rw [UnorderedMap.mapEntries_assign PathView.equal_to_bytes, hmap]
    rfl

/-- A lookup through the views finds what one by the paths finds. -/
theorem Keeps.find_eq (h : Keeps path_storage_ table routes) {view : PathView}
    (hview : view.read path_storage_ = some view.bytes) :
    (table.find (PathView.equal_to path_storage_) view).map Prod.snd = routes.get equal_to view.bytes := by
  obtain ⟨map, hholds, hmap⟩ := h.holds
  have hfind := UnorderedMap.find_mapEntries PathView.equal_to_bytes (id : H → H) map view
  rw [hmap] at hfind
  rw [HashTable.find_congr (h.equal_to_eq hview), hholds.find_eq PathView.hash_respects, UnorderedMap.get,
    hfind, Option.map_map]
  rfl

/-- The router has its static routes in tables whose keys point into the storage. -/
structure Stores (stored : StoredRouter layout H) (router : Router H) : Prop where
  static : ∀ m, Keeps stored.path_storage_ (stored.static_routes_ m) (router.static_routes_ m)
  dynamic : stored.dynamic_ = router.dynamic_

theorem Stores.empty : Stores ({} : StoredRouter layout H) {} where
  static _ := .empty []
  dynamic := rfl

/-- A registration stores the path, then assigns under a view of it: the router by
paths does the same. -/
theorem Stores.add {stored : StoredRouter layout H} {router : Router H} (h : stored.Stores router)
    (method path : Bytes) (handler : H) :
    (stored.add method path handler).Stores (router.add method path handler) := by
  rw [StoredRouter.add, Router.add]
  split_ifs with hunknown hdynamic
  · exact h
  · refine ⟨h.static, ?_⟩
    dsimp only
    rw [h.dynamic]
  · refine ⟨fun m => ?_, h.dynamic⟩
    have hkept := (h.static m).append [path]
    by_cases hm : m = Router.stringToMethod method
    · subst hm
      simp only [Function.update_self]
      exact hkept.assign (PathView.live_back stored.path_storage_ path) handler
    · simp only [Function.update_of_ne hm]
      exact hkept

/-- The two routers look every request up alike. -/
theorem Stores.select_eq {stored : StoredRouter layout H} {router : Router H} (h : stored.Stores router)
    (req : HttpRequest) : stored.select req = router.select req := by
  rw [StoredRouter.select, Router.select]
  split_ifs with hunknown
  · rfl
  · have hview : PathView.read stored.path_storage_ ⟨none, req.path.bytes⟩ = some req.path.bytes := rfl
    have hfind := (h.static req.method).find_eq hview
    dsimp only at hfind
    rw [← hfind, h.dynamic]
    cases (stored.static_routes_ req.method).find (PathView.equal_to stored.path_storage_)
      ⟨none, req.path.bytes⟩ <;> rfl

/-- Routers that look requests up alike resolve them alike, whatever the handlers do.
-/
theorem Stores.resolve_eq {stored : StoredRouter layout H} {router : Router H} (h : stored.Stores router)
    (call : H → HttpRequest → HttpResponse → HandlerResult) (req : HttpRequest) (res : HttpResponse) :
    stored.resolve call req res = router.resolve call req res := by
  cases hselect : router.select req with
  | mk found after =>
    have hstored := (h.select_eq req).trans hselect
    cases found with
    | some handler => rw [StoredRouter.resolve, hstored, Router.resolve, hselect]
    | none => rw [StoredRouter.resolve, hstored, Router.resolve, hselect]

variable (layout) in
/-- Later routes are registered on top of the earlier ones. -/
theorem register_append (label : Route F → H) (routes later : List (Route F)) :
    register layout label (routes ++ later) =
      later.foldl (fun router route => router.add route.method route.path (label route))
        (register layout label routes) :=
  List.foldl_append

variable (layout) in
/-- By induction on the registrations, every router of views stores the router of paths. -/
theorem register_stores (label : Route F → H) (routes : List (Route F)) :
    (register layout label routes).Stores (Router.register label routes) := by
  induction routes using List.reverseRecOn with
  | nil => exact .empty
  | append_singleton routes route ih =>
    rw [register_append, Router.register_append]
    exact ih.add route.method route.path (label route)

/-- The storage only grows. -/
theorem add_path_storage_ (stored : StoredRouter layout H) (method path : Bytes) (handler : H) :
    stored.path_storage_ <+: (stored.add method path handler).path_storage_ := by
  rw [add]
  split_ifs
  · exact List.prefix_refl _
  · exact List.prefix_refl _
  · exact List.prefix_append _ _

variable (layout) in
/-- Nothing that was stored is moved or dropped by what is registered later. -/
theorem register_path_storage_ (label : Route F → H) (routes later : List (Route F)) :
    (register layout label routes).path_storage_ <+:
      (register layout label (routes ++ later)).path_storage_ := by
  rw [register_append]
  induction later using List.reverseRecOn with
  | nil => exact List.prefix_refl _
  | append_singleton later route ih =>
    rw [List.foldl_append]
    exact ih.trans (add_path_storage_ _ _ _ _)

/-- However the hash tables are laid out: no key of the static tier is left pointing at
a string that is gone or changed, not by routes that are registered later either, and
each request is resolved as by a router that has the paths themselves as its keys. -/
theorem resolves_alike (layout : Layout UInt64) (routes : List (Route F)) :
    (∀ later m, ∀ entry ∈ ((register layout Route.handler routes).static_routes_ m).entries,
      entry.1.Live (register layout Route.handler (routes ++ later)).path_storage_) ∧
    ∀ call req res, (register layout Route.handler routes).resolve call req res =
      (Router.register Route.handler routes).resolve call req res := by
  have hstores := register_stores layout Route.handler routes
  refine ⟨fun later m entry hentry => ?_, hstores.resolve_eq⟩
  obtain ⟨added, hadded⟩ := register_path_storage_ layout Route.handler routes later
  rw [← hadded]
  exact ((hstores.static m).live entry hentry).append added

end StoredRouter

end octane
