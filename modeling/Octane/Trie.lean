import Octane.HttpTypes

open search

namespace octane

/-- A node of the route trie. Children are kept in the list until there are
more than eight, then in the map. -/
structure TrieNode (H : Type) where
  linear_children : List (Bytes × TrieNode H) := []
  map_children : UnorderedMap Bytes (TrieNode H) := {}
  wildcard : Option (TrieNode H) := none
  wildcard_name : Bytes := []
  handler : Option H := none

namespace TrieNode

variable {H : Type}

instance : Inhabited (TrieNode H) := ⟨{}⟩

def find_child (self : TrieNode H) (part : Bytes) : Option (TrieNode H) :=
  if self.map_children.entries.isEmpty then
    (self.linear_children.find? fun entry => entry.1 == part).map Prod.snd
  else self.map_children.get equal_to part

/-- The first entry with a key, changed. -/
def updateFirst (part : Bytes) (change : TrieNode H → TrieNode H) :
    List (Bytes × TrieNode H) → List (Bytes × TrieNode H)
  | [] => []
  | entry :: rest =>
    if entry.1 == part then (entry.1, change entry.2) :: rest
    else entry :: updateFirst part change rest

/-- The move of the list into the map at the ninth child. -/
def migrate (self : TrieNode H) : TrieNode H :=
  { self with
    map_children := self.linear_children.foldl
      (fun children entry => (children.try_emplace equal_to entry.1 entry.2).1) self.map_children
    linear_children := [] }

/-- The caller goes on with the child that is returned; `change` is what it does to it. -/
def get_or_create_child (self : TrieNode H) (part : Bytes) (change : TrieNode H → TrieNode H) :
    TrieNode H :=
  if self.linear_children.any fun entry => entry.1 == part then
    { self with linear_children := updateFirst part change self.linear_children }
  else if self.map_children.entries.isEmpty ∧ self.linear_children.length < 8 then
    { self with linear_children := self.linear_children ++ [(part, change {})] }
  else
    let self := if self.map_children.entries.isEmpty then self.migrate else self
    let child := (self.map_children.get equal_to part).getD {}
    { self with map_children := self.map_children.assign equal_to part (change child) }

end TrieNode

namespace Trie

variable {H : Type}

/-- The inner loop of `insert` and `search`: the first position from `start`
that holds no slash. -/
def skipSlashes (path : Bytes) (start : Nat) : Nat :=
  if h : start < path.length then
    if path[start] = 47 then skipSlashes path (start + 1) else start
  else start
termination_by path.length - start

/-- The bounds of the part that the outer loop of `insert` and `search` cuts
from `start`; `none` where the loop is left. -/
def next_part (path : Bytes) (start : Nat) : Option (Nat × Nat) :=
  let start := skipSlashes path start
  if path.length ≤ start then none
  else some (start, ((findSub [47] (path.drop start)).map (start + ·)).getD path.length)

/-- The inner loop never goes back, and stops at no slash. -/
theorem skipSlashes_spec (path : Bytes) (start : Nat) :
    start ≤ skipSlashes path start ∧ path[skipSlashes path start]? ≠ some 47 := by
  induction start using skipSlashes.induct path with
  | case1 start hstart hslash ih =>
    rw [skipSlashes, dif_pos hstart, if_pos hslash]
    exact ⟨by omega, ih.2⟩
  | case2 start hstart hslash =>
    rw [skipSlashes, dif_pos hstart, if_neg hslash]
    exact ⟨Nat.le_refl _, by simpa [hstart] using hslash⟩
  | case3 start hstart =>
    rw [skipSlashes, dif_neg hstart]
    exact ⟨Nat.le_refl _, by simp [Nat.le_of_not_lt hstart]⟩

/-- A part is never empty and lies behind the position it was looked for from: it
begins at a byte that is no slash, and ends at the next slash or at the end. -/
theorem next_part_bounds {path : Bytes} {start first last : Nat}
    (h : next_part path start = some (first, last)) :
    start ≤ first ∧ first < last ∧ last ≤ path.length := by
  obtain ⟨hle, hslash⟩ := skipSlashes_spec path start
  rw [next_part] at h
  split at h
  · cases h
  · next hinside =>
    simp only [Option.some.injEq, Prod.mk.injEq] at h
    obtain ⟨rfl, rfl⟩ := h
    refine ⟨hle, ?_⟩
    cases hfind : findSub [47] (path.drop (skipSlashes path start)) with
    | none =>
      simp only [Option.map_none, Option.getD_none]
      omega
    | some i =>
      have hroom := findSub_add_length_le hfind
      simp only [Option.map_some, Option.getD_some]
      simp only [List.length_drop, List.length_singleton] at hroom
      refine ⟨?_, by omega⟩
      cases i with
      | succ i => omega
      | zero =>
        have hget : path[skipSlashes path start]? = some 47 := by
          simpa using getElem?_of_findSub_singleton hfind
        exact absurd hget hslash

/-- The outer loop comes closer to the end of the path with each part: the measure
of `insert` and `search`. -/
theorem next_part_lt {path : Bytes} {start first last : Nat}
    (h : next_part path start = some (first, last)) : path.length - last < path.length - start := by
  have hbounds := next_part_bounds h
  omega

/-- `insert` from a node on; the branch for an empty part is the source's. -/
def insert_loop (path : Bytes) (handler : H) (node : TrieNode H) (start : Nat) : TrieNode H :=
  match _h : next_part path start with
  | none => { node with handler := some handler }
  | some (first, last) =>
    match (path.drop first).take (last - first) with
    | [] => insert_loop path handler node last
    | c :: rest =>
      if c = 58 then
        { node with
          wildcard := some (insert_loop path handler (node.wildcard.getD {}) last)
          wildcard_name := rest }
      else
        node.get_or_create_child (c :: rest) fun child => insert_loop path handler child last
termination_by path.length - start
decreasing_by all_goals exact next_part_lt _h

/-- `search` from a node on: the handler it ends at, and the parameters it has
written on the way, which stay when it fails. -/
def search_loop (path : StringView) (node : TrieNode H) (start : Nat) (params : StringMap) :
    Option H × StringMap :=
  match _h : next_part path.bytes start with
  | none => (node.handler, params)
  | some (first, last) =>
    let part : StringView :=
      { off := path.off + first, bytes := (path.bytes.drop first).take (last - first) }
    if part.empty then search_loop path node last params
    else
      match node.find_child part.bytes with
      | some next => search_loop path next last params
      | none =>
        match node.wildcard with
        | some next =>
          search_loop path next last (params.assign StringMap.keyEq (.ofBytes node.wildcard_name) part)
        | none => (none, params)
termination_by path.bytes.length - start
decreasing_by all_goals exact next_part_lt _h

end Trie

/-- The trie itself: its root. -/
structure Trie (H : Type) where
  root_ : TrieNode H := {}

namespace Trie

variable {H : Type}

def insert (self : Trie H) (path : Bytes) (handler : H) : Trie H :=
  { self with root_ := insert_loop path handler self.root_ 0 }

def search (self : Trie H) (path : StringView) (params : StringMap) : Option H × StringMap :=
  search_loop path self.root_ 0 params

end Trie

end octane
