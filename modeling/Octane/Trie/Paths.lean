import Octane.Lib.Runs
import Octane.Trie.Descent

open search

namespace octane

/-- A segment of a path by its bounds: a run of bytes other than slashes. -/
abbrev IsSegment (path : Bytes) (first last : Nat) : Prop := IsRun (· ≠ 47) path first last

/-- A byte between the bounds is a byte of the slice. -/
theorem mem_slice {path : Bytes} {first last i : Nat} {c : UInt8} (hfirst : first ≤ i) (hlast : i < last)
    (hget : path[i]? = some c) : c ∈ slice path (first, last) := by
  refine List.mem_of_getElem? (i := i - first) ?_
  rw [slice, List.getElem?_take_of_lt (by omega), List.getElem?_drop, Nat.add_sub_of_le hfirst, hget]

/-- No segment goes on over the position. -/
def AtEdge (path : Bytes) (start : Nat) : Prop :=
  ∀ i, i + 1 = start → start < path.length → path[i]? = some 47 ∨ path[start]? = some 47

namespace Trie

theorem atEdge_zero (path : Bytes) : AtEdge path 0 := by
  intro i hi
  omega

/-- The bytes that are skipped are slashes. -/
theorem slash_of_lt_skipSlashes {path : Bytes} {start i : Nat} (hstart : start ≤ i)
    (hi : i < skipSlashes path start) : path[i]? = some 47 := by
  induction start using skipSlashes.induct path with
  | case1 start hinside hslash ih =>
    rw [skipSlashes, dif_pos hinside, if_pos hslash] at hi
    rcases Nat.eq_or_lt_of_le hstart with rfl | hlt
    · rw [List.getElem?_eq_getElem hinside, hslash]
    · exact ih hlt hi
  | case2 start hinside hslash =>
    rw [skipSlashes, dif_pos hinside, if_neg hslash] at hi
    omega
  | case3 start hinside =>
    rw [skipSlashes, dif_neg hinside] at hi
    omega

/-- Where the loop is left, only slashes were ahead. -/
theorem slash_of_next_part_none {path : Bytes} {start i : Nat} (h : next_part path start = none)
    (hstart : start ≤ i) (hi : i < path.length) : path[i]? = some 47 := by
  rw [next_part] at h
  split at h
  · next hend => exact slash_of_lt_skipSlashes hstart (by omega)
  · cases h

/-- Between the position looked from and the part there are slashes, none are in
the part, and it ends at one or with the path. -/
theorem next_part_slashes {path : Bytes} {start first last : Nat}
    (h : next_part path start = some (first, last)) :
    (∀ i, start ≤ i → i < first → path[i]? = some 47) ∧ AllBetween (· ≠ 47) path first last ∧
      (last < path.length → path[last]? = some 47) := by
  rw [next_part] at h
  split at h
  · cases h
  · next hinside =>
    simp only [Option.some.injEq, Prod.mk.injEq] at h
    obtain ⟨rfl, hlast⟩ := h
    refine ⟨fun i hi hlt => slash_of_lt_skipSlashes hi hlt, ?_, ?_⟩
    · intro i c hi hlt hget hslash
      subst hslash
      have hmem := mem_slice hi hlt hget
      rw [slice, ← hlast] at hmem
      cases hfind : findSub [47] (path.drop (skipSlashes path start)) with
      | none => exact findSub_singleton_eq_none_iff.mp hfind (List.mem_of_mem_take hmem)
      | some j =>
        simp only [hfind, Option.map_some, Option.getD_some, Nat.add_sub_cancel_left] at hmem
        exact not_mem_take_of_findSub hfind hmem
    · intro hroom
      cases hfind : findSub [47] (path.drop (skipSlashes path start)) with
      | none =>
        simp only [hfind, Option.map_none, Option.getD_none] at hlast
        omega
      | some j =>
        simp only [hfind, Option.map_some, Option.getD_some] at hlast
        rw [← hlast, ← List.getElem?_drop]
        exact getElem?_of_findSub_singleton hfind

/-- The part that is cut is a segment. -/
theorem isSegment_of_next_part {path : Bytes} {start first last : Nat} (hedge : AtEdge path start)
    (h : next_part path start = some (first, last)) : IsSegment path first last := by
  obtain ⟨hle, hnonempty, hinside⟩ := next_part_bounds h
  obtain ⟨hskipped, hall, hback⟩ := next_part_slashes h
  refine .of_edges hnonempty hinside hall ?_ ?_
  · intro i c hi hget hne
    rcases Nat.lt_or_ge i start with hbefore | hbehind
    · -- the part begins where the loop looked from
      obtain rfl : start = first := by omega
      rcases hedge i hi (by omega) with hslash | hslash
      · exact hne (Option.some.inj (hget.symm.trans hslash))
      · exact hall start 47 (Nat.le_refl _) hnonempty hslash rfl
    · exact hne (Option.some.inj (hget.symm.trans (hskipped i hbehind (by omega))))
  · intro c hget hne
    have hroom := (List.getElem?_eq_some_iff.mp hget).1
    exact hne (Option.some.inj (hget.symm.trans (hback hroom)))

/-- The loop goes on from the end of the path or from a slash. -/
theorem atEdge_of_next_part {path : Bytes} {start first last : Nat}
    (h : next_part path start = some (first, last)) : AtEdge path last := by
  intro i _ hroom
  exact .inr ((next_part_slashes h).2.2 hroom)

/-- The bounds of the parts that the loops of `insert` and `search` come to from a position on. -/
def visits (path : Bytes) (start : Nat) : List (Nat × Nat) :=
  match _h : next_part path start with
  | none => []
  | some (first, last) => (first, last) :: visits path last
termination_by path.length - start
decreasing_by exact next_part_lt _h

/-- The loops come to every segment ahead, and to nothing else: a visit goes from a
slash, or the start, to the next slash, or the end. -/
theorem mem_visits_iff {path : Bytes} {start first last : Nat} (hedge : AtEdge path start) :
    (first, last) ∈ visits path start ↔ IsSegment path first last ∧ start ≤ first := by
  induction start using visits.induct path with
  | case1 start hnone =>
    rw [visits, hnone]
    constructor
    · intro h
      cases h
    · rintro ⟨hsegment, hle⟩
      have hroom : first < path.length := Nat.lt_of_lt_of_le hsegment.nonempty hsegment.inside
      have hslash := slash_of_next_part_none hnone hle hroom
      exact absurd rfl (hsegment.all first 47 (Nat.le_refl _) hsegment.nonempty hslash)
  | case2 start first' last' hpart ih =>
    have hbounds := next_part_bounds hpart
    have hsegment' := isSegment_of_next_part hedge hpart
    rw [visits, hpart, List.mem_cons, ih (atEdge_of_next_part hpart)]
    constructor
    · rintro (hhere | ⟨hsegment, hle⟩)
      · cases hhere
        exact ⟨hsegment', hbounds.1⟩
      · exact ⟨hsegment, by omega⟩
    · rintro ⟨hsegment, hle⟩
      rcases Nat.lt_or_ge first last' with hbefore | hbehind
      · -- it overlaps the part that is cut, since only slashes lie in front of that
        have hmeets : first' < last := by
          by_contra hout
          have hslash := (next_part_slashes hpart).1 first hle (by have := hsegment.nonempty; omega)
          exact hsegment.all first 47 (Nat.le_refl _) hsegment.nonempty hslash rfl
        obtain ⟨rfl, rfl⟩ := hsegment'.eq_of_overlap hsegment hmeets hbefore
        exact .inl rfl
      · exact .inr ⟨hsegment, hbehind⟩

/-- The parts come in the order of the path, with a slash between any two. -/
theorem visits_pairwise (path : Bytes) (start : Nat) :
    (visits path start).Pairwise fun a b => a.2 < b.1 := by
  induction start using visits.induct path with
  | case1 start hnone =>
    rw [visits, hnone]
    exact List.Pairwise.nil
  | case2 start first last hpart ih =>
    rw [visits, hpart]
    refine List.pairwise_cons.mpr ⟨?_, ih⟩
    rintro ⟨first', last'⟩ hlater
    obtain ⟨hsegment, hle⟩ := (mem_visits_iff (atEdge_of_next_part hpart)).mp hlater
    have hroom : last < path.length := by
      have hnonempty := hsegment.nonempty
      have hinside := hsegment.inside
      omega
    rcases Nat.eq_or_lt_of_le hle with rfl | hlt
    · have hslash := (next_part_slashes hpart).2.2 hroom
      exact absurd rfl (hsegment.all last 47 (Nat.le_refl _) hsegment.nonempty hslash)
    · exact hlt

/-- What `search` sees of the parts is cut at these bounds. -/
theorem partsFrom_eq_visits (path : StringView) (start : Nat) : partsFrom path start =
    (visits path.bytes start).map fun bounds =>
      { off := path.off + bounds.1, bytes := slice path.bytes bounds } := by
  induction start using visits.induct path.bytes with
  | case1 start hnone =>
    rw [partsFrom, visits, hnone]
    rfl
  | case2 start first last hpart ih =>
    rw [partsFrom, visits, hpart, List.map_cons, ← ih]
    rfl

/-- The bounds that the loop visits cut the path into its segments. -/
theorem visits_slices (path : Bytes) (start : Nat) :
    (visits path start).map (slice path) = segments (path.drop start) := by
  have hparts := partsFrom_bytes (.ofBytes path) start
  rw [partsFrom_eq_visits, List.map_map] at hparts
  exact hparts

variable {H : Type}

/-- What `insert` does with the parts, one after the other. -/
def insertParts (handler : H) : List Bytes → TrieNode H → TrieNode H
  | [], node => { node with handler := some handler }
  | part :: rest, node =>
    match toSegment part with
    | .parameter name =>
      { node with
        wildcard := some (insertParts handler rest (node.wildcard.getD {}))
        wildcard_name := name }
    | .literal text => node.get_or_create_child text (insertParts handler rest)

/-- What `search` does with the parts, one after the other; the parameters are kept by their texts. -/
def searchParts : List Bytes → TrieNode H → UnorderedMap Bytes Bytes →
    Option H × UnorderedMap Bytes Bytes
  | [], node, params => (node.handler, params)
  | part :: rest, node, params =>
    match node.find_child part with
    | some next => searchParts rest next params
    | none =>
      match node.wildcard with
      | some next => searchParts rest next (params.assign equal_to node.wildcard_name part)
      | none => (none, params)

/-- The loop of `insert` by indices is a recursion over the segments, so that only
they decide what is inserted. -/
theorem insert_loop_eq (path : Bytes) (handler : H) (node : TrieNode H) (start : Nat) :
    insert_loop path handler node start = insertParts handler ((visits path start).map (slice path)) node := by
  induction node, start using insert_loop.induct path with
  | case1 node start hnone =>
    rw [insert_loop, visits, hnone]
    rfl
  | case2 node start first last hpart hempty ih => exact absurd hempty (slice_ne_nil hpart)
  | case3 node start first last hpart rest htext ih =>
    have hslice : slice path (first, last) = 58 :: rest := htext
    rw [insert_loop, visits, hpart]
    simp only [htext, List.map_cons, hslice, insertParts, toSegment, if_true, ih]
  | case4 node start first last hpart c rest htext hcolon ih =>
    have hslice : slice path (first, last) = c :: rest := htext
    rw [insert_loop, visits, hpart]
    simp only [htext, List.map_cons, hslice, insertParts, toSegment, if_neg hcolon]
    congr 1
    funext child
    exact ih child

/-- The texts of the parameters. -/
def contents (params : StringMap) : UnorderedMap Bytes Bytes :=
  params.mapEntries StringView.bytes StringView.bytes

/-- A parameter that is written shows its bytes. -/
theorem contents_assign (params : StringMap) (key value : StringView) :
    contents (params.assign StringMap.keyEq key value) =
      (contents params).assign equal_to key.bytes value.bytes :=
  UnorderedMap.mapEntries_assign (fun _ _ => rfl) StringView.bytes params key value

/-- The loop of `search` by indices is a recursion over the segments, in what it finds
and in what the parameters show. -/
theorem search_loop_eq (path : StringView) (node : TrieNode H) (start : Nat) (params : StringMap) :
    ((search_loop path node start params).1, contents (search_loop path node start params).2) =
      searchParts ((visits path.bytes start).map (slice path.bytes)) node (contents params) := by
  induction node, start, params using search_loop.induct path with
  | case1 node start params hnone =>
    rw [search_loop, visits, hnone]
    rfl
  | case2 node start params first last hpart part hempty =>
    exact absurd (StringView.empty_iff.mp hempty) (slice_ne_nil hpart)
  | case3 node start params first last hpart part hempty next hnext =>
    rename_i ih
    have hchild : node.find_child (slice path.bytes (first, last)) = some next := hnext
    rw [search_loop, visits, hpart]
    dsimp only
    rw [if_neg hempty, hnext, List.map_cons, searchParts, hchild]
    exact ih
  | case4 node start params first last hpart part hempty hnone next hnext =>
    rename_i ih
    have hchild : node.find_child (slice path.bytes (first, last)) = none := hnone
    rw [search_loop, visits, hpart]
    dsimp only
    rw [if_neg hempty, hnone, hnext, List.map_cons, searchParts, hchild, hnext]
    dsimp only
    rw [contents_assign] at ih
    exact ih
  | case5 node start params first last hpart part hempty hnone =>
    rename_i hwildcard
    have hchild : node.find_child (slice path.bytes (first, last)) = none := hnone
    rw [search_loop, visits, hpart]
    dsimp only
    rw [if_neg hempty, hnone, hwildcard, List.map_cons, searchParts, hchild, hwildcard]

/-- The loops of `insert` and `search` cut a path at its segments: each round goes forward to a
part that is not empty, and the rounds are those of `visits`. -/
structure CutsSegments (H : Type) (path : Bytes) : Prop where
  advances : ∀ start first last, next_part path start = some (first, last) → start < last ∧ last ≤ path.length
  never_empty : ∀ start first last, next_part path start = some (first, last) → slice path (first, last) ≠ []
  exactly : ∀ first last, (first, last) ∈ visits path 0 ↔ IsSegment path first last
  ordered : (visits path 0).Pairwise fun a b => a.2 < b.1
  parts : (visits path 0).map (slice path) = segments path
  insert : ∀ (handler : H) node,
    insert_loop path handler node 0 = insertParts handler ((visits path 0).map (slice path)) node
  search : ∀ off (node : TrieNode H) params,
    ((search_loop { off, bytes := path } node 0 params).1,
        contents (search_loop { off, bytes := path } node 0 params).2) =
      searchParts ((visits path 0).map (slice path)) node (contents params)

/-- Both loops cut every path alike, whatever slashes are at its ends or repeated in it. -/
theorem cutsSegments (H : Type) (path : Bytes) : CutsSegments H path where
  advances start first last h := by
    have hbounds := next_part_bounds h
    omega
  never_empty _ _ _ := slice_ne_nil
  exactly first last := by
    rw [mem_visits_iff (atEdge_zero path)]
    exact and_iff_left (Nat.zero_le first)
  ordered := visits_pairwise path 0
  parts := visits_slices path 0
  insert handler node := insert_loop_eq path handler node 0
  search off node params := search_loop_eq { off, bytes := path } node 0 params

/-- Inserting is decided by the segments of the pattern. -/
theorem insert_eq (trie : Trie H) (path : Bytes) (handler : H) :
    trie.insert path handler = { root_ := insertParts handler (segments path) trie.root_ } := by
  rw [insert, insert_loop_eq, visits_slices, List.drop_zero]

/-- Searching is decided by the segments of the path, up to where the parameters stand in it. -/
theorem search_eq (trie : Trie H) (path : StringView) (params : StringMap) :
    ((trie.search path params).1, contents (trie.search path params).2) =
      searchParts (segments path.bytes) trie.root_ (contents params) := by
  rw [search, search_loop_eq, visits_slices, List.drop_zero]

/-- The trie after insertions into an empty one. -/
def built (inserted : List (Bytes × H)) : Trie H :=
  inserted.foldl (fun trie route => trie.insert route.1 route.2) {}

/-- A pattern can be respelled with other slashes in any place of a sequence of insertions. -/
theorem built_congr {pattern other : Bytes} (hsame : segments pattern = segments other) (handler : H)
    (before after : List (Bytes × H)) :
    built (before ++ (pattern, handler) :: after) = built (before ++ (other, handler) :: after) := by
  rw [built, built, List.foldl_append, List.foldl_append, List.foldl_cons, List.foldl_cons, insert_eq,
    insert_eq, hsame]

/-- Paths and patterns matter by their segments only: slashes in front, behind or in a
row change neither what is found nor the parameters, and a pattern can be replaced by
another with the same segments. -/
theorem segments_decide (H : Type) :
    (∀ (inserted : List (Bytes × H)) (path other : StringView) (params held : StringMap),
      segments path.bytes = segments other.bytes → contents params = contents held →
        ((built inserted).search path params).1 = ((built inserted).search other held).1 ∧
          contents ((built inserted).search path params).2 = contents ((built inserted).search other held).2) ∧
    (∀ (before after : List (Bytes × H)) (pattern other : Bytes) (handler : H),
      segments pattern = segments other → ∀ request params,
        (built (before ++ (pattern, handler) :: after)).search request params =
          (built (before ++ (other, handler) :: after)).search request params) ∧
    ∀ path, CutsSegments H path := by
  refine ⟨?_, ?_, cutsSegments H⟩
  · intro inserted path other params held hsame hheld
    have hpath := search_eq (built inserted) path params
    have hother := search_eq (built inserted) other held
    rw [hsame, hheld, ← hother] at hpath
    exact Prod.mk.inj hpath
  · intro before after pattern other handler hsame request params
    rw [built_congr hsame]

theorem segments_decide_slashes :
    ((built [(ascii "/u/:id", ())]).search (.ofBytes (ascii "//u///7/")) {}).1 =
        ((built [(ascii "/u/:id", ())]).search (.ofBytes (ascii "u/7")) {}).1 ∧
      contents ((built [(ascii "/u/:id", ())]).search (.ofBytes (ascii "//u///7/")) {}).2 =
        contents ((built [(ascii "/u/:id", ())]).search (.ofBytes (ascii "u/7")) {}).2 :=
  (segments_decide Unit).1 _ _ _ {} {} (by decide +kernel) rfl

end Trie

end octane
