import Octane.Trie.Segments
import Octane.Trie.Children

namespace octane

/-- A node that holds the patterns of a table: its own entry and name are those
of the table, and each child holds what the table has behind it. -/
inductive TrieNode.Represents {H : Type} : TrieNode H → PatternTable Bytes Bytes H → Prop
  | intro {node table} (store : node.StoreWellFormed) (handler : node.handler = table.result)
    (name : node.wildcard_name = (table.lastName []).getD [])
    (no_wildcard : node.wildcard = none ↔ table.tails none = [])
    (wildcard : ∀ child, node.wildcard = some child → TrieNode.Represents child (table.tails none))
    (no_child : ∀ part, node.find_child part = none ↔ table.tails (some part) = [])
    (child : ∀ part child, node.find_child part = some child →
      TrieNode.Represents child (table.tails (some part))) :
    TrieNode.Represents node table

namespace TrieNode

variable {H : Type}

/-- A new node represents no route. -/
theorem represents_empty : Represents ({} : TrieNode H) [] := by
  refine .intro storeWellFormed_empty rfl rfl ?_ ?_ ?_ ?_
  · exact ⟨fun _ => rfl, fun _ => rfl⟩
  · intro child h
    cases h
  · exact fun part => ⟨fun _ => rfl, fun _ => rfl⟩
  · intro part child h
    cases h

/-- The node behind a child that may have to be created. -/
theorem Represents.getD {node : Option (TrieNode H)} {table : PatternTable Bytes Bytes H}
    (hnone : node = none → table = []) (hsome : ∀ child, node = some child → child.Represents table) :
    (node.getD {}).Represents table := by
  cases node with
  | none => exact hnone rfl ▸ represents_empty
  | some child => exact hsome child rfl

/-- The node where a pattern ends takes the handler. -/
theorem Represents.finish {node : TrieNode H} {table : PatternTable Bytes Bytes H}
    (h : node.Represents table) (handler : H) :
    Represents { node with handler := some handler } (table ++ [([], handler)]) := by
  obtain ⟨store, _, name, no_wildcard, wildcard, no_child, child⟩ := h
  refine .intro ⟨store.one_store, store.linear_unique, store.map_unique⟩ ?_ ?_ ?_ ?_ ?_ ?_
  · exact (PatternTable.result_append_nil table handler).symm
  · simpa [PatternTable.lastName_append] using name
  · simpa [PatternTable.tails_append_nil] using no_wildcard
  · simpa [PatternTable.tails_append_nil] using wildcard
  · simp only [PatternTable.tails_append_nil]
    exact no_child
  · simp only [PatternTable.tails_append_nil]
    exact child

/-- A parameter leads into the wildcard child and renames it. -/
theorem Represents.parameter {node below : TrieNode H} {table : PatternTable Bytes Bytes H}
    (h : node.Represents table) {name : Bytes} {rest : Pattern Bytes Bytes} {handler : H}
    (hbelow : below.Represents (table.tails none ++ [(rest, handler)])) :
    Represents { node with wildcard := some below, wildcard_name := name }
      (table ++ [(.parameter name :: rest, handler)]) := by
  obtain ⟨store, hhandler, _, no_wildcard, wildcard, no_child, child⟩ := h
  refine .intro ⟨store.one_store, store.linear_unique, store.map_unique⟩ ?_ ?_ ?_ ?_ ?_ ?_
  · simpa [PatternTable.result_append_cons] using hhandler
  · simp [PatternTable.lastName_append, Segment.name?]
  · simp [PatternTable.tails_append, Segment.shape]
  · intro next hnext
    obtain rfl : below = next := by simpa using hnext
    simpa [PatternTable.tails_append, Segment.shape] using hbelow
  · simp only [PatternTable.tails_append, Segment.shape, reduceCtorEq, if_false, List.append_nil]
    exact no_child
  · simp only [PatternTable.tails_append, Segment.shape, reduceCtorEq, if_false, List.append_nil]
    exact child

/-- A literal leads into its own child, which represents what is left of the patterns
that begin with it; all other children stay as they are. -/
theorem Represents.literal {node : TrieNode H} {table : PatternTable Bytes Bytes H}
    (h : node.Represents table) {text : Bytes} {rest : Pattern Bytes Bytes} {handler : H}
    {change : TrieNode H → TrieNode H}
    (hchange : ∀ below, below.Represents (table.tails (some text)) →
      (change below).Represents (table.tails (some text) ++ [(rest, handler)])) :
    Represents (node.get_or_create_child text change) (table ++ [(.literal text :: rest, handler)]) := by
  obtain ⟨store, hhandler, name, no_wildcard, wildcard, no_child, child⟩ := h
  obtain ⟨hstore, hfind⟩ := get_or_create_child_spec store text change
  obtain ⟨hwildcard, hname, hsame⟩ := get_or_create_child_frame node text change
  refine .intro hstore ?_ ?_ ?_ ?_ ?_ ?_
  · simpa [hsame, PatternTable.result_append_cons] using hhandler
  · simpa [hname, PatternTable.lastName_append, Segment.name?] using name
  · simpa [hwildcard, PatternTable.tails_append, Segment.shape] using no_wildcard
  · simpa [hwildcard, PatternTable.tails_append, Segment.shape] using wildcard
  · intro part
    rw [hfind, PatternTable.tails_append]
    by_cases hpart : part = text
    · simp [hpart, Segment.shape]
    · have hne : ¬ text = part := fun heq => hpart heq.symm
      simpa [hpart, hne, Segment.shape] using no_child part
  · intro part next hnext
    rw [hfind] at hnext
    rw [PatternTable.tails_append]
    by_cases hpart : part = text
    · subst part
      have hbelow := hchange _ (Represents.getD (no_child text).mp (child text))
      obtain rfl : change ((node.find_child text).getD {}) = next := by simpa using hnext
      simpa [Segment.shape] using hbelow
    · have hne : ¬ text = part := fun heq => hpart heq.symm
      have hold := child part next (by simpa [hpart] using hnext)
      simpa [hne, Segment.shape] using hold

end TrieNode

namespace Trie

variable {H : Type}

/-- Inserting a path adds the pattern it stands for. -/
theorem insert_loop_represents (path : Bytes) (handler : H) (node : TrieNode H) (start : Nat)
    {table : PatternTable Bytes Bytes H} (h : node.Represents table) :
    (insert_loop path handler node start).Represents
      (table ++ [((segments (path.drop start)).map toSegment, handler)]) := by
  induction node, start using insert_loop.induct path generalizing table with
  | case1 node start hnone =>
    rw [insert_loop, hnone, segments_of_next_part_none hnone]
    exact h.finish handler
  | case2 node start first last hpart hempty ih => exact absurd hempty (slice_ne_nil hpart)
  | case3 node start first last hpart rest htext ih =>
    rw [insert_loop, hpart, segments_of_next_part hpart]
    simp only [htext]
    obtain ⟨_, _, _, no_wildcard, wildcard, _, _⟩ := id h
    exact h.parameter (ih (.getD no_wildcard.mp wildcard))
  | case4 node start first last hpart c rest htext hcolon ih =>
    rw [insert_loop, hpart, segments_of_next_part hpart]
    simp only [htext, if_neg hcolon, List.map_cons, toSegment]
    exact h.literal fun below hbelow => ih below hbelow

/-- The parts that the loop of `search` visits, as it sees them. -/
def partsFrom (path : StringView) (start : Nat) : List StringView :=
  match _h : next_part path.bytes start with
  | none => []
  | some (first, last) =>
    { off := path.off + first, bytes := (path.bytes.drop first).take (last - first) } ::
      partsFrom path last
termination_by path.bytes.length - start
decreasing_by exact next_part_lt _h

/-- The parts, as bytes, are the segments of what is left of the path. -/
theorem partsFrom_bytes (path : StringView) (start : Nat) :
    (partsFrom path start).map StringView.bytes = segments (path.bytes.drop start) := by
  induction start using partsFrom.induct path with
  | case1 start hnone =>
    rw [partsFrom, hnone, segments_of_next_part_none hnone]
    rfl
  | case2 start first last hpart ih =>
    rw [partsFrom, hpart, segments_of_next_part hpart, ← ih]
    rfl

/-- The writes to the parameter map that a descent makes. -/
def writeParams (params : StringMap) (bindings : List (Bytes × StringView)) : StringMap :=
  bindings.foldl (fun params binding =>
    params.assign StringMap.keyEq (.ofBytes binding.1) binding.2) params

/-- Searching a path is the descent through the table: at each part the literal child
comes first, then the parameter, and there is no way back. -/
theorem search_loop_represents (path : StringView) (node : TrieNode H) (start : Nat) (params : StringMap)
    {table : PatternTable Bytes Bytes H} (h : node.Represents table) :
    search_loop path node start params =
      ((table.descent StringView.bytes (partsFrom path start)).2,
        writeParams params (table.descent StringView.bytes (partsFrom path start)).1) := by
  induction node, start, params using search_loop.induct path generalizing table with
  | case1 node start params hnone =>
    obtain ⟨_, handler, _, _, _, _, _⟩ := h
    rw [search_loop, hnone, partsFrom, hnone, PatternTable.descent, ← handler]
    rfl
  | case2 node start params first last hpart part hempty =>
    exact absurd (StringView.empty_iff.mp hempty) (slice_ne_nil hpart)
  | case3 node start params first last hpart part hempty next hnext =>
    rename_i ih
    obtain ⟨_, _, _, _, _, no_child, child⟩ := h
    have hsome : (table.tails (some part.bytes)).isEmpty = false := by
      rw [List.isEmpty_eq_false_iff]
      intro hnil
      rw [(no_child _).mpr hnil] at hnext
      cases hnext
    have hdeeper := ih (child _ next hnext)
    rw [search_loop, hpart, partsFrom, hpart]
    dsimp only
    rw [if_neg hempty, hnext, PatternTable.descent, hsome, if_neg (by simp)]
    exact hdeeper
  | case4 node start params first last hpart part hempty hnone next hnext =>
    rename_i ih
    obtain ⟨_, _, name, no_wildcard, wildcard, no_child, _⟩ := h
    have hnil : (table.tails (some part.bytes)).isEmpty = true := by
      rw [(no_child _).mp hnone]
      rfl
    have hdeeper := ih (wildcard next hnext)
    rw [search_loop, hpart, partsFrom, hpart]
    dsimp only
    rw [if_neg hempty, hnone, hnext, PatternTable.descent, hnil, if_pos rfl]
    cases hlast : table.lastName [] with
    | none =>
      rw [no_wildcard.mpr (PatternTable.lastName_eq_none_iff.mp hlast)] at hnext
      cases hnext
    | some last =>
      obtain rfl : node.wildcard_name = last := by simpa [hlast] using name
      exact hdeeper
  | case5 node start params first last hpart part hempty hnone =>
    rename_i hwildcard
    obtain ⟨_, _, _, no_wildcard, _, no_child, _⟩ := h
    have hnil : (table.tails (some part.bytes)).isEmpty = true := by
      rw [(no_child _).mp hnone]
      rfl
    have hlast := PatternTable.lastName_eq_none_iff.mpr (no_wildcard.mp hwildcard)
    rw [search_loop, hpart, partsFrom, hpart]
    dsimp only
    rw [if_neg hempty, hnone, hwildcard, PatternTable.descent, hnil, if_pos rfl, hlast]
    rfl

end Trie

end octane
