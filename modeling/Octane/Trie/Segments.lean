import Octane.Lib.Patterns
import Octane.Trie

open search

namespace octane

/-- The non-empty segments of a path. -/
def segments (path : Bytes) : List Bytes := (path.splitOn 47).filter fun part => !part.isEmpty

/-- A segment of a pattern as the routes write it: a colon starts a parameter. -/
def toSegment : Bytes → Segment Bytes Bytes
  | [] => .literal []
  | c :: rest => if c = 58 then .parameter rest else .literal (c :: rest)

/-- The part of a path between two bounds. -/
def slice (path : Bytes) (bounds : Nat × Nat) : Bytes := (path.drop bounds.1).take (bounds.2 - bounds.1)

/-- The pattern that a route's path stands for. -/
def toPattern (path : Bytes) : Pattern Bytes Bytes := (segments path).map toSegment

/-- A slash parts the segments before it from those behind it. -/
theorem segments_append_slash (before rest : Bytes) :
    segments (before ++ 47 :: rest) = segments before ++ segments rest := by
  rw [segments, List.splitOn_append_cons_self, List.filter_append]
  rfl

/-- A slash in front of a path makes no segment. -/
theorem segments_slash (rest : Bytes) : segments (47 :: rest) = segments rest :=
  segments_append_slash [] rest

/-- A part without a slash is one segment. -/
theorem segments_last {part : Bytes} (hpart : part ≠ []) (hslash : 47 ∉ part) : segments part = [part] := by
  simp [segments, List.splitOn_eq_singleton hslash, hpart]

/-- A part that ends at a slash is the first segment. -/
theorem segments_cons {part : Bytes} (hpart : part ≠ []) (hslash : 47 ∉ part) (rest : Bytes) :
    segments (part ++ 47 :: rest) = part :: segments rest := by
  rw [segments_append_slash, segments_last hpart hslash]
  rfl

/-- The segments of a path are made of its bytes. -/
theorem mem_of_mem_segments {path part : Bytes} {c : UInt8} (hpart : part ∈ segments path) (hc : c ∈ part) :
    c ∈ path := by
  have hpieces : ∀ path : Bytes, ∀ part ∈ path.splitOn 47, ∀ c ∈ part, c ∈ path := by
    intro path
    induction path with
    | nil => simp
    | cons x rest ih =>
      intro part hpart c hc
      rw [List.splitOn_cons_eq_if_modifyHead] at hpart
      split at hpart
      · obtain rfl | hrest := List.mem_cons.mp hpart
        · cases hc
        · exact List.mem_cons_of_mem x (ih part hrest c hc)
      · cases hsplit : rest.splitOn 47 with
        | nil => exact absurd hsplit (List.splitOn_ne_nil 47 rest)
        | cons first others =>
          rw [hsplit] at hpart ih
          obtain rfl | hother := List.mem_cons.mp hpart
          · obtain rfl | hfirst := List.mem_cons.mp hc
            · exact List.mem_cons_self
            · exact List.mem_cons_of_mem x (ih first List.mem_cons_self c hfirst)
          · exact List.mem_cons_of_mem x (ih part (List.mem_cons_of_mem first hother) c hc)
  exact hpieces path part (List.mem_filter.mp hpart).1 c hc

namespace Trie

/-- A part that is cut is not empty. -/
theorem slice_ne_nil {path : Bytes} {start first last : Nat} (h : next_part path start = some (first, last)) :
    slice path (first, last) ≠ [] := by
  have hbounds := next_part_bounds h
  intro hnil
  have hlength := congrArg List.length hnil
  simp only [slice, List.length_take, List.length_drop, List.length_nil] at hlength
  omega

/-- Skipping slashes loses no segment. -/
theorem segments_skipSlashes (path : Bytes) (start : Nat) :
    segments (path.drop start) = segments (path.drop (skipSlashes path start)) := by
  induction start using skipSlashes.induct path with
  | case1 start hstart hslash ih =>
    rw [skipSlashes, dif_pos hstart, if_pos hslash, ← ih, List.drop_eq_getElem_cons hstart, hslash,
      segments_slash]
  | case2 start hstart hslash => rw [skipSlashes, dif_pos hstart, if_neg hslash]
  | case3 start hstart => rw [skipSlashes, dif_neg hstart]

/-- The loop is left when no segment is ahead. -/
theorem segments_of_next_part_none {path : Bytes} {start : Nat} (h : next_part path start = none) :
    segments (path.drop start) = [] := by
  rw [next_part] at h
  split at h
  · next hend =>
    rw [segments_skipSlashes, List.drop_eq_nil_of_le hend]
    rfl
  · cases h

/-- The part that is cut is the next segment, and the rest is still ahead. This lets
the inductions over the loops go over the segments instead. -/
theorem segments_of_next_part {path : Bytes} {start first last : Nat}
    (h : next_part path start = some (first, last)) :
    segments (path.drop start) = (path.drop first).take (last - first) :: segments (path.drop last) := by
  have hbounds := next_part_bounds h
  rw [next_part] at h
  split at h
  · cases h
  · next hinside =>
    simp only [Option.some.injEq, Prod.mk.injEq] at h
    obtain ⟨rfl, hlast⟩ := h
    rw [segments_skipSlashes]
    cases hfind : findSub [47] (path.drop (skipSlashes path start)) with
    | none =>
      rw [hfind] at hlast
      obtain rfl : path.length = last := hlast
      have hne : path.drop (skipSlashes path start) ≠ [] := by simpa using hinside
      rw [segments_last hne (findSub_singleton_eq_none_iff.mp hfind), List.drop_length,
        List.take_of_length_le (by simp)]
      rfl
    | some i =>
      rw [hfind] at hlast
      obtain rfl : skipSlashes path start + i = last := hlast
      have hsplit := findSub_split hfind
      have hslash := not_mem_take_of_findSub hfind
      have hne : (path.drop (skipSlashes path start)).take i ≠ [] := by
        intro hnil
        have hlength := congrArg List.length hnil
        simp only [List.length_take, List.length_drop, List.length_nil] at hlength
        omega
      have hafter : path.drop (skipSlashes path start + i) =
          47 :: (path.drop (skipSlashes path start)).drop (i + 1) := by
        obtain ⟨hroom, hget⟩ := List.getElem?_eq_some_iff.mp (getElem?_of_findSub_singleton hfind)
        rw [← List.drop_drop, List.drop_eq_getElem_cons hroom, hget]
      rw [hafter, segments_slash, Nat.add_sub_cancel_left]
      calc segments (path.drop (skipSlashes path start))
          = segments ((path.drop (skipSlashes path start)).take i ++
              47 :: (path.drop (skipSlashes path start)).drop (i + 1)) := congrArg segments hsplit
        _ = _ := segments_cons hne hslash _

end Trie

end octane
