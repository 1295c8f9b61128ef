import Octane.Trie

namespace octane.TrieNode

variable {H : Type}

/-- One of the two child stores is empty, and neither holds a segment twice. -/
structure StoreWellFormed (node : TrieNode H) : Prop where
  one_store : node.linear_children = [] ∨ node.map_children.entries = []
  linear_unique : (node.linear_children.map Prod.fst).Nodup
  map_unique : node.map_children.Unique equal_to

theorem storeWellFormed_empty : StoreWellFormed ({} : TrieNode H) where
  one_store := .inl rfl
  linear_unique := List.nodup_nil
  map_unique := UnorderedMap.unique_empty

/-- A change to a child leaves the segments as they are. -/
theorem updateFirst_keys (part : Bytes) (change : TrieNode H → TrieNode H)
    (children : List (Bytes × TrieNode H)) :
    (updateFirst part change children).map Prod.fst = children.map Prod.fst := by
  induction children with
  | nil => rfl
  | cons entry children ih =>
    by_cases hkey : entry.1 == part
    · simp [updateFirst, hkey]
    · simp [updateFirst, hkey, ih]

/-- Changing the first entry with a key is seen under that key only. -/
theorem find?_updateFirst (part : Bytes) (change : TrieNode H → TrieNode H)
    (children : List (Bytes × TrieNode H)) (other : Bytes) :
    ((updateFirst part change children).find? fun entry => entry.1 == other).map Prod.snd =
      if other = part then
        ((children.find? fun entry => entry.1 == part).map Prod.snd).map change
      else (children.find? fun entry => entry.1 == other).map Prod.snd := by
  induction children with
  | nil => simp [updateFirst]
  | cons entry children ih =>
    by_cases hkey : entry.1 = part
    · by_cases hother : other = part
      · simp [updateFirst, hkey, hother]
      · have hne : ¬ part = other := fun h => hother h.symm
        simp [updateFirst, hkey, hother, hne]
    · by_cases hother : other = part
      · subst other
        simp only [if_true] at ih
        simp [updateFirst, hkey, ih]
      · simp only [hother, if_false] at ih ⊢
        by_cases hhere : entry.1 = other
        · simp [updateFirst, hhere, hother]
        · simp [updateFirst, hkey, hhere, ih]

/-- A list of children with distinct segments is moved into the empty map as it stands. -/
theorem migrated_entries {V : Type} {children : List (Bytes × V)} (hunique : (children.map Prod.fst).Nodup)
    {start : UnorderedMap Bytes V} (hempty : start.entries = []) :
    (children.foldl (fun map entry => (map.try_emplace equal_to entry.1 entry.2).1) start) = ⟨children⟩ ∧
      UnorderedMap.Unique equal_to ⟨children⟩ := by
  have hkeys : UnorderedMap.Unique equal_to ⟨children⟩ := by
    rw [List.Nodup, List.pairwise_map] at hunique
    refine hunique.imp fun {first second} hne => ?_
    rw [Bool.eq_false_iff, ne_eq, equal_to_iff]
    exact hne
  refine ⟨?_, hkeys⟩
  rw [UnorderedMap.foldl_try_emplace children (by rw [hempty]; exact hkeys), hempty]
  rfl

/-- The move into the map keeps every child under its segment. -/
theorem migrate_spec {node : TrieNode H} (hwf : node.StoreWellFormed)
    (hmap : node.map_children.entries = []) :
    node.migrate.map_children.Unique equal_to ∧
      ∀ part, node.migrate.map_children.get equal_to part = node.find_child part := by
  obtain ⟨hmoved, hunique⟩ := migrated_entries hwf.linear_unique hmap
  rw [migrate, hmoved]
  refine ⟨hunique, fun part => ?_⟩
  simp [find_child, hmap, UnorderedMap.get, UnorderedMap.find, equal_to]

/-- In the map, a child is replaced under its segment and no other is touched. -/
theorem assign_child_spec (node : TrieNode H) (hlinear : node.linear_children = [])
    (hunique : node.map_children.Unique equal_to) (part : Bytes) (child : TrieNode H) :
    let after : TrieNode H := { node with map_children := node.map_children.assign equal_to part child }
    after.StoreWellFormed ∧ ∀ other, after.find_child other =
      if other = part then some child else node.map_children.get equal_to other := by
  refine ⟨⟨.inl hlinear, by simp [hlinear], hunique.assign _ _⟩, fun other => ?_⟩
  have hne : (node.map_children.assign equal_to part child).entries ≠ [] :=
    UnorderedMap.assign_entries_ne_nil node.map_children part child
  have hisEmpty := List.isEmpty_eq_false_iff.mpr hne
  simp only [find_child, hisEmpty, Bool.false_eq_true, if_false, UnorderedMap.get_assign equal_to_lawful,
    equal_to_iff]
  simp only [eq_comm]

/-- A child of the list changes where it stands. -/
theorem update_child_spec {node : TrieNode H} (hwf : node.StoreWellFormed)
    (hmap : node.map_children.entries = []) {part : Bytes} (change : TrieNode H → TrieNode H)
    {child : TrieNode H} (hfound : node.find_child part = some child) :
    let after : TrieNode H :=
      { node with linear_children := updateFirst part change node.linear_children }
    after.StoreWellFormed ∧ ∀ other, after.find_child other =
      if other = part then some (change child) else node.find_child other := by
  refine ⟨⟨.inr hmap, ?_, hwf.map_unique⟩, fun other => ?_⟩
  · rw [updateFirst_keys]
    exact hwf.linear_unique
  · simp only [find_child, hmap, List.isEmpty_nil, if_true] at hfound ⊢
    rw [find?_updateFirst, hfound]
    rfl

/-- A child that the list does not have goes to its end, where it is found, and the
others are found as before. -/
theorem append_child_spec {node : TrieNode H} (hwf : node.StoreWellFormed)
    (hmap : node.map_children.entries = []) {part : Bytes} (child : TrieNode H)
    (habsent : ∀ entry ∈ node.linear_children, ¬ entry.1 = part) :
    let after : TrieNode H := { node with linear_children := node.linear_children ++ [(part, child)] }
    after.StoreWellFormed ∧ ∀ other, after.find_child other =
      if other = part then some child else node.find_child other := by
  refine ⟨⟨.inr hmap, ?_, hwf.map_unique⟩, fun other => ?_⟩
  · rw [List.map_append, List.nodup_append]
    refine ⟨hwf.linear_unique, by simp, ?_⟩
    intro a ha b hb
    obtain ⟨entry, hentry, rfl⟩ := List.mem_map.mp ha
    obtain rfl : b = part := by simpa using hb
    exact habsent entry hentry
  · have hnone : (node.linear_children.find? fun entry => entry.1 == part) = none := by
      rw [List.find?_eq_none]
      intro entry hentry
      simpa using habsent entry hentry
    simp only [find_child, hmap, List.isEmpty_nil, if_true, List.find?_append]
    by_cases hother : other = part
    · subst other
      simp [hnone]
    · have hne : ¬ part = other := fun h => hother h.symm
      simp [hother, hne]

/-- The child store is a finite map: the child asked for is the one found
before, or a new one, and no other is touched. -/
theorem get_or_create_child_spec {node : TrieNode H} (hwf : node.StoreWellFormed) (part : Bytes)
    (change : TrieNode H → TrieNode H) :
    (node.get_or_create_child part change).StoreWellFormed ∧
      ∀ other, (node.get_or_create_child part change).find_child other =
        if other = part then some (change ((node.find_child part).getD {})) else node.find_child other := by
  by_cases hany : (node.linear_children.any fun entry => entry.1 == part) = true
  · have hmap : node.map_children.entries = [] := by
      refine hwf.one_store.resolve_left fun hnil => ?_
      simp [hnil] at hany
    have hfound : (node.find_child part).isSome := by
      simpa [find_child, hmap, List.find?_isSome] using hany
    obtain ⟨child, hchild⟩ := Option.isSome_iff_exists.mp hfound
    rw [get_or_create_child, if_pos hany, hchild]
    exact update_child_spec hwf hmap change hchild
  · have habsent : ∀ entry ∈ node.linear_children, ¬ entry.1 = part := by
      intro entry hentry hkey
      exact hany (List.any_eq_true.mpr ⟨entry, hentry, by simpa using hkey⟩)
    rw [get_or_create_child, if_neg hany]
    by_cases hsmall : node.map_children.entries.isEmpty ∧ node.linear_children.length < 8
    · have hmap : node.map_children.entries = [] := by simpa using hsmall.1
      have hnone : node.find_child part = none := by
        simpa [find_child, hmap] using habsent
      rw [if_pos hsmall, hnone]
      exact append_child_spec hwf hmap (change {}) habsent
    · rw [if_neg hsmall]
      by_cases hmap : node.map_children.entries = []
      · obtain ⟨hunique, hget⟩ := migrate_spec hwf hmap
        obtain ⟨hafter, hfind⟩ := assign_child_spec node.migrate rfl hunique part
          (change ((node.migrate.map_children.get equal_to part).getD {}))
        simp only [hget] at hafter hfind
        simp only [hmap, List.isEmpty_nil, if_true, hget]
        exact ⟨hafter, hfind⟩
      · have hisEmpty := List.isEmpty_eq_false_iff.mpr hmap
        have hget : ∀ other, node.map_children.get equal_to other = node.find_child other := by
          intro other
          simp [find_child, hisEmpty]
        obtain ⟨hafter, hfind⟩ := assign_child_spec node (hwf.one_store.resolve_right hmap) hwf.map_unique part
          (change ((node.map_children.get equal_to part).getD {}))
        simp only [hget] at hafter hfind
        simp only [hisEmpty, Bool.false_eq_true, if_false, hget]
        exact ⟨hafter, hfind⟩

/-- The children are all that changes: the parameter and the handler of the node stay. -/
theorem get_or_create_child_frame (node : TrieNode H) (part : Bytes)
    (change : TrieNode H → TrieNode H) :
    (node.get_or_create_child part change).wildcard = node.wildcard ∧
      (node.get_or_create_child part change).wildcard_name = node.wildcard_name ∧
      (node.get_or_create_child part change).handler = node.handler := by
  rw [get_or_create_child]
  split_ifs <;> exact ⟨rfl, rfl, rfl⟩

end octane.TrieNode
