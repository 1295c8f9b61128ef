import Octane.Lib.Transition
import Octane.Trie.Paths

open transition

namespace octane

/-- The children of a node behind their pointers: a pointer is null or the position
of a cell, and a cell holds the subtree that has grown there. -/
structure LinkedNode (H : Type) where
  linear_children : List (Bytes × Option Nat) := []
  map_children : UnorderedMap Bytes (Option Nat) := {}
  cells : List (TrieNode H) := []

namespace LinkedNode

variable {H : Type}

def find_child (self : LinkedNode H) (part : Bytes) : Option Nat :=
  if self.map_children.entries.isEmpty then
    ((self.linear_children.find? fun entry => entry.1 == part).map Prod.snd).join
  else (self.map_children.get equal_to part).join

/-- The move of the list into the map at the ninth child. -/
def migrate (self : LinkedNode H) : LinkedNode H :=
  { self with
    map_children := self.linear_children.foldl
      (fun children entry => (children.try_emplace equal_to entry.1 entry.2).1) self.map_children
    linear_children := [] }

/-- The node with the pointer that the caller is given. -/
def get_or_create_child (self : LinkedNode H) (part : Bytes) : LinkedNode H × Option Nat :=
  match self.linear_children.find? fun entry => entry.1 == part with
  | some entry => (self, entry.2)
  | none =>
    if self.map_children.entries.isEmpty ∧ self.linear_children.length < 8 then
      let child := some self.cells.length
      ({ self with
        linear_children := self.linear_children ++ [(part, child)]
        cells := self.cells ++ [{}] }, child)
    else
      let self := if self.map_children.entries.isEmpty then self.migrate else self
      -- The map makes a null pointer for a key that it does not have.
      match (self.map_children.get equal_to part).join with
      | some child => (self, some child)
      | none =>
        let child := some self.cells.length
        ({ self with
          map_children := self.map_children.assign equal_to part child
          cells := self.cells ++ [{}] }, child)

/-- The subtree in a cell is replaced by what its holder has made of it. -/
def change (self : LinkedNode H) (address : Nat) (node : TrieNode H) : LinkedNode H :=
  { self with cells := self.cells.set address node }

/-- What happens to a node: a child is asked for and returned, or the holder of a
child changes its subtree. -/
inductive Event (H : Type) where
  | request (part : Bytes) (child : Option Nat)
  | change (address : Nat) (node : TrieNode H)

inductive Step (self : LinkedNode H) : Event H → LinkedNode H → Prop where
  | request (part : Bytes) :
    Step self (.request part (self.get_or_create_child part).2) (self.get_or_create_child part).1
  | change (address : Nat) (node : TrieNode H) (hallocated : address < self.cells.length) :
    Step self (.change address node) (self.change address node)

/-- One of the two stores is empty, and neither holds a segment twice or a null pointer. -/
structure WellFormed (node : LinkedNode H) : Prop where
  one_store : node.linear_children = [] ∨ node.map_children.entries = []
  linear_unique : (node.linear_children.map Prod.fst).Nodup
  map_unique : node.map_children.Unique equal_to
  owned : ∀ entry ∈ node.linear_children ++ node.map_children.entries, entry.2 ≠ none

/-- A request leads to the child that was found before, or to a new one. -/
inductive Requested (self : LinkedNode H) (part : Bytes) : LinkedNode H × Option Nat → Prop where
  | found (address : Nat) (hfound : self.find_child part = some address) :
    Requested self part (self, some address)
  | created (after : LinkedNode H) (hwf : after.WellFormed) (habsent : self.find_child part = none)
      (hcells : after.cells = self.cells ++ [({} : TrieNode H)])
      (hfind : ∀ other, after.find_child other =
        if other = part then some self.cells.length else self.find_child other) :
    Requested self part (after, some self.cells.length)

/-- While there is no map, a child is looked up in the list. -/
theorem find_child_linear {self : LinkedNode H} (hmap : self.map_children.entries = []) (part : Bytes) :
    self.find_child part = ((self.linear_children.find? fun entry => entry.1 == part).map Prod.snd).join := by
  rw [find_child, hmap]
  rfl

/-- Once there is a map, the list is not looked at. -/
theorem find_child_map {self : LinkedNode H} (hmap : self.map_children.entries ≠ []) (part : Bytes) :
    self.find_child part = (self.map_children.get equal_to part).join := by
  rw [find_child, List.isEmpty_eq_false_iff.mpr hmap, if_neg (by simp)]

theorem wellFormed_empty : ({} : LinkedNode H).WellFormed where
  one_store := .inl rfl
  linear_unique := List.nodup_nil
  map_unique := UnorderedMap.unique_empty
  owned entry hentry := by cases hentry

/-- The ninth child moves the others into the map, where they are found as before. -/
theorem WellFormed.migrate {self : LinkedNode H} (h : self.WellFormed)
    (hmap : self.map_children.entries = []) :
    self.migrate.WellFormed ∧
      ∀ part, (self.migrate.map_children.get equal_to part).join = self.find_child part := by
  obtain ⟨hmoved, hunique⟩ := TrieNode.migrated_entries h.linear_unique hmap
  have howned := h.owned
  rw [hmap, List.append_nil] at howned
  rw [LinkedNode.migrate, hmoved]
  refine ⟨⟨.inl rfl, List.nodup_nil, hunique, howned⟩, fun part => ?_⟩
  rw [find_child_linear hmap]
  rfl

/-- A new child of the list gets the next cell, and a pointer to it at the end of the
list. -/
theorem WellFormed.create_in_list {self : LinkedNode H} (h : self.WellFormed)
    (hmap : self.map_children.entries = []) {part : Bytes}
    (hnone : (self.linear_children.find? fun entry => entry.1 == part) = none) :
    Requested self part ({ self with
      linear_children := self.linear_children ++ [(part, some self.cells.length)]
      cells := self.cells ++ [{}] }, some self.cells.length) := by
  have habsent : ∀ entry ∈ self.linear_children, entry.1 ≠ part := by simpa using List.find?_eq_none.mp hnone
  refine .created _ ⟨.inr hmap, ?_, h.map_unique, ?_⟩ ?_ rfl fun other => ?_
  · rw [List.map_append, List.nodup_append]
    refine ⟨h.linear_unique, by simp, ?_⟩
    intro a ha b hb
    obtain ⟨entry, hentry, rfl⟩ := List.mem_map.mp ha
    obtain rfl : b = part := by simpa using hb
    exact habsent entry hentry
  · intro entry hentry
    have hlinear := h.owned
    simp only [hmap, List.append_nil] at hentry hlinear
    obtain hold | hnew := List.mem_append.mp hentry
    · exact hlinear entry hold
    · rw [List.mem_singleton.mp hnew]
      simp
  · rw [find_child_linear hmap, hnone]
    rfl
  · refine (find_child_linear (by exact hmap) other).trans ?_
    rw [find_child_linear hmap, List.find?_append]
    by_cases hother : other = part
    · simp [hother, hnone]
    · have hne : ¬ part = other := fun hsame => hother hsame.symm
      simp [hother, hne]

/-- A new child of the map gets the next cell. The source has made a null pointer
under the segment by then, which is overwritten. -/
theorem WellFormed.create_in_map {self : LinkedNode H} (h : self.WellFormed)
    (hlinear : self.linear_children = []) (part : Bytes) :
    let after : LinkedNode H := { self with
      map_children := self.map_children.assign equal_to part (some self.cells.length)
      cells := self.cells ++ [{}] }
    after.WellFormed ∧ ∀ other, after.find_child other =
      if other = part then some self.cells.length else (self.map_children.get equal_to other).join := by
  have howned := h.owned
  rw [hlinear, List.nil_append] at howned
  refine ⟨⟨.inl hlinear, h.linear_unique, h.map_unique.assign part _, ?_⟩, fun other => ?_⟩
  · intro entry hentry
    rw [hlinear, List.nil_append] at hentry
    obtain hold | rfl | ⟨old, _, rfl⟩ := UnorderedMap.mem_assign hentry
    · exact howned entry hold
    · simp
    · simp
  · rw [find_child_map (UnorderedMap.assign_entries_ne_nil _ _ _), UnorderedMap.get_assign equal_to_lawful,
      equal_to]
    by_cases hother : other = part
    · simp [hother]
    · have hne : ¬ part = other := fun hsame => hother hsame.symm
      simp [hother, hne]

/-- A request finds its child or makes one, through every branch of the source: a
new child in the list, the ninth with its migration, and a later one in the map. -/
theorem WellFormed.request {self : LinkedNode H} (h : self.WellFormed) (part : Bytes) :
    Requested self part (self.get_or_create_child part) := by
  rw [get_or_create_child]
  cases hlinear : self.linear_children.find? fun entry => entry.1 == part with
  | some entry =>
    have hmem := List.mem_of_find?_eq_some hlinear
    have hmap := h.one_store.resolve_left (List.ne_nil_of_mem hmem)
    obtain ⟨address, haddress⟩ :=
      Option.ne_none_iff_exists'.mp (h.owned entry (List.mem_append_left _ hmem))
    dsimp only
    rw [haddress]
    refine .found address ?_
    rw [find_child_linear hmap, hlinear, Option.map_some, haddress]
    rfl
  | none =>
    by_cases hmap : self.map_children.entries = []
    · by_cases hroom : self.linear_children.length < 8
      · simpa only [hmap, List.isEmpty_nil, hroom, and_self, if_true] using h.create_in_list hmap hlinear
      · have habsent : self.find_child part = none := by
          rw [find_child_linear hmap, hlinear]
          rfl
        obtain ⟨hmigrated, hget⟩ := h.migrate hmap
        obtain ⟨hwf, hfind⟩ := hmigrated.create_in_map rfl part
        simp only [hmap, List.isEmpty_nil, hroom, and_false, if_false, if_true, hget, habsent] at hfind ⊢
        exact .created _ hwf habsent rfl hfind
    · have hgone := h.one_store.resolve_right hmap
      have hget := find_child_map hmap
      simp only [List.isEmpty_eq_false_iff.mpr hmap, Bool.false_eq_true, false_and, if_false, ← hget]
      cases hfound : self.find_child part with
      | some address => exact .found address hfound
      | none =>
        obtain ⟨hwf, hfind⟩ := h.create_in_map hgone part
        simp only [← hget] at hfind
        exact .created _ hwf hfound rfl hfind

/-- What an event makes of the subtree in a cell. -/
def Event.changeOf (address : Nat) : Event H → Option (TrieNode H)
  | .request _ _ => none
  | .change other node => if other = address then some node else none

/-- The subtree that the last change left in a cell; a new child is an empty node. -/
def lastChange (events : List (Event H)) (address : Nat) : TrieNode H :=
  ((events.filterMap (Event.changeOf address)).getLast?).getD {}

/-- The node is the finite map that the requests have built: each segment that was
asked for leads to its one child, whose subtree is what its holder has left there. -/
structure RefinesMap (events : List (Event H)) (node : LinkedNode H) : Prop where
  one_store : node.linear_children = [] ∨ node.map_children.entries = []
  once : (node.linear_children.map Prod.fst ++ node.map_children.entries.map Prod.fst).Nodup
  same : ∀ part child, .request part child ∈ events → (node.get_or_create_child part).2 = child
  found : ∀ part child, .request part child ∈ events → child ≠ none ∧ node.find_child part = child
  missing : ∀ part, (∀ child, .request part child ∉ events) → node.find_child part = none
  apart : ∀ part other child, .request part child ∈ events → .request other child ∈ events → part = other
  intact : ∀ part address, .request part (some address) ∈ events →
    node.cells[address]? = some (lastChange events address)

/-- What holds of a node after the events that led to it. -/
structure Tracks (events : List (Event H)) (node : LinkedNode H) : Prop where
  wf : node.WellFormed
  found : ∀ part child, .request part child ∈ events → child ≠ none ∧ node.find_child part = child
  only : ∀ part address, node.find_child part = some address → ∃ child, .request part child ∈ events
  allocated : ∀ part address, node.find_child part = some address → address < node.cells.length
  apart : ∀ part other address, node.find_child part = some address →
    node.find_child other = some address → part = other
  changed : ∀ address subtree, .change address subtree ∈ events → address < node.cells.length
  cells : ∀ address < node.cells.length, node.cells[address]? = some (lastChange events address)

/-- A request changes no subtree. -/
theorem lastChange_request (events : List (Event H)) (part : Bytes) (child : Option Nat) (address : Nat) :
    lastChange (events ++ [.request part child]) address = lastChange events address := by
  simp [lastChange, Event.changeOf]

/-- A change is the last one of its own cell and none of the others'. -/
theorem lastChange_change (events : List (Event H)) (address : Nat) (node : TrieNode H) (other : Nat) :
    lastChange (events ++ [.change address node]) other =
      if address = other then node else lastChange events other := by
  by_cases hsame : address = other <;> simp [lastChange, Event.changeOf, hsame]

theorem tracks_empty : Tracks [] ({} : LinkedNode H) := by
  refine ⟨wellFormed_empty, by simp, ?_, ?_, ?_, by simp, by simp⟩
  · intro part address hfound
    cases hfound
  · intro part address hfound
    cases hfound
  · intro part other address hfound
    cases hfound

/-- One request, of a child that is there or of a new one. A new child gets the next
cell, which no change has touched. -/
theorem Tracks.request {events : List (Event H)} {self : LinkedNode H} (h : Tracks events self) (part : Bytes) :
    Tracks (events ++ [.request part (self.get_or_create_child part).2]) (self.get_or_create_child part).1 := by
  have hrequested := h.wf.request part
  have hevents : ∀ {event : Event H} {child}, event ∈ events ++ [Event.request part child] ↔
      event ∈ events ∨ event = .request part child := by simp
  generalize self.get_or_create_child part = result at hrequested
  cases hrequested with
  | found address hfound =>
    refine ⟨h.wf, ?_, ?_, h.allocated, h.apart, ?_, ?_⟩
    · intro other child hother
      obtain hold | hnew := hevents.mp hother
      · exact h.found other child hold
      · cases hnew
        exact ⟨by simp, hfound⟩
    · intro other child hother
      obtain ⟨earlier, hearlier⟩ := h.only other child hother
      exact ⟨earlier, hevents.mpr (.inl hearlier)⟩
    · intro other subtree hother
      obtain hold | hnew := hevents.mp hother
      · exact h.changed other subtree hold
      · cases hnew
    · intro other hother
      rw [lastChange_request]
      exact h.cells other hother
  | created after hwf habsent hcells hfind =>
    change Tracks (events ++ [.request part (some self.cells.length)]) after
    have hlength : after.cells.length = self.cells.length + 1 := by simp [hcells]
    have hcases : ∀ other address, after.find_child other = some address →
        (other = part ∧ address = self.cells.length) ∨ self.find_child other = some address := by
      intro other address hother
      rw [hfind] at hother
      split_ifs at hother with hpart
      · exact .inl ⟨hpart, (Option.some.inj hother).symm⟩
      · exact .inr hother
    refine ⟨hwf, ?_, ?_, ?_, ?_, ?_, ?_⟩
    · intro other child hother
      obtain hold | hnew := hevents.mp hother
      · obtain ⟨hchild, hearlier⟩ := h.found other child hold
        have hne : other ≠ part := by
          rintro rfl
          exact hchild (hearlier.symm.trans habsent)
        exact ⟨hchild, by rw [hfind, if_neg hne, hearlier]⟩
      · cases hnew
        exact ⟨by simp, by rw [hfind, if_pos rfl]⟩
    · intro other address hother
      obtain ⟨rfl, rfl⟩ | hold := hcases other address hother
      · exact ⟨_, hevents.mpr (.inr rfl)⟩
      · obtain ⟨earlier, hearlier⟩ := h.only other address hold
        exact ⟨earlier, hevents.mpr (.inl hearlier)⟩
    · intro other address hother
      obtain ⟨_, rfl⟩ | hold := hcases other address hother
      · omega
      · have hinside := h.allocated other address hold
        omega
    · intro first second address hfirst hsecond
      obtain ⟨rfl, rfl⟩ | hfirst := hcases first address hfirst
      · obtain ⟨rfl, _⟩ | hsecond := hcases second _ hsecond
        · rfl
        · exact absurd (h.allocated second _ hsecond) (Nat.lt_irrefl _)
      · obtain ⟨rfl, rfl⟩ | hsecond := hcases second address hsecond
        · exact absurd (h.allocated first _ hfirst) (Nat.lt_irrefl _)
        · exact h.apart first second address hfirst hsecond
    · intro other subtree hother
      obtain hold | hnew := hevents.mp hother
      · have hinside := h.changed other subtree hold
        omega
      · cases hnew
    · intro address haddress
      rw [lastChange_request, hcells]
      by_cases hold : address < self.cells.length
      · rw [List.getElem?_append_left hold]
        exact h.cells address hold
      · obtain rfl : address = self.cells.length := by omega
        have huntouched : events.filterMap (Event.changeOf self.cells.length) = [] := by
          rw [List.filterMap_eq_nil_iff]
          intro event hevent
          cases event with
          | request part child => rfl
          | change other subtree =>
            have hinside := h.changed other subtree hevent
            exact if_neg (by omega)
        rw [lastChange, huntouched]
        simp

/-- A change by a holder reaches the one cell that it holds. -/
theorem Tracks.change {events : List (Event H)} {self : LinkedNode H} (h : Tracks events self)
    {address : Nat} (hallocated : address < self.cells.length) (node : TrieNode H) :
    Tracks (events ++ [.change address node]) (self.change address node) := by
  have hevents : ∀ {event : Event H}, event ∈ events ++ [.change address node] ↔
      event ∈ events ∨ event = .change address node := by simp
  have hlength : (self.change address node).cells.length = self.cells.length := List.length_set
  refine ⟨⟨h.wf.one_store, h.wf.linear_unique, h.wf.map_unique, h.wf.owned⟩, ?_, ?_, ?_, h.apart, ?_, ?_⟩
  · intro part child hrequest
    obtain hold | hnew := hevents.mp hrequest
    · exact h.found part child hold
    · cases hnew
  · intro part child hfound
    obtain ⟨earlier, hearlier⟩ := h.only part child hfound
    exact ⟨earlier, hevents.mpr (.inl hearlier)⟩
  · intro part child hfound
    rw [hlength]
    exact h.allocated part child hfound
  · intro other subtree hchange
    rw [hlength]
    obtain hold | hnew := hevents.mp hchange
    · exact h.changed other subtree hold
    · cases hnew
      exact hallocated
  · intro other hother
    rw [hlength] at hother
    rw [lastChange_change, LinkedNode.change]
    by_cases hsame : address = other
    · rw [if_pos hsame, hsame, List.getElem?_set_self hother]
    · rw [if_neg hsame, List.getElem?_set_ne hsame]
      exact h.cells other hother

/-- By induction on the run, a node tracks all that has happened to it. -/
theorem tracks_of_run {events : List (Event H)} {final : LinkedNode H}
    (hrun : Run Step ({} : LinkedNode H) events final) : Tracks events final := by
  refine Run.invariant Tracks tracks_empty ?_ hrun
  intro events before event after h hstep
  cases hstep with
  | request part => exact h.request part
  | change address node hallocated => exact h.change hallocated node

/-- What is tracked makes the node a finite map of segments: the requests are its
keys, the cells its values, and no cell belongs to two segments. -/
theorem Tracks.refinesMap {events : List (Event H)} {node : LinkedNode H} (h : Tracks events node) :
    RefinesMap events node := by
  refine ⟨h.wf.one_store, ?_, ?_, h.found, ?_, ?_, ?_⟩
  · have hmap : (node.map_children.entries.map Prod.fst).Nodup := by
      rw [List.Nodup, List.pairwise_map]
      exact h.wf.map_unique.imp fun hapart hsame => by simp [equal_to, hsame] at hapart
    obtain hlinear | hempty := h.wf.one_store
    · rw [hlinear]
      exact hmap
    · rw [hempty, List.map_nil, List.append_nil]
      exact h.wf.linear_unique
  · intro part child hevent
    obtain ⟨hchild, hfound⟩ := h.found part child hevent
    have hrequested := h.wf.request part
    generalize node.get_or_create_child part = result at hrequested
    cases hrequested with
    | found address haddress => exact haddress.symm.trans hfound
    | created after _ habsent => exact absurd (hfound.symm.trans habsent) hchild
  · intro part hnever
    cases hfound : node.find_child part with
    | none => rfl
    | some address =>
      obtain ⟨child, hevent⟩ := h.only part address hfound
      exact absurd hevent (hnever child)
  · intro part other child hfirst hsecond
    obtain ⟨hchild, hfound⟩ := h.found part child hfirst
    obtain ⟨address, rfl⟩ := Option.ne_none_iff_exists'.mp hchild
    exact h.apart part other address hfound (h.found other _ hsecond).2
  · intro part address hevent
    exact h.cells address (h.allocated part address (h.found part _ hevent).2)

/-- The child store is a finite map in every run: of requests, the ninth of which
moves the children, and of changes that their holders make in between. -/
theorem child_store_refines_map {events : List (Event H)} {final : LinkedNode H}
    (hrun : Run Step ({} : LinkedNode H) events final) : RefinesMap events final :=
  (tracks_of_run hrun).refinesMap

/-- Requests one after the other. -/
def requestAll (self : LinkedNode H) (parts : List Bytes) : LinkedNode H :=
  parts.foldl (fun node part => (node.get_or_create_child part).1) self

/-- A sequence of requests is a run, whatever it returns. -/
theorem exists_run_requestAll (self : LinkedNode H) (parts : List Bytes) :
    ∃ events, Run Step self events (self.requestAll parts) := by
  induction parts using List.reverseRecOn with
  | nil => exact ⟨[], .nil⟩
  | append_singleton parts part ih =>
    obtain ⟨events, hrun⟩ := ih
    have hnext := hrun.snoc (.request part)
    rw [requestAll, List.foldl_concat]
    exact ⟨_, hnext⟩

/-- The digits as the segments of nine children. -/
def nineParts : List Bytes := (ascii "123456789").map fun digit => [digit]

/-- A handler is set below the first of the nine, which has been asked for twice,
before the ninth moves them all into the map; then it is asked for again. -/
def movedNode : LinkedNode Nat :=
  (((({} : LinkedNode Nat).requestAll [ascii "1", ascii "1"]).change 0 { handler := some 7 }).requestAll
    nineParts).requestAll [ascii "1"]

/-- The child that was asked for four times is one child, with its handler. -/
theorem child_store_refines_map_nine :
    ∃ events, Run Step ({} : LinkedNode Nat) events movedNode ∧ RefinesMap events movedNode ∧
      movedNode.map_children.size = 9 ∧ movedNode.linear_children = [] ∧
        movedNode.find_child (ascii "1") = some 0 ∧
          (movedNode.cells[0]?.bind TrieNode.handler) = some 7 := by
  obtain ⟨twice, htwice⟩ := exists_run_requestAll ({} : LinkedNode Nat) [ascii "1", ascii "1"]
  have hchanged := htwice.snoc (.change 0 { handler := some 7 } (by decide +kernel))
  obtain ⟨others, hothers⟩ := exists_run_requestAll _ nineParts
  obtain ⟨again, hagain⟩ := exists_run_requestAll _ [ascii "1"]
  have hrun : Run Step ({} : LinkedNode Nat) _ movedNode := (hchanged.append hothers).append hagain
  exact ⟨_, hrun, child_store_refines_map hrun, by decide +kernel, by decide +kernel, by decide +kernel,
    by decide +kernel⟩

/-- The subtree that a segment leads to. -/
def subtree (self : LinkedNode H) (part : Bytes) : Option (TrieNode H) :=
  (self.find_child part).bind fun address => self.cells[address]?

/-- A change is seen through the segment whose child was changed, and through no other. -/
theorem Tracks.subtree_change {events : List (Event H)} {self : LinkedNode H} (h : Tracks events self)
    {part : Bytes} {address : Nat} (hfound : self.find_child part = some address) (node : TrieNode H)
    (other : Bytes) :
    (self.change address node).subtree other = if other = part then some node else self.subtree other := by
  have hpointer : (self.change address node).find_child other = self.find_child other := rfl
  rw [subtree, subtree, hpointer, LinkedNode.change]
  by_cases hother : other = part
  · rw [if_pos hother, hother, hfound, Option.bind_some, List.getElem?_set_self (h.allocated part address hfound)]
  · rw [if_neg hother]
    cases hdifferent : self.find_child other with
    | none => rfl
    | some elsewhere =>
      have hne : address ≠ elsewhere := by
        rintro rfl
        exact hother (h.apart other part address hdifferent hfound)
      rw [Option.bind_some, Option.bind_some, List.getElem?_set_ne hne]

/-- A request changes no subtree, and a new child is an empty node. -/
theorem Tracks.subtree_request {events : List (Event H)} {self : LinkedNode H} (h : Tracks events self)
    (part : Bytes) : ∃ after address, self.get_or_create_child part = (after, some address) ∧
      after.find_child part = some address ∧ after.cells[address]? = some ((self.subtree part).getD {}) ∧
        ∀ other, other ≠ part → after.subtree other = self.subtree other := by
  have hrequested := h.wf.request part
  generalize self.get_or_create_child part = result at hrequested
  cases hrequested with
  | found address hfound =>
    refine ⟨self, address, rfl, hfound, ?_, fun other _ => rfl⟩
    rw [subtree, hfound, Option.bind_some, List.getElem?_eq_getElem (h.allocated part address hfound)]
    rfl
  | created after _ habsent hcells hfind =>
    refine ⟨after, self.cells.length, rfl, by rw [hfind, if_pos rfl], ?_, fun other hother => ?_⟩
    · rw [subtree, habsent, hcells]
      simp
    · rw [subtree, subtree, hfind, if_neg hother, hcells]
      cases hfound : self.find_child other with
      | none => rfl
      | some elsewhere =>
        rw [Option.bind_some, Option.bind_some, List.getElem?_append_left (h.allocated other elsewhere hfound)]

/-- A call on a node that holds its children as values is a request and the change
of the child that it returns. -/
theorem Tracks.simulates {events : List (Event H)} {self : LinkedNode H} (h : Tracks events self)
    {node : TrieNode H} (hwf : node.StoreWellFormed) (hsame : ∀ part, node.find_child part = self.subtree part)
    (part : Bytes) (change : TrieNode H → TrieNode H) :
    ∃ after address child, self.get_or_create_child part = (after, some address) ∧
      after.cells[address]? = some child ∧ (node.get_or_create_child part change).StoreWellFormed ∧
        ∀ other, (node.get_or_create_child part change).find_child other =
          (after.change address (change child)).subtree other := by
  obtain ⟨hafter, hfind⟩ := TrieNode.get_or_create_child_spec hwf part change
  obtain ⟨after, address, hrequest, hfound, hcell, hothers⟩ := h.subtree_request part
  have htracks := h.request part
  rw [hrequest] at htracks
  refine ⟨after, address, _, hrequest, hcell, hafter, fun other => ?_⟩
  rw [htracks.subtree_change hfound, hfind, hsame]
  by_cases hother : other = part
  · rw [if_pos hother, if_pos hother]
  · rw [if_neg hother, if_neg hother, hothers other hother]
    exact hsame other

/-- What an insertion does to the children of a node: it leaves them as they are,
or it is one call, into whose child the rest of the path goes. -/
theorem insert_loop_children (path : Bytes) (handler : H) (node : TrieNode H) (start : Nat) :
    ((Trie.insert_loop path handler node start).linear_children = node.linear_children ∧
        (Trie.insert_loop path handler node start).map_children = node.map_children) ∨
      ∃ part change, Trie.insert_loop path handler node start = node.get_or_create_child part change := by
  induction node, start using Trie.insert_loop.induct path with
  | case1 node start hnone =>
    rw [Trie.insert_loop, hnone]
    exact .inl ⟨rfl, rfl⟩
  | case2 node start first last hpart hempty ih =>
    rw [Trie.insert_loop, hpart]
    simpa only [hempty] using ih
  | case3 node start first last hpart rest htext _ =>
    rw [Trie.insert_loop, hpart]
    simp only [htext]
    exact .inl ⟨rfl, rfl⟩
  | case4 node start first last hpart c rest htext hcolon _ =>
    rw [Trie.insert_loop, hpart]
    simp only [htext, if_neg hcolon]
    exact .inr ⟨_, _, rfl⟩

/-- The tries that the routing results are about are built by insertions: the
children of the root are, behind their pointers, a run of requests and of the changes
that the insertions make to what the requests return. -/
theorem built_run (inserted : List (Bytes × H)) :
    ∃ events final, Run Step ({} : LinkedNode H) events final ∧ RefinesMap events final ∧
      ∀ part, (Trie.built inserted).root_.find_child part = final.subtree part := by
  suffices h : ∃ events final, Run Step ({} : LinkedNode H) events final ∧
      (Trie.built inserted).root_.StoreWellFormed ∧
      ∀ part, (Trie.built inserted).root_.find_child part = final.subtree part by
    obtain ⟨events, final, hrun, _, hsame⟩ := h
    exact ⟨events, final, hrun, (tracks_of_run hrun).refinesMap, hsame⟩
  induction inserted using List.reverseRecOn with
  | nil => exact ⟨[], {}, .nil, TrieNode.storeWellFormed_empty, fun part => rfl⟩
  | append_singleton inserted route ih =>
    obtain ⟨events, final, hrun, hwf, hsame⟩ := ih
    have hbuilt : Trie.built (inserted ++ [route]) = (Trie.built inserted).insert route.1 route.2 :=
      List.foldl_concat ..
    rw [hbuilt]
    generalize Trie.built inserted = trie at hwf hsame ⊢
    obtain ⟨hlinear, hmap⟩ | ⟨part, change, hcall⟩ := insert_loop_children route.1 route.2 trie.root_ 0
    · -- Only the handler or the parameter of the root is new.
      refine ⟨events, final, hrun, ⟨?_, ?_, ?_⟩, fun part => ?_⟩
      · rw [Trie.insert, hlinear, hmap]
        exact hwf.one_store
      · rw [Trie.insert, hlinear]
        exact hwf.linear_unique
      · rw [Trie.insert, hmap]
        exact hwf.map_unique
      · rw [← hsame, Trie.insert, TrieNode.find_child, hlinear, hmap]
        rfl
    · obtain ⟨after, address, child, hrequest, hcell, hafter, hfind⟩ :=
        (tracks_of_run hrun).simulates hwf hsame part change
      have hasked := hrun.snoc (.request part)
      rw [hrequest] at hasked
      have hinside : address < after.cells.length := (List.getElem?_eq_some_iff.mp hcell).1
      refine ⟨_, _, hasked.snoc (.change address (change child) hinside), ?_, fun other => ?_⟩
      · rw [Trie.insert, hcall]
        exact hafter
      · rw [Trie.insert, hcall]
        exact hfind other

end LinkedNode

end octane
