import Mathlib

namespace memory

variable {α : Type}

/-- The `length` cells from `off` on. -/
def read (mem : Nat → α) (off length : Nat) : List α :=
  (List.range length).map fun k => mem (off + k)

/-- Stores the values of a list from `off` on. -/
def write (mem : Nat → α) (off : Nat) (values : List α) : Nat → α :=
  fun i => if off ≤ i then (values[i - off]?).getD (mem i) else mem i

/-- `memmove`: the source is read before anything is stored. -/
def move (mem : Nat → α) (dst src length : Nat) : Nat → α :=
  fun i => if dst ≤ i ∧ i < dst + length then mem (i - dst + src) else mem i

@[simp] theorem length_read (mem : Nat → α) (off length : Nat) :
    (read mem off length).length = length := by
  simp [read]

/-- A byte that was read is the one at its position. -/
theorem getElem_read (mem : Nat → α) (off length i : Nat) (h : i < (read mem off length).length) :
    (read mem off length)[i] = mem (off + i) := by
  simp [read]

/-- Two blocks read the same when their cells agree one by one. -/
theorem read_congr {mem mem' : Nat → α} {off off' length : Nat}
    (h : ∀ k < length, mem (off + k) = mem' (off' + k)) :
    read mem off length = read mem' off' length := by
  apply List.map_congr_left
  intro k hk
  exact h k (List.mem_range.mp hk)

/-- A stored block extends what was read just before it. -/
theorem read_write_append (mem : Nat → α) (off length : Nat) (values : List α) :
    read (write mem (off + length) values) off (length + values.length) =
      read mem off length ++ values := by
  apply List.ext_getElem
  · simp
  · intro i hi _
    simp only [length_read] at hi
    rw [getElem_read]
    by_cases hold : i < length
    · rw [List.getElem_append_left (by simpa using hold), getElem_read]
      simp [write, show ¬ length ≤ i by omega]
    · rw [List.getElem_append_right (by simpa using hold)]
      have hindex : off + i - (off + length) = i - length := by omega
      have hbound : i - length < values.length := by omega
      simp [write, show length ≤ i by omega, hindex, hbound]

/-- Storing values leaves a block as it was if none of them falls into it. -/
theorem read_write_of_clear (mem : Nat → α) {off length start : Nat} {values : List α}
    (h : ∀ k < values.length, start + k < off ∨ off + length ≤ start + k) :
    read (write mem start values) off length = read mem off length := by
  apply read_congr
  intro k hk
  rw [write]
  split_ifs with hstart
  · have hpast : ¬ off + k - start < values.length := by
      intro hinside
      obtain hbelow | habove := h _ hinside <;> omega
    rw [List.getElem?_eq_none (by omega), Option.getD_none]
  · rfl

/-- A move leaves a block behind its destination as it was. -/
theorem read_move_of_le (mem : Nat → α) {dst length off : Nat} (h : dst + length ≤ off) (src n : Nat) :
    read (move mem dst src length) off n = read mem off n := by
  apply read_congr
  intro k _
  rw [move, if_neg (by omega)]

/-- The destination of a move reads what the source read. -/
theorem read_move (mem : Nat → α) (dst src length : Nat) :
    read (move mem dst src length) dst length = read mem src length := by
  apply read_congr
  intro k hk
  rw [move, if_pos (by omega)]
  congr 1
  omega

/-- The beginning of what was read is what a shorter read gives. -/
theorem take_read (mem : Nat → α) (off : Nat) {length k : Nat} (h : k ≤ length) :
    (read mem off length).take k = read mem off k := by
  rw [read, ← List.map_take, List.take_range, Nat.min_eq_left h, read]

/-- What was read behind a position is what a read from there gives. -/
theorem drop_read (mem : Nat → α) (off length k : Nat) :
    (read mem off length).drop k = read mem (off + k) (length - k) := by
  apply List.ext_getElem
  · simp
  · intro i hi _
    rw [List.getElem_drop, getElem_read, getElem_read, Nat.add_assoc]

end memory
