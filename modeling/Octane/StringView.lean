import Octane.Lib.Search
import Octane.Lib.UnorderedMap

open search

namespace octane

abbrev Bytes := List UInt8

/-- The bytes of an ASCII literal. -/
def ascii (text : String) : Bytes := text.toList.map Char.toUInt8

abbrev CRLF : Bytes := [13, 10]

theorem CRLF_ne_nil : CRLF ≠ [] := List.cons_ne_nil _ _

/-- The blank line that ends a head, with the terminator of the line before it. -/
abbrev CRLFCRLF : Bytes := [13, 10, 13, 10]

/-- How a piece of the program stops other than by returning. Undefined
behaviour is kept apart: no handler can catch it. -/
inductive Exn where
  | HttpParseError (status : Nat)
  | out_of_range
  | invalid_argument
  | undefined_behavior
deriving DecidableEq

abbrev Result := Except Exn

/-- A computation that has succeeded has succeeded in both parts. This takes a chain
of fallible calls apart without unfolding any of them. -/
theorem bind_eq_ok_iff {A B : Type} {x : Result A} {f : A → Result B} {y : B} :
    (x >>= f) = .ok y ↔ ∃ a, x = .ok a ∧ f a = .ok y := by
  cases x <;> simp [Bind.bind, Except.bind]

@[simp] theorem bind_ok {A B : Type} (a : A) (f : A → Result B) : (Except.ok a >>= f) = f a := rfl

@[simp] theorem bind_error {A B : Type} (e : Exn) (f : A → Result B) :
    ((Except.error e : Result A) >>= f) = .error e := rfl

theorem exists_ok_of_isOk {A : Type} {x : Result A} (h : x.isOk = true) : ∃ a, x = .ok a := by
  cases x with
  | error e => cases h
  | ok a => exact ⟨a, rfl⟩

/-- A property of what a computation returns, evaluated. -/
theorem exists_ok_of_check {A : Type} {x : Result A} {p : A → Prop} [DecidablePred p]
    (h : x.map (fun a => decide (p a)) = .ok true) : ∃ a, x = .ok a ∧ p a := by
  cases x with
  | error e => cases h
  | ok a => exact ⟨a, rfl, of_decide_eq_true (Except.ok.inj h)⟩

/-- A `std::string_view`: where it starts in the string it was cut from, and
the bytes it showed when it was cut. -/
structure StringView where
  off : Nat := 0
  bytes : Bytes := []
deriving DecidableEq

namespace StringView

def ofBytes (bytes : Bytes) : StringView := { bytes }

def size (v : StringView) : Nat := v.bytes.length

def empty (v : StringView) : Bool := v.bytes.isEmpty

/-- `none` stands for `npos`. -/
def find (v : StringView) (needle : Bytes) : Option Nat := findSub needle v.bytes

/-- `substr` throws past the end and shortens a count that reaches past it. -/
def substr (v : StringView) (pos : Nat) (count : Option Nat) : Result StringView :=
  if v.size < pos then .error .out_of_range
  else .ok { off := v.off + pos, bytes := (v.bytes.drop pos).take (count.getD v.size) }

/-- `remove_prefix` past the end is undefined behaviour. -/
def remove_prefix (v : StringView) (n : Nat) : Result StringView :=
  if v.size < n then .error .undefined_behavior
  else .ok { off := v.off + n, bytes := v.bytes.drop n }

/-- `v[i]`, undefined at and past the end. -/
def index (v : StringView) (i : Nat) : Result UInt8 :=
  match v.bytes[i]? with
  | some c => .ok c
  | none => .error .undefined_behavior

def front (v : StringView) : Result UInt8 := v.index 0

/-- `back` of an empty view is undefined, too. -/
def back (v : StringView) : Result UInt8 :=
  match v.bytes.getLast? with
  | some c => .ok c
  | none => .error .undefined_behavior

/-- `remove_suffix` past the start is undefined behaviour. -/
def remove_suffix (v : StringView) (n : Nat) : Result StringView :=
  if v.size < n then .error .undefined_behavior
  else .ok { v with bytes := v.bytes.take (v.size - n) }

theorem empty_iff {v : StringView} : v.empty = true ↔ v.bytes = [] := by
  simp [empty]

/-- What `substr` returns, and when: it throws for a position behind the end, and a
count that is too large is cut off. -/
theorem substr_eq_ok_iff {v w : StringView} {pos : Nat} {count : Option Nat} :
    v.substr pos count = .ok w ↔
      pos ≤ v.size ∧ w = { off := v.off + pos, bytes := (v.bytes.drop pos).take (count.getD v.size) } := by
  by_cases hpos : v.size < pos
  · simp [substr, hpos, Nat.not_le.mpr hpos]
  · simp [substr, hpos, Nat.le_of_not_lt hpos, eq_comm]

theorem substr_of_le {v : StringView} {pos : Nat} (h : pos ≤ v.size) (count : Option Nat) :
    v.substr pos count =
      .ok { off := v.off + pos, bytes := (v.bytes.drop pos).take (count.getD v.size) } :=
  substr_eq_ok_iff.mpr ⟨h, rfl⟩

/-- Removing a prefix stays within the view exactly where there are that many bytes;
beyond it the behaviour is not defined, which the model reports. -/
theorem remove_prefix_eq_ok_iff {v w : StringView} {n : Nat} :
    remove_prefix v n = .ok w ↔ n ≤ v.size ∧ w = { off := v.off + n, bytes := v.bytes.drop n } := by
  unfold remove_prefix
  by_cases hn : v.size < n
  · simp [hn, Nat.not_le.mpr hn]
  · simp [hn, Nat.le_of_not_lt hn, eq_comm]

theorem remove_prefix_of_le {v : StringView} {n : Nat} (h : n ≤ v.size) :
    remove_prefix v n = .ok { off := v.off + n, bytes := v.bytes.drop n } :=
  remove_prefix_eq_ok_iff.mpr ⟨h, rfl⟩

/-- Removing a suffix stays within the view exactly where there are that many bytes,
as removing a prefix does. -/
theorem remove_suffix_eq_ok_iff {v w : StringView} {n : Nat} :
    remove_suffix v n = .ok w ↔ n ≤ v.size ∧ w = { v with bytes := v.bytes.take (v.size - n) } := by
  unfold remove_suffix
  by_cases hn : v.size < n
  · simp [hn, Nat.not_le.mpr hn]
  · simp [hn, Nat.le_of_not_lt hn, eq_comm]

/-- An index within the view is read. -/
theorem index_of_lt {v : StringView} {i : Nat} (h : i < v.bytes.length) :
    v.index i = .ok v.bytes[i] := by
  simp [index, h]

/-- Cutting at a found needle: what precedes it and what follows it, with
every way the source has of reaching them. -/
theorem find_cut {v : StringView} {needle : Bytes} {i : Nat} (h : v.find needle = some i) :
    ∃ before after, v.bytes = before ++ (needle ++ after) ∧ before.length = i ∧
      v.substr 0 (some i) = .ok { off := v.off, bytes := before } ∧
      v.substr (i + needle.length) none = .ok { off := v.off + (i + needle.length), bytes := after } ∧
      v.remove_prefix (i + needle.length) =
        .ok { off := v.off + (i + needle.length), bytes := after } := by
  have hle : i + needle.length ≤ v.size := findSub_add_length_le h
  have hlength : (v.bytes.take i).length = i := by
    simp only [List.length_take]
    unfold size at hle
    omega
  refine ⟨v.bytes.take i, v.bytes.drop (i + needle.length), findSub_split h, hlength, ?_, ?_, ?_⟩
  · simp [substr_of_le (Nat.zero_le v.size)]
  · have hall : (v.bytes.drop (i + needle.length)).take v.size = v.bytes.drop (i + needle.length) :=
      List.take_of_length_le (by simp [size])
    simp [substr_of_le hle, hall]
  · exact remove_prefix_of_le hle

/-- Cutting at a single character leaves a part without it. -/
theorem find_char_cut {v : StringView} {c : UInt8} {i : Nat} (h : v.find [c] = some i) :
    ∃ before after, v.bytes = before ++ c :: after ∧ c ∉ before ∧ before.length = i ∧
      v.substr 0 (some i) = .ok { off := v.off, bytes := before } ∧
      v.substr (i + 1) none = .ok { off := v.off + (i + 1), bytes := after } ∧
      v.remove_prefix (i + 1) = .ok { off := v.off + (i + 1), bytes := after } := by
  obtain ⟨before, after, hbytes, hlength, hfirst, hrest, hremove⟩ := find_cut h
  refine ⟨before, after, hbytes, ?_, hlength, hfirst, hrest, hremove⟩
  have hnot := not_mem_take_of_findSub h
  rwa [hbytes, List.take_left' hlength] at hnot

/-- Cutting where the first symbol of the needle has not been seen before. -/
theorem cut_of_not_mem {v : StringView} {c : UInt8} {needle before after : Bytes}
    (hbytes : v.bytes = before ++ (c :: needle ++ after)) (hc : c ∉ before) :
    v.find (c :: needle) = some before.length ∧
      v.substr 0 (some before.length) = .ok { off := v.off, bytes := before } ∧
      v.substr (before.length + (c :: needle).length) none =
        .ok { off := v.off + (before.length + (c :: needle).length), bytes := after } ∧
      v.remove_prefix (before.length + (c :: needle).length) =
        .ok { off := v.off + (before.length + (c :: needle).length), bytes := after } := by
  have hfind : v.find (c :: needle) = some before.length := by
    rw [find, hbytes]
    exact findSub_of_not_mem hc after
  obtain ⟨before', after', hcut, hlength, hfirst, hrest, hremove⟩ := find_cut hfind
  obtain ⟨rfl, htail⟩ := List.append_inj (hbytes.symm.trans hcut) hlength.symm
  obtain rfl := List.append_cancel_left htail
  exact ⟨hfind, hfirst, hrest, hremove⟩

/-- A view is cut at the first occurrence of a byte into what stands before and behind it. -/
theorem cut_char {v : StringView} {c : UInt8} {before after : Bytes} (hbytes : v.bytes = before ++ c :: after)
    (hc : c ∉ before) :
    v.find [c] = some before.length ∧
      v.substr 0 (some before.length) = .ok { off := v.off, bytes := before } ∧
      v.substr (before.length + 1) none = .ok { off := v.off + (before.length + 1), bytes := after } ∧
      v.remove_prefix (before.length + 1) = .ok { off := v.off + (before.length + 1), bytes := after } := by
  have hcut : v.bytes = before ++ ([c] ++ after) := hbytes
  exact cut_of_not_mem hcut hc

/-- The view was cut from another one: it starts inside it and shows what is there. -/
def Part (v w : StringView) : Prop := ∃ k, v.off = w.off + k ∧ v.bytes <+: w.bytes.drop k

theorem Part.refl (v : StringView) : v.Part v := ⟨0, rfl, List.prefix_rfl⟩

/-- A part of a part of a view is a part of it: views that are cut again and again
still lie within the first. -/
theorem Part.trans {u v w : StringView} (huv : u.Part v) (hvw : v.Part w) : u.Part w := by
  obtain ⟨i, hoff, hprefix⟩ := huv
  obtain ⟨j, hoff', hprefix'⟩ := hvw
  refine ⟨j + i, by omega, hprefix.trans ?_⟩
  rw [← List.drop_drop]
  exact hprefix'.drop i

theorem Part.of_substr {v w : StringView} {pos : Nat} {count : Option Nat}
    (h : v.substr pos count = .ok w) : w.Part v := by
  obtain ⟨_, rfl⟩ := substr_eq_ok_iff.mp h
  exact ⟨pos, rfl, List.take_prefix _ _⟩

/-- Behind a found needle there is less than there was. -/
theorem find_rest {v : StringView} {needle : Bytes} {i : Nat} (h : v.find needle = some i)
    (hneedle : needle ≠ []) :
    ∃ rest, remove_prefix v (i + needle.length) = .ok rest ∧ rest.Part v ∧ rest.size < v.size := by
  have hroom : i + needle.length ≤ v.bytes.length := findSub_add_length_le h
  have hpos := List.length_pos_iff.mpr hneedle
  refine ⟨_, remove_prefix_of_le hroom, ⟨i + needle.length, rfl, List.prefix_rfl⟩, ?_⟩
  simp only [size, List.length_drop]
  omega

theorem Part.of_remove_prefix {v w : StringView} {n : Nat} (h : remove_prefix v n = .ok w) :
    w.Part v := by
  obtain ⟨_, rfl⟩ := remove_prefix_eq_ok_iff.mp h
  exact ⟨n, rfl, List.prefix_rfl⟩

end StringView

end octane
