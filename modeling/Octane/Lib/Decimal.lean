import Mathlib

namespace decimal

/-- The ASCII character of a decimal digit. -/
def digit (d : Nat) : UInt8 := UInt8.ofNat (48 + d)

def isDigit (c : UInt8) : Bool := 48 ≤ c && c ≤ 57

def digitValue (c : UInt8) : Nat := c.toNat - 48

/-- Decimal notation without leading zeros. -/
def print (n : Nat) : List UInt8 :=
  if n = 0 then [digit 0] else ((Nat.digits 10 n).map digit).reverse

/-- The number a string of digits denotes; leading zeros do not matter. -/
def value (s : List UInt8) : Nat := Nat.ofDigits 10 (s.reverse.map digitValue)

/-- A digit is read back as what it was printed for. -/
theorem digitValue_digit {d : Nat} (h : d < 10) : digitValue (digit d) = d := by
  have hsmall : 48 + d < 256 := by omega
  simp [digitValue, digit, Nat.mod_eq_of_lt hsmall]

theorem isDigit_digit {d : Nat} (h : d < 10) : isDigit (digit d) = true := by
  have hsmall : 48 + d < 256 := by omega
  simp [isDigit, digit, UInt8.le_iff_toNat_le, Nat.mod_eq_of_lt hsmall]
  omega

/-- The digits are the bytes from `0` to `9`, as a range that arithmetic can use. -/
theorem isDigit_iff {c : UInt8} : isDigit c = true ↔ 48 ≤ c.toNat ∧ c.toNat ≤ 57 := by
  simp [isDigit, UInt8.le_iff_toNat_le]

/-- Every number has a digit: a reader that refuses an empty length never refuses
one that was printed. -/
theorem print_ne_nil (n : Nat) : print n ≠ [] := by
  by_cases hzero : n = 0
  · simp [print, hzero]
  · simp [print, hzero, Nat.digits_ne_nil_iff_ne_zero]

theorem isDigit_of_mem_print {n : Nat} {c : UInt8} (h : c ∈ print n) : isDigit c = true := by
  by_cases hzero : n = 0
  · have hc : c = digit 0 := by simpa [print, hzero] using h
    exact hc ▸ isDigit_digit (by omega)
  · simp only [print, hzero, if_false, List.mem_reverse, List.mem_map] at h
    obtain ⟨d, hd, rfl⟩ := h
    exact isDigit_digit (Nat.digits_lt_base (by omega) hd)

/-- Reading a printed number back gives the number. -/
theorem value_print (n : Nat) : value (print n) = n := by
  by_cases hzero : n = 0
  · simp [value, print, hzero, digitValue, digit]
  · simp only [value, print, hzero, if_false, List.reverse_reverse, List.map_map]
    have hsame : (Nat.digits 10 n).map (digitValue ∘ digit) = Nat.digits 10 n := by
      calc (Nat.digits 10 n).map (digitValue ∘ digit)
          = (Nat.digits 10 n).map id := by
            apply List.map_congr_left
            intro d hd
            exact digitValue_digit (Nat.digits_lt_base (by omega) hd)
        _ = Nat.digits 10 n := List.map_id _
    rw [hsame, Nat.ofDigits_digits]

end decimal
