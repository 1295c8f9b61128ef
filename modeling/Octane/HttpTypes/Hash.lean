import Octane.HttpTypes

namespace octane

/-- The FNV-1a hash that both functors compute, each after a step of its own on the bytes. -/
def fnv1a (step : UInt8 → UInt8) (sv : Bytes) : UInt64 :=
  sv.foldl (fun hash c => (hash ^^^ (step c).toUInt64) * 1099511628211) 14695981039346656037

def StringViewHash (sv : Bytes) : UInt64 := fnv1a id sv

def CaseInsensitiveStringViewHash (sv : Bytes) : UInt64 :=
  fnv1a (fun uc => if 65 ≤ uc ∧ uc ≤ 90 then uc + 32 else uc) sv

/-- The text in lower case, as characters. -/
def lowercased (text : Bytes) : List Char := text.map fun c => (Char.ofUInt8 c).toLower

/-- The folding step lowers the letters and keeps the other bytes, those above 127 with them. -/
theorem ofUInt8_foldCase (c : UInt8) : Char.ofUInt8 (foldCase c) = (Char.ofUInt8 c).toLower := by
  revert c
  decide +kernel

theorem ofUInt8_injective : Function.Injective Char.ofUInt8 := by
  have hback : ∀ c : UInt8, (Char.ofUInt8 c).toUInt8 = c := by decide +kernel
  intro c d h
  rw [← hback c, h, hback d]

/-- The folding of the source, byte by byte, is the folding of characters as a
specification has it. -/
theorem lowercased_eq (text : Bytes) : lowercased text = (text.map foldCase).map Char.ofUInt8 := by
  simp [lowercased, ofUInt8_foldCase]

/-- The comparison is the equality of the strings in lower case. -/
theorem CaseInsensitiveEqual_iff_lowercased {a b : Bytes} :
    CaseInsensitiveEqual a b = true ↔ lowercased a = lowercased b := by
  rw [CaseInsensitiveEqual_iff, lowercased_eq, lowercased_eq]
  exact (List.map_injective_iff.mpr ofUInt8_injective).eq_iff.symm

/-- Names that differ in letter case only are one name, and this relation is an equivalence. -/
theorem CaseInsensitiveEqual_equivalence :
    Equivalence fun a b : Bytes => CaseInsensitiveEqual a b = true where
  refl := CaseInsensitiveEqual_refl
  symm := CaseInsensitiveEqual_symm
  trans := CaseInsensitiveEqual_trans

/-- A step on the bytes is a step on the string before it is hashed. -/
theorem fnv1a_map (step : UInt8 → UInt8) (sv : Bytes) : fnv1a step sv = fnv1a id (sv.map step) := by
  rw [fnv1a, fnv1a, List.foldl_map]
  rfl

/-- The hash folds with the step of the comparison. -/
theorem CaseInsensitiveStringViewHash_eq (sv : Bytes) :
    CaseInsensitiveStringViewHash sv = StringViewHash (sv.map foldCase) :=
  fnv1a_map foldCase sv

/-- Strings that compare equal have one hash. -/
theorem CaseInsensitiveStringViewHash_congr {a b : Bytes} (h : CaseInsensitiveEqual a b = true) :
    CaseInsensitiveStringViewHash a = CaseInsensitiveStringViewHash b := by
  rw [CaseInsensitiveStringViewHash_eq, CaseInsensitiveStringViewHash_eq, CaseInsensitiveEqual_iff.mp h]

end octane
