import Octane.StringView

open search

namespace octane

inductive ContentType where
  | TEXT_PLAIN | TEXT_HTML | TEXT_CSS | TEXT_JAVASCRIPT | APPLICATION_JSON
  | APPLICATION_XML | APPLICATION_PDF | APPLICATION_FORM_URLENCODED
  | MULTIPART_FORM_DATA | IMAGE_JPEG | IMAGE_PNG | IMAGE_GIF | IMAGE_WEBP
  | IMAGE_SVG | OCTET_STREAM | UNKNOWN
deriving DecidableEq

inductive HttpMethod where
  | GET | POST | PUT | PATCH | DEL | OPTIONS | HEAD | UNKNOWN
deriving DecidableEq

/-- `static_cast<size_t>` of a method. -/
def HttpMethod.index : HttpMethod → Nat
  | .GET => 0 | .POST => 1 | .PUT => 2 | .PATCH => 3
  | .DEL => 4 | .OPTIONS => 5 | .HEAD => 6 | .UNKNOWN => 7

/-- The folding step of the case-insensitive comparison: `A` to `Z` only. -/
def foldCase (c : UInt8) : UInt8 := if 65 ≤ c ∧ c ≤ 90 then c + 32 else c

def CaseInsensitiveEqual (a b : Bytes) : Bool :=
  if a.length ≠ b.length then false
  else (a.zip b).all fun pair => foldCase pair.1 == foldCase pair.2

/-- Strings compare equal exactly when they agree after folding. -/
theorem CaseInsensitiveEqual_iff {a b : Bytes} :
    CaseInsensitiveEqual a b = true ↔ a.map foldCase = b.map foldCase := by
  induction a generalizing b with
  | nil => cases b <;> simp [CaseInsensitiveEqual]
  | cons x a ih =>
    cases b with
    | nil => simp [CaseInsensitiveEqual]
    | cons y b =>
      simp only [CaseInsensitiveEqual] at ih
      by_cases hlength : a.length = b.length
      · have hrest := ih (b := b)
        simp only [hlength, ne_eq, not_true_eq_false, if_false] at hrest
        simp only [CaseInsensitiveEqual, List.length_cons, hlength, ne_eq, not_true_eq_false,
          if_false, List.zip_cons_cons, List.all_cons, Bool.and_eq_true, beq_iff_eq, hrest,
          List.map_cons, List.cons.injEq]
      · have hne : a.map foldCase ≠ b.map foldCase := by
          intro h
          exact hlength (by simpa using congrArg List.length h)
        simp [CaseInsensitiveEqual, hlength, hne]

theorem CaseInsensitiveEqual_refl (a : Bytes) : CaseInsensitiveEqual a a = true :=
  CaseInsensitiveEqual_iff.mpr rfl

theorem CaseInsensitiveEqual_symm {a b : Bytes} (h : CaseInsensitiveEqual a b = true) :
    CaseInsensitiveEqual b a = true :=
  CaseInsensitiveEqual_iff.mpr (CaseInsensitiveEqual_iff.mp h).symm

/-- Names are compared by what folding makes of their bytes, which is why equality
is an equivalence, as a map of names needs. -/
theorem CaseInsensitiveEqual_trans {a b c : Bytes} (hab : CaseInsensitiveEqual a b = true)
    (hbc : CaseInsensitiveEqual b c = true) : CaseInsensitiveEqual a c = true :=
  CaseInsensitiveEqual_iff.mpr
    ((CaseInsensitiveEqual_iff.mp hab).trans (CaseInsensitiveEqual_iff.mp hbc))

/-- `std::equal_to` of strings, the key equality of the maps that compare names as written. -/
def equal_to (a b : Bytes) : Bool := a == b

theorem equal_to_iff {a b : Bytes} : equal_to a b = true ↔ a = b := beq_iff_eq

theorem equal_to_lawful : UnorderedMap.LawfulKeys equal_to where
  refl _ := equal_to_iff.mpr rfl
  symm h := equal_to_iff.mpr (equal_to_iff.mp h).symm
  trans h h' := equal_to_iff.mpr ((equal_to_iff.mp h).trans (equal_to_iff.mp h'))

/-- The key equality of a `StringMap`. -/
def StringMap.keyEq (a b : StringView) : Bool := a.bytes == b.bytes

abbrev StringMap := UnorderedMap StringView StringView

/-- The key equality of a `HeaderMap`. -/
def HeaderMap.keyEq (a b : StringView) : Bool := CaseInsensitiveEqual a.bytes b.bytes

abbrev HeaderMap := UnorderedMap StringView StringView

/-- The key equality of the map of strings is the equality of the bytes shown. -/
theorem StringMap.keyEq_lawful : UnorderedMap.LawfulKeys StringMap.keyEq where
  refl k := by simp [StringMap.keyEq]
  symm h := by
    simp only [StringMap.keyEq, beq_iff_eq] at h ⊢
    exact h.symm
  trans h h' := by
    simp only [StringMap.keyEq, beq_iff_eq] at h h' ⊢
    exact h.trans h'

/-- The key equality of the header map is an equivalence: names that differ in letter
case are one key. -/
theorem HeaderMap.keyEq_lawful : UnorderedMap.LawfulKeys HeaderMap.keyEq where
  refl k := CaseInsensitiveEqual_refl k.bytes
  symm := CaseInsensitiveEqual_symm
  trans := CaseInsensitiveEqual_trans

def parseContentType (raw : Bytes) : ContentType :=
  let key := (raw.take ((findSub (ascii ";") raw).getD raw.length)).rdropWhile (· == 32)
  if key = ascii "text/plain" then .TEXT_PLAIN
  else if key = ascii "application/json" then .APPLICATION_JSON
  else if key = ascii "text/html" then .TEXT_HTML
  else if key = ascii "text/css" then .TEXT_CSS
  else if key = ascii "text/javascript" then .TEXT_JAVASCRIPT
  else if key = ascii "application/x-www-form-urlencoded" then .APPLICATION_FORM_URLENCODED
  else if key = ascii "multipart/form-data" then .MULTIPART_FORM_DATA
  else if key = ascii "image/png" then .IMAGE_PNG
  else if key = ascii "image/jpeg" then .IMAGE_JPEG
  else if key = ascii "image/webp" then .IMAGE_WEBP
  else if key = ascii "image/gif" then .IMAGE_GIF
  else if key = ascii "image/svg+xml" then .IMAGE_SVG
  else if key = ascii "application/xml" then .APPLICATION_XML
  else if key = ascii "application/pdf" then .APPLICATION_PDF
  else if key = ascii "application/octet-stream" then .OCTET_STREAM
  else .UNKNOWN

end octane
