import Mathlib

namespace percent

/-- The hexadecimal digit of a number below sixteen, in upper case. -/
def hexDigit (n : Nat) : UInt8 := if n < 10 then UInt8.ofNat (48 + n) else UInt8.ofNat (55 + n)

/-- The bytes that stand for one byte: itself, or an escape where it is not kept. -/
def encodeByte (keep : UInt8 → Bool) (c : UInt8) : List UInt8 :=
  if keep c then [c] else [37, hexDigit (c.toNat / 16), hexDigit (c.toNat % 16)]

def encode (keep : UInt8 → Bool) (text : List UInt8) : List UInt8 := text.flatMap (encodeByte keep)

/-- A hexadecimal digit is printed as a digit or a capital letter, never as the sign
that starts an escape. -/
theorem hexDigit_range : ∀ n < 16, (48 ≤ hexDigit n ∧ hexDigit n ≤ 57) ∨ (65 ≤ hexDigit n ∧ hexDigit n ≤ 70) := by
  decide

/-- Two nibbles that are printed alike are the same. -/
theorem hexDigit_injective : ∀ n < 16, ∀ m < 16, hexDigit n = hexDigit m → n = m := by
  decide

variable {keep : UInt8 → Bool}

theorem encode_cons (c : UInt8) (text : List UInt8) :
    encode keep (c :: text) = encodeByte keep c ++ encode keep text := List.flatMap_cons

theorem encodeByte_of_kept {c : UInt8} (h : keep c = true) : encodeByte keep c = [c] := if_pos h

theorem encodeByte_of_escaped {c : UInt8} (h : ¬ keep c = true) :
    encodeByte keep c = [37, hexDigit (c.toNat / 16), hexDigit (c.toNat % 16)] := if_neg h

theorem high_lt (c : UInt8) : c.toNat / 16 < 16 := by
  have hbyte := c.toNat_lt
  omega

theorem low_lt (c : UInt8) : c.toNat % 16 < 16 := Nat.mod_lt _ (by decide)

/-- What a text is encoded with: kept bytes, the sign and digits. -/
theorem mem_encode {text : List UInt8} {c : UInt8} (h : c ∈ encode keep text) :
    keep c = true ∨ c = 37 ∨ ∃ n < 16, c = hexDigit n := by
  obtain ⟨d, _, hc⟩ := List.mem_flatMap.mp h
  by_cases hd : keep d = true
  · rw [encodeByte_of_kept hd, List.mem_singleton] at hc
    exact .inl (hc ▸ hd)
  · simp only [encodeByte_of_escaped hd, List.mem_cons, List.not_mem_nil, or_false] at hc
    obtain hsign | hhigh | hlow := hc
    · exact .inr (.inl hsign)
    · exact .inr (.inr ⟨_, high_lt d, hhigh⟩)
    · exact .inr (.inr ⟨_, low_lt d, hlow⟩)

/-- Every sign starts a complete escape, since the sign itself is always escaped and
two digits are written behind it. -/
theorem escape_of_mem (hsign : keep 37 = false) {text before after : List UInt8}
    (h : encode keep text = before ++ 37 :: after) :
    ∃ n m rest, n < 16 ∧ m < 16 ∧ after = hexDigit n :: hexDigit m :: rest := by
  have hdigit : ∀ n < 16, hexDigit n ≠ 37 := by decide
  induction text generalizing before with
  | nil => simp [encode] at h
  | cons c text ih =>
    rw [encode_cons] at h
    by_cases hc : keep c = true
    · rw [encodeByte_of_kept hc] at h
      cases before with
      | nil =>
        rw [(List.cons.inj h).1, hsign] at hc
        cases hc
      | cons first before => exact ih (List.cons.inj h).2
    · rw [encodeByte_of_escaped hc] at h
      match before, h with
      | [], h => exact ⟨_, _, _, high_lt c, low_lt c, (List.cons.inj h).2.symm⟩
      | [_], h => exact absurd (List.cons.inj (List.cons.inj h).2).1 (hdigit _ (high_lt c))
      | [_, _], h =>
        exact absurd (List.cons.inj (List.cons.inj (List.cons.inj h).2).2).1 (hdigit _ (low_lt c))
      | _ :: _ :: _ :: before, h => exact ih (List.cons.inj (List.cons.inj (List.cons.inj h).2).2).2

/-- A text of bytes that need no escape is its own encoding. -/
theorem encode_of_kept {text : List UInt8} (h : ∀ c ∈ text, keep c = true) : encode keep text = text := by
  induction text with
  | nil => rfl
  | cons c text ih =>
    obtain ⟨hc, hrest⟩ := List.forall_mem_cons.mp h
    rw [encode_cons, encodeByte_of_kept hc, ih hrest, List.singleton_append]

/-- An encoding is never shorter than its text: each escape takes three bytes for one. -/
theorem length_le_encode (text : List UInt8) : text.length ≤ (encode keep text).length := by
  induction text with
  | nil => exact Nat.le_refl _
  | cons c text ih =>
    rw [encode_cons, encodeByte, List.length_append]
    split_ifs
    all_goals
      simp only [List.length_cons, List.length_nil]
      omega

/-- An escape makes the text longer. -/
theorem length_lt_encode {text : List UInt8} (h : ¬ ∀ c ∈ text, keep c = true) :
    text.length < (encode keep text).length := by
  simp only [not_forall] at h
  obtain ⟨c, hmem, hc⟩ := h
  obtain ⟨before, after, rfl⟩ := List.append_of_mem hmem
  have hbefore : before.length ≤ (encode keep before).length := length_le_encode before
  have hafter : after.length ≤ (encode keep after).length := length_le_encode after
  simp only [encode, List.flatMap_append, List.flatMap_cons, encodeByte_of_escaped hc, List.length_append,
    List.length_cons, List.length_nil] at hbefore hafter ⊢
  omega

/-- A text stays as it is exactly where none of its bytes is escaped. -/
theorem encode_eq_self_iff {text : List UInt8} :
    encode keep text = text ↔ ∀ c ∈ text, keep c = true := by
  refine ⟨fun h => ?_, encode_of_kept⟩
  by_contra hnot
  have hlength := length_lt_encode hnot
  rw [h] at hlength
  exact Nat.lt_irrefl _ hlength

/-- The encoding of a byte can be told from that of every other one. -/
theorem encodeByte_append_inj (hsign : keep 37 = false) {c d : UInt8} {first second : List UInt8}
    (h : encodeByte keep c ++ first = encodeByte keep d ++ second) : c = d ∧ first = second := by
  by_cases hc : keep c = true
  · rw [encodeByte_of_kept hc] at h
    by_cases hd : keep d = true
    · rw [encodeByte_of_kept hd] at h
      exact List.cons.inj h
    · rw [encodeByte_of_escaped hd] at h
      rw [(List.cons.inj h).1, hsign] at hc
      cases hc
  · rw [encodeByte_of_escaped hc] at h
    by_cases hd : keep d = true
    · rw [encodeByte_of_kept hd] at h
      rw [← (List.cons.inj h).1, hsign] at hd
      cases hd
    · rw [encodeByte_of_escaped hd] at h
      simp only [List.cons_append, List.nil_append, List.cons.injEq, true_and] at h
      obtain ⟨hhigh, hlow, hrest⟩ := h
      have hsame : c.toNat = d.toNat := by
        have hquotient := hexDigit_injective _ (high_lt c) _ (high_lt d) hhigh
        have hremainder := hexDigit_injective _ (low_lt c) _ (low_lt d) hlow
        omega
      exact ⟨UInt8.toNat_inj.mp hsame, hrest⟩

/-- No two texts have one encoding, where the sign of an escape is itself escaped:
otherwise a text that spells an escape out would be taken for the byte. -/
theorem encode_injective (hsign : keep 37 = false) : Function.Injective (encode keep) := by
  intro first second h
  have hempty : ∀ (c : UInt8) (text : List UInt8), encode keep (c :: text) ≠ [] := by
    intro c text hnil
    have hlength : (c :: text).length ≤ (encode keep (c :: text)).length := length_le_encode (c :: text)
    rw [hnil] at hlength
    simp at hlength
  induction first generalizing second with
  | nil =>
    cases second with
    | nil => rfl
    | cons d second => exact absurd h.symm (hempty d second)
  | cons c first ih =>
    cases second with
    | nil => exact absurd h (hempty c first)
    | cons d second =>
      rw [encode_cons, encode_cons] at h
      obtain ⟨rfl, hrest⟩ := encodeByte_append_inj hsign h
      rw [ih hrest]

end percent
