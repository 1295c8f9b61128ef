import Octane.HttpParser

open search

namespace octane.HttpParser

theorem ascii_space : ascii " " = [32] := by decide
theorem ascii_colon : ascii ":" = [58] := by decide

/-- An RFC token contains no character that the parser cuts at. -/
theorem tokenChar_of_mem {text : Bytes} (h : token text = true) {c : UInt8} (hc : c ∈ text) :
    tokenChar c = true := by
  simp only [token, Bool.and_eq_true, List.all_eq_true] at h
  exact h.2 c hc

/-- A token holds no delimiter, which is why the first blank ends the method and the
first colon a name. -/
theorem not_mem_of_token {text : Bytes} (h : token text = true) {c : UInt8}
    (hc : tokenChar c = false) : c ∉ text := by
  intro hmem
  have htoken := tokenChar_of_mem h hmem
  rw [hc] at htoken
  cases htoken

def isHexDigit (c : UInt8) : Prop :=
  (48 ≤ c ∧ c ≤ 57) ∨ (97 ≤ c ∧ c ≤ 102) ∨ (65 ≤ c ∧ c ≤ 70)

/-- `hex` is negative exactly for what is no hexadecimal digit. -/
theorem hex_nonneg_iff {c : UInt8} : 0 ≤ hex c ↔ isHexDigit c := by
  simp only [hex, isHexDigit, UInt8.le_iff_toNat_le, UInt8.reduceToNat]
  split
  · omega
  · split
    · omega
    · split <;> omega

/-- The bytes a request target may hold. -/
def targetByte (c : UInt8) : Prop := 33 ≤ c ∧ c ≤ 126 ∧ c ≠ 35

/-- Every `%` starts an escape of two hex digits. -/
def EscapesComplete (target : Bytes) : Prop :=
  ∀ before after, target = before ++ 37 :: after →
    ∃ first second rest, after = first :: second :: rest ∧ isHexDigit first ∧ isHexDigit second

/-- One round of the target loop: the byte is allowed, an escape is complete
and the rest of the target passes. -/
theorem checkTarget_ok_step {full_path : StringView} {i : Nat} (hi : i < full_path.bytes.length)
    (h : checkTarget full_path i = .ok ()) :
    targetByte full_path.bytes[i] ∧
      (full_path.bytes[i] = 37 → ∃ first second rest,
        full_path.bytes.drop (i + 1) = first :: second :: rest ∧ isHexDigit first ∧ isHexDigit second) ∧
      checkTarget full_path (i + 1) = .ok () := by
  rw [checkTarget, if_pos (show i < full_path.size from hi), StringView.index_of_lt hi, bind_ok] at h
  split at h
  · cases h
  · next hbyte =>
    have htarget : targetByte full_path.bytes[i] := by
      simp only [not_or, UInt8.not_le, UInt8.lt_iff_toNat_lt, UInt8.reduceToNat] at hbyte
      refine ⟨?_, ?_, hbyte.2.2⟩ <;> simp only [UInt8.le_iff_toNat_le, UInt8.reduceToNat] <;> omega
    split at h
    · split at h
      · cases h
      · next hroom =>
        simp only [StringView.size, Nat.not_le] at hroom
        rw [StringView.index_of_lt (by omega), bind_ok] at h
        split at h
        · cases h
        · next hfirst =>
          rw [StringView.index_of_lt hroom, bind_ok] at h
          split at h
          · cases h
          · next hsecond =>
            refine ⟨htarget, fun _ => ?_, h⟩
            refine ⟨_, _, full_path.bytes.drop (i + 3), ?_, hex_nonneg_iff.mp (Int.not_lt.mp hfirst),
              hex_nonneg_iff.mp (Int.not_lt.mp hsecond)⟩
            rw [List.drop_eq_getElem_cons (by omega), List.drop_eq_getElem_cons hroom]
    · next hplain => exact ⟨htarget, fun hpercent => absurd hpercent hplain, h⟩

/-- The whole target loop. -/
theorem checkTarget_ok {full_path : StringView} {i : Nat} (h : checkTarget full_path i = .ok ()) :
    (∀ c ∈ full_path.bytes.drop i, targetByte c) ∧ EscapesComplete (full_path.bytes.drop i) := by
  induction hsize : full_path.bytes.length - i generalizing i with
  | zero =>
    have hnil : full_path.bytes.drop i = [] := List.drop_eq_nil_of_le (by omega)
    simp [hnil, EscapesComplete]
  | succ n ih =>
    have hi : i < full_path.bytes.length := by omega
    obtain ⟨hbyte, hescape, hnext⟩ := checkTarget_ok_step hi h
    obtain ⟨hbytes, hescapes⟩ := ih hnext (by omega)
    rw [List.drop_eq_getElem_cons hi]
    refine ⟨List.forall_mem_cons.mpr ⟨hbyte, hbytes⟩, ?_⟩
    intro before after hsplit
    cases before with
    | nil =>
      obtain ⟨hpercent, hafter⟩ := List.cons.inj hsplit
      rw [← hafter]
      exact hescape hpercent
    | cons b before => exact hescapes before after (List.cons.inj hsplit).2

/-- A target the parser accepts for a method. -/
structure ValidTarget (method : HttpMethod) (target : Bytes) : Prop where
  bytes : ∀ c ∈ target, targetByte c
  escapes : EscapesComplete target
  form : (∃ rest, target = 47 :: rest) ∨ (target = ascii "*" ∧ method = .OPTIONS)

/-- The forms of a target that are served: a path, or `*` for OPTIONS. -/
theorem checkForm_ok {full_path : StringView} {method : HttpMethod}
    (h : checkForm full_path method = .ok ()) :
    (∃ rest, full_path.bytes = 47 :: rest) ∨ (full_path.bytes = ascii "*" ∧ method = .OPTIONS) := by
  cases hbytes : full_path.bytes with
  | nil => simp [checkForm, StringView.empty, hbytes] at h
  | cons c rest =>
    have hfront : full_path.front = .ok c := by simp [StringView.front, StringView.index, hbytes]
    simp only [checkForm, StringView.empty, hbytes, hfront, bind_ok, List.isEmpty_cons,
      Bool.false_eq_true, if_false] at h
    split at h
    · cases h
    · next hform =>
      by_cases hslash : c = 47
      · exact .inl ⟨rest, by rw [hslash]⟩
      · simp only [ne_eq, hslash, not_false_eq_true, true_and, not_not] at hform
        exact .inr hform

/-- Splitting the target touches the path and the query only. -/
theorem splitTarget_ok {full_path : StringView} {req after : HttpRequest}
    (h : splitTarget full_path req = .ok after) :
    ∃ query, after = { req with path := after.path, query } := by
  unfold splitTarget at h
  split at h
  · simp only [bind_eq_ok_iff] at h
    obtain ⟨path, _, qs, _, query, _, h⟩ := h
    cases h
    exact ⟨query, rfl⟩
  · cases h
    exact ⟨req.query, rfl⟩

/-- What an accepted request line looks like, and what it sets: three parts with one
blank between them, a target of a known form and one of two versions. -/
theorem parseRequestLine_ok {line : StringView} {req after : HttpRequest}
    (h : parseRequestLine line req = .ok after) :
    ∃ method target, line.bytes = method ++ 32 :: (target ++ 32 :: after.http_version.bytes) ∧
      token method = true ∧ ValidTarget (toMethod method) target ∧
      (after.http_version.bytes = ascii "HTTP/1.1" ∨ after.http_version.bytes = ascii "HTTP/1.0") ∧
      after.method = toMethod method ∧ after.headers = req.headers ∧ after.cookies = req.cookies := by
  rw [parseRequestLine, ascii_space] at h
  split at h
  · cases h
  · next s1 hs1 =>
    obtain ⟨method, rest, hline, _, _, hmethod, _, hrest⟩ := StringView.find_char_cut hs1
    rw [hmethod, bind_ok] at h
    split at h
    · next htoken =>
      rw [hrest, bind_ok, parseTarget, ascii_space] at h
      split at h
      · cases h
      · next s2 hs2 =>
        obtain ⟨target, version, htail, _, _, htarget, hversion, _⟩ := StringView.find_char_cut hs2
        rw [htarget, bind_ok, hversion, bind_ok] at h
        split at h
        · cases h
        · next hknown =>
          simp only [bind_eq_ok_iff] at h
          obtain ⟨_, hform, _, hcheck, hsplit⟩ := h
          obtain ⟨query, hafter⟩ := splitTarget_ok hsplit
          obtain ⟨hbytes, hescapes⟩ := checkTarget_ok hcheck
          refine ⟨method, target, ?_, htoken, ⟨by simpa using hbytes, by simpa using hescapes,
            checkForm_ok hform⟩, ?_, ?_, ?_, ?_⟩
          · rw [hline, hafter]
            simpa using htail
          · rw [hafter]
            simpa only [ne_eq, not_and_or, not_not] using hknown
          · rw [hafter]
          · rw [hafter]
          · rw [hafter]
    · cases h

end octane.HttpParser
