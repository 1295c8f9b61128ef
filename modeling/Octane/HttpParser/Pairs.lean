import Octane.HttpParser.Fields
import Octane.Lib.Patterns

open search

namespace octane

/-- What a map shows under a key. -/
def StringMap.bytesOf (map : StringMap) (key : Bytes) : Option Bytes :=
  (map.get StringMap.keyEq (.ofBytes key)).map StringView.bytes

/-- What is read under a key after an assignment: the new value for this key, the
old one for others. -/
theorem StringMap.bytesOf_assign (map : StringMap) (k v : StringView) (key : Bytes) :
    StringMap.bytesOf (map.assign StringMap.keyEq k v) key =
      if k.bytes = key then some v.bytes else map.bytesOf key := by
  have hkey : StringMap.keyEq k (.ofBytes key) = true ↔ k.bytes = key := by
    simp [StringMap.keyEq, StringView.ofBytes]
  rw [bytesOf, UnorderedMap.get_assign StringMap.keyEq_lawful]
  by_cases hsame : k.bytes = key
  · rw [if_pos (hkey.mpr hsame), if_pos hsame, Option.map_some]
  · rw [if_neg (fun h => hsame (hkey.mp h)), if_neg hsame, bytesOf]

namespace HttpParser

/-- A piece cut at its first `=`, where it has one. -/
def cutPair (cleaned : Bytes → Bytes) (piece : Bytes) : Option (Bytes × Bytes) :=
  if 61 ∈ piece then
    some (cleaned (piece.takeWhile (· ≠ 61)), cleaned ((piece.dropWhile (· ≠ 61)).drop 1))
  else none

/-- The pairs between all separators, in order. -/
def pairsOf (sep : UInt8) (cleaned : Bytes → Bytes) (text : Bytes) : List (Bytes × Bytes) :=
  (text.splitOn sep).filterMap (cutPair cleaned)

/-- A pair is cut at its first sign of equality; a later one belongs to the value. -/
theorem cutPair_append {cleaned : Bytes → Bytes} {before : Bytes} (h : 61 ∉ before) (after : Bytes) :
    cutPair cleaned (before ++ 61 :: after) = some (cleaned before, cleaned after) := by
  have hbefore : ∀ c ∈ before, decide (c ≠ 61) = true := fun c hc =>
    decide_eq_true fun heq => h (heq ▸ hc)
  rw [cutPair, if_pos (by simp), List.takeWhile_append_of_pos hbefore,
    List.dropWhile_append_of_pos hbefore, List.takeWhile_cons_of_neg (by simp),
    List.dropWhile_cons_of_neg (by simp), List.append_nil, List.drop_one, List.tail_cons]

variable {clean : StringView → StringView} {cleaned : Bytes → Bytes}

/-- A piece stores the pair it is cut into, if any. -/
theorem storePair_eq (hclean : ∀ v, (clean v).bytes = cleaned v.bytes) (pair : StringView)
    (map : StringMap) :
    ∃ after, storePair clean pair map = .ok after ∧
      ∀ key, after.bytesOf key =
        (Pattern.valueOf (cutPair cleaned pair.bytes).toList key).or (map.bytesOf key) := by
  have hsign : ascii "=" = [61] := by decide
  rw [storePair, hsign]
  cases hfind : pair.find [61] with
  | none =>
    have hnone : cutPair cleaned pair.bytes = none := if_neg (findSub_singleton_eq_none_iff.mp hfind)
    refine ⟨map, rfl, fun key => ?_⟩
    rw [hnone]
    rfl
  | some eq =>
    obtain ⟨before, after, hbytes, hnot, _, hkey, hvalue, _⟩ := StringView.find_char_cut hfind
    dsimp only
    rw [hkey, bind_ok, hvalue, bind_ok, hbytes, cutPair_append hnot]
    refine ⟨_, rfl, fun key => ?_⟩
    rw [StringMap.bytesOf_assign, hclean, hclean, Option.toList_some, Pattern.valueOf_cons]
    split_ifs <;> rfl

/-- The loop over the pieces stores the pairs of a text, the last one with a key last.
The rounds are those of the split at the separator, empty pieces included. -/
theorem parsePairs_eq (hclean : ∀ v, (clean v).bytes = cleaned v.bytes) (sep : UInt8) (raw : StringView)
    (map : StringMap) :
    ∃ after, parsePairs [sep] clean raw map = .ok after ∧
      ∀ key, after.bytesOf key =
        (Pattern.valueOf (pairsOf sep cleaned raw.bytes) key).or (map.bytesOf key) := by
  induction hsize : raw.size using Nat.strongRecOn generalizing raw map with
  | ind n ih =>
    rw [parsePairs_unrolled]
    by_cases hnil : raw.bytes = []
    · refine ⟨map, if_pos (StringView.empty_iff.mpr hnil), fun key => ?_⟩
      rw [hnil]
      rfl
    · rw [if_neg (fun hempty => hnil (StringView.empty_iff.mp hempty))]
      cases hcut : raw.find [sep] with
      | none =>
        obtain ⟨after, hstored, hafter⟩ := storePair_eq hclean raw map
        have hpieces : raw.bytes.splitOn sep = [raw.bytes] :=
          List.splitOn_eq_singleton (findSub_singleton_eq_none_iff.mp hcut)
        rw [Option.elim_none, bind_ok, hstored, bind_ok, Option.elim_none]
        refine ⟨after, rfl, fun key => ?_⟩
        rw [hafter, pairsOf, hpieces]
        rfl
      | some i =>
        obtain ⟨before, rest, hbytes, hnot, _, hpiece, _, hremove⟩ := StringView.find_char_cut hcut
        obtain ⟨stored, hstored, hstoredKey⟩ :=
          storePair_eq hclean { off := raw.off, bytes := before } map
        have hless : rest.length < n := by
          rw [← hsize, StringView.size, hbytes, List.length_append, List.length_cons]
          omega
        obtain ⟨after, hafter, hafterKey⟩ :=
          ih rest.length hless { off := raw.off + (i + 1), bytes := rest } stored rfl
        have hpairs : pairsOf sep cleaned raw.bytes =
            (cutPair cleaned before).toList ++ pairsOf sep cleaned rest := by
          rw [pairsOf, hbytes, List.splitOn_append_cons_self_of_not_mem hnot, List.filterMap_cons]
          cases cutPair cleaned before <;> rfl
        rw [Option.elim_some, hpiece, bind_ok, hstored, bind_ok, Option.elim_some, hremove, bind_ok]
        refine ⟨after, hafter, fun key => ?_⟩
        rw [hafterKey, hstoredKey, hpairs, Pattern.valueOf_append, Option.or_assoc]

/-- The loop over the query is the split at `&`: of several values of a key the last
wins, and what was there before stays where the query is silent. -/
theorem parseQueryString_eq (qs : StringView) (query : StringMap) :
    ∃ after, parseQueryString qs query = .ok after ∧
      ∀ key, after.bytesOf key = (Pattern.valueOf (pairsOf 38 id qs.bytes) key).or (query.bytesOf key) :=
  parsePairs_eq (fun _ => rfl) 38 qs query

/-- The loop over cookies is the split at `;`, with the blanks around names and values
trimmed; the last value of a name wins. -/
theorem parseCookies_eq (raw : StringView) (cookies : StringMap) :
    ∃ after, parseCookies raw cookies = .ok after ∧
      ∀ key, after.bytesOf key =
        (Pattern.valueOf (pairsOf 59 trimmed raw.bytes) key).or (cookies.bytesOf key) :=
  parsePairs_eq trim_bytes 59 raw cookies

/-- The pairs behind the first question mark of a target. -/
def queryPairs (target : Bytes) : List (Bytes × Bytes) :=
  pairsOf 38 id ((target.dropWhile (· ≠ 63)).drop 1)

/-- Query strings and cookies are read as the lists of pairs that they are: both loops
of the source, with their positions and their cuts, compute for every string what the
split at the separator gives, where the last pair of a name wins. -/
theorem pairs_of_lists :
    (∀ qs : StringView, ∃ query, parseQueryString qs {} = .ok query ∧
      ∀ key, query.bytesOf key = Pattern.valueOf (pairsOf 38 id qs.bytes) key) ∧
    ∀ raw : StringView, ∃ cookies, parseCookies raw {} = .ok cookies ∧
      ∀ key, cookies.bytesOf key = Pattern.valueOf (pairsOf 59 trimmed raw.bytes) key := by
  constructor
  · intro qs
    obtain ⟨query, hquery, hkeys⟩ := parseQueryString_eq qs {}
    exact ⟨query, hquery, fun key => (hkeys key).trans (Option.or_none ..)⟩
  · intro raw
    obtain ⟨cookies, hcookies, hkeys⟩ := parseCookies_eq raw {}
    exact ⟨cookies, hcookies, fun key => (hkeys key).trans (Option.or_none ..)⟩

end HttpParser

end octane
