import Octane.HttpParser.Encoding
import Octane.Lib.Percent

open search

namespace octane.HttpParser

/-- Bytes that may stand in a target, with every escape complete. -/
structure Spelled (text : Bytes) : Prop where
  bytes : ∀ c ∈ text, targetByte c
  escapes : EscapesComplete text

/-- No escape reaches over a byte that is no digit of one. -/
theorem Spelled.join {first second : Bytes} (hfirst : Spelled first) (hsecond : Spelled second) {c : UInt8}
    (hc : targetByte c) (hsign : c ≠ 37) : Spelled (first ++ c :: second) := by
  refine ⟨fun d hd => ?_, fun before after hsplit => ?_⟩
  · simp only [List.mem_append, List.mem_cons] at hd
    obtain hd | rfl | hd := hd
    · exact hfirst.bytes d hd
    · exact hc
    · exact hsecond.bytes d hd
  · obtain ⟨skipped, _, hrest⟩ | ⟨skipped, hskipped, hrest⟩ := List.append_eq_append_iff.mp hsplit
    · cases skipped with
      | nil => exact absurd (List.cons.inj hrest).1 hsign
      | cons d skipped => exact hsecond.escapes skipped after (List.cons.inj hrest).2
    · cases skipped with
      | nil => exact absurd (List.cons.inj hrest).1.symm hsign
      | cons d skipped =>
        obtain ⟨rfl, rfl⟩ := List.cons.inj hrest
        obtain ⟨one, two, rest, rfl, hone, htwo⟩ := hfirst.escapes before skipped hskipped
        exact ⟨one, two, _, rfl, hone, htwo⟩

/-- The bytes that the sender of a query leaves as they are; none of them has a
meaning in a query. -/
structure Unescaped where
  keep : UInt8 → Bool
  target : ∀ c, keep c = true → targetByte c
  no_percent : keep 37 = false
  no_ampersand : keep 38 = false
  no_equals : keep 61 = false

namespace Unescaped

/-- Letters, digits and `-._~`. -/
def unreserved : Unescaped where
  keep c := (97 ≤ c && c ≤ 122) || (65 ≤ c && c ≤ 90) || (48 ≤ c && c ≤ 57) || (ascii "-._~").contains c
  target := by
    unfold targetByte
    decide +kernel
  no_percent := by decide
  no_ampersand := by decide
  no_equals := by decide

variable (unescaped : Unescaped)

def encode (text : Bytes) : Bytes := percent.encode unescaped.keep text

/-- The pairs as they are on the wire. -/
def encoded (pairs : List (Bytes × Bytes)) : List (Bytes × Bytes) :=
  pairs.map fun pair => (unescaped.encode pair.1, unescaped.encode pair.2)

/-- The pairs as a sender joins them. -/
def query (pairs : List (Bytes × Bytes)) : Bytes :=
  [38].intercalate (pairs.map fun pair => unescaped.encode pair.1 ++ 61 :: unescaped.encode pair.2)

variable {unescaped}

theorem targetByte_hexDigit : ∀ n < 16, targetByte (percent.hexDigit n) := by
  unfold targetByte
  decide

/-- An encoded text can stand in a target: the sender escapes what the request line
does not allow. -/
theorem targetByte_of_mem_encode {text : Bytes} {c : UInt8} (h : c ∈ unescaped.encode text) : targetByte c := by
  obtain hkept | rfl | ⟨n, hn, rfl⟩ := percent.mem_encode h
  · exact unescaped.target c hkept
  · unfold targetByte
    decide
  · exact targetByte_hexDigit n hn

/-- A byte that is not kept and starts or ends no escape is not in an encoded text. -/
theorem not_mem_encode {c : UInt8} (hkeep : unescaped.keep c = false) (hsign : c ≠ 37)
    (hdigit : ∀ n < 16, c ≠ percent.hexDigit n) (text : Bytes) : c ∉ unescaped.encode text := by
  intro h
  obtain hkept | hpercent | ⟨n, hn, heq⟩ := percent.mem_encode h
  · rw [hkeep] at hkept
    cases hkept
  · exact hsign hpercent
  · exact hdigit n hn heq

/-- An encoded text holds no `&`, so that pairs stay apart. -/
theorem ampersand_not_mem (text : Bytes) : 38 ∉ unescaped.encode text :=
  not_mem_encode unescaped.no_ampersand (by decide) (by decide) text

/-- An encoded text holds no `=`, so that a name ends where it should. -/
theorem equals_not_mem (text : Bytes) : 61 ∉ unescaped.encode text :=
  not_mem_encode unescaped.no_equals (by decide) (by decide) text

/-- A joined query is split into the pairs it was made of, as they were encoded. -/
theorem pairsOf_query (pairs : List (Bytes × Bytes)) :
    pairsOf 38 id (unescaped.query pairs) = unescaped.encoded pairs := by
  have hcut : ∀ pair : Bytes × Bytes,
      cutPair id (unescaped.encode pair.1 ++ 61 :: unescaped.encode pair.2) =
        some (unescaped.encode pair.1, unescaped.encode pair.2) := fun pair =>
    cutPair_append (equals_not_mem pair.1) _
  cases pairs with
  | nil => rfl
  | cons pair pairs =>
    have hpieces : ∀ piece ∈ (pair :: pairs).map fun pair =>
        unescaped.encode pair.1 ++ 61 :: unescaped.encode pair.2, (38 : UInt8) ∉ piece := by
      intro piece hpiece
      obtain ⟨⟨key, value⟩, _, rfl⟩ := List.mem_map.mp hpiece
      have hkey : 38 ∉ unescaped.encode key := ampersand_not_mem key
      have hvalue : 38 ∉ unescaped.encode value := ampersand_not_mem value
      simp [hkey, hvalue]
    rw [pairsOf, query, List.splitOn_intercalate 38 hpieces (by simp), List.filterMap_map]
    simp only [Function.comp_def, hcut]
    exact congrFun List.filterMap_eq_map _

/-- The escapes in an encoded text are complete, as `checkTarget` demands. -/
theorem spelled_encode (text : Bytes) : Spelled (unescaped.encode text) := by
  refine ⟨fun c hc => targetByte_of_mem_encode hc, fun before after hsplit => ?_⟩
  obtain ⟨n, m, rest, hn, hm, rfl⟩ := percent.escape_of_mem unescaped.no_percent hsplit
  have hdigit : ∀ n < 16, isHexDigit (percent.hexDigit n) := fun n hn => by
    obtain hdecimal | hletter := percent.hexDigit_range n hn
    · exact .inl hdecimal
    · exact .inr (.inr hletter)
  exact ⟨_, _, rest, rfl, hdigit n hn, hdigit m hm⟩

/-- The escapes in a whole query are complete: its separators are no escapes, and end
none early. -/
theorem spelled_query (pairs : List (Bytes × Bytes)) : Spelled (unescaped.query pairs) := by
  have hpair : ∀ pair : Bytes × Bytes,
      Spelled (unescaped.encode pair.1 ++ 61 :: unescaped.encode pair.2) := fun pair =>
    (spelled_encode pair.1).join (spelled_encode pair.2) (by unfold targetByte; decide) (by decide)
  induction pairs with
  | nil => exact ⟨fun c hc => (by cases hc), fun before after hsplit => absurd hsplit.symm (List.append_ne_nil_of_right_ne_nil _ (by simp))⟩
  | cons pair pairs ih =>
    cases pairs with
    | nil => simpa [query, List.intercalate] using hpair pair
    | cons next pairs =>
      have hjoin := (hpair pair).join (c := 38) ih (by unfold targetByte; decide) (by decide)
      simpa [query, List.intercalate] using hjoin

/-- A text that is sent as it is. -/
def Plain (unescaped : Unescaped) (text : Bytes) : Prop := ∀ c ∈ text, unescaped.keep c = true

theorem encode_injective : Function.Injective unescaped.encode :=
  percent.encode_injective unescaped.no_percent

/-- Only a text without reserved bytes is sent as it is. -/
theorem encode_eq_self_iff {text : Bytes} : unescaped.encode text = text ↔ unescaped.Plain text :=
  percent.encode_eq_self_iff

/-- An encoded key leads to the encoded value. -/
theorem valueOf_encoded (pairs : List (Bytes × Bytes)) (key : Bytes) :
    Pattern.valueOf (unescaped.encoded pairs) (unescaped.encode key) =
      (Pattern.valueOf pairs key).map unescaped.encode := by
  have hsteps : unescaped.encoded pairs =
      (pairs.map fun pair => (unescaped.encode pair.1, pair.2)).map fun pair =>
        (pair.1, unescaped.encode pair.2) := by
    rw [encoded, List.map_map]
    rfl
  rw [hsteps, Pattern.valueOf_map, Pattern.valueOf_map_name encode_injective]

/-- What is found on the wire is the encoding of a key and of its value. -/
theorem exists_of_valueOf_encoded {pairs : List (Bytes × Bytes)} {key value : Bytes}
    (h : Pattern.valueOf (unescaped.encoded pairs) key = some value) :
    ∃ name text, unescaped.encode name = key ∧ Pattern.valueOf pairs name = some text ∧
      unescaped.encode text = value := by
  obtain ⟨pair, _, hpair⟩ := List.mem_map.mp (Pattern.mem_of_valueOf h)
  obtain ⟨rfl, _⟩ := Prod.mk.inj hpair
  rw [valueOf_encoded] at h
  obtain ⟨text, htext, hvalue⟩ := Option.map_eq_some_iff.mp h
  exact ⟨pair.1, text, rfl, htext, hvalue⟩

/-- Where every key finds its value on the wire, nothing was escaped: a shortest
key that is escaped would need a shorter one. -/
theorem plain_of_found {pairs : List (Bytes × Bytes)}
    (h : ∀ key value, Pattern.valueOf pairs key = some value →
      Pattern.valueOf (unescaped.encoded pairs) key = some value) (key value : Bytes)
    (hvalue : Pattern.valueOf pairs key = some value) : unescaped.Plain key ∧ unescaped.Plain value := by
  induction hlength : key.length using Nat.strongRecOn generalizing key value with
  | ind n ih =>
    obtain ⟨name, text, hkey, htext, hencoded⟩ := exists_of_valueOf_encoded (h key value hvalue)
    have hname : unescaped.Plain name := by
      by_contra hescaped
      have hshorter : name.length < n := by
        rw [← hlength, ← hkey]
        exact percent.length_lt_encode hescaped
      exact hescaped (ih _ hshorter name text htext rfl).1
    obtain rfl : name = key := (encode_eq_self_iff.mpr hname).symm.trans hkey
    obtain rfl : text = value := Option.some.inj (htext.symm.trans hvalue)
    exact ⟨hname, encode_eq_self_iff.mp hencoded⟩

/-- The pairs are found on the wire as they are exactly where nothing is escaped. -/
theorem found_iff (pairs : List (Bytes × Bytes)) :
    (∀ key, Pattern.valueOf (unescaped.encoded pairs) key = Pattern.valueOf pairs key) ↔
      ∀ key value, Pattern.valueOf pairs key = some value → unescaped.Plain key ∧ unescaped.Plain value := by
  refine ⟨fun h => plain_of_found fun key value hvalue => (h key).trans hvalue, fun h key => ?_⟩
  cases hvalue : Pattern.valueOf pairs key with
  | some value =>
    obtain ⟨hkey, htext⟩ := h key value hvalue
    have hencoded := @valueOf_encoded unescaped pairs key
    rw [encode_eq_self_iff.mpr hkey, hvalue, Option.map_some, encode_eq_self_iff.mpr htext] at hencoded
    exact hencoded
  | none =>
    by_contra hfound
    obtain ⟨value, hfound⟩ := Option.ne_none_iff_exists'.mp hfound
    obtain ⟨name, text, hname, htext, _⟩ := exists_of_valueOf_encoded hfound
    rw [encode_eq_self_iff.mpr (h name text htext).1] at hname
    rw [← hname, htext] at hvalue
    cases hvalue

end Unescaped

/-- The request with a query behind its target. -/
def SentHead.withQuery (sent : SentHead) (query : Bytes) : SentHead :=
  { sent with target := sent.target ++ 63 :: query }

/-- A query that is spelled correctly can be put behind the path of any head that
the server takes. -/
theorem SentHead.Valid.withQuery {sent : SentHead} {limits : HttpLimits} (h : sent.Valid limits) {query : Bytes}
    (hquery : Spelled query) : (sent.withQuery query).Valid limits := by
  have hspelled := Spelled.join ⟨h.bytes, h.escapes⟩ hquery (c := 63)
    (by unfold targetByte; decide) (by decide)
  obtain ⟨rest, horigin⟩ := h.origin
  have htarget : (sent.withQuery query).target = 47 :: (rest ++ 63 :: query) := by
    rw [SentHead.withQuery, horigin, List.cons_append]
  exact { h with bytes := hspelled.bytes, escapes := hspelled.escapes, origin := ⟨_, htarget⟩ }

/-- The request is taken, and its reader finds the pairs as the sender has them. -/
def QueryDecodes (unescaped : Unescaped) (pairs : List (Bytes × Bytes)) (sent : SentHead)
    (limits : HttpLimits) : Prop :=
  ∃ req, parse_headers (sent.withQuery (unescaped.query pairs)).encode limits = .ok req ∧
    (∀ key value, Pattern.valueOf pairs key = some value → ∀ fb, (req.q key fb).bytes = value) ∧
    ∀ key, Pattern.valueOf pairs key = none → ∀ fb, req.q key fb = fb

/-- What a handler reads with `q` is a given value, whatever the fallback. -/
theorem q_bytes_iff {req : HttpRequest} {key value : Bytes} :
    (∀ fb, (req.q key fb).bytes = value) ↔ req.query.bytesOf key = some value := by
  rw [StringMap.bytesOf]
  cases hget : req.query.get StringMap.keyEq (.ofBytes key) with
  | none =>
    simp only [HttpRequest.q, hget, Option.getD_none, Option.map_none, reduceCtorEq, iff_false, not_forall]
    refine ⟨.ofBytes (0 :: value), fun h => ?_⟩
    exact absurd (congrArg List.length h) (by simp [StringView.ofBytes])
  | some found =>
    simp only [HttpRequest.q, hget, Option.getD_some, Option.map_some, Option.some.injEq]
    exact ⟨fun h => h {}, fun h _ => h⟩

/-- A handler is given the fallback exactly for a key that is missing. -/
theorem q_fallback_iff {req : HttpRequest} {key : Bytes} :
    (∀ fb, req.q key fb = fb) ↔ req.query.bytesOf key = none := by
  rw [StringMap.bytesOf]
  cases hget : req.query.get StringMap.keyEq (.ofBytes key) with
  | none => simp [HttpRequest.q, hget]
  | some found =>
    simp only [HttpRequest.q, hget, Option.getD_some, Option.map_some, reduceCtorEq, iff_false, not_forall]
    refine ⟨.ofBytes (0 :: found.bytes), fun h => ?_⟩
    exact absurd (congrArg StringView.size h) (by simp [StringView.ofBytes, StringView.size])

/-- Query parameters come back exactly where escaping has nothing to do: the
parser checks escapes and never resolves them. -/
theorem queryDecodes_iff {sent : SentHead} {limits : HttpLimits} (h : sent.Valid limits)
    (hquestion : 63 ∉ sent.target) (unescaped : Unescaped) (pairs : List (Bytes × Bytes))
    (hsize : (sent.withQuery (unescaped.query pairs)).encode.length ≤ limits.max_header_bytes) :
    QueryDecodes unescaped pairs sent limits ↔
      ∀ key value, Pattern.valueOf pairs key = some value → unescaped.Plain key ∧ unescaped.Plain value := by
  obtain ⟨req, hparse, _, _, _, _, _, hkeys⟩ :=
    (h.withQuery (Unescaped.spelled_query pairs)).parse_headers_success hsize
  have htarget : ∀ c ∈ sent.target, decide (c ≠ 63) = true := fun c hc =>
    decide_eq_true fun heq => hquestion (heq ▸ hc)
  have hpairs : queryPairs (sent.withQuery (unescaped.query pairs)).target = unescaped.encoded pairs := by
    rw [queryPairs, SentHead.withQuery, List.dropWhile_append_of_pos htarget,
      List.dropWhile_cons_of_neg (by decide)]
    exact Unescaped.pairsOf_query pairs
  rw [hpairs] at hkeys
  rw [← Unescaped.found_iff, QueryDecodes]
  constructor
  · rintro ⟨found, hfound, hvalues, hothers⟩ key
    rw [hparse] at hfound
    cases hfound
    rw [← hkeys]
    cases hvalue : Pattern.valueOf pairs key with
    | some value => exact q_bytes_iff.mp (hvalues key value hvalue)
    | none => exact q_fallback_iff.mp (hothers key hvalue)
  · intro hsame
    refine ⟨req, hparse, fun key value hvalue => ?_, fun key hnone => ?_⟩
    · exact q_bytes_iff.mpr ((hkeys key).trans ((hsame key).trans hvalue))
    · exact q_fallback_iff.mpr ((hkeys key).trans ((hsame key).trans hnone))

/-- A request for the home page. -/
def sentHome : SentHead where
  method := ascii "GET"
  target := ascii "/"
  version := ascii "HTTP/1.1"
  fields := [{ name := ascii "Host", value := ascii "x", before := ascii " ", after := [] }]

theorem sentHome_valid : sentHome.Valid .defaults := by
  have hpercent : (37 : UInt8) ∉ sentHome.target := by decide
  have hhost : sentHome.value (ascii "host") = some (ascii "x") := by decide +kernel
  have hlength : sentHome.value (ascii "content-length") = none := by decide +kernel
  refine ⟨by decide +kernel, ?_, fun before after hsplit => ?_, ⟨_, rfl⟩, .inl rfl, ?_, by decide +kernel,
    fun _ => ⟨_, hhost, by decide⟩, fun host hvalue => ?_, by decide +kernel, by decide +kernel,
    fun length hvalue => ?_⟩
  · unfold targetByte
    decide +kernel
  · exact absurd (hsplit ▸ List.mem_append_right before (List.mem_cons_self ..)) hpercent
  · intro field hfield
    rw [List.mem_singleton.mp hfield]
    refine ⟨?_, ?_, ?_, ?_, ?_, ?_⟩ <;> decide +kernel
  · obtain rfl := Option.some.inj (hhost.symm.trans hvalue)
    decide +kernel
  · rw [hlength] at hvalue
    cases hvalue

theorem queryDecodes_iff_word :
    QueryDecodes .unreserved [(ascii "q", ascii "word")] sentHome .defaults := by
  refine (queryDecodes_iff sentHome_valid (by decide) .unreserved _ (by decide +kernel)).mpr ?_
  intro key value hvalue
  obtain ⟨rfl, rfl⟩ : key = ascii "q" ∧ value = ascii "word" := by
    simpa using Pattern.mem_of_valueOf hvalue
  unfold Unescaped.Plain
  decide +kernel

/-- The query of the parser's own test: the space stays escaped. -/
theorem escaped_space_kept :
    ¬ QueryDecodes .unreserved [(ascii "q", ascii "a b")] sentHome .defaults := by
  intro hdecodes
  obtain ⟨req, hparse, hvalues, _⟩ := hdecodes
  have hvalue := hvalues (ascii "q") (ascii "a b") (by decide +kernel) {}
  obtain ⟨found, hfound, hkept⟩ := exists_ok_of_check
    (x := parse_headers (sentHome.withQuery (Unescaped.unreserved.query [(ascii "q", ascii "a b")])).encode .defaults)
    (p := fun req => (req.q (ascii "q")).bytes = ascii "a%20b") (by decide +kernel)
  rw [hparse] at hfound
  cases hfound
  rw [hvalue] at hkept
  exact absurd hkept (by decide)

end octane.HttpParser
