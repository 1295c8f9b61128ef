import Octane.Lib.HashTable
import Octane.HttpTypes.Hash
import Octane.HttpParser.Fields

open search

namespace octane

/-- The hash of a `HeaderMap`. -/
def HeaderMap.hash (key : StringView) : UInt64 := CaseInsensitiveStringViewHash key.bytes

/-- Names that are equal but for letter case fall into one bucket. -/
theorem HeaderMap.hash_respects : Respects HeaderMap.hash HeaderMap.keyEq where
  lawful := HeaderMap.keyEq_lawful
  congr := CaseInsensitiveStringViewHash_congr

/-- A `HeaderMap` as the hash table that it is, for one choice of the layout. -/
abbrev HeaderTable (layout : Layout UInt64) := HashTable HeaderMap.hash layout StringView

variable {layout : Layout UInt64}

def HeaderTable.try_emplace (table : HeaderTable layout) (key value : StringView) :
    HeaderTable layout × Bool :=
  HashTable.try_emplace HeaderMap.keyEq table key value

def HeaderTable.find (table : HeaderTable layout) (key : StringView) : Option (StringView × StringView) :=
  HashTable.find HeaderMap.keyEq table key

/-- The table after insertions into an empty one. -/
def HeaderTable.filled (layout : Layout UInt64) (inserted : List (StringView × StringView)) :
    HeaderTable layout :=
  inserted.foldl (fun table entry => (table.try_emplace entry.1 entry.2).1)
    (HashTable.empty HeaderMap.hash layout)

/-- Filling the table with `try_emplace` fills the map: the first value of each name stays. -/
theorem HeaderTable.filled_holds (layout : Layout UInt64) (inserted : List (StringView × StringView)) :
    (filled layout inserted).Holds HeaderMap.keyEq
      (inserted.foldl (fun m entry => (m.try_emplace HeaderMap.keyEq entry.1 entry.2).1) {}) :=
  HashTable.Holds.empty.foldl_try_emplace HeaderMap.hash_respects inserted

/-- A lookup finds what was inserted first under the name, in any letter case. -/
theorem HeaderTable.find_filled (layout : Layout UInt64) (inserted : List (StringView × StringView))
    (name : StringView) : (filled layout inserted).find name =
      inserted.find? fun entry => CaseInsensitiveEqual entry.1.bytes name.bytes := by
  rw [HeaderTable.find, (filled_holds layout inserted).find_eq HeaderMap.hash_respects,
    UnorderedMap.find_foldl_try_emplace HeaderMap.keyEq_lawful]
  rfl

/-- An insertion takes place when the name has not been inserted in any letter case. -/
theorem HeaderTable.try_emplace_filled (layout : Layout UInt64) (inserted : List (StringView × StringView))
    (key value : StringView) : ((filled layout inserted).try_emplace key value).2 = true ↔
      ∀ entry ∈ inserted, CaseInsensitiveEqual entry.1.bytes key.bytes = false := by
  have hfind := find_filled layout inserted key
  rw [HeaderTable.try_emplace, HashTable.try_emplace_inserted, ← HeaderTable.find, hfind]
  simp

namespace HttpParser

/-- What `parseHeaderLine` reads from a line before it comes to the map. -/
def cutHeaderLine (line : StringView) : Result (StringView × StringView) :=
  match line.find (ascii ":") with
  | none => .error (.HttpParseError 400)
  | some colon => do
    let key ← line.substr 0 (some colon)
    if token key.bytes then do
      let rest ← line.substr (colon + 1) none
      let value := trim rest
      if value.bytes.all valueChar then .ok (key, value)
      else .error (.HttpParseError 400)
    else .error (.HttpParseError 400)

/-- `parseHeaderLine` over the hash table. -/
def storeHeaderLine (line : StringView) (table : HeaderTable layout) : Result (HeaderTable layout) := do
  let field ← cutHeaderLine line
  let emplaced := table.try_emplace field.1 field.2
  if !emplaced.2 && (iequals field.1.bytes (ascii "content-length") ||
      iequals field.1.bytes (ascii "host") || iequals field.1.bytes (ascii "transfer-encoding")) then
    .error (.HttpParseError 400)
  else .ok emplaced.1

/-- `parseHeaderLines` over the hash table. -/
def storeHeaderLines (head : StringView) (table : HeaderTable layout) : Result (HeaderTable layout) :=
  if head.bytes = CRLF then .ok table
  else
    match head.find CRLF with
    | none => .error (.HttpParseError 400)
    | some eol =>
      match (head.substr 0 (some eol) >>= fun line => storeHeaderLine line table) with
      | .error e => .error e
      | .ok table =>
        match _h : head.remove_prefix (eol + 2) with
        | .error e => .error e
        | .ok rest => storeHeaderLines rest table
termination_by head.size
decreasing_by
  obtain ⟨hle, rfl⟩ := StringView.remove_prefix_eq_ok_iff.mp _h
  simp only [StringView.size, List.length_drop] at hle ⊢
  omega

/-- The loop over the hash table, unrolled once. -/
theorem storeHeaderLines_unrolled (head : StringView) (table : HeaderTable layout) :
    storeHeaderLines head table =
      if head.bytes = CRLF then .ok table
      else (head.find CRLF).elim (.error (.HttpParseError 400)) fun eol =>
        (head.substr 0 (some eol) >>= fun line => storeHeaderLine line table) >>= fun table =>
          head.remove_prefix (eol + 2) >>= fun rest => storeHeaderLines rest table := by
  rw [storeHeaderLines]
  split_ifs with hend
  · rfl
  · cases head.find CRLF with
    | none => rfl
    | some eol =>
      dsimp only [Option.elim_some]
      cases head.substr 0 (some eol) >>= fun line => storeHeaderLine line table with
      | error e => rfl
      | ok table =>
        rw [bind_ok]
        dsimp only
        split
        · next e hremove =>
          rw [hremove]
          rfl
        · next rest hremove =>
          rw [hremove]
          rfl

/-- `parseHeaderLine` as a cut of the line followed by one insertion, so that the
table and the map can be compared insertion by insertion. -/
theorem parseHeaderLine_eq (line : StringView) (req : HttpRequest) :
    parseHeaderLine line req = cutHeaderLine line >>= fun field =>
      if !(req.headers.try_emplace HeaderMap.keyEq field.1 field.2).2 &&
          (iequals field.1.bytes (ascii "content-length") || iequals field.1.bytes (ascii "host") ||
            iequals field.1.bytes (ascii "transfer-encoding")) then
        .error (.HttpParseError 400)
      else .ok { req with headers := (req.headers.try_emplace HeaderMap.keyEq field.1 field.2).1 } := by
  rw [parseHeaderLine, cutHeaderLine]
  cases line.find (ascii ":") with
  | none => rfl
  | some colon =>
    dsimp only
    cases line.substr 0 (some colon) with
    | error e => rfl
    | ok key =>
      rw [bind_ok, bind_ok]
      by_cases htoken : token key.bytes = true
      · rw [if_pos htoken, if_pos htoken]
        cases line.substr (colon + 1) none with
        | error e => rfl
        | ok rest =>
          rw [bind_ok, bind_ok]
          by_cases hvalid : (trim rest).bytes.all valueChar = true
          · rw [if_pos hvalid, if_pos hvalid]
            rfl
          · rw [if_neg hvalid, if_neg hvalid]
            rfl
      · rw [if_neg htoken, if_neg htoken]
        rfl

/-- The parser over the table does what the parser over the map does. -/
inductive Agrees (stored : Result (HeaderTable layout)) (parsed : Result HttpRequest) : Prop where
  | error (e : Exn) (hstored : stored = .error e) (hparsed : parsed = .error e)
  | ok (table : HeaderTable layout) (req : HttpRequest) (hstored : stored = .ok table)
      (hparsed : parsed = .ok req) (hholds : table.Holds HeaderMap.keyEq req.headers)

/-- Two parsers that agree so far agree after a step in which they do. -/
theorem Agrees.bind {stored : Result (HeaderTable layout)} {parsed : Result HttpRequest}
    (h : Agrees stored parsed) {next : HeaderTable layout → Result (HeaderTable layout)}
    {other : HttpRequest → Result HttpRequest}
    (hnext : ∀ table req, table.Holds HeaderMap.keyEq req.headers → Agrees (next table) (other req)) :
    Agrees (stored >>= next) (parsed >>= other) := by
  cases h with
  | error e hstored hparsed =>
    rw [hstored, hparsed]
    exact .error e rfl rfl
  | ok table req hstored hparsed hholds =>
    rw [hstored, hparsed]
    exact hnext table req hholds

/-- One line is stored in the table as it is in the map: a repeated framing name is
refused by both or by neither. -/
theorem storeHeaderLine_agrees (line : StringView) {table : HeaderTable layout} {req : HttpRequest}
    (h : table.Holds HeaderMap.keyEq req.headers) :
    Agrees (storeHeaderLine line table) (parseHeaderLine line req) := by
  rw [parseHeaderLine_eq, storeHeaderLine]
  cases cutHeaderLine line with
  | error e => exact .error e rfl rfl
  | ok field =>
    obtain ⟨hflag, hholds⟩ := h.try_emplace HeaderMap.hash_respects field.1 field.2
    simp only [bind_ok, HeaderTable.try_emplace, hflag]
    split_ifs
    · exact .error _ rfl rfl
    · exact .ok _ _ rfl rfl hholds

/-- The loop over the lines stores in the table what it stores in the map. By its own
recursion: a round cuts one line off the view. -/
theorem storeHeaderLines_agrees (head : StringView) {table : HeaderTable layout} {req : HttpRequest}
    (h : table.Holds HeaderMap.keyEq req.headers) :
    Agrees (storeHeaderLines head table) (parseHeaderLines head req) := by
  induction hsize : head.size using Nat.strongRecOn generalizing head table req with
  | ind n ih =>
    rw [storeHeaderLines_unrolled, parseHeaderLines_unrolled]
    by_cases hend : head.bytes = CRLF
    · rw [if_pos hend, if_pos hend]
      exact .ok table req rfl rfl h
    · rw [if_neg hend, if_neg hend]
      cases hfind : head.find CRLF with
      | none => exact .error _ rfl rfl
      | some eol =>
        refine Agrees.bind ?_ fun stored parsed hholds => ?_
        · cases head.substr 0 (some eol) with
          | error e => exact .error e rfl rfl
          | ok line => exact storeHeaderLine_agrees line h
        · cases hremove : head.remove_prefix (eol + 2) with
          | error e => exact .error e rfl rfl
          | ok rest =>
            obtain ⟨hle, hrest⟩ := StringView.remove_prefix_eq_ok_iff.mp hremove
            have hshorter : rest.size < n := by
              rw [← hsize, hrest]
              simp only [StringView.size, List.length_drop] at hle ⊢
              omega
            exact ih rest.size hshorter rest hholds rfl

/-- A framing name that has been stored in any letter case refuses its line. -/
theorem storeHeaderLine_refuses {inserted : List (StringView × StringView)} {line key value : StringView}
    (hline : cutHeaderLine line = .ok (key, value))
    (hframing : framingNames.any (CaseInsensitiveEqual key.bytes) = true)
    {entry : StringView × StringView} (hentry : entry ∈ inserted)
    (hequal : CaseInsensitiveEqual entry.1.bytes key.bytes = true) :
    storeHeaderLine line (HeaderTable.filled layout inserted) = .error (.HttpParseError 400) := by
  have hold : ((HeaderTable.filled layout inserted).try_emplace key value).2 = false := by
    rw [← Bool.not_eq_true, HeaderTable.try_emplace_filled]
    intro hnone
    rw [hnone entry hentry] at hequal
    cases hequal
  rw [storeHeaderLine, hline, bind_ok]
  dsimp only
  rw [framingNames_any, hframing, hold]
  rfl

/-- What the table holds after an accepted block of field lines: for each name the
first value, and nothing else. -/
theorem storeHeaderLines_ok {head : StringView} {table : HeaderTable layout}
    (h : storeHeaderLines head (HeaderTable.filled layout []) = .ok table) :
    ∃ fields, head.bytes = fields.flatMap (fun field => fieldLine field ++ CRLF) ++ CRLF ∧
      (∀ field ∈ fields, ValidField field) ∧
      (∀ name ∈ framingNames, (fields.filter fun field => CaseInsensitiveEqual field.1 name).length ≤ 1) ∧
      ∀ name, (table.find name).map (fun entry => entry.2.bytes) =
        (firstField fields name.bytes).map fun field => trimmed field.2 := by
  have hinitial : (HeaderTable.filled layout []).Holds HeaderMap.keyEq ({} : HttpRequest).headers :=
    HeaderTable.filled_holds layout []
  have hagrees := storeHeaderLines_agrees head hinitial
  rw [h] at hagrees
  cases hagrees with
  | error e hstored hparsed => cases hstored
  | ok stored req hstored hparsed hholds =>
    cases hstored
    obtain ⟨fields, hbytes, hvalid, hcollected, _⟩ := parseHeaderLines_ok hparsed Collected.empty
    refine ⟨fields, hbytes, hvalid, hcollected.unique, fun name => ?_⟩
    have hsame : HeaderMap.keyEq name (.ofBytes name.bytes) = true := CaseInsensitiveEqual_refl name.bytes
    have hlookup := hcollected.lookup name.bytes
    rw [UnorderedMap.get, ← HeaderMap.keyEq_lawful.find_congr hsame, Option.map_map,
      ← hholds.find_eq HeaderMap.hash_respects] at hlookup
    exact hlookup

end HttpParser

/-- The letter case of a name makes no difference to a `HeaderMap` of this layout. -/
structure HeaderTable.IgnoresCase (layout : Layout UInt64) : Prop where
  lookup : ∀ inserted key name, CaseInsensitiveEqual key.bytes name.bytes = true →
    (filled layout inserted).find key = (filled layout inserted).find name
  found : ∀ before key value after name, CaseInsensitiveEqual key.bytes name.bytes = true →
    ((filled layout before).try_emplace key value).2 = true →
      (filled layout (before ++ (key, value) :: after)).find name = some (key, value)
  duplicate : ∀ before key value after name other, CaseInsensitiveEqual key.bytes name.bytes = true →
    ((filled layout (before ++ (key, value) :: after)).try_emplace name other).2 = false
  refused : ∀ inserted line key value, HttpParser.cutHeaderLine line = .ok (key, value) →
    HttpParser.framingNames.any (CaseInsensitiveEqual key.bytes) = true →
      (∃ entry ∈ inserted, CaseInsensitiveEqual entry.1.bytes key.bytes = true) →
        HttpParser.storeHeaderLine line (filled layout inserted) = .error (.HttpParseError 400)
  framing : ∀ head table, HttpParser.storeHeaderLines head (filled layout []) = .ok table →
    ∃ fields, head.bytes = fields.flatMap (fun field => HttpParser.fieldLine field ++ CRLF) ++ CRLF ∧
      (∀ field ∈ fields, HttpParser.ValidField field) ∧
      (∀ name ∈ HttpParser.framingNames,
        (fields.filter fun field => CaseInsensitiveEqual field.1 name).length ≤ 1) ∧
      ∀ name, (table.find name).map (fun entry => entry.2.bytes) =
        (HttpParser.firstField fields name.bytes).map fun field => HttpParser.trimmed field.2

/-- A name is found in whatever letter case it is asked for, in every layout of the buckets. -/
theorem HeaderTable.ignoresCase (layout : Layout UInt64) : HeaderTable.IgnoresCase layout where
  lookup inserted key name hequal := by
    have hsame (entry : StringView × StringView) : CaseInsensitiveEqual entry.1.bytes key.bytes =
        CaseInsensitiveEqual entry.1.bytes name.bytes := HeaderMap.keyEq_lawful.congr_right hequal entry.1
    rw [find_filled, find_filled]
    simp only [hsame]
  found before key value after name hequal hnew := by
    have hnone : before.find? (fun entry => CaseInsensitiveEqual entry.1.bytes name.bytes) = none := by
      rw [List.find?_eq_none]
      intro entry hentry hold
      have hkey := CaseInsensitiveEqual_trans hold (CaseInsensitiveEqual_symm hequal)
      rw [(try_emplace_filled layout before key value).mp hnew entry hentry] at hkey
      cases hkey
    rw [find_filled, List.find?_append, hnone, Option.none_or]
    exact List.find?_cons_of_pos hequal
  duplicate before key value after name other hequal := by
    rw [← Bool.not_eq_true, try_emplace_filled]
    intro hnone
    rw [hnone (key, value) (by simp)] at hequal
    cases hequal
  refused inserted line key value hline hframing hold := by
    obtain ⟨entry, hentry, hequal⟩ := hold
    exact HttpParser.storeHeaderLine_refuses hline hframing hentry hequal
  framing head table h := HttpParser.storeHeaderLines_ok h

/-- The hash and the equality of a `HeaderMap` fit together, so that names are found and
duplicates are seen in every letter case and in every layout of the table. -/
theorem CaseInsensitiveStringViewHash_respects_equality :
    (Equivalence fun a b : Bytes => CaseInsensitiveEqual a b = true) ∧
    (∀ a b : Bytes, CaseInsensitiveEqual a b = true ↔ lowercased a = lowercased b) ∧
    (∀ a b : Bytes, CaseInsensitiveEqual a b = true →
      CaseInsensitiveStringViewHash a = CaseInsensitiveStringViewHash b) ∧
    ∀ layout : Layout UInt64, HeaderTable.IgnoresCase layout :=
  ⟨CaseInsensitiveEqual_equivalence, fun _ _ => CaseInsensitiveEqual_iff_lowercased,
    fun _ _ => CaseInsensitiveStringViewHash_congr, HeaderTable.ignoresCase⟩

/-- A layout that takes the code modulo the number of buckets and doubles them when they are full. -/
def moduloLayout : Layout UInt64 where
  bucket count code := code.toNat % count
  resize count size := if size < count then count else 2 * size + 1
  comparesCodes := false
  bucket_lt code hcount := Nat.mod_lt _ hcount
  resize_pos count size := by
    split_ifs <;> omega

theorem CaseInsensitiveStringViewHash_respects_equality_host :
    CaseInsensitiveStringViewHash (ascii "Host") = CaseInsensitiveStringViewHash (ascii "hOST") ∧
      (HeaderTable.filled moduloLayout [(.ofBytes (ascii "Host"), .ofBytes (ascii "x"))]).find
        (.ofBytes (ascii "hOST")) = some (.ofBytes (ascii "Host"), .ofBytes (ascii "x")) :=
  ⟨CaseInsensitiveStringViewHash_respects_equality.2.2.1 _ _ (by decide),
    (CaseInsensitiveStringViewHash_respects_equality.2.2.2 moduloLayout).found [] _ _ [] _ (by decide)
      (by decide +kernel)⟩

end octane
