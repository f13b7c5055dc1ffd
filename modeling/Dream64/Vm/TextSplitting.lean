import Dream64.Library.Occurrences
import Dream64.Vm.ListOperators
import Dream64.Vm.RegexMatches
import Mathlib.Data.List.ModifyLast

/-!
# Splitting and joining texts

`splittext` cuts a region of a text at a delimiter, or at the matches of a
regex, and puts the pieces into a new list; `jointext` puts the entries of a
list together. The lists are an arena, the rest of the state is the host's.
-/

namespace Dream64

open ByteText (slice sliceFrom sliceTo)
open String (utf8Len)

/-! ## Splitting at matches -/

structure RegexSplit where
  segmentStart : Nat
  searchStart : Nat
  output : List (List Char)

/-- Behind an empty match the search goes on after the next character. -/
def nextSearch (text : List Char) (regionEnd : Nat) (found : RegexMatch) : Fallible String Nat :=
  if found.start < found.finish then .value found.finish
  else (slice text found.finish regionEnd).map fun rest =>
    found.finish + (rest.head?.map Char.utf8Size).getD 1

/-- The match itself, or what its groups captured. -/
def matchPieces (text : List Char) (found : RegexMatch) (includeDelimiters : Bool) :
    Fallible String (List (List Char)) :=
  if includeDelimiters then (slice text found.start found.finish).map fun piece => [piece]
  else .value (found.captures.filterMap id)

/-- One turn of the loop over the matches. -/
def regexTurn (search : Nat → Fallible String (Option RegexMatch)) (text : List Char)
    (regionEnd : Nat) (includeDelimiters : Bool) (s : RegexSplit) :
    Fallible String (Advance.Turn RegexSplit RegexSplit) :=
  if s.searchStart ≤ regionEnd then
    (search s.searchStart).bind fun found =>
    match found with
    | none => .value (.last s)
    | some found =>
      (slice text s.segmentStart found.start).bind fun piece =>
      (matchPieces text found includeDelimiters).bind fun delimiters =>
      (nextSearch text regionEnd found).map fun next =>
        .next ⟨found.finish, next, s.output ++ piece :: delimiters⟩
  else .value (.last s)

def splitAtMatches (search : Nat → Fallible String (Option RegexMatch)) (fuel : Nat)
    (text : List Char) (region : Nat × Nat × Nat) (includeDelimiters : Bool) :
    Fallible (Halt String) (List (List Char)) :=
  (Advance.run (regexTurn search text region.2.1 includeDelimiters) fuel
      ⟨region.1, region.1, []⟩).bind fun s =>
    ((slice text s.segmentStart region.2.1).map fun piece => s.output ++ [piece]).raise

/-! ## Splitting at a text -/

structure LiteralSplit where
  cursor : Nat
  output : List (List Char)

def literalTurn (target delimiter : List Char) (includeDelimiters : Bool) (s : LiteralSplit) :
    Fallible String (Advance.Turn LiteralSplit LiteralSplit) :=
  (sliceFrom target s.cursor).bind fun tail =>
  match ByteText.find delimiter tail with
  | none => .value (.last s)
  | some offset =>
    let found := s.cursor + offset
    (slice target s.cursor found).map fun piece =>
      .next ⟨found + utf8Len delimiter,
        s.output ++ piece :: if includeDelimiters then [delimiter] else []⟩

def splitAtText (fuel : Nat) (target delimiter : List Char) (includeDelimiters : Bool) :
    Fallible (Halt String) (List (List Char)) :=
  if delimiter.isEmpty then .value (target.map fun c => [c])
  else (Advance.run (literalTurn target delimiter includeDelimiters) fuel ⟨0, []⟩).bind fun s =>
    ((sliceFrom target s.cursor).map fun piece => s.output ++ [piece]).raise

/-- The text outside of the region stays with the first and the last piece. -/
def attachRegion (text : List Char) (region : Nat × Nat × Nat) (output : List (List Char)) :
    Fallible String (List (List Char)) :=
  if output.isEmpty then .value [text]
  else
    (sliceTo text region.1).bind fun front =>
    (sliceFrom text region.2.1).map fun back =>
      (output.modifyHead (front ++ ·)).modifyLast (· ++ back)

/-! ## The builtins -/

section

variable {σ Target : Type} (host : TextHost σ Target) (state : σ)

/-- The pattern and the flags of a regex that is a delimiter. -/
def regexDelimiter (regex : DatumId) : Fallible String (List Char × List Char) :=
  (Fallible.ofExcept (host.datumField state regex "_dream64_pattern")).bind fun pattern =>
  (strictText host state pattern "splittext regex delimiter").map fun pattern =>
    (pattern, regexFlags host state regex)

def splitAtDatum (fuel : Nat) (text : List Char) (regex : DatumId) (region : Nat × Nat × Nat)
    (includeDelimiters : Bool) : Fallible (Halt String) (List (List Char)) :=
  (regexDelimiter host state regex).raise.bind fun delimiter =>
  (splitAtMatches (regexSearch host delimiter.1 delimiter.2 text · region.2.1) fuel text region
      includeDelimiters).bind fun output =>
    (attachRegion text region output).raise

/-- The pieces of a text; a datum that is no regex gives none. -/
def splitPieces (fuel : Nat) (text : List Char) (delimiter : Value) (region : Nat × Nat × Nat)
    (includeDelimiters : Bool) : Fallible (Halt String) (List (List Char)) :=
  (slice text region.1 region.2.1).raise.bind fun target =>
  match delimiter with
  | .datum regex =>
    if isRegexDatum host state regex then
      splitAtDatum host state fuel text regex region includeDelimiters
    else .value []
  | delimiter =>
    (strictText host state delimiter "splittext delimiter").raise.bind fun delimiter =>
    (splitAtText fuel target delimiter includeDelimiters).bind fun output =>
      (attachRegion text region output).raise

/-- A new list with some texts. -/
def storePieces (lists : Arena DmList) (pieces : List (List Char)) :
    Option (Value × Arena DmList) := do
  let (lists, handle) ← lists.insert .empty
  let list ← lists.get handle
  let list ← pieces.foldlM (fun list piece => (list.add (.ofChars piece)).map (·.1)) list
  some (.list (.ofHandle handle), lists.update handle fun _ => list)

def storedPieces (lists : Arena DmList) (pieces : List (List Char)) :
    Fallible String (Value × Arena DmList) :=
  match storePieces lists pieces with
  | some result => .value result
  | none => .panic

def splittext (fuel : Nat) (text delimiter : Value) (start finish includeDelimiters : Option Value)
    (characterIndices : Bool) (lists : Arena DmList) :
    Fallible (Halt String) (Value × Arena DmList) :=
  match text with
  | .null => (storedPieces lists []).raise
  | text =>
    (strictText host state text "splittext text").raise.bind fun text =>
    (signedPosition host start 1).raise.bind fun start =>
    (signedPosition host finish 0).raise.bind fun finish =>
    (splitPieces host state fuel text delimiter (textRegion text start finish characterIndices)
        (includeDelimiters.any truthy)).bind fun pieces =>
      (storedPieces lists pieces).raise

def listErrorText : ListError → String
  | .indexZero => "DM list position 0 is invalid; indices begin at 1"
  | .indexOutOfBounds index len =>
    "DM list position " ++ toString index ++ " exceeds length " ++ toString len
  | .missingKey => "associative list key is absent"
  | .corruptListStorage => "DM list storage is inconsistent"

def staleListText (id : ListId) : String :=
  "stale list handle ListId \x7b index: " ++ toString id.index ++ ", generation: " ++
    toString id.generation ++ " \x7d"

/-- The item at a place of a list. -/
def joinItem (list : DmList) (index : Nat) : Fallible String (List Char) :=
  match list.get index with
  | some (.ok value) => runtimeText host state value
  | some (.error error) => .error (listErrorText error)
  | none => .panic

/-- The items at so many places from one on. -/
def joinItems (list : DmList) : Nat → Nat → Fallible String (List (List Char))
  | 0, _ => .value []
  | count + 1, index =>
    (joinItem host state list index).bind fun item =>
      (joinItems list count (index + 1)).map (item :: ·)

def jointext (list glue : Value) (start finish : Option Value) (lists : Arena DmList) :
    Fallible String Value :=
  match list with
  | .list id =>
    (runtimeText host state glue).bind fun glue =>
    (Fallible.orError (lists.get id.handle) (staleListText id)).bind fun list =>
    (signedPosition host start 1).bind fun start =>
    (signedPosition host finish 0).bind fun finish =>
    let first := resolvePosition start list.len
    let last := if finish = 0 then list.len + 1 else resolvePosition finish list.len
    (joinItems host state list (min last (list.len + 1) - first) first).map fun items =>
      .ofChars (glue.intercalate items)
  | value => .error ("jointext requires a list, received " ++ host.display value)

end

/-!
# Nothing of a split text is lost

The loop over the matches goes forward with every match, also with an empty
one, and what it has put out covers the region up to the last match. The loop
over the occurrences of a text counts them from the left. The pieces with the
delimiters between them are the text again, whichever of the two came to them
(`splittext_lossless`).
-/

open ByteText (IsBoundary slice sliceFrom sliceTo)
open Occurrences (leftmostCount)

variable {text target delimiter : List Char} {start finish : Nat} {pieces : List (List Char)}

/-! ## Covered regions -/

/-- The pieces together are what lies between two offsets. -/
def Covers (text : List Char) (start finish : Nat) (pieces : List (List Char)) : Prop :=
  (slice text start finish : Fallible String (List Char)) = .value pieces.flatten

theorem covers_nil (h : IsBoundary text start) : Covers text start start [] := by
  obtain ⟨a, c, rfl, rfl⟩ := h
  exact ByteText.slice_eq_value_iff.2 ⟨a, c, rfl, rfl, rfl⟩

theorem Covers.append (h : Covers text start finish pieces) {last : Nat} {piece : List Char}
    (hpiece : (slice text finish last : Fallible String (List Char)) = .value piece) :
    Covers text start last (pieces ++ [piece]) := by
  obtain ⟨a, c, hac, ha, hc⟩ := ByteText.slice_eq_value_iff.1 h
  obtain ⟨b, d, hbd, hb, hd⟩ := ByteText.slice_eq_value_iff.1 hpiece
  rw [← hbd, ← List.append_assoc] at hac
  obtain ⟨rfl, rfl⟩ := ByteText.append_unique hac (by rw [String.utf8Len_append, hc, hb])
  refine ByteText.slice_eq_value_iff.2 ⟨a, d, ?_, ha, ?_⟩
  · rw [List.flatten_append, List.flatten_singleton, List.append_assoc, ← hbd, List.append_assoc]
  · rw [List.flatten_append, List.flatten_singleton, String.utf8Len_append, ← Nat.add_assoc, hc, ← hb, hd]

/-! ## The loop over the matches -/

section

variable {search : Nat → Fallible String (Option RegexMatch)} {regionEnd : Nat}
  {includeDelimiters : Bool}

/-- In front of a turn: the output covers the region up to the last match. -/
structure RegexSplit.Fits (text : List Char) (start regionEnd : Nat) (includeDelimiters : Bool)
    (s : RegexSplit) : Prop where
  segment : IsBoundary text s.segmentStart
  searched : s.segmentStart ≤ s.searchStart
  inside : s.segmentStart ≤ regionEnd
  covers : includeDelimiters = true → Covers text start s.segmentStart s.output

/-- The next search starts where the next match is looked for, or is none. -/
theorem nextSearch_spec {found : RegexMatch} (hfinish : found.finish ≤ regionEnd)
    (hbehind : IsBoundary text found.finish) (hend : IsBoundary text regionEnd) :
    ∃ next, nextSearch text regionEnd found = .value next ∧ found.finish ≤ next ∧
      (next = nextStart text found ∨ regionEnd < next ∧ regionEnd < nextStart text found) := by
  rw [nextSearch, nextStart]
  split
  · exact ⟨found.finish, rfl, Nat.le_refl _, .inl rfl⟩
  · obtain ⟨a, rest, c, rfl, ha, hc, hslice⟩ :=
      ByteText.slice_eq_value (ε := String) hbehind hend hfinish
    refine ⟨_, by rw [hslice, Fallible.map_value], Nat.le_add_right _ _, ?_⟩
    cases rest with
    | nil =>
      have hpos := characterSize_pos (a ++ ([] ++ c)) found.finish
      rw [String.utf8Len_nil] at hc
      exact .inr ⟨show regionEnd < found.finish + 1 by omega, by omega⟩
    | cons x rest =>
      rw [← ha, List.cons_append, characterSize_append]
      exact .inl rfl

theorem matchPieces_spec {found : RegexMatch} (hle : found.start ≤ found.finish)
    (hbefore : IsBoundary text found.start) (hbehind : IsBoundary text found.finish)
    (includeDelimiters : Bool) : ∃ delimiters,
      matchPieces text found includeDelimiters = .value delimiters ∧
        (includeDelimiters = true → ∃ piece, delimiters = [piece] ∧
          (slice text found.start found.finish : Fallible String (List Char)) = .value piece) := by
  rw [matchPieces]
  cases includeDelimiters with
  | false => exact ⟨_, rfl, fun h => by cases h⟩
  | true =>
    obtain ⟨-, piece, -, -, -, -, hslice⟩ := ByteText.slice_eq_value (ε := String) hbefore hbehind hle
    refine ⟨[piece], by rw [if_pos rfl, hslice, Fallible.map_value], fun _ => ⟨piece, rfl, hslice⟩⟩

/-- What one turn does with the next match. -/
theorem regexTurn_found (hsearch : SearchSound search text regionEnd)
    (hend : IsBoundary text regionEnd) {s : RegexSplit}
    (hs : s.Fits text start regionEnd includeDelimiters) (hle : s.searchStart ≤ regionEnd)
    {found : RegexMatch} (hfound : search s.searchStart = .value (some found)) :
    ∃ next, regexTurn search text regionEnd includeDelimiters s = .value (.next next) ∧
      next.Fits text start regionEnd includeDelimiters ∧
      (includeDelimiters = true → next.output.length = s.output.length + 2) ∧
      (next.searchStart = nextStart text found ∨
        regionEnd < next.searchStart ∧ regionEnd < nextStart text found) := by
  obtain ⟨hstart, hordered, hfinish, hbefore, hbehind⟩ := hsearch.inside _ found hfound
  have hsegment : s.segmentStart ≤ found.start := Nat.le_trans hs.searched hstart
  obtain ⟨-, piece, -, -, -, -, hpiece⟩ :=
    ByteText.slice_eq_value (ε := String) hs.segment hbefore hsegment
  obtain ⟨delimiters, hdelimiters, hincluded⟩ :=
    matchPieces_spec hordered hbefore hbehind includeDelimiters
  obtain ⟨next, hnext, hreached, hlater⟩ := nextSearch_spec hfinish hbehind hend
  refine ⟨⟨found.finish, next, s.output ++ piece :: delimiters⟩, ?_,
    ⟨hbehind, hreached, hfinish, ?_⟩, ?_, hlater⟩
  · rw [regexTurn, if_pos hle, hfound, Fallible.value_bind]
    simp only [hpiece, hdelimiters, hnext, Fallible.value_bind, Fallible.map_value]
  · intro hinclude
    obtain ⟨whole, rfl, hwhole⟩ := hincluded hinclude
    have hcovers := ((hs.covers hinclude).append hpiece).append hwhole
    rwa [List.append_assoc, List.singleton_append] at hcovers
  · intro hinclude
    obtain ⟨whole, rfl, -⟩ := hincluded hinclude
    exact List.length_append

theorem regexTurn_last {s : RegexSplit}
    (h : s.searchStart ≤ regionEnd → search s.searchStart = .value none) :
    regexTurn search text regionEnd includeDelimiters s = .value (.last s) := by
  by_cases hle : s.searchStart ≤ regionEnd
  · rw [regexTurn, if_pos hle, h hle, Fallible.value_bind]
  · rw [regexTurn, if_neg hle]

/-- The loop goes through the successive matches, and covers the region up to the last one. -/
theorem run_regexTurn (hsearch : SearchSound search text regionEnd)
    (hend : IsBoundary text regionEnd) {found : List RegexMatch} {s : RegexSplit}
    (hs : s.Fits text start regionEnd includeDelimiters)
    (hfound : Successive search text regionEnd s.searchStart found) : ∃ fuel last,
      Advance.run (regexTurn search text regionEnd includeDelimiters) fuel s = .value last ∧
        last.Fits text start regionEnd includeDelimiters ∧
        (includeDelimiters = true → last.output.length = s.output.length + 2 * found.length) := by
  induction found generalizing s with
  | nil =>
    have hlast : s.searchStart ≤ regionEnd → search s.searchStart = .value none := by
      intro hle
      cases hfound with
      | past h => omega
      | missing h hnone => exact hnone
    exact ⟨1, s, by rw [Advance.run, regexTurn_last hlast], hs, fun _ => rfl⟩
  | cons first rest ih =>
    cases hfound with
    | found hle hfirst hrest =>
      obtain ⟨next, hturn, hfits, hlength, hnext⟩ := regexTurn_found hsearch hend hs hle hfirst
      have hsuccessive : Successive search text regionEnd next.searchStart rest := by
        rcases hnext with heq | ⟨hpast, hbehind⟩
        · rwa [heq]
        · rw [hrest.eq_nil hbehind]
          exact .past hpast
      obtain ⟨fuel, last, hrun, hlast, hcount⟩ := ih hfits hsuccessive
      refine ⟨fuel + 1, last, by rw [Advance.run_next hturn, hrun], hlast, fun hinclude => ?_⟩
      rw [hcount hinclude, hlength hinclude, List.length_cons]
      omega

/-- With the matches the pieces cover the region; there is one more than twice the matches. -/
theorem splitAtMatches_spec {region : Nat × Nat × Nat} (hsearch : SearchSound search text region.2.1)
    (hstart : IsBoundary text region.1) (hend : IsBoundary text region.2.1)
    (hle : region.1 ≤ region.2.1) {found : List RegexMatch}
    (hfound : Successive search text region.2.1 region.1 found) : ∃ fuel output,
      splitAtMatches search fuel text region true = .value output ∧ output ≠ [] ∧
        Covers text region.1 region.2.1 output ∧ output.length = 2 * found.length + 1 := by
  have hfits : RegexSplit.Fits text region.1 region.2.1 true ⟨region.1, region.1, []⟩ :=
    ⟨hstart, Nat.le_refl _, hle, fun _ => covers_nil hstart⟩
  obtain ⟨fuel, last, hrun, hlast, hcount⟩ := run_regexTurn hsearch hend hfits hfound
  obtain ⟨-, piece, -, -, -, -, hslice⟩ :=
    ByteText.slice_eq_value (ε := String) hlast.segment hend hlast.inside
  refine ⟨fuel, last.output ++ [piece], ?_,
    List.append_ne_nil_of_right_ne_nil _ (List.cons_ne_nil _ _), (hlast.covers rfl).append hslice, ?_⟩
  · rw [splitAtMatches, hrun, Fallible.value_bind, hslice]
    rfl
  · have hlength : last.output.length = 0 + 2 * found.length := hcount rfl
    rw [List.length_append, List.length_singleton, hlength, Nat.zero_add]

end

/-! ## The loop over the occurrences -/

theorem find_eq_some {offset : Nat} (h : ByteText.find delimiter text = some offset) :
    ∃ a b, a ++ (delimiter ++ b) = text ∧ utf8Len a = offset ∧
      (delimiter ≠ [] → leftmostCount delimiter text = leftmostCount delimiter b + 1) := by
  induction text generalizing offset with
  | nil =>
    rw [ByteText.find] at h
    split at h
    · rename_i hempty
      cases h
      exact ⟨[], [], by rw [List.isEmpty_iff.1 hempty]; rfl, rfl,
        fun hne => absurd (List.isEmpty_iff.1 hempty) hne⟩
    · cases h
  | cons c text ih =>
    rw [ByteText.find] at h
    split at h
    · rename_i hfront
      cases h
      obtain ⟨b, hb⟩ := List.isPrefixOf_iff_prefix.1 hfront
      exact ⟨[], b, hb, rfl, fun hne => by rw [← hb, Occurrences.leftmostCount_append hne]⟩
    · rename_i hfront
      obtain ⟨rest, hrest, rfl⟩ := Option.map_eq_some_iff.1 h
      obtain ⟨a, b, rfl, rfl, hcount⟩ := ih hrest
      refine ⟨c :: a, b, rfl, by rw [String.utf8Len_cons, Nat.add_comm], fun hne => ?_⟩
      rw [← hcount hne]
      exact Occurrences.leftmostCount_cons fun h => hfront (List.isPrefixOf_iff_prefix.2 h)

theorem find_eq_none (h : ByteText.find delimiter text = none) :
    leftmostCount delimiter text = 0 := by
  induction text with
  | nil => rfl
  | cons c text ih =>
    rw [ByteText.find] at h
    split at h
    · cases h
    · rename_i hfront
      rw [Occurrences.leftmostCount_cons fun h => hfront (List.isPrefixOf_iff_prefix.2 h)]
      exact ih (Option.map_eq_none_iff.1 h)

/-- What has been put out, with the delimiters, however these are kept. -/
def putOut (delimiter : List Char) (includeDelimiters : Bool) (output : List (List Char)) :
    List Char :=
  if includeDelimiters then output.flatten else (output.map (· ++ delimiter)).flatten

/-- The pieces that a turn puts out. -/
def turnPieces (includeDelimiters : Bool) : Nat := if includeDelimiters then 2 else 1

/-- In front of a turn: the output is the target up to the cursor. -/
structure LiteralSplit.Fits (target delimiter : List Char) (includeDelimiters : Bool)
    (s : LiteralSplit) (tail : List Char) : Prop where
  text : putOut delimiter includeDelimiters s.output ++ tail = target
  cursor : utf8Len (putOut delimiter includeDelimiters s.output) = s.cursor
  count : s.output.length + turnPieces includeDelimiters * leftmostCount delimiter tail =
    turnPieces includeDelimiters * leftmostCount delimiter target

theorem putOut_append (delimiter : List Char) (includeDelimiters : Bool)
    (output : List (List Char)) (piece : List Char) :
    putOut delimiter includeDelimiters
        (output ++ piece :: if includeDelimiters then [delimiter] else []) =
      putOut delimiter includeDelimiters output ++ (piece ++ delimiter) := by
  cases includeDelimiters with
  | true =>
    show (output ++ [piece, delimiter]).flatten = output.flatten ++ (piece ++ delimiter)
    rw [List.flatten_append, List.flatten_cons, List.flatten_singleton]
  | false =>
    show ((output ++ [piece]).map (· ++ delimiter)).flatten = _
    rw [List.map_append, List.flatten_append, List.map_singleton, List.flatten_singleton]
    rfl

section

variable {includeDelimiters : Bool} {s : LiteralSplit} {tail : List Char}

theorem LiteralSplit.Fits.tail_eq (hs : s.Fits target delimiter includeDelimiters tail) :
    (sliceFrom target s.cursor : Fallible String (List Char)) = .value tail :=
  ByteText.sliceFrom_eq_value_iff.2 ⟨_, hs.text, hs.cursor⟩

/-- A turn is the last one without an occurrence, or goes behind the next one. -/
theorem literalTurn_cases (hne : delimiter ≠ [])
    (hs : s.Fits target delimiter includeDelimiters tail) :
    (literalTurn target delimiter includeDelimiters s = .value (.last s) ∧
      leftmostCount delimiter tail = 0) ∨
    ∃ next rest, literalTurn target delimiter includeDelimiters s = .value (.next next) ∧
      next.Fits target delimiter includeDelimiters rest ∧
        utf8Len target - next.cursor < utf8Len target - s.cursor := by
  cases hfind : ByteText.find delimiter tail with
  | none =>
    refine .inl ⟨?_, find_eq_none hfind⟩
    rw [literalTurn, hs.tail_eq, Fallible.value_bind, hfind]
  | some offset =>
    obtain ⟨piece, rest, hrest, rfl, hcount⟩ := find_eq_some hfind
    have hpiece : (slice target s.cursor (s.cursor + utf8Len piece) : Fallible String _) =
        .value piece := by
      refine ByteText.slice_eq_value_iff.2 ⟨_, delimiter ++ rest, ?_, hs.cursor, ?_⟩
      · rw [hrest, hs.text]
      · rw [hs.cursor]
    refine .inr ⟨⟨s.cursor + utf8Len piece + utf8Len delimiter,
      s.output ++ piece :: if includeDelimiters then [delimiter] else []⟩, rest, ?_, ⟨?_, ?_, ?_⟩, ?_⟩
    · rw [literalTurn, hs.tail_eq, Fallible.value_bind, hfind]
      simp only [hpiece, Fallible.map_value]
    · rw [putOut_append, List.append_assoc, List.append_assoc, hrest, hs.text]
    · rw [putOut_append, String.utf8Len_append, String.utf8Len_append, hs.cursor, Nat.add_assoc]
    · have hbefore := hs.count
      have hlength : (s.output ++ piece :: if includeDelimiters then [delimiter] else []).length =
          s.output.length + turnPieces includeDelimiters := by
        cases includeDelimiters with
        | true => exact List.length_append
        | false => exact List.length_append
      rw [hcount hne, Nat.mul_succ] at hbefore
      rw [hlength, ← hbefore]
      omega
    · have hlength := congrArg utf8Len hs.text
      rw [← hrest, String.utf8Len_append, String.utf8Len_append, String.utf8Len_append,
        hs.cursor] at hlength
      have hpos : 0 < utf8Len delimiter := by
        cases delimiter with
        | nil => exact absurd rfl hne
        | cons c delimiter =>
          rw [String.utf8Len_cons]
          exact Nat.add_pos_right _ c.utf8Size_pos
      show utf8Len target - (s.cursor + utf8Len piece + utf8Len delimiter) < _
      omega

/-- The loop ends behind the last occurrence. -/
theorem run_literalTurn (hne : delimiter ≠ [])
    (hs : s.Fits target delimiter includeDelimiters tail) : ∃ fuel last rest,
      Advance.run (literalTurn target delimiter includeDelimiters) fuel s = .value last ∧
        last.Fits target delimiter includeDelimiters rest ∧ leftmostCount delimiter rest = 0 := by
  induction hk : utf8Len target - s.cursor using Nat.strongRecOn generalizing s tail with
  | ind k ih =>
    rcases literalTurn_cases hne hs with ⟨hlast, hnone⟩ | ⟨next, rest, hnext, hfits, hlt⟩
    · exact ⟨1, s, tail, by rw [Advance.run, hlast], hs, hnone⟩
    · obtain ⟨fuel, last, end', hrun, hend⟩ := ih _ (by omega) hfits rfl
      exact ⟨fuel + 1, last, end', by rw [Advance.run_next hnext, hrun], hend⟩

end

theorem intercalate_append (delimiter : List Char) (output : List (List Char)) (tail : List Char) :
    delimiter.intercalate (output ++ [tail]) = (output.map (· ++ delimiter)).flatten ++ tail := by
  induction output with
  | nil => exact List.intercalate_singleton
  | cons piece output ih =>
    rw [List.cons_append, List.intercalate_cons_of_ne_nil (List.append_ne_nil_of_right_ne_nil _
      (List.cons_ne_nil _ _)), ih, List.map_cons, List.flatten_cons, List.append_assoc,
      List.append_assoc, List.append_assoc]

theorem nil_intercalate (pieces : List (List Char)) : [].intercalate pieces = pieces.flatten := by
  induction pieces with
  | nil => rfl
  | cons piece pieces ih =>
    cases pieces with
    | nil => rw [List.intercalate_singleton, List.flatten_singleton]
    | cons next pieces =>
      rw [List.intercalate_cons_cons, ih, List.append_nil]
      exact List.flatten_cons.symm

/-- What stands between the pieces where the delimiters are kept, and where they are not. -/
def joint (delimiter : List Char) (includeDelimiters : Bool) : List Char :=
  if includeDelimiters then [] else delimiter

theorem putOut_eq (delimiter : List Char) (includeDelimiters : Bool) (output : List (List Char))
    (tail : List Char) : putOut delimiter includeDelimiters output ++ tail =
      (joint delimiter includeDelimiters).intercalate (output ++ [tail]) := by
  cases includeDelimiters with
  | true =>
    show output.flatten ++ tail = [].intercalate (output ++ [tail])
    rw [nil_intercalate, List.flatten_append, List.flatten_singleton]
  | false => exact (intercalate_append delimiter output tail).symm

/-- The loop comes to the pieces between the occurrences, of which there is one more. -/
theorem splitAtText_spec (hne : delimiter ≠ []) (target : List Char) (includeDelimiters : Bool) :
    ∃ fuel output, splitAtText fuel target delimiter includeDelimiters = .value output ∧
      output ≠ [] ∧ (joint delimiter includeDelimiters).intercalate output = target ∧
      output.length = turnPieces includeDelimiters * leftmostCount delimiter target + 1 := by
  have hstart : LiteralSplit.Fits target delimiter includeDelimiters ⟨0, []⟩ target := by
    cases includeDelimiters with
    | true => exact ⟨rfl, rfl, Nat.zero_add _⟩
    | false => exact ⟨rfl, rfl, Nat.zero_add _⟩
  obtain ⟨fuel, last, rest, hrun, hfits, hnone⟩ := run_literalTurn hne hstart
  have hempty : ¬ delimiter.isEmpty = true := fun h => hne (List.isEmpty_iff.1 h)
  refine ⟨fuel, last.output ++ [rest], ?_, List.append_ne_nil_of_right_ne_nil _
    (List.cons_ne_nil _ _), ?_, ?_⟩
  · rw [splitAtText, if_neg hempty, hrun, Fallible.value_bind, hfits.tail_eq]
    rfl
  · rw [← putOut_eq, hfits.text]
  · have hcount := hfits.count
    rw [hnone, Nat.mul_zero, Nat.add_zero] at hcount
    rw [List.length_append, List.length_singleton, hcount]

end Dream64
