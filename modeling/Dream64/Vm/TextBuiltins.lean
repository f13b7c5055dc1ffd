import Dream64.Value.SemanticKey
import Dream64.Library.Advance
import Dream64.Library.ByteSlices
import Dream64.Library.Fuel

/-!
# Text builtins

The builtins that search, copy, replace, splice and split texts. A position is
a byte or a character of the text, from one on, negative from the end, and is
brought to a boundary before anything is cut. What the builtins call outside of
the texts is a `TextHost`: the heap, the spelling of numbers and values, the
lower case of Unicode, and the regex engine, whose matches lie on boundaries of
the searched text from the start of the search on.
-/

namespace Dream64

open ByteText (IsBoundary boundaries getTo previousBoundary slice sliceFrom sliceTo)
open String (utf8Len)

/-! ## Numbers as positions -/

namespace DmNumberBits

def isNegative (bits : DmNumberBits) : Bool := bits.getLsbD 31

def exponent (bits : DmNumberBits) : Nat := (bits.extractLsb' 23 8).toNat

def isFinite (bits : DmNumberBits) : Bool := bits.exponent != 255

/-- The integral part of a finite number, without its sign. -/
def integralPart (bits : DmNumberBits) : Nat :=
  let significand := 2 ^ 23 + (bits.extractLsb' 0 23).toNat
  if bits.exponent < 127 then 0
  else if bits.exponent ≤ 150 then significand / 2 ^ (150 - bits.exponent)
  else significand * 2 ^ (bits.exponent - 150)

/-- `trunc() as i64` -/
def toI64 (bits : DmNumberBits) : Int :=
  if bits.isNaN then 0
  else if bits.isNegative then
    if bits.isFinite then max (-2 ^ 63) (-(bits.integralPart : Int)) else -2 ^ 63
  else if bits.isFinite then min (2 ^ 63 - 1) (bits.integralPart : Int) else 2 ^ 63 - 1

def ofFields (exponent significand : Nat) : DmNumberBits :=
  BitVec.ofNat 32 (exponent * 2 ^ 23 + significand)

/-- `as f32`: the nearest number, of two the even one. -/
def ofNat (n : Nat) : DmNumberBits :=
  let exponent := Nat.log2 n
  let unit := 2 ^ (exponent - 23)
  let kept := n / unit
  let rounded :=
    if unit < 2 * (n % unit) ∨ unit = 2 * (n % unit) ∧ kept % 2 = 1 then kept + 1 else kept
  if n = 0 then 0#32
  else if 127 < exponent then 0x7f800000#32
  else ofFields (exponent + 127) (rounded * 2 ^ (23 - exponent) - 2 ^ 23)

/-- `max(0.0) as usize` -/
def toUsize (bits : DmNumberBits) : Nat :=
  if bits.isNaN || bits.isNegative then 0
  else if bits.isFinite then min (2 ^ 64 - 1) bits.integralPart else 2 ^ 64 - 1

end DmNumberBits

def Value.asNumber : Value → Option DmNumberBits
  | .number bits => some bits
  | _ => none

/-- `value_text` -/
def Value.asText : Value → Option String
  | .text string => some string
  | _ => none

def truthy : Value → Bool
  | .null => false
  | .number bits => !bits.isZero
  | .text text => text != ""
  | _ => true

/-! ## The host -/

structure RegexMatch where
  start : Nat
  finish : Nat
  captures : List (Option (List Char))

/-- A compiled pattern. -/
structure Regex where
  search : List Char → Nat → Except String (Option RegexMatch)
  sound : ∀ text start found, search text start = .ok (some found) →
    start ≤ found.start ∧ found.start ≤ found.finish ∧
      IsBoundary text found.start ∧ IsBoundary text found.finish

structure TextHost (σ Target : Type) where
  display : Value → String
  displayNumber : DmNumberBits → String
  lowercase : List Char → List Char
  datumTypePath : σ → DatumId → Except String String
  datumField : σ → DatumId → String → Except String Value
  setDatumField : σ → DatumId → String → Value → Except String σ
  allocateList : σ → ListId × σ
  addEntries : σ → ListId → List Value → Except String σ
  compileRegex : List Char → Bool → Bool → Except String Regex
  callTarget : σ → Value → Except String Target
  call : Target → List Value → σ → Except String (Value × σ)

/-- A host for texts: without datums, and without patterns that compile. -/
def plainHost : TextHost Unit Unit where
  display := fun _ => ""
  displayNumber := fun _ => "0"
  lowercase := fun text => text
  datumTypePath := fun _ _ => .error "stale datum handle"
  datumField := fun _ _ _ => .error "stale datum handle"
  setDatumField := fun _ _ _ _ => .error "stale datum handle"
  allocateList := fun _ => (⟨0, 0⟩, ())
  addEntries := fun _ _ _ => .error "stale list handle"
  compileRegex := fun _ _ _ => .error "empty pattern"
  callTarget := fun _ _ => .error "no procedure"
  call := fun _ _ _ => .error "no procedure"

variable {σ Target : Type} (host : TextHost σ Target) (state : σ)

def Value.ofChars (text : List Char) : Value := .text (String.ofList text)

def Value.ofNat (n : Nat) : Value := .number (.ofNat n)

def stringifyDmValue (value : Value) : Fallible String (List Char) :=
  match value with
  | .null => .value []
  | .text text => .value text.toList
  | .file path => .value path.toList
  | .number bits => .value (host.displayNumber bits).toList
  | .typePath path => .value path.path.toList
  | .modifiedTypePath base _ => .value base.path.toList
  | .datum datum =>
    (Fallible.ofExcept (host.datumTypePath state datum)).bind fun path =>
      match host.datumField state datum "name" with
      | .ok (.text name) => .value name.toList
      | _ => .value path.toList
  | .list _ => .value "/list".toList

/-- A number that is none has a spelling of its own. -/
def runtimeText (value : Value) : Fallible String (List Char) :=
  match value with
  | .number bits => .value (if bits.isNaN then "nan".toList else (host.displayNumber bits).toList)
  | value => stringifyDmValue host state value

/-- `strict_text` -/
def strictText (value : Value) (context : String) : Fallible String (List Char) :=
  match value with
  | .text text => .value text.toList
  | .file path => .value path.toList
  | value =>
    (runtimeText host state value).bind fun received =>
      .error (context ++ " requires text, received " ++ String.ofList received)

def isRegexDatum (datum : DatumId) : Bool :=
  match host.datumTypePath state datum with
  | .ok path => path == "/regex"
  | .error _ => false

def builtinText (value : Value) (context : String) : Fallible String (List Char) :=
  match value with
  | .text text => .value text.toList
  | .datum datum =>
    (Fallible.ofExcept (host.datumTypePath state datum)).bind fun path =>
      if path = "/regex" then .error (context ++ " regex matching is not yet supported")
      else .error (context ++ " requires text, received " ++ host.display value)
  | value => .error (context ++ " requires text, received " ++ host.display value)

/-! ## Positions -/

def logicalLength (text : List Char) (characterIndices : Bool) : Nat :=
  if characterIndices then text.length else utf8Len text

def signedPosition (value : Option Value) (default : Int) : Fallible String Int :=
  match value with
  | none => .value default
  | some .null => .value default
  | some (.number bits) => .value bits.toI64
  | some value => .error ("text position requires a number, received " ++ host.display value)

/-- A position of `copytext` and of a replacement without a needle. -/
def signedTextIndex (value : Option Value) (default : Int) : Fallible String Int :=
  match value with
  | none => .value default
  | some .null => .value default
  | some (.number bits) => .value (if bits.isFinite then bits.toI64 else default)
  | some value => .error ("copytext bounds require a number, received " ++ host.display value)

def optionalTextIndex (value : Option Value) (default : Nat) : Fallible String Nat :=
  match value with
  | none => .value default
  | some .null => .value default
  | some (.number bits) => .value bits.toUsize
  | some value => .error ("replacetext bounds require a number, received " ++ host.display value)

/-- `resolve_position`, and `resolve_text_position`, which is the same. -/
def resolvePosition (position : Int) (length : Nat) : Nat :=
  let limit : Int := length + 1
  (max 1 (min limit (if position < 0 then limit + position else position))).toNat

def byteOffset (text : List Char) (position : Nat) (characterIndices : Bool) : Nat :=
  if characterIndices then utf8Len (text.take position)
  else previousBoundary text (min position (utf8Len text))

theorem byteOffset_isBoundary (text : List Char) (position : Nat) (characterIndices : Bool) :
    IsBoundary text (byteOffset text position characterIndices) := by
  rw [byteOffset]
  split
  · exact IsBoundary.take text position
  · exact ByteText.previousBoundary_isBoundary text _

theorem byteOffset_mono (text : List Char) {m n : Nat} (h : m ≤ n) (characterIndices : Bool) :
    byteOffset text m characterIndices ≤ byteOffset text n characterIndices := by
  rw [byteOffset, byteOffset]
  split
  · exact ByteText.utf8Len_take_mono text h
  · exact ByteText.previousBoundary_mono text (by omega)

/-- The bytes between two positions, in order, and the position in front. -/
def textRegion (text : List Char) (start finish : Int) (characterIndices : Bool) :
    Nat × Nat × Nat :=
  let length := logicalLength text characterIndices
  let first := resolvePosition start length
  let last := if finish = 0 then length + 1 else resolvePosition finish length
  (byteOffset text (min first last - 1) characterIndices,
    byteOffset text (max first last - 1) characterIndices, min first last)

/-- The ends of a region are boundaries in order. -/
theorem textRegion_spec (text : List Char) (start finish : Int) (characterIndices : Bool) :
    IsBoundary text (textRegion text start finish characterIndices).1 ∧
      IsBoundary text (textRegion text start finish characterIndices).2.1 ∧
        (textRegion text start finish characterIndices).1 ≤
          (textRegion text start finish characterIndices).2.1 :=
  ⟨byteOffset_isBoundary .., byteOffset_isBoundary .., byteOffset_mono text (by omega) _⟩

theorem byteOffset_zero (text : List Char) (characterIndices : Bool) :
    byteOffset text 0 characterIndices = 0 := by
  rw [byteOffset]
  split
  · rw [List.take_zero, String.utf8Len_nil]
  · rw [Nat.zero_min, ByteText.previousBoundary]

theorem byteOffset_logicalLength (text : List Char) (characterIndices : Bool) :
    byteOffset text (logicalLength text characterIndices) characterIndices = utf8Len text := by
  cases characterIndices with
  | true =>
    show utf8Len (text.take text.length) = _
    rw [List.take_length]
  | false =>
    show ByteText.previousBoundary text (min (utf8Len text) (utf8Len text)) = _
    rw [Nat.min_self, ByteText.previousBoundary_of_isBoundary (ByteText.isBoundary_utf8Len text)]

/-- Without positions the region is the text. -/
theorem textRegion_whole (text : List Char) (characterIndices : Bool) :
    (textRegion text 1 0 characterIndices).1 = 0 ∧
      (textRegion text 1 0 characterIndices).2.1 = utf8Len text := by
  have hfirst : resolvePosition 1 (logicalLength text characterIndices) = 1 := by
    rw [resolvePosition, if_neg (by decide)]
    omega
  rw [textRegion, if_pos rfl, hfirst]
  have hmin : min 1 (logicalLength text characterIndices + 1) - 1 = 0 := by omega
  have hmax : max 1 (logicalLength text characterIndices + 1) - 1 =
      logicalLength text characterIndices := by omega
  rw [hmin, hmax]
  exact ⟨byteOffset_zero text characterIndices, byteOffset_logicalLength text characterIndices⟩

/-- The position of a boundary. -/
def positionOf (text : List Char) (byte : Nat) (characterIndices : Bool) : Fallible String Nat :=
  if characterIndices then (sliceTo text byte).map fun before => before.length + 1
  else .value (byte + 1)

/-! ## Searching -/

def eqIgnoreAsciiCase (left right : List Char) : Bool :=
  left.map Char.toLower == right.map Char.toLower

def matchesAt (text needle : List Char) (exact : Bool) (offset : Nat) : Fallible String Bool :=
  (sliceFrom text offset).map fun tail =>
    if exact then needle.isPrefixOf tail
    else (getTo tail (utf8Len needle)).any (fun candidate => eqIgnoreAsciiCase candidate needle) ||
      (host.lowercase needle).isPrefixOf (host.lowercase tail)

def findMatch (text needle : List Char) (exact reverse : Bool) : Fallible String (Option Nat) :=
  Fallible.find (matchesAt host text needle exact)
    (if reverse then (boundaries text).reverse else boundaries text)

/-- `findtext` with a text to be found. -/
def findText (haystack : List Char) (needle : Value) (start finish : Option Value)
    (exact characterIndices reverse : Bool) : Fallible String Value :=
  (strictText host state needle "findtext needle").bind fun needle =>
  let length := logicalLength haystack characterIndices
  let found (first last : Nat) : Fallible String Value :=
    (slice haystack first last).bind fun region =>
    (findMatch host region needle exact reverse).bind fun found =>
    match found with
    | none => .value (.ofNat 0)
    | some found =>
      (positionOf haystack (first + found) characterIndices).map fun position =>
        .ofNat position
  if reverse then
    (signedPosition host start 0).bind fun start =>
    (signedPosition host finish 1).bind fun finish =>
    let start := if start = 0 then length + 1 else resolvePosition start length
    let finish := resolvePosition finish length
    if start < finish then .value (.ofNat 0)
    else found (byteOffset haystack (finish - 1) characterIndices)
      (byteOffset haystack (start - 1) characterIndices)
  else
    (signedPosition host start 1).bind fun start =>
    (signedPosition host finish 0).bind fun finish =>
    let region := textRegion haystack start finish characterIndices
    found region.1 region.2.1

/-! ## Copying and splicing -/

def copyTextBuiltin (source : Value) (start finish : Option Value) (characterIndices : Bool) :
    Fallible String Value :=
  (builtinText host state source "copytext text").bind fun source =>
  (signedTextIndex host start 1).bind fun start =>
  (signedTextIndex host finish 0).bind fun finish =>
  let length := logicalLength source characterIndices
  let start := resolvePosition start length
  let finish := if finish = 0 then length + 1 else resolvePosition finish length
  if finish ≤ start then .value (.ofChars [])
  else
    (slice source (byteOffset source (start - 1) characterIndices)
      (byteOffset source (finish - 1) characterIndices)).map Value.ofChars

def splicetext (source : Value) (start finish : Option Value) (replacement : Value)
    (characterIndices : Bool) : Fallible String Value :=
  (strictText host state source "splicetext text").bind fun source =>
  (signedPosition host start 1).bind fun start =>
  (signedPosition host finish 0).bind fun finish =>
  (strictText host state replacement "splicetext replacement").bind fun replacement =>
  let region := textRegion source start finish characterIndices
  (sliceTo source region.1).bind fun front =>
  (sliceFrom source region.2.1).map fun back => .ofChars (front ++ replacement ++ back)

/-! ## The regex engine -/

/-- `\\l` is a letter, in a character class without brackets of its own. -/
def translateByondRegexPattern (inCharacterClass : Bool) : List Char → List Char
  | [] => []
  | '[' :: rest => '[' :: translateByondRegexPattern true rest
  | ']' :: rest => ']' :: translateByondRegexPattern false rest
  | '\\' :: 'l' :: rest =>
    (if inCharacterClass then "A-Za-z" else "[A-Za-z]").toList ++
      translateByondRegexPattern inCharacterClass rest
  | c :: rest => c :: translateByondRegexPattern inCharacterClass rest

/-- The next match from an offset on, unless it ends behind another one. -/
def regexSearch (pattern flags text : List Char) (start finish : Nat) :
    Fallible String (Option RegexMatch) :=
  let pattern := translateByondRegexPattern false pattern
  let shown := (String.ofList pattern).quote
  ((Fallible.ofExcept (host.compileRegex pattern (flags.contains 'i') (flags.contains 'm'))).mapError
      fun error => "invalid regex " ++ shown ++ ": " ++ error).bind fun regex =>
  ((Fallible.ofExcept (regex.search text start)).mapError
      fun error => "regex match failed for " ++ shown ++ ": " ++ error).map fun found =>
    found.filter fun found => found.finish ≤ finish

theorem regexSearch_ne_panic (pattern flags text : List Char) (start finish : Nat) :
    regexSearch host pattern flags text start finish ≠ .panic := by
  refine Fallible.bind_ne_panic ?_ fun regex _ => ?_
  · rw [Ne, Fallible.mapError_eq_panic]
    exact Fallible.ofExcept_ne_panic _
  · rw [Ne, Fallible.map_eq_panic, Fallible.mapError_eq_panic]
    exact Fallible.ofExcept_ne_panic _

/-- A match lies between boundaries behind the start of the search and in front of its end. -/
theorem regexSearch_sound {pattern flags text : List Char} {start finish : Nat} {found : RegexMatch}
    (h : regexSearch host pattern flags text start finish = .value (some found)) :
    start ≤ found.start ∧ found.start ≤ found.finish ∧ found.finish ≤ finish ∧
      IsBoundary text found.start ∧ IsBoundary text found.finish := by
  obtain ⟨regex, -, hsearch⟩ := Fallible.bind_eq_value.1 h
  obtain ⟨outcome, houtcome, hfilter⟩ := Fallible.map_eq_value.1 hsearch
  obtain ⟨rfl, hfinish⟩ := Option.filter_eq_some_iff.1 hfilter
  have hfound := Fallible.ofExcept_eq_value.1 (Fallible.mapError_eq_value.1 houtcome)
  obtain ⟨hstart, hle, hbefore, hbehind⟩ := regex.sound text start found hfound
  exact ⟨hstart, hle, of_decide_eq_true hfinish, hbefore, hbehind⟩

def regexFlags (regex : DatumId) : List Char :=
  match host.datumField state regex "flags" with
  | .ok (.text flags) => flags.toList
  | _ => []

end Dream64
