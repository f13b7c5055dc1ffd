import Dream64.Preprocess.Scan
import Dream64.Vm.TextBuiltins

/-!
# Text templates

`text()` with a template: the holes of the template, brackets with nothing but
whitespace between them, take the values one after the other, and the marker
characters of text macros change how the value next to them is spelled.
-/

namespace Dream64

open Preprocess (isWhitespace)

/-! ## Marker characters -/

def textMacroThe : Char := Char.ofNat 0xf100
def textMacroTheUpper : Char := Char.ofNat 0xf101
def textMacroA : Char := Char.ofNat 0xf102
def textMacroAUpper : Char := Char.ofNat 0xf103
def textMacroProper : Char := Char.ofNat 0xf104
def textMacroImproper : Char := Char.ofNat 0xf105
def textMacroRoman : Char := Char.ofNat 0xf106
def textMacroRomanUpper : Char := Char.ofNat 0xf107
def textMacroOrdinal : Char := Char.ofNat 0xf108
def textMacroPlural : Char := Char.ofNat 0xf109
def textMacroSubject : Char := Char.ofNat 0xf10a
def textMacroSubjectUpper : Char := Char.ofNat 0xf10b
def textMacroPossessiveAdjective : Char := Char.ofNat 0xf10c
def textMacroPossessiveAdjectiveUpper : Char := Char.ofNat 0xf10d
def textMacroObject : Char := Char.ofNat 0xf10e
def textMacroReflexive : Char := Char.ofNat 0xf10f
def textMacroPossessive : Char := Char.ofNat 0xf110
def textMacroPossessiveUpper : Char := Char.ofNat 0xf111

def prefixMarkers : List Char :=
  [textMacroThe, textMacroTheUpper, textMacroA, textMacroAUpper, textMacroProper,
    textMacroImproper, textMacroRoman, textMacroRomanUpper]

def suffixMarkers : List Char :=
  [textMacroOrdinal, textMacroPlural, textMacroSubject, textMacroSubjectUpper,
    textMacroPossessiveAdjective, textMacroPossessiveAdjectiveUpper, textMacroObject,
    textMacroReflexive, textMacroPossessive, textMacroPossessiveUpper]

def isTextFormatMarker (character : Char) : Bool := (prefixMarkers ++ suffixMarkers).elem character

/-! ## Values in a template -/

structure TemplateHost (σ Target : Type) where
  texts : TextHost σ Target
  datumFieldOrInitial : σ → DatumId → String → Except String Value
  isUppercase : Char → Bool

variable {σ Target : Type} (host : TemplateHost σ Target) (state : σ)

def textMacroVisible (value : Value) : Fallible String (List Char) :=
  (runtimeText host.texts state value).map (List.filter fun character =>
    !isTextFormatMarker character)

def isProperText (raw : List Char) : Bool :=
  if raw.head? = some textMacroProper then true
  else if raw.head? = some textMacroImproper then false
  else match raw.find? fun character => !isTextFormatMarker character with
    | none => true
    | some first => isWhitespace first || host.isUppercase first

def textMacroIsProper (value : Value) : Fallible String Bool :=
  (runtimeText host.texts state value).map (isProperText host)

def romanNumerals (upper : Bool) : List (Nat × Char × Char) → Nat → List Char
  | [], _ => []
  | (amount, lower, upperCharacter) :: smaller, value =>
    List.replicate (value / amount) (if upper then upperCharacter else lower) ++
      romanNumerals upper smaller (value % amount)

def romanText (number : DmNumberBits) (upper : Bool) : List Char :=
  if number.isNaN then "-".toList
  else if !number.isFinite then (if number.isNegative then "-inf" else "inf").toList
  else
    (if number.toI64 < 0 then ['-'] else []) ++
      romanNumerals upper [(1000, 'm', 'M'), (500, 'd', 'D'), (100, 'c', 'C'), (50, 'l', 'L'),
        (10, 'x', 'X'), (5, 'v', 'V'), (1, 'i', 'I')] (min (2 ^ 63 - 1) number.toI64.natAbs)

def valueGender : Value → Option String
  | .datum datum => (host.datumFieldOrInitial state datum "gender").toOption.bind Value.asText
  | _ => none

def indefiniteArticle (upper plural vowel : Bool) : String :=
  match upper, plural, vowel with
  | true, true, _ => "Some "
  | false, true, _ => "some "
  | true, false, true => "An "
  | false, false, true => "an "
  | true, false, false => "A "
  | false, false, false => "a "

def startsWithVowel (visible : List Char) : Bool :=
  visible.head?.any fun character => ['a', 'e', 'i', 'o', 'u'].elem character.toLower

/-- The text of a value behind a prefix macro. -/
def formatTextInterpolation (value : Value) (pendingPrefix : Option Char) :
    Fallible String (List Char) :=
  (textMacroVisible host state value).bind fun visible =>
  match pendingPrefix with
  | none => .value visible
  | some marker =>
    if marker = textMacroThe ∨ marker = textMacroTheUpper then
      (textMacroIsProper host state value).map fun proper =>
        if proper then visible
        else (if marker = textMacroTheUpper then "The " else "the ").toList ++ visible
    else if marker = textMacroA ∨ marker = textMacroAUpper then
      (textMacroIsProper host state value).map fun proper =>
        if proper then visible
        else
          (indefiniteArticle (marker == textMacroAUpper)
            (valueGender host state value == some "plural") (startsWithVowel visible)).toList ++
            visible
    else if marker = textMacroRoman ∨ marker = textMacroRomanUpper then
      .value (value.asNumber.elim [] fun number => romanText number (marker == textMacroRomanUpper))
    else .value visible

/-! ## Macros behind a value -/

def ordinalText (value : Value) : List Char :=
  let integer := value.asNumber.elim 0 DmNumberBits.toI64
  (toString integer).toList ++
    (if integer = 1 then "st" else if integer = 2 then "nd" else if integer = 3 then "rd"
      else "th").toList

/-- The words of a macro for the four genders. -/
def pronouns (suffix : Char) : List String :=
  if suffix = textMacroSubject then ["he", "she", "they", "it"]
  else if suffix = textMacroSubjectUpper then ["He", "She", "They", "It"]
  else if suffix = textMacroPossessiveAdjective then ["his", "her", "their", "its"]
  else if suffix = textMacroPossessiveAdjectiveUpper then ["His", "Her", "Their", "Its"]
  else if suffix = textMacroObject then ["him", "her", "them", "it"]
  else if suffix = textMacroReflexive then ["himself", "herself", "themself", "itself"]
  else if suffix = textMacroPossessive then ["his", "hers", "theirs", "its"]
  else if suffix = textMacroPossessiveUpper then ["His", "Hers", "Theirs", "Its"]
  else []

/-- What a macro other than the ordinal writes behind the value. -/
def suffixWord (suffix : Char) (previous : Value) : List Char :=
  if suffix = textMacroPlural then
    if previous.asNumber = some 0x3f800000#32 then [] else ['s']
  else
    match valueGender host state previous with
    | none => []
    | some gender =>
      let index := ["male", "female", "plural", "neuter"].idxOf gender
      (pronouns suffix).getD index "" |>.toList

def applyTextSuffix (suffix : Char) (previous : Option Value) (previousOutputStart : Nat)
    (output : List Char) : List Char :=
  match previous with
  | none => output
  | some previous =>
    if suffix = textMacroOrdinal then output.take previousOutputStart ++ ordinalText previous
    else output ++ suffixWord host state suffix previous

/-! ## Templates -/

/-- A character of a template, as itself or as the marker of a macro. -/
inductive TextToken where
  | literal (character : Char)
  | marker (character : Char)
deriving DecidableEq, Repr

inductive TemplateItem where
  | token (token : TextToken)
  | hole
deriving DecidableEq, Repr

def TextToken.character : TextToken → Char
  | literal character => character
  | marker character => character

/-- How many characters behind an opening bracket belong to its hole. -/
def holeWidth (characters : List Char) : Option Nat :=
  let whitespace := characters.takeWhile isWhitespace
  if (characters.drop whitespace.length).head? = some ']' then some (whitespace.length + 1)
  else none

/-- What the loop reads, turn by turn, with so many characters to be passed over. -/
def templateItemsFrom : Nat → List Char → List TemplateItem
  | _, [] => []
  | skip + 1, _ :: characters => templateItemsFrom skip characters
  | 0, character :: characters =>
    if isTextFormatMarker character then
      .token (.marker character) :: templateItemsFrom 0 characters
    else if character ≠ '[' then .token (.literal character) :: templateItemsFrom 0 characters
    else
      match holeWidth characters with
      | some width => .hole :: templateItemsFrom width characters
      | none => .token (.literal '[') :: templateItemsFrom 0 characters

def templateItems (template : List Char) : List TemplateItem := templateItemsFrom 0 template

structure Formatting where
  output : List Char
  values : List Value
  holes : Nat
  pendingPrefix : Option Char
  previousValue : Option Value
  previousOutputStart : Nat

/-- One turn of the loop. -/
def formatItem (s : Formatting) : TemplateItem → Fallible String Formatting
  | .token (.literal character) => .value { s with output := s.output ++ [character] }
  | .token (.marker character) =>
    if prefixMarkers.elem character then .value { s with pendingPrefix := some character }
    else
      .value { s with
        output := applyTextSuffix host state character s.previousValue s.previousOutputStart
          s.output }
  | .hole =>
    match s.values with
    | [] => .error "text() has fewer arguments than template holes"
    | value :: values =>
      (formatTextInterpolation host state value s.pendingPrefix).map fun formatted =>
        { output := s.output ++ formatted, values := values, holes := s.holes + 1,
          pendingPrefix := none, previousValue := some value,
          previousOutputStart := s.output.length }

def formatTemplate (template : List Char) (values : List Value) : Fallible String Formatting :=
  Fallible.fold (formatItem host state) ⟨[], values, 0, none, none, 0⟩ (templateItems template)

/-- `text_template` -/
def textTemplate (arguments : List Value) : Fallible String (List Char) :=
  match arguments with
  | .text template :: values =>
    (formatTemplate host state template.toList values).bind fun s =>
      if s.values = [] then .value s.output
      else
        .error ("text() has more arguments than template holes (" ++ toString s.holes ++ ")")
  | _ => .error "text() expected a string as its first argument"

end Dream64
