import Dream64.Vm.TextTemplate

/-!
# Interpolated texts

A quoted text with embedded expressions becomes a call of `text()`: the decoded
fragments of the text are put together to one template, with a pair of brackets
for every embedded expression. The parser of embedded expressions is a
parameter.
-/

namespace Dream64

open Preprocess (trim)

/-! ## Escapes -/

structure TextMacro where
  spelling : List Char
  marker : Char
  isPrefix : Bool

/-- The text macros, each in front of those that it starts with. -/
def textMacros : List TextMacro :=
  [⟨"improper".toList, textMacroImproper, true⟩, ⟨"himself".toList, textMacroReflexive, false⟩,
    ⟨"Himself".toList, textMacroReflexive, false⟩, ⟨"herself".toList, textMacroReflexive, false⟩,
    ⟨"Herself".toList, textMacroReflexive, false⟩, ⟨"proper".toList, textMacroProper, true⟩,
    ⟨"Roman".toList, textMacroRomanUpper, true⟩, ⟨"roman".toList, textMacroRoman, true⟩,
    ⟨"Hers".toList, textMacroPossessiveUpper, false⟩,
    ⟨"hers".toList, textMacroPossessive, false⟩, ⟨"The".toList, textMacroTheUpper, true⟩,
    ⟨"the".toList, textMacroThe, true⟩, ⟨"She".toList, textMacroSubjectUpper, false⟩,
    ⟨"she".toList, textMacroSubject, false⟩,
    ⟨"His".toList, textMacroPossessiveAdjectiveUpper, false⟩,
    ⟨"his".toList, textMacroPossessiveAdjective, false⟩, ⟨"him".toList, textMacroObject, false⟩,
    ⟨"An".toList, textMacroAUpper, true⟩, ⟨"an".toList, textMacroA, true⟩,
    ⟨"He".toList, textMacroSubjectUpper, false⟩, ⟨"he".toList, textMacroSubject, false⟩,
    ⟨"th".toList, textMacroOrdinal, false⟩, ⟨"A".toList, textMacroAUpper, true⟩,
    ⟨"a".toList, textMacroA, true⟩, ⟨"s".toList, textMacroPlural, false⟩]

def escapedCharacter : Char → List Char
  | 'n' => ['\n']
  | 'r' => ['\r']
  | 't' => ['\t']
  | '\\' => ['\\']
  | '"' => ['"']
  | '[' => ['[']
  | ']' => [']']
  | other => ['\\', other]

/-- What the text behind a backslash stands for, and how much of it. -/
def decodeEscape (remaining : List Char) : List TextToken × Nat :=
  match remaining with
  | [] => ([.literal '\\'], 0)
  | escaped :: _ =>
    match textMacros.find? fun spelled => spelled.spelling.isPrefixOf remaining with
    | some found =>
      let length := found.spelling.length
      ([.marker found.marker],
        if found.isPrefix && (remaining.drop length).head? == some ' ' then length + 1 else length)
    | none => ((escapedCharacter escaped).map .literal, 1)

/-- The decoded text behind so many characters. -/
def decodeFrom : Nat → List Char → List TextToken
  | _, [] => []
  | skip + 1, _ :: rest => decodeFrom skip rest
  | 0, character :: rest =>
    if character ≠ '\\' then .literal character :: decodeFrom 0 rest
    else (decodeEscape rest).1 ++ decodeFrom (decodeEscape rest).2 rest

def decodedTokens (text : List Char) : List TextToken := decodeFrom 0 text

def decodeQuotedTextFragment (text : List Char) : List Char :=
  (decodedTokens text).map TextToken.character

/-! ## Holes -/

def escapedOpen : Char := Char.ofNat 0xe000
def escapedClose : Char := Char.ofNat 0xe001

def protectedPair (escaped : Char) : List Char :=
  if escaped = '[' then [escapedOpen] else if escaped = ']' then [escapedClose]
  else ['\\', escaped]

/-- Escaped brackets give way to private characters. -/
def protectBrackets : List Char → List Char
  | [] => []
  | [character] => [character]
  | character :: escaped :: rest =>
    if character ≠ '\\' then character :: protectBrackets (escaped :: rest)
    else protectedPair escaped ++ protectBrackets rest

def restoreBracket (character : Char) : Char :=
  if character = escapedOpen then '[' else if character = escapedClose then ']' else character

def literalText (text : List Char) : List Char :=
  decodeQuotedTextFragment (text.map restoreBracket)

/-- How far it is to the bracket that closes this many, from inside of a quote or not. -/
def closeFrom : Nat → Option Char → Bool → List Char → Option Nat
  | _, _, _, [] => none
  | depth, some delimiter, escaped, character :: rest =>
    (if escaped then closeFrom depth (some delimiter) false rest
      else if character = '\\' then closeFrom depth (some delimiter) true rest
      else if character = delimiter then closeFrom depth none false rest
      else closeFrom depth (some delimiter) false rest).map (· + 1)
  | depth, none, escaped, character :: rest =>
    if character = '"' ∨ character = '\'' then
      (closeFrom depth (some character) escaped rest).map (· + 1)
    else if character = '[' then (closeFrom (depth + 1) none escaped rest).map (· + 1)
    else if character = ']' then
      if depth = 1 then some 0 else (closeFrom (depth - 1) none escaped rest).map (· + 1)
    else (closeFrom depth none escaped rest).map (· + 1)

def interpolatedExpressionClose (text : List Char) : Option Nat := closeFrom 1 none false text

/--
The holes of a text, each as the length of the fragment in front of it and its
own, when `before` characters of a fragment are read and `skip` are to be passed.
-/
def holeSpansFrom : Nat → Nat → List Char → List (Nat × Nat)
  | _, _, [] => []
  | before, skip + 1, _ :: rest => holeSpansFrom before skip rest
  | before, 0, character :: rest =>
    if character = '[' then
      match interpolatedExpressionClose rest with
      | some length => (before, length) :: holeSpansFrom 0 (length + 1) rest
      | none => []
    else holeSpansFrom (before + 1) 0 rest

def holeSpans (text : List Char) : List (Nat × Nat) := holeSpansFrom 0 0 text

/-- A text cut at its holes: fragments with the holes behind them, and the rest. -/
def cutAt {α : Type} : List (Nat × Nat) → List α → List (List α × List α) × List α
  | [], text => ([], text)
  | (before, length) :: spans, text =>
    let behind := cutAt spans (text.drop (before + length + 2))
    ((text.take before, (text.drop (before + 1)).take length) :: behind.1, behind.2)

/-! ## Templates of texts -/

variable {E : Type}

inductive TextExpression (E : Type) where
  | text (characters : List Char)
  | template (template : List Char) (interpolations : List E)

def isBlank (hole : List Char) : Bool := (trim hole).isEmpty

/-- The template of the fragments and holes, and the expressions in the holes. -/
def interpolate (parse : List Char → Except String E) :
    List (List Char × List Char) → Except String (List Char × List E)
  | [] => .ok ([], [])
  | (fragment, hole) :: rest =>
    if isBlank hole then interpolate parse rest
    else do
      let expression ← parse hole
      let behind ← interpolate parse rest
      return (literalText fragment ++ "[]".toList ++ behind.1, expression :: behind.2)

def parseInterpolatedString (parse : List Char → Except String E) (text : List Char) :
    Except String (TextExpression E) := do
  let text := protectBrackets text
  let cut := cutAt (holeSpans text) text
  let interpolated ← interpolate parse cut.1
  if interpolated.2.isEmpty then return .text (literalText text)
  else return .template (interpolated.1 ++ literalText cut.2) interpolated.2

/-!
# What an interpolated text says

An interpolated text as its fragments and embedded expressions. Its items are
the decoded characters and macros of every fragment and one hole for every
embedded expression, and its reading is their concatenation: a macro changes
how a value is spelled and takes no character of a fragment away.
-/

/-! ## Pieces -/

/-- A character of a text whose escaped brackets are read as one. -/
inductive Atom where
  | plain (character : Char)
  | escapedOpen
  | escapedClose
deriving DecidableEq, Repr

namespace Atom

def protectedCharacter : Atom → Char
  | plain character => character
  | escapedOpen => Dream64.escapedOpen
  | escapedClose => Dream64.escapedClose

/-- The atom in the text itself. -/
def source : Atom → List Char
  | plain character => [character]
  | escapedOpen => ['\\', '[']
  | escapedClose => ['\\', ']']

end Atom

def escapedAtoms (escaped : Char) : List Atom :=
  if escaped = '[' then [.escapedOpen] else if escaped = ']' then [.escapedClose]
  else [.plain '\\', .plain escaped]

def atoms : List Char → List Atom
  | [] => []
  | [character] => [.plain character]
  | character :: escaped :: rest =>
    if character ≠ '\\' then .plain character :: atoms (escaped :: rest)
    else escapedAtoms escaped ++ atoms rest

def sourceOf (fragment : List Atom) : List Char := fragment.flatMap Atom.source

theorem protectBrackets_eq (text : List Char) :
    protectBrackets text = (atoms text).map Atom.protectedCharacter := by
  induction text using atoms.induct with
  | case1 => rfl
  | case2 character => rfl
  | case3 character escaped rest hne ih =>
    rw [atoms, protectBrackets, if_pos hne, if_pos hne, ih]
    rfl
  | case4 character escaped rest heq ih =>
    rw [atoms, protectBrackets, if_neg heq, if_neg heq, List.map_append, ih, protectedPair,
      escapedAtoms]
    split_ifs <;> rfl

/-- The fragments of a text with the holes behind them, and the fragment at its end. -/
def pieces (text : List Char) : List (List Atom × List Atom) × List Atom :=
  cutAt (holeSpans (protectBrackets text)) (atoms text)

def fragments (text : List Char) : List (List Atom) :=
  (pieces text).1.map Prod.fst ++ [(pieces text).2]

def holeText (hole : List Atom) : List Char := hole.map Atom.protectedCharacter

/-- The texts of the embedded expressions. -/
def embeddedTexts (text : List Char) : List (List Char) :=
  ((pieces text).1.map fun piece => holeText piece.2).filter fun hole => !isBlank hole

/-! ## Items -/

def fragmentTokens (fragment : List Atom) : List TextToken := decodedTokens (sourceOf fragment)

def fragmentItems (fragment : List Atom) : List TemplateItem :=
  (fragmentTokens fragment).map .token

def holeItems (hole : List Atom) : List TemplateItem :=
  if isBlank (holeText hole) then [] else [.hole]

def pieceItems (piece : List Atom × List Atom) : List TemplateItem :=
  fragmentItems piece.1 ++ holeItems piece.2

/-- All decoded fragments in order, with the embedded expressions at their places. -/
def literalItems (text : List Char) : List TemplateItem :=
  (pieces text).1.flatMap pieceItems ++ fragmentItems (pieces text).2

/-! ## The reading -/

variable {σ Target : Type} (host : TemplateHost σ Target) (state : σ)

/-- Text in the reading: of a fragment, or of a value and its macros. -/
inductive Spelled where
  | literal (character : Char)
  | formatted (character : Char)
deriving DecidableEq, Repr

namespace Spelled

def character : Spelled → Char
  | literal character => character
  | formatted character => character

def isLiteral : Spelled → Bool
  | literal _ => true
  | formatted _ => false

end Spelled

/-- What stands in front of the last value, and what from there on. -/
structure Reading where
  before : List Char
  since : List Spelled
  values : List Value
  pendingPrefix : Option Char
  previousValue : Option Value

def Reading.text (r : Reading) : List Char := r.before ++ r.since.map Spelled.character

/-- The ordinal takes the place of the spelled value, and the fragments stay. -/
def readSuffix (suffix : Char) (previous : Option Value) (since : List Spelled) : List Spelled :=
  match previous with
  | none => since
  | some previous =>
    if suffix = textMacroOrdinal then
      (ordinalText previous).map .formatted ++ since.filter Spelled.isLiteral
    else since ++ (suffixWord host state suffix previous).map .formatted

def readItem (r : Reading) : TemplateItem → Fallible String Reading
  | .token (.literal character) => .value { r with since := r.since ++ [.literal character] }
  | .token (.marker character) =>
    if prefixMarkers.elem character then .value { r with pendingPrefix := some character }
    else .value { r with since := readSuffix host state character r.previousValue r.since }
  | .hole =>
    match r.values with
    | [] => .error "an embedded expression has no value"
    | value :: values =>
      (formatTextInterpolation host state value r.pendingPrefix).map fun formatted =>
        { before := r.text, since := formatted.map .formatted, values := values,
          pendingPrefix := none, previousValue := some value }

def readItems (items : List TemplateItem) (values : List Value) : Fallible String (List Char) :=
  (Fallible.fold (readItem host state) ⟨[], [], values, none, none⟩ items).map Reading.text

/-- Characters and the texts of values, one after the other. -/
def concatenation : List TemplateItem → List (List Char) → List Char
  | [], _ => []
  | .token token :: items, texts => token.character :: concatenation items texts
  | .hole :: items, texts => texts.headD [] ++ concatenation items texts.tail

/-- Without macros the reading is the concatenation of fragments and values. -/
theorem readItems_eq_concatenation {items : List TemplateItem} {values : List Value}
    {texts : List (List Char)} (hmarker : ∀ m, .token (.marker m) ∉ items)
    (hcount : items.count .hole = values.length)
    (htexts : List.Forall₂ (fun value text => textMacroVisible host state value = .value text)
      values texts) :
    readItems host state items values = .value (concatenation items texts) := by
  have hfold : ∀ r : Reading, items.count .hole = r.values.length → r.pendingPrefix = none →
      List.Forall₂ (fun value text => textMacroVisible host state value = .value text)
        r.values texts →
      (Fallible.fold (readItem host state) r items).map Reading.text =
        .value (r.text ++ concatenation items texts) := by
    clear hcount htexts
    induction items generalizing texts with
    | nil =>
      intro r _ _ _
      show Fallible.value r.text = _
      rw [concatenation, List.append_nil]
    | cons item items ih =>
      have hrest : ∀ m, TemplateItem.token (.marker m) ∉ items :=
        fun m hm => hmarker m (List.mem_cons_of_mem _ hm)
      intro r hcount hpending htexts
      cases item with
      | token token =>
        rw [List.count_cons_of_ne (by simp)] at hcount
        cases token with
        | literal c =>
          have hnext := ih hrest { r with since := r.since ++ [.literal c] } hcount hpending htexts
          have htext : Reading.text { r with since := r.since ++ [.literal c] } =
              r.text ++ [c] := by
            simp [Reading.text, Spelled.character]
          rw [htext, List.append_assoc] at hnext
          exact hnext
        | marker m => exact absurd List.mem_cons_self (hmarker m)
      | hole =>
        cases hvalues : r.values with
        | nil =>
          rw [hvalues, List.count_cons_self] at hcount
          exact absurd hcount (by simp)
        | cons value values =>
          rw [hvalues] at hcount htexts
          rw [List.count_cons_self, List.length_cons] at hcount
          cases htexts with
          | @cons _ text _ texts hvalue htexts =>
            have hformat : formatTextInterpolation host state value r.pendingPrefix =
                .value text := by
              rw [formatTextInterpolation, hvalue, hpending]
              rfl
            have hnext := ih hrest ⟨r.text, text.map .formatted, values, none, some value⟩
              (Nat.succ.inj hcount) rfl htexts
            have htext : Reading.text ⟨r.text, text.map .formatted, values, none, some value⟩ =
                r.text ++ text := by
              rw [Reading.text, List.map_map]
              exact congrArg (r.text ++ ·) (List.map_id text)
            rw [htext, List.append_assoc] at hnext
            rw [Fallible.fold, readItem, hvalues]
            show (((formatTextInterpolation host state value r.pendingPrefix).map _).bind _).map _ =
              _
            rw [hformat]
            exact hnext
  exact hfold ⟨[], [], values, none, none⟩ hcount rfl htexts

/-- The text with the values of its expressions. -/
def literalReading (text : List Char) (values : List Value) : Fallible String (List Char) :=
  readItems host state (literalItems text) values

end Dream64
