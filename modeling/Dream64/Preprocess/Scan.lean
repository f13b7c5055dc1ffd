import Dream64.Core
import Dream64.Library.ByteSlices

/-!
# Preprocessor directives

The lines of a source file that are directives, with the range each of them
takes. A `#define` goes on as long as its lines are continued, or to the end of
a raw string. An operation of the source that panics has no result here.
-/

namespace Dream64.Preprocess

open ByteText

abbrev Text := List Char

/-- `char::is_whitespace`, the property White_Space of Unicode. -/
def isWhitespace (c : Char) : Bool :=
  (0x09 ≤ c.toNat && c.toNat ≤ 0x0d) || c.toNat == 0x20 || c.toNat == 0x85 || c.toNat == 0xa0 ||
    c.toNat == 0x1680 || (0x2000 ≤ c.toNat && c.toNat ≤ 0x200a) || c.toNat == 0x2028 ||
    c.toNat == 0x2029 || c.toNat == 0x202f || c.toNat == 0x205f || c.toNat == 0x3000

def isIdentifierCharacter (c : Char) : Bool := c.isAlphanum || c == '_'

def trimStart (text : Text) : Text := text.dropWhile isWhitespace

def trimEndMatches (p : Char → Bool) (text : Text) : Text := (text.reverse.dropWhile p).reverse

def trimEnd (text : Text) : Text := trimEndMatches isWhitespace text

def trim (text : Text) : Text := trimEnd (trimStart text)

/-- The text without a leading or, in `dropEnding`, a trailing pattern. -/
def dropLeading (pattern : String) (text : Text) : Option Text :=
  if pattern.toList.isPrefixOf text then some (text.drop pattern.length) else none

def dropEnding (pattern : String) (text : Text) : Option Text :=
  if pattern.toList.isSuffixOf text then some (text.take (text.length - pattern.length)) else none

/-! ## Kinds of directives -/

inductive IncludeDelimiter where
  | quoted
  | system
deriving DecidableEq, Repr

structure MacroParameters where
  fixed : List String
  variadic : Option String
  valid : Bool
deriving DecidableEq, Repr

structure MacroDefinition where
  replacement : Text
  parameters : Option MacroParameters
deriving DecidableEq, Repr

inductive DirectiveKind where
  | includeFile (spelling : String) (delimiter : IncludeDelimiter)
  | define (name : String) (value : Text) (parameters : Option MacroParameters)
  | undef (name : String)
  | ifExpression (expression : Text)
  | ifdef (name : String)
  | ifndef (name : String)
  | elifExpression (expression : Text)
  | elseBranch
  | endif
  | error (message : Text)
  | warning (message : Text)
  | pragma (value : Text)
  | malformed (message : String)

structure Directive where
  kind : DirectiveKind
  span : SourceSpan

/-! ## A directive line -/

def identifier (value : Text) : Option String :=
  let name := value.takeWhile isIdentifierCharacter
  if name.isEmpty then none else some (String.ofList name)

def parseConditionalIdentifier (directive : String) (value : Text)
    (constructor : String → DirectiveKind) : DirectiveKind :=
  match identifier value with
  | none => .malformed (directive ++ " requires a macro name")
  | some name =>
    if (trim (value.drop name.length)).isEmpty then constructor name
    else .malformed (directive ++ " accepts exactly one macro name")

def parseInclude (value : Text) : Option DirectiveKind :=
  match value with
  | '"' :: quoted =>
    if '"' ∈ quoted then some (.includeFile (String.ofList (quoted.takeWhile (· != '"'))) .quoted)
    else none
  | '<' :: system =>
    if '>' ∈ system then some (.includeFile (String.ofList (system.takeWhile (· != '>'))) .system)
    else none
  | _ => none

/-- The name of a `#define` and whether it has parameters; the rest of its line. -/
def parseDefineLine (value : Text) : Option DirectiveKind :=
  let name := value.takeWhile isIdentifierCharacter
  let rest := value.dropWhile isIdentifierCharacter
  if name.isEmpty then none
  else if rest.head? = some '(' then
    some (.define (String.ofList name) ['1'] (some ⟨[], none, true⟩))
  else some (.define (String.ofList name) (trimStart rest) none)

def parseDirectiveLine (line : Text) : Option DirectiveKind :=
  match trimStart line with
  | '#' :: rest =>
    let directive := trimStart rest
    let value := trimStart (directive.dropWhile fun c => !isWhitespace c)
    match String.ofList (directive.takeWhile fun c => !isWhitespace c) with
    | "include" => parseInclude value
    | "define" => parseDefineLine value
    | "undef" => (identifier value).map .undef
    | "if" => some (if value.isEmpty then .malformed "#if requires a conditional expression"
        else .ifExpression value)
    | "ifdef" => some (parseConditionalIdentifier "#ifdef" value .ifdef)
    | "ifndef" => some (parseConditionalIdentifier "#ifndef" value .ifndef)
    | "elif" => some (if value.isEmpty then .malformed "#elif requires a conditional expression"
        else .elifExpression value)
    | "else" => some (if value.isEmpty then .elseBranch else .malformed "#else does not accept arguments")
    | "endif" => some (if value.isEmpty then .endif
        else .malformed "#endif does not accept arguments")
    | "error" => some (.error value)
    | "warn" => some (.warning value)
    | "pragma" => some (.pragma value)
    | _ => none
  | _ => none

/-! ## Comments -/

def emit (c : Char) (output : Text × Bool) : Text × Bool := (c :: output.1, output.2)

/-- The line with its comments replaced, and whether a block comment is open at its end. -/
def removeComments : (inBlock : Bool) → (quote : Option Char) → (escaped : Bool) → Text →
    Text × Bool
  | inBlock, _, _, [] => ([], inBlock)
  | true, _, _, '*' :: '/' :: line => emit ' ' (removeComments false none false line)
  | true, _, _, _ :: line => removeComments true none false line
  | false, some delimiter, true, c :: line => emit c (removeComments false (some delimiter) false line)
  | false, some delimiter, false, c :: line =>
    emit c (removeComments false (if c = delimiter ∧ c ≠ '\\' then none else some delimiter)
      (c = '\\') line)
  | false, none, _, '/' :: '/' :: _ => ([], false)
  | false, none, _, '/' :: '*' :: line => emit ' ' (removeComments true none false line)
  | false, none, _, c :: line =>
    emit c (removeComments false (if c = '"' ∨ c = '\'' then some c else none) false line)

/-- The lines of a macro, without comments. -/
def stripLines (inBlock : Bool) : Text → Text → Text
  | line, [] => (removeComments inBlock none false line.reverse).1
  | line, '\n' :: text =>
    let uncommented := removeComments inBlock none false line.reverse
    uncommented.1 ++ '\n' :: stripLines uncommented.2 [] text
  | line, c :: text => stripLines inBlock (c :: line) text

def stripMacroComments (text : Text) : Text := trimEnd (stripLines false [] text)

/-- A backslash before the end of a line joins it with the next one, without the spaces that
follow; `joined` is at the start of such a line. -/
def spliceContinuations (joined : Bool) : Text → Text
  | [] => []
  | ['\\'] => []
  | '\\' :: '\n' :: text => spliceContinuations true text
  | '\\' :: '\r' :: '\n' :: text => spliceContinuations true text
  | c :: text =>
    if joined ∧ (c = ' ' ∨ c = '\t') then spliceContinuations true text
    else c :: spliceContinuations false text

/-!
# Scanning a file for directives

`scanDirectives` goes through the physical lines of a file. The range of a
directive is its line; that of a `#define` also has the lines it goes on in.
The ranges lie behind each other (`scanDirectives_spans`).
-/

open String (utf8Len)

/-- `trim_end_matches(['\r', '\n'])` -/
def trimLineEnd (text : Text) : Text := trimEndMatches (fun c => c == '\r' || c == '\n') text

/-- The line without its newline. -/
def dropNewline (line : Text) : Text := (dropEnding "\n" line).getD line

/-! ## Definitions -/

def splitCommas (text : Text) : List Text := text.splitOn ','

def MacroParameters.add (parameters : MacroParameters) (parameter : Text) : MacroParameters :=
  let valid := parameters.valid && parameters.variadic.isNone
  if String.ofList parameter = "..." then
    { parameters with variadic := some "__VA_ARGS__", valid := valid }
  else match dropEnding "..." parameter with
    | some name =>
      { parameters with variadic := some (String.ofList (trim name)), valid := valid }
    | none =>
      { parameters with fixed := parameters.fixed ++ [String.ofList parameter], valid := valid }

def parseMacroParameters (source : Text) : MacroParameters :=
  ((splitCommas source).map trim).filter (fun parameter => !parameter.isEmpty)
    |>.foldl MacroParameters.add ⟨[], none, true⟩

/-- The text between two byte offsets; slicing panics if one of them is no boundary. -/
def sliceBytes (start stop : Nat) (text : Text) : Option Text :=
  if start ≤ stop then
    (splitBytes start text).bind fun parts => (splitBytes (stop - start) parts.2).map (·.1)
  else none

/-- The parameters behind the name of a macro, and its replacement. -/
def completeParameters (afterName : Text) : Option (Text × Option MacroParameters) :=
  if afterName.head? = some '(' then
    let parametersEnd := ((find [')'] afterName).map (· + 1)).getD (utf8Len afterName)
    (splitBytes parametersEnd afterName).bind fun parts =>
      (sliceBytes 1 (parametersEnd - 1) afterName).map fun parameters =>
        (parts.2, some (parseMacroParameters parameters))
  else some (afterName, none)

/-- The replacement and the parameters of a `#define` directive, with all its lines. -/
def completeDefine (directive : Text) (name : String) :
    Option (Text × Option MacroParameters) :=
  match (trimStart (trimLineEnd directive)).dropWhile (· != '#') with
  | [] => none
  | _ :: afterHash =>
    (dropLeading "define" (trimStart afterHash)).bind fun afterKeyword =>
      (dropLeading name (trimStart afterKeyword)).bind fun afterName =>
        (completeParameters afterName).map fun definition =>
          let replacement := trimStart definition.1
          if "\x7b\"".toList.isPrefixOf replacement then (replacement, definition.2)
          else (stripMacroComments (spliceContinuations false replacement), definition.2)

/-- A backslash at the end of the line, before trailing spaces. -/
def isContinued (line : Text) : Bool := (trimEnd (trimLineEnd line)).getLast? == some '\\'

/-- Where the continued lines end, the first of which ends at `stop`. -/
def continuedEnd (stop : Nat) (line : Text) : List Text → Nat
  | [] => stop
  | next :: rest => if isContinued line then continuedEnd (stop + utf8Len next) next rest else stop

/-- The end of the line that the byte offset is in. -/
def physicalLineEnd (text : Text) (start : Nat) : Option Nat :=
  (splitBytes start text).map fun parts =>
    ((find ['\n'] parts.2).map (start + · + 1)).getD (utf8Len text)

/-- The end of a `#define` in the text that begins at its line. A raw string is looked for in the
line without comments, at an offset that is then used in the text itself. -/
def extendedDefineEnd (text line uncommented : Text) : Option Nat :=
  match find "\x7b\"".toList uncommented with
  | some rawStart =>
    (splitBytes (rawStart + 2) text).bind fun parts =>
      match find "\"\x7d".toList parts.2 with
      | some relativeEnd => physicalLineEnd text (rawStart + 2 + relativeEnd + 2)
      | none => some (utf8Len text)
  | none => some (continuedEnd (utf8Len line) line ((lines text).drop 1))

/-! ## The scanner -/

/-- The end of a directive in the text that begins at its line. -/
def directiveEnd (text line uncommented : Text) (kind : DirectiveKind) : Option Nat :=
  match kind with
  | .define .. => extendedDefineEnd text line uncommented
  | _ => some (utf8Len line)

def completeKind (directive : Text) (kind : DirectiveKind) : Option DirectiveKind :=
  match kind with
  | .define name _ _ => (completeDefine directive name).map fun definition =>
    .define name definition.1 definition.2
  | kind => some kind

/-- The directives of a text that begins at `offset`; every line takes some of the fuel. -/
def scanFrom : (fuel : Nat) → (inBlock : Bool) → (offset : Nat) → Text → Option (List Directive)
  | 0, _, _, _ => some []
  | fuel + 1, inBlock, offset, text =>
    match lines text with
    | [] => some []
    | line :: rest =>
      let uncommented := removeComments inBlock none false (dropNewline line)
      match parseDirectiveLine uncommented.1 with
      | none => scanFrom fuel uncommented.2 (offset + utf8Len line) rest.flatten
      | some kind =>
        (directiveEnd text line uncommented.1 kind).bind fun stop =>
          (splitBytes stop text).bind fun parts =>
            (completeKind parts.1 kind).bind fun kind =>
              (scanFrom fuel uncommented.2 (offset + stop) parts.2).map
                (⟨kind, ⟨offset, offset + stop⟩⟩ :: ·)

def scanDirectives (source : Text) : Option (List Directive) :=
  scanFrom source.length false 0 source

/-- The ranges lie behind each other between two offsets. -/
def Ordered (limit : Nat) : Nat → List SourceSpan → Prop
  | offset, [] => offset ≤ limit
  | offset, span :: spans => offset ≤ span.start ∧ span.start ≤ span.stop ∧
      Ordered limit span.stop spans

theorem Ordered.le {limit offset : Nat} {spans : List SourceSpan} (h : Ordered limit offset spans) :
    offset ≤ limit := by
  induction spans generalizing offset with
  | nil => exact h
  | cons span spans ih => exact h.1.trans (h.2.1.trans (ih h.2.2))

theorem Ordered.mono {limit offset offset' : Nat} {spans : List SourceSpan}
    (h : Ordered limit offset spans) (hle : offset' ≤ offset) : Ordered limit offset' spans := by
  cases spans with
  | nil => exact hle.trans h
  | cons span spans => exact ⟨hle.trans h.1, h.2⟩

theorem scanFrom_spans {fuel offset : Nat} {inBlock : Bool} {text : Text}
    {directives : List Directive} (h : scanFrom fuel inBlock offset text = some directives) :
    Ordered (offset + utf8Len text) offset (directives.map (·.span)) := by
  induction fuel generalizing inBlock offset text directives with
  | zero =>
    cases h
    exact Nat.le_add_right ..
  | succ fuel ih =>
    rw [scanFrom] at h
    have hflatten := lines_flatten text
    cases hlines : lines text with
    | nil =>
      rw [hlines] at h
      cases h
      exact Nat.le_add_right ..
    | cons line rest =>
      rw [hlines] at h hflatten
      have hlength : utf8Len line + utf8Len rest.flatten = utf8Len text := by
        rw [← hflatten, List.flatten_cons, String.utf8Len_append]
      dsimp only at h
      split at h
      · have hrest := ih h
        rw [show offset + utf8Len line + utf8Len rest.flatten = offset + utf8Len text by omega]
          at hrest
        exact hrest.mono (Nat.le_add_right ..)
      · obtain ⟨stop, -, h⟩ := Option.bind_eq_some_iff.1 h
        obtain ⟨parts, hparts, h⟩ := Option.bind_eq_some_iff.1 h
        obtain ⟨kind, -, h⟩ := Option.bind_eq_some_iff.1 h
        obtain ⟨directives, hscan, rfl⟩ := Option.map_eq_some_iff.1 h
        have hsplit : utf8Len text = stop + utf8Len parts.2 := by
          rw [← splitBytes_append hparts, String.utf8Len_append, splitBytes_length hparts]
        have hrest := ih hscan
        rw [show offset + stop + utf8Len parts.2 = offset + utf8Len text by omega] at hrest
        exact ⟨le_rfl, Nat.le_add_right .., hrest⟩

theorem scanDirectives_spans {source : Text} {directives : List Directive}
    (h : scanDirectives source = some directives) :
    Ordered (utf8Len source) 0 (directives.map (·.span)) := by
  have hspans := scanFrom_spans h
  rwa [Nat.zero_add] at hspans

end Dream64.Preprocess
