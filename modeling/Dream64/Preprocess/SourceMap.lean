import Dream64.Preprocess.MacroExpansion

/-!
# The compiler source of a file and its source map

`CompilerSourceBuilder` puts the compiler source of a file together and maps
its ranges to ranges of the file; `originalSpan` reads the map. The builder
also keeps, as no part of the program, what each piece is and from which bytes
of the file, or from which invocation, each of its bytes comes.
-/

namespace Dream64

def SourceSpan.length (span : SourceSpan) : Nat := span.stop - span.start

namespace Preprocess

open String (utf8Len)

/-- What `original_span` has of a file. -/
structure CompiledFile where
  contents : Text
  compilerContents : Option Text
  compilerSourceMap : List SourceMapping

namespace CompiledFile

variable (file : CompiledFile)

/-- `compiler_text` -/
def compilerText : Text := file.compilerContents.getD file.contents

/-- Whether the byte at an offset is one of the mapped bytes. -/
def covers (probe : Nat) (mapping : SourceMapping) : Bool :=
  mapping.expanded.start ≤ probe &&
    (probe < mapping.expanded.stop ||
      (mapping.expanded.start == mapping.expanded.stop && probe == mapping.expanded.start))

def mapOffset (offset : Nat) (stop : Bool) (mapping : SourceMapping) : Nat :=
  if mapping.expanded.length = mapping.original.length then
    mapping.original.start + min (offset - mapping.expanded.start) mapping.expanded.length
  else if stop then mapping.original.stop
  else mapping.original.start

/-- `map_compiler_offset` -/
def mapCompilerOffset (offset : Nat) (stop : Bool) : Nat :=
  let probe := if stop && offset != 0 then offset - 1 else offset
  match (file.compilerSourceMap.find? (covers probe)).or file.compilerSourceMap.getLast? with
  | none => min offset (utf8Len file.contents)
  | some mapping => min (mapOffset offset stop mapping) (utf8Len file.contents)

/-- `original_span` -/
def originalSpan (span : SourceSpan) : SourceSpan :=
  if file.compilerSourceMap.isEmpty then span
  else
    let start := file.mapCompilerOffset span.start false
    let stop := file.mapCompilerOffset span.stop true
    ⟨min start stop, max start stop⟩

end CompiledFile

/-! ## Pieces -/

/-- Where a byte of the compiler source comes from. -/
inductive Origin where
  | byte (offset : Nat)
  | invocation (span : SourceSpan)
deriving DecidableEq, Repr

def Origin.span : Origin → SourceSpan
  | byte offset => ⟨offset, offset + 1⟩
  | invocation span => span

def Origin.shift (start : Nat) : Origin → Origin
  | byte offset => byte (start + offset)
  | invocation span => invocation ⟨start + span.start, start + span.stop⟩

inductive Provenance where
  /-- Text of the file, or its mask. -/
  | copied
  /-- What an invocation is replaced with. -/
  | replaced
  /-- The expansion of text with directives in it, which one mapping stands for. -/
  | deferred (origins : List Origin)

structure Piece where
  text : Text
  original : SourceSpan
  provenance : Provenance

namespace Piece

variable (piece : Piece)

/-- The bytes of a range one by one. -/
def oneByOne (start length : Nat) : List Origin := (List.range length).map fun i => .byte (start + i)

/-- Where each byte of the piece comes from. -/
def origins : List Origin :=
  match piece.provenance with
  | .copied => oneByOne piece.original.start (utf8Len piece.text)
  | .replaced => List.replicate (utf8Len piece.text) (.invocation piece.original)
  | .deferred origins => origins

/-- The lengths tell the piece apart: a replacement of two bytes or more is not as long as its
invocation. Deferred text that is as long as its range stands there byte for byte; other deferred
text comes from one invocation that is the complete range. -/
def Distinct : Prop :=
  match piece.provenance with
  | .copied => True
  | .replaced => utf8Len piece.text = piece.original.length → utf8Len piece.text ≤ 1
  | .deferred origins =>
    if utf8Len piece.text = piece.original.length then
      origins.map Origin.span = (oneByOne piece.original.start (utf8Len piece.text)).map Origin.span
    else ∀ origin ∈ origins, origin.span = piece.original

instance : DecidablePred Distinct
  | ⟨_, _, .copied⟩ => inferInstanceAs (Decidable True)
  | ⟨text, original, .replaced⟩ =>
    inferInstanceAs (Decidable (utf8Len text = original.length → utf8Len text ≤ 1))
  | ⟨text, original, .deferred origins⟩ =>
    inferInstanceAs (Decidable (if utf8Len text = original.length then
      origins.map Origin.span = (oneByOne original.start (utf8Len text)).map Origin.span
    else ∀ origin ∈ origins, origin.span = original))

end Piece

/-! ## The builder -/

structure CompilerSourceBuilder where
  contents : Text
  mappings : List SourceMapping
  pieces : List Piece

namespace CompilerSourceBuilder

variable (builder : CompilerSourceBuilder)

def new : CompilerSourceBuilder := ⟨[], [], []⟩

/-- Text with the range it is mapped to; empty text leaves no mapping. -/
def append (piece : Piece) : CompilerSourceBuilder :=
  if piece.text.isEmpty then builder
  else
    let start := utf8Len builder.contents
    { contents := builder.contents ++ piece.text
      mappings := builder.mappings ++
        [⟨⟨start, start + utf8Len piece.text⟩, piece.original⟩]
      pieces := builder.pieces ++ [piece] }

/-- `append_original`, with the text of a range that begins at an offset. -/
def appendOriginal (start : Nat) (text : Text) : CompilerSourceBuilder :=
  builder.append ⟨text, ⟨start, start + utf8Len text⟩, .copied⟩

/-- `append_masked` -/
def appendMasked (start : Nat) (text : Text) : CompilerSourceBuilder :=
  builder.append ⟨maskedText text, ⟨start, start + utf8Len text⟩, .copied⟩

/-- `append_replacement` -/
def appendReplacement (replacement : Text) (invocation : SourceSpan) : CompilerSourceBuilder :=
  builder.append ⟨replacement, invocation, .replaced⟩

/-- Where each byte of the contents comes from. -/
def origins : List Origin := builder.pieces.flatMap Piece.origins

/-- `append_replacement` with what has been made of deferred text that begins at an offset. -/
def appendDeferred (expanded : CompilerSourceBuilder) (invocation : SourceSpan) :
    CompilerSourceBuilder :=
  builder.append ⟨expanded.contents, invocation,
    .deferred (expanded.origins.map (Origin.shift invocation.start))⟩

/-- A file with its compiler source, which is kept where it is not the file itself. -/
def compiled (original : Text) : CompiledFile :=
  if builder.contents = original then ⟨original, none, []⟩
  else ⟨original, some builder.contents, builder.mappings⟩

end CompilerSourceBuilder

/-! ## Generated definitions -/

def isLineEnd (c : Char) : Bool := c == '\r' || c == '\n'

/-- `split_generated_define`: the text before a `#define`, and the definition. -/
def splitGeneratedDefine : (fuel : Nat) → Text → Option Cut
  | 0, _ => none
  | _ + 1, [] => none
  | fuel + 1, c :: text =>
    match protectedText (c :: text) with
    | some cut => (splitGeneratedDefine fuel cut.2).map (Cut.behind cut.1)
    | none =>
      let defines := c = '#' ∧ (dropLeading "define" (skipHorizontalWhitespace text)).any fun rest =>
        rest.head?.all isWhitespace
      if defines then some ([], c :: text)
      else (splitGeneratedDefine fuel text).map (Cut.behind [c])

/-- `apply_generated_define` -/
def applyGeneratedDefine (directive : Text) (macros : Macros) : Expand Macros :=
  match parseDirectiveLine directive with
  | none => .error (.failed "macro generated a malformed #define directive")
  | some (.define name value parameters) =>
    .ok (Function.update macros name (some ⟨value, parameters⟩))
  | some _ => .error (.failed "macro generated a non-define directive")

/-! ## Expanded source -/

/-- What stands at the front of source text. -/
inductive Reading where
  /-- Text that stays as it is. -/
  | literal (cut : Cut)
  /-- An invocation and what replaces it, text behind it that is skipped, and what is left. -/
  | replaced (invocation replacement skipped rest : Text) (macros : Macros)

section

variable (fuel : Nat) (site : Site)

/-- An invocation with what its replacement defines. -/
def readInvocation (name : String) (arguments : Option (List Text)) (cut : Cut) : Expand Reading :=
  (site.expandMacro fuel [] name arguments).bind fun replacement =>
    if trim replacement = "#define".toList then
      let line := cut.2.span (!isLineEnd ·)
      (applyGeneratedDefine ("#define".toList ++ line.1) site.macros).map fun macros =>
        .replaced cut.1 [] line.1 line.2 macros
    else match splitGeneratedDefine (replacement.length + 1) replacement with
      | some generated =>
        (applyGeneratedDefine generated.2 site.macros).map fun macros =>
          .replaced cut.1 generated.1 [] cut.2 macros
      | none => .ok (.replaced cut.1 replacement [] cut.2 site.macros)

def readIdentifier (cut : Cut) : Expand Reading :=
  let name := String.ofList cut.1
  if name = "__FILE__" then .ok (.replaced cut.1 site.fileLiteral [] cut.2 site.macros)
  else if name = "__LINE__" then .ok (.replaced cut.1 (decimal site.line) [] cut.2 site.macros)
  else match site.macros name with
    | none => .ok (.literal cut)
    | some definition =>
      if definition.parameters.isNone then readInvocation fuel site name none cut
      else match macroInvocation cut.2 with
        | none => .ok (.literal cut)
        | some none => .error (.failed unterminatedInvocation)
        | some (some (arguments, inner)) =>
          readInvocation fuel site name (some arguments) (inner.behind cut.1)

/-- One turn of the loop of `append_expanded_source`. -/
def readSource (c : Char) (text : Text) : Expand Reading :=
  match protectedText (c :: text) with
  | some cut =>
    if c = '"' then
      (site.expandQuoted fuel [] cut.1).map fun expanded =>
        if expanded = cut.1 then .literal cut else .replaced cut.1 expanded [] cut.2 site.macros
    else .ok (.literal cut)
  | none =>
    if isIdentifierStart c then readIdentifier fuel site (cutIdentifier (c :: text))
    else .ok (.literal ([c], text))

end

/-- Why no source has been appended. -/
inductive SourceError where
  | failed (offset : Nat) (message : String)
  | panicked
  | outOfFuel
deriving DecidableEq

def ExpansionError.at (offset : Nat) : ExpansionError → SourceError
  | failed message => .failed offset message
  | panicked => .panicked
  | outOfFuel => .outOfFuel

/-- The loop of `append_expanded_source`: the literal text that has not been appended yet begins at
`start`; behind it lies the rest, which begins at `line`. -/
def appendLoop (expansionFuel : Nat) (fileLiteral : Text) :
    (fuel start : Nat) → (literal : Text) → (line : Nat) → (rest : Text) →
      CompilerSourceBuilder → Macros → Except SourceError CompilerSourceBuilder × Macros
  | 0, _, _, _, _, _, macros => (.error .outOfFuel, macros)
  | _ + 1, start, literal, _, [], builder, macros =>
    (.ok (builder.appendOriginal start literal), macros)
  | fuel + 1, start, literal, line, c :: rest, builder, macros =>
    let offset := start + utf8Len literal
    match readSource expansionFuel ⟨macros, fileLiteral, line⟩ c rest with
    | .error error => (.error (error.at offset), macros)
    | .ok (.literal cut) =>
      appendLoop expansionFuel fileLiteral fuel start (literal ++ cut.1)
        (line + cut.1.count '\n') cut.2 builder macros
    | .ok (.replaced invocation replacement skipped rest macros) =>
      let stop := offset + utf8Len invocation
      appendLoop expansionFuel fileLiteral fuel (stop + utf8Len skipped) []
        (line + (invocation ++ skipped).count '\n') rest
        ((builder.appendOriginal start literal).appendReplacement replacement ⟨offset, stop⟩) macros

/-- `append_expanded_source`, for text that begins at an offset and a line. -/
def CompilerSourceBuilder.appendExpandedSource (builder : CompilerSourceBuilder)
    (expansionFuel : Nat) (fileLiteral : Text) (start line : Nat) (text : Text) (macros : Macros) :
    Except SourceError CompilerSourceBuilder × Macros :=
  appendLoop expansionFuel fileLiteral (text.length + 1) start [] line text builder macros

end Preprocess

end Dream64
