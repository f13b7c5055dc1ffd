import Dream64.Preprocess.Scan

/-!
# The project loader

The loader reads the root file of a project and, in the order of the
directives, the files they include, each of them once. The file system, the
expansion of macros in ordinary text and the value of conditional expressions
are parameters. The recursion of `loadFile` takes fuel.
-/

namespace Dream64.Preprocess

open String (utf8Len)

/-! ## Files and includes -/

/-- A file by its place in the order of discovery. -/
abbrev FileId := Nat

inductive FileKind where
  | environment
  | source
  | map
  | interface
  | resource
deriving DecidableEq, Repr

/-- `FileKind::from_path`, from the extension in lower case. -/
def FileKind.ofExtension (extension : Option String) : FileKind :=
  match extension with
  | some "dme" => .environment
  | some "dm" => .source
  | some "dmm" => .map
  | some "dmf" => .interface
  | _ => .resource

def FileKind.canContainIncludes : FileKind → Bool
  | .environment | .source => true
  | _ => false

structure ProjectFile (Path : Type) where
  id : FileId
  path : Path
  relativePath : Path
  kind : FileKind
  contents : ByteArray
  compilerContents : Option Text

inductive IncludeTarget where
  | file (id : FileId)
  | system (spelling : String)
deriving DecidableEq, Repr

structure IncludeEdge where
  source : FileId
  target : IncludeTarget
  spelling : String
  span : SourceSpan
deriving DecidableEq, Repr

inductive PragmaSeverity where
  | disabled
  | notice
  | warning
  | error
deriving DecidableEq, Repr

structure DiagnosticPragma where
  name : String
  severity : PragmaSeverity
  source : FileId
  span : SourceSpan
deriving DecidableEq, Repr

structure WarningDirective where
  message : Text
  source : FileId
  span : SourceSpan
deriving DecidableEq, Repr

inductive ProjectError (Path : Type) where
  | io (path : Path)
  | invalidUtf8 (path : Path)
  | missingInclude (sourceFile : Path) (spelling : String)
  | outsideProject (sourceFile target : Path)
  | preprocessor (path : Path) (offset : Nat) (message : String)
  | macroExpansion (path : Path) (offset : Nat) (message : String)

/-- Why the loader gives no project. -/
inductive Halt (Path : Type) where
  | error (error : ProjectError Path)
  | panicked
  | outOfFuel

abbrev Macros := String → Option MacroDefinition

/-- A range of the expanded source and the range of the file it comes from. -/
structure SourceMapping where
  expanded : SourceSpan
  original : SourceSpan
deriving DecidableEq, Repr

/-- The operations on paths and files. -/
structure FileSystem (Path : Type) where
  canonicalize : Path → Option Path
  isFile : Path → Bool
  read : Path → Option ByteArray
  extension : Path → Option String
  parent : Path → Path
  join : Path → String → Path
  /-- `starts_with` -/
  isInside : Path → Path → Bool
  relativeTo : Path → Path → Path
  separator : Char

/-- What the preprocessor does with text. -/
structure Preprocessor (Path : Type) where
  /-- `append_expanded_source` on a text that begins at a line: what it appends, or the offset and
  the message of its error, and the macros that generated definitions leave. -/
  expand : Path → (line : Nat) → Text → Macros → Except (Nat × String) Text × Macros
  /-- `ConditionParser::parse` with the macros and the project directory. -/
  evaluate : (source root : Path) → Text → Macros → Except String Bool

structure Loader (Path : Type) where
  rootFile : Path
  rootDirectory : Path
  files : List (ProjectFile Path)
  includes : List (Nat × IncludeEdge)
  identities : Path → Option FileId
  macros : Macros
  nextIncludeOrdinal : Nat
  warningDirectiveIsError : Bool
  duplicateIncludeIsError : Bool
  diagnosticPragmas : List DiagnosticPragma
  warningDirectives : List WarningDirective
  /-- The files whose directives have been processed, in the order in which that began. -/
  processed : List FileId

/-! ## Conditionals -/

inductive ConditionalBranchState where
  | noneTaken
  | taken
  | else
deriving DecidableEq, Repr

structure ConditionalFrame where
  parentActive : Bool
  active : Bool
  branchState : ConditionalBranchState
  openingOffset : Nat
deriving DecidableEq, Repr

namespace ConditionalFrame

def new (parentActive condition : Bool) (openingOffset : Nat) : ConditionalFrame where
  parentActive := parentActive
  active := parentActive && condition
  branchState := if condition then .taken else .noneTaken
  openingOffset := openingOffset

def activateAlternative (frame : ConditionalFrame) (condition : Bool) : ConditionalFrame :=
  let selected := frame.branchState == .noneTaken && condition
  { frame with
    active := frame.parentActive && selected
    branchState := if selected then .taken else frame.branchState }

def activateElse (frame : ConditionalFrame) : ConditionalFrame :=
  { frame with
    active := frame.parentActive && frame.branchState == .noneTaken
    branchState := .else }

end ConditionalFrame

/-- The innermost conditional is the first. -/
def conditionalActive : List ConditionalFrame → Bool
  | [] => true
  | frame :: _ => frame.active

/-! ## Directives -/

section

variable {Path : Type} [DecidableEq Path] (fs : FileSystem Path) (preprocessor : Preprocessor Path)

/-- A step of the loader. -/
abbrev Load (Path α : Type) := Except (Halt Path) α

def preprocessorError {α : Type} (path : Path) (offset : Nat) (message : String) : Load Path α :=
  .error (.error (.preprocessor path offset message))

def directiveMessageSuffix (message : Text) : String :=
  if (trim message).isEmpty then "" else " " ++ String.ofList (trim message)

def canonicalize (path : Path) : Load Path Path :=
  match fs.canonicalize path with
  | some path => .ok path
  | none => .error (.error (.io path))

def splitWhitespace (text : Text) : List String :=
  ((text.splitOnP isWhitespace).filter fun word => !word.isEmpty).map String.ofList

def pragmaSeverity : Option String → Option PragmaSeverity
  | some "disabled" => some .disabled
  | some "notice" | some "info" => some .notice
  | some "warning" | some "warn" => some .warning
  | some "error" => some .error
  | _ => none

namespace Loader

variable (L : Loader Path)

/-- `apply_pragma` -/
def applyPragma (source : FileId) (span : SourceSpan) (value : Text) : Loader Path :=
  let words := splitWhitespace value
  let L := match words with
    | "WarningDirective" :: "error" :: _ => { L with warningDirectiveIsError := true }
    | "WarningDirective" :: "warning" :: _ | "WarningDirective" :: "disabled" :: _ =>
      { L with warningDirectiveIsError := false }
    | "FileAlreadyIncluded" :: "error" :: _ => { L with duplicateIncludeIsError := true }
    | "FileAlreadyIncluded" :: "warning" :: _ | "FileAlreadyIncluded" :: "disabled" :: _ =>
      { L with duplicateIncludeIsError := false }
    | _ => L
  match words.head?, pragmaSeverity words[1]? with
  | some name, some severity =>
    { L with diagnosticPragmas := L.diagnosticPragmas ++ [⟨name, severity, source, span⟩] }
  | _, _ => L

def evaluate (path : Path) (offset : Nat) (expression : Text) : Load Path Bool :=
  match preprocessor.evaluate path L.rootDirectory expression L.macros with
  | .ok value => .ok value
  | .error message => preprocessorError path offset message

/-- `resolve_quoted` -/
def resolveQuoted (sourceFile : Path) (spelling : String) : Load Path Path :=
  let portable := spelling.map fun c => if c = '\\' ∨ c = '/' then fs.separator else c
  let sourceCandidate := fs.join (fs.parent sourceFile) portable
  let rootCandidate := fs.join L.rootDirectory portable
  let candidate := if fs.isFile sourceCandidate then some sourceCandidate
    else if fs.isFile rootCandidate then some rootCandidate else none
  match candidate with
  | none => .error (.error (.missingInclude sourceFile spelling))
  | some candidate =>
    (canonicalize fs candidate).bind fun canonical =>
      if fs.isInside L.rootDirectory canonical then .ok canonical
      else .error (.error (.outsideProject sourceFile canonical))

/-- The target of an include; a quoted one is a file that is loaded unless it has been. -/
def includeTarget (loadFile : Path → Loader Path → Load Path (FileId × Loader Path)) (path : Path)
    (spelling : String) (delimiter : IncludeDelimiter) (offset : Nat) :
    Load Path (IncludeTarget × Loader Path) :=
  match delimiter with
  | .system => .ok (.system spelling, L)
  | .quoted =>
    (resolveQuoted fs L path spelling).bind fun target =>
      if L.duplicateIncludeIsError && (L.identities target).isSome then
        preprocessorError path offset ("file already included: " ++ spelling.quote)
      else (loadFile target L).map fun r => (.file r.1, r.2)

/-- `process_include` -/
def processInclude (loadFile : Path → Loader Path → Load Path (FileId × Loader Path))
    (source : FileId) (path : Path) (spelling : String) (delimiter : IncludeDelimiter)
    (span : SourceSpan) : Load Path (Loader Path) :=
  (includeTarget fs { L with nextIncludeOrdinal := L.nextIncludeOrdinal + 1 } loadFile path
    spelling delimiter span.start).map fun r =>
      { r.2 with includes :=
          r.2.includes ++ [(L.nextIncludeOrdinal, ⟨source, r.1, spelling, span⟩)] }

/-- The directives on conditionals; those of the other kinds leave them alone. -/
def processConditional (path : Path) (offset : Nat) (kind : DirectiveKind)
    (conditionals : List ConditionalFrame) : Load Path (List ConditionalFrame) :=
  let active := conditionalActive conditionals
  match kind with
  | .ifExpression expression =>
    (evaluate preprocessor L path offset expression).map fun condition =>
      .new active condition offset :: conditionals
  | .ifdef name => .ok (.new active (L.macros name).isSome offset :: conditionals)
  | .ifndef name => .ok (.new active (L.macros name).isNone offset :: conditionals)
  | .elifExpression expression =>
    match conditionals with
    | [] => preprocessorError path offset "#elif without matching #if"
    | frame :: outer =>
      if frame.branchState = .else then
        preprocessorError path offset
          s!"#elif after #else for conditional opened at byte {frame.openingOffset}"
      else (evaluate preprocessor L path offset expression).map fun condition =>
        frame.activateAlternative condition :: outer
  | .elseBranch =>
    match conditionals with
    | [] => preprocessorError path offset "#else without matching #if"
    | frame :: outer =>
      if frame.branchState = .else then
        preprocessorError path offset
          s!"duplicate #else for conditional opened at byte {frame.openingOffset}"
      else .ok (frame.activateElse :: outer)
  | .endif =>
    match conditionals with
    | [] => preprocessorError path offset "#endif without matching #if"
    | _ :: outer => .ok outer
  | .malformed message => preprocessorError path offset message
  | _ => .ok conditionals

/-- What an active directive does, other than one on conditionals. -/
def processActive (loadFile : Path → Loader Path → Load Path (FileId × Loader Path))
    (source : FileId) (path : Path) (directive : Directive) : Load Path (Loader Path) :=
  match directive.kind with
  | .define name value parameters =>
    if parameters.any fun parameters => !parameters.valid then
      preprocessorError path directive.span.start "variadic macro parameter must be last"
    else .ok { L with macros := Function.update L.macros name (some ⟨value, parameters⟩) }
  | .undef name => .ok { L with macros := Function.update L.macros name none }
  | .includeFile spelling delimiter =>
    processInclude fs L loadFile source path spelling delimiter directive.span
  | .error message =>
    preprocessorError path directive.span.start ("#error" ++ directiveMessageSuffix message)
  | .warning message =>
    if L.warningDirectiveIsError then
      preprocessorError path directive.span.start ("#warn" ++ directiveMessageSuffix message)
    else .ok { L with
      warningDirectives := L.warningDirectives ++ [⟨trim message, source, directive.span⟩] }
  | .pragma value => .ok (applyPragma L source directive.span value)
  | _ => .ok L

/-- `process_directive` -/
def processDirective (loadFile : Path → Loader Path → Load Path (FileId × Loader Path))
    (source : FileId) (path : Path) (directive : Directive)
    (conditionals : List ConditionalFrame) :
    Load Path (List ConditionalFrame × Loader Path) :=
  (processConditional preprocessor L path directive.span.start directive.kind conditionals).bind
    fun conditionals' =>
      if conditionalActive conditionals then
        (processActive fs L loadFile source path directive).map (conditionals', ·)
      else .ok (conditionals', L)

end Loader

/-! ## The source of a file for the compiler -/

/-- A byte as it is in masked text. -/
def maskedByte (c : Char) : Text :=
  if c = '\r' ∨ c = '\n' then [c] else List.replicate c.utf8Size ' '

/-- `masked_text` -/
def maskedText (text : Text) : Text := text.flatMap maskedByte

/-- `source_line_number` -/
def sourceLineNumber (before : Text) : Nat := before.count '\n' + 1

def unterminatedInvocation : String := "unterminated function macro invocation"

/-- What `process_directives` has of a file: the text before and behind the cursor, the compiler
source, the open conditionals, and an expansion that waits for more text, with its offset. -/
structure SourceState where
  before : Text
  compilerSource : Text
  conditionals : List ConditionalFrame
  deferredExpansion : Option (Nat × Text)

namespace SourceState

variable (state : SourceState) (macros : Macros) (path : Path)

def append (text : Text) : SourceState :=
  { state with compilerSource := state.compilerSource ++ text }

/-- Masked text, which an expansion that waits takes as well. -/
def mask (text : Text) : SourceState :=
  match state.deferredExpansion with
  | some (start, deferred) =>
    { state with
      before := state.before ++ text
      deferredExpansion := some (start, deferred ++ maskedText text) }
  | none =>
    { state with
      before := state.before ++ text
      compilerSource := state.compilerSource ++ maskedText text }

/-- Ordinary text that is active. -/
def expand (text : Text) : Load Path (SourceState × Macros) :=
  match state.deferredExpansion with
  | some (start, deferred) =>
    match preprocessor.expand path 1 (deferred ++ text) macros with
    | (.ok contents, macros) =>
      .ok ({ state with
        before := state.before ++ text
        compilerSource := state.compilerSource ++ contents
        deferredExpansion := none }, macros)
    | (.error (offset, message), macros) =>
      if message = unterminatedInvocation then
        .ok ({ state with
          before := state.before ++ text
          deferredExpansion := some (start, deferred ++ text) }, macros)
      else .error (.error (.macroExpansion path offset message))
  | none =>
    match preprocessor.expand path (sourceLineNumber state.before) text macros with
    | (.ok contents, macros) =>
      .ok ({ state with
        before := state.before ++ text
        compilerSource := state.compilerSource ++ contents }, macros)
    | (.error (offset, message), macros) =>
      if message = unterminatedInvocation then
        .ok ({ state with
          before := state.before ++ text
          deferredExpansion := some (utf8Len state.before, text) }, macros)
      else .error (.error (.macroExpansion path (utf8Len state.before + offset) message))

/-- Ordinary text up to the next directive. -/
def ordinary (text : Text) : Load Path (SourceState × Macros) :=
  if conditionalActive state.conditionals then expand preprocessor state macros path text
  else .ok (state.mask text, macros)

/-- The text behind the last directive, where no expansion may wait any longer. -/
def tail (text : Text) : Load Path (SourceState × Macros) :=
  if conditionalActive state.conditionals then
    match state.deferredExpansion with
    | some (start, deferred) =>
      match preprocessor.expand path 1 (deferred ++ text) macros with
      | (.ok contents, macros) => .ok (state.append contents, macros)
      | (.error (offset, message), _) =>
        .error (.error (.macroExpansion path
          (if message = unterminatedInvocation then start else offset) message))
    | none =>
      match preprocessor.expand path (sourceLineNumber state.before) text macros with
      | (.ok contents, macros) => .ok (state.append contents, macros)
      | (.error (offset, message), _) =>
        .error (.error (.macroExpansion path (utf8Len state.before + offset) message))
  else .ok (state.append (maskedText text), macros)

end SourceState

namespace Loader

variable (L : Loader Path)

/-- The directives of a file, whose text is `rest` from `cursor` on. -/
def processLoop (loadFile : Path → Loader Path → Load Path (FileId × Loader Path))
    (source : FileId) (path : Path) :
    List Directive → (cursor : Nat) → (rest : Text) → SourceState → Loader Path →
      Load Path (SourceState × Text × Loader Path)
  | [], _, rest, state, L => .ok (state, rest, L)
  | directive :: directives, cursor, rest, state, L =>
    match ByteText.splitBytes (directive.span.start - cursor) rest with
    | none => .error .panicked
    | some (ordinaryText, rest) =>
      match ByteText.splitBytes (directive.span.stop - directive.span.start) rest with
      | none => .error .panicked
      | some (directiveText, rest) =>
        (SourceState.ordinary preprocessor state L.macros path ordinaryText).bind fun r =>
          (processDirective fs preprocessor { L with macros := r.2 } loadFile source path directive
            state.conditionals).bind fun p =>
              processLoop loadFile source path directives directive.span.stop rest
                { r.1.mask directiveText with conditionals := p.1 } p.2

/-- The conditionals of a file are closed in it. -/
def checkClosed (path : Path) (length : Nat) : List ConditionalFrame → Load Path Unit
  | [] => .ok ()
  | frame :: outer =>
    preprocessorError path length
      (s!"unterminated conditional opened at byte {frame.openingOffset} " ++
        s!"({outer.length + 1} conditional directive" ++ (if outer.isEmpty then "" else "s") ++
        " still open)")

/-- The compiler source is kept where it is not the file itself. -/
def setCompilerContents (source : FileId) (original compilerSource : Text) : Loader Path :=
  if compilerSource = original then L
  else { L with files := L.files.modify source fun file =>
    { file with compilerContents := some compilerSource } }

/-- `process_directives` -/
def processDirectives (loadFile : Path → Loader Path → Load Path (FileId × Loader Path))
    (source : FileId) (path : Path) (text : Text) (directives : List Directive) :
    Load Path (Loader Path) :=
  (processLoop fs preprocessor loadFile source path directives 0 text ⟨[], [], [], none⟩ L).bind
    fun r =>
      (checkClosed path (utf8Len text) r.1.conditionals).bind fun _ =>
        (SourceState.tail preprocessor r.1 r.2.2.macros path r.2.1).map fun t =>
          setCompilerContents { r.2.2 with macros := t.2 } source text t.1.compilerSource

/-- A file that is discovered gets the next identity. -/
def addFile (path : Path) (contents : ByteArray) : Loader Path :=
  { L with
    identities := Function.update L.identities path (some L.files.length)
    files := L.files ++ [{
      id := L.files.length
      path := path
      relativePath := fs.relativeTo L.rootDirectory path
      kind := .ofExtension (fs.extension path)
      contents := contents
      compilerContents := none }] }

/-- The directives of a file that has just been added. -/
def processFile (loadFile : Path → Loader Path → Load Path (FileId × Loader Path)) (id : FileId)
    (path : Path) (contents : ByteArray) : Load Path (Loader Path) :=
  if (FileKind.ofExtension (fs.extension path)).canContainIncludes then
    match String.fromUTF8? contents with
    | none => .error (.error (.invalidUtf8 path))
    | some text =>
      match scanDirectives text.toList with
      | none => .error .panicked
      | some directives =>
        processDirectives fs preprocessor { L with processed := L.processed ++ [id] } loadFile id
          path text.toList directives
  else .ok L

/-- `load_file` -/
def loadFile : (fuel : Nat) → Path → Loader Path → Load Path (FileId × Loader Path)
  | 0, _, _ => .error .outOfFuel
  | fuel + 1, path, L =>
    (canonicalize fs path).bind fun path =>
      match L.identities path with
      | some id => .ok (id, L)
      | none =>
        if fs.isInside L.rootDirectory path then
          match fs.read path with
          | none => .error (.error (.io path))
          | some contents =>
            (processFile fs preprocessor (addFile fs L path contents) (loadFile fuel) L.files.length
              path contents).map (L.files.length, ·)
        else .error (.error (.outsideProject L.rootFile path))

end Loader

/-! ## Projects -/

structure Project (Path : Type) where
  rootDirectory : Path
  files : List (ProjectFile Path)
  includes : List IncludeEdge
  diagnosticPragmas : List DiagnosticPragma
  warningDirectives : List WarningDirective
  objectMacros : String → Option Text

/-- The macros at the begin, with those of the command line. -/
def initialMacros (defines : List (String × Text)) : Macros :=
  defines.foldl (fun macros define => Function.update macros define.1 (some ⟨define.2, none⟩))
    (Function.update (Function.update (fun _ => none) "DM_VERSION" (some ⟨"516".toList, none⟩))
      "DM_BUILD" (some ⟨"1663".toList, none⟩))

/-- `Loader::new` -/
def Loader.new (rootFile : Path) (defines : List (String × Text)) : Loader Path where
  rootFile := rootFile
  rootDirectory := fs.parent rootFile
  files := []
  includes := []
  identities _ := none
  macros := initialMacros defines
  nextIncludeOrdinal := 0
  warningDirectiveIsError := false
  duplicateIncludeIsError := false
  diagnosticPragmas := []
  warningDirectives := []
  processed := []

/-- `Loader::load`, at its end: the includes are put in the order of their ordinals. -/
def Loader.project (L : Loader Path) : Project Path where
  rootDirectory := L.rootDirectory
  files := L.files
  includes := (L.includes.mergeSort fun a b => a.1 ≤ b.1).map (·.2)
  diagnosticPragmas := L.diagnosticPragmas
  warningDirectives := L.warningDirectives
  objectMacros name := (L.macros name).bind fun definition =>
    if definition.parameters.isNone then some definition.replacement else none

/-- `Project::load_with_defines`, with the loader at its end. -/
def load (fuel : Nat) (rootFile : Path) (defines : List (String × Text)) :
    Load Path (Loader Path) :=
  (canonicalize fs rootFile).bind fun rootFile =>
    (Loader.loadFile fs preprocessor fuel rootFile (.new fs rootFile defines)).map (·.2)

end

end Dream64.Preprocess
