import Dream64.Preprocess.SourceMapLookup
import Dream64.Preprocess.Trace

/-!
# The compiler sources of a project

`compileDirectives` goes through a file as the loader does and puts its compiler
source together. An invocation that is not closed before a directive is
deferred: its text is read again with what follows. Whatever the other files do
to the macros, the map of an expanded file leads back if and only if the
lengths tell its pieces apart (`compileDirectives_mapsBack_iff`).
-/

namespace Dream64.Preprocess

open String (utf8Len)

/-! ## Reading a file -/

/-- A part of a file: a directive, or what stands between two of them; it is active if it is
ordinary text in the branches that are taken. -/
structure Segment where
  text : Text
  active : Bool

/-- The file as the expansion of macros sees it. -/
def Segment.view (segment : Segment) : Text :=
  if segment.active then segment.text else maskedText segment.text

def textOf (segments : List Segment) : Text := segments.flatMap Segment.text

def viewOf (segments : List Segment) : Text := segments.flatMap Segment.view

/-- What `process_directives` has of a file: the segments before the cursor, the compiler source,
the open conditionals, and text that waits for more, with its offset. -/
structure MappingState where
  segments : List Segment
  builder : CompilerSourceBuilder
  conditionals : List ConditionalFrame
  deferredExpansion : Option (Nat × Text)

namespace SourceError

def isUnterminated : SourceError → Bool
  | failed _ message => message == unterminatedInvocation
  | _ => false

def halt {Path : Type} (path : Path) : SourceError → Halt Path
  | failed offset message => .error (.macroExpansion path offset message)
  | panicked => .panicked
  | outOfFuel => .outOfFuel

end SourceError

section

variable {Path : Type} (fuel : Nat) (fileLiteral : Text) (path : Path)

namespace MappingState

variable (state : MappingState) (macros : Macros)

/-- The offset of the cursor. -/
def cursor : Nat := utf8Len (textOf state.segments)

def read (text : Text) (active : Bool) : MappingState :=
  { state with segments := state.segments ++ [⟨text, active⟩] }

/-- Masked text, which an expansion that waits takes as well. -/
def mask (text : Text) : MappingState :=
  match state.deferredExpansion with
  | some (start, deferred) =>
    { state.read text false with deferredExpansion := some (start, deferred ++ maskedText text) }
  | none =>
    { state.read text false with builder := state.builder.appendMasked state.cursor text }

/-- `append_expanded_source` for the text behind the cursor. -/
def expandAtCursor (text : Text) : Except SourceError CompilerSourceBuilder × Macros :=
  state.builder.appendExpandedSource fuel fileLiteral state.cursor
    (sourceLineNumber (textOf state.segments)) text macros

/-- The expansion of ordinary text, where none waits: it may have to wait for more. -/
def expandText (text : Text) : Load Path (MappingState × Macros) :=
  match state.expandAtCursor fuel fileLiteral macros text with
  | (.ok builder, macros) => .ok ({ state.read text true with builder := builder }, macros)
  | (.error error, macros) =>
    if error.isUnterminated then
      .ok ({ state.read text true with deferredExpansion := some (state.cursor, text) }, macros)
    else .error (error.halt path)

/-- The expansion of text that waits, together with more. -/
def expandDeferred (start : Nat) (deferred text : Text) : Load Path (MappingState × Macros) :=
  match CompilerSourceBuilder.new.appendExpandedSource fuel fileLiteral 0 1 (deferred ++ text)
      macros with
  | (.ok expanded, macros) =>
    .ok ({ state.read text true with
      builder := state.builder.appendDeferred expanded ⟨start, state.cursor + utf8Len text⟩
      deferredExpansion := none }, macros)
  | (.error error, macros) =>
    if error.isUnterminated then
      .ok ({ state.read text true with deferredExpansion := some (start, deferred ++ text) }, macros)
    else .error (error.halt path)

/-- Ordinary text up to the next directive. -/
def ordinary (text : Text) : Load Path (MappingState × Macros) :=
  if conditionalActive state.conditionals then
    match state.deferredExpansion with
    | some (start, deferred) =>
      state.expandDeferred fuel fileLiteral path macros start deferred text
    | none => state.expandText fuel fileLiteral path macros text
  else .ok (state.mask text, macros)

/-- The text behind the last directive, where no expansion may wait any longer. -/
def tail (text : Text) : Load Path (MappingState × Macros) :=
  if conditionalActive state.conditionals then
    match state.deferredExpansion with
    | some (start, deferred) =>
      (state.expandDeferred fuel fileLiteral path macros start deferred text).bind fun r =>
        if r.1.deferredExpansion.isSome then
          .error (.error (.macroExpansion path start unterminatedInvocation))
        else .ok r
    | none =>
      match state.expandAtCursor fuel fileLiteral macros text with
      | (.ok builder, macros) => .ok ({ state.read text true with builder := builder }, macros)
      | (.error error, _) => .error (error.halt path)
  else .ok ({ state.read text false with
    builder := state.builder.appendMasked state.cursor text }, macros)

end MappingState

variable (fs : FileSystem Path) (preprocessor : Preprocessor Path)
  (loadFile : Path → Loader Path → Load Path (FileId × Loader Path)) (source : FileId)

/-- The directives of a file, whose text is `rest` from `cursor` on. -/
def compileLoop : List Directive → (cursor : Nat) → (rest : Text) → MappingState → Loader Path →
    Load Path (MappingState × Text × Loader Path)
  | [], _, rest, state, L => .ok (state, rest, L)
  | directive :: directives, cursor, rest, state, L =>
    match ByteText.splitBytes (directive.span.start - cursor) rest with
    | none => .error .panicked
    | some (ordinaryText, rest) =>
      match ByteText.splitBytes (directive.span.stop - directive.span.start) rest with
      | none => .error .panicked
      | some (directiveText, rest) =>
        (state.ordinary fuel fileLiteral path L.macros ordinaryText).bind fun r =>
          (Loader.processDirective fs preprocessor { L with macros := r.2 } loadFile source path
            directive state.conditionals).bind fun p =>
              compileLoop directives directive.span.stop rest
                { r.1.mask directiveText with conditionals := p.1 } p.2

/-- `process_directives`: the file with its source map, and the state that it comes from. -/
def compileDirectives (text : Text) (directives : List Directive) (L : Loader Path) :
    Load Path (CompiledFile × MappingState × Loader Path) :=
  (compileLoop fuel fileLiteral path fs preprocessor loadFile source directives 0 text
      ⟨[], .new, [], none⟩ L).bind fun r =>
    (Loader.checkClosed path (utf8Len text) r.1.conditionals).bind fun _ =>
      (r.1.tail fuel fileLiteral path r.2.2.macros r.2.1).map fun t =>
        (t.1.builder.compiled text, t.1, { r.2.2 with macros := t.2 })

/-- The directives of a file are those that a scan finds. -/
def compileFile (text : Text) (L : Loader Path) :
    Load Path (CompiledFile × MappingState × Loader Path) :=
  match scanDirectives text with
  | none => .error .panicked
  | some directives =>
    compileDirectives fuel fileLiteral path fs preprocessor loadFile source text directives L

end

/-! ## Appending keeps a builder together -/

section

theorem maskedByte_utf8Len (c : Char) : utf8Len (maskedByte c) = utf8Len [c] := by
  rw [maskedByte]
  split
  · rfl
  · have hreplicate : ∀ n, utf8Len (List.replicate n ' ') = n := by
      intro n
      induction n with
      | zero => rfl
      | succ n ih =>
        rw [List.replicate_succ, String.utf8Len_cons, ih]
        rfl
    rw [hreplicate, String.utf8Len_cons]
    exact (Nat.zero_add _).symm

theorem maskedText_utf8Len (text : Text) : utf8Len (maskedText text) = utf8Len text := by
  induction text with
  | nil => rfl
  | cons c text ih =>
    rw [maskedText] at ih
    rw [maskedText, List.flatMap_cons, String.utf8Len_append, maskedByte_utf8Len, ih,
      ← String.utf8Len_append, List.singleton_append]

variable {view text : Text} {builder : CompilerSourceBuilder} {start limit : Nat}

theorem Built.appendOriginal {x y : Text} (h : Built view start builder)
    (hview : view = x ++ text ++ y) (hstart : utf8Len x = start) :
    Built view (start + utf8Len text) (builder.appendOriginal start text) := by
  refine h.append (fun hnonempty => ?_) le_rfl le_rfl (Nat.le_add_right ..)
  exact {
    nonempty := hnonempty
    order := Nat.le_add_right ..
    reads := .copied hview hstart
    copied := fun _ => (Nat.add_sub_cancel_left ..).symm }

theorem Built.appendMasked {x : Text} (h : Built view start builder) (text : Text)
    (hview : view = x ++ maskedText text) (hstart : utf8Len x = start) :
    Built view (start + utf8Len text) (builder.appendMasked start text) := by
  refine h.append (fun hnonempty => ?_) le_rfl le_rfl (Nat.le_add_right ..)
  exact {
    nonempty := hnonempty
    order := Nat.le_add_right ..
    reads := .copied (hview.trans (List.append_nil _).symm) hstart
    copied := fun _ => by
      rw [maskedText_utf8Len]
      exact (Nat.add_sub_cancel_left ..).symm }

theorem Built.appendReplacement (h : Built view limit builder) (replacement : Text)
    {invocation : SourceSpan} (hstart : limit ≤ invocation.start) (horder : invocation.start ≤ invocation.stop) :
    Built view invocation.stop (builder.appendReplacement replacement invocation) := by
  refine h.append (fun hnonempty => ?_) hstart le_rfl horder
  exact {
    nonempty := hnonempty
    order := horder
    reads := .replaced invocation
    copied := by
      intro h
      cases h }

/-- Deferred text is at the end of the view. -/
theorem Built.appendDeferred {x deferred : Text} {expanded : CompilerSourceBuilder}
    (h : Built x start builder) (hexpanded : Built deferred (utf8Len deferred) expanded)
    (hstart : utf8Len x = start) :
    Built (x ++ deferred) (utf8Len (x ++ deferred))
      (builder.appendDeferred expanded ⟨start, utf8Len (x ++ deferred)⟩) := by
  have horder : start ≤ utf8Len (x ++ deferred) := by
    rw [String.utf8Len_append, hstart]
    exact Nat.le_add_right ..
  refine (h.extend deferred).append (fun hnonempty => ?_) le_rfl le_rfl horder
  exact {
    nonempty := hnonempty
    order := horder
    reads := hexpanded.reads.shift hstart
    copied := by
      intro h
      cases h }

end

/-! ## Expanded source -/

/-- A reading takes its text apart. -/
def Reading.Splits (text : Text) : Reading → Prop
  | literal cut => cut.1 ++ cut.2 = text
  | replaced invocation _ skipped rest _ => invocation ++ (skipped ++ rest) = text

section

variable {fuel : Nat} {site : Site} {cut : Cut} {text : Text} {reading : Reading}

theorem readInvocation_splits {name : String} {arguments : Option (List Text)}
    (hcut : cut.1 ++ cut.2 = text)
    (h : readInvocation fuel site name arguments cut = .ok reading) : reading.Splits text := by
  obtain ⟨replacement, -, h⟩ := bind_eq_ok h
  split at h
  · obtain ⟨macros, -, rfl⟩ := map_eq_ok h
    show cut.1 ++ ((cut.2.span (!isLineEnd ·)).1 ++ (cut.2.span (!isLineEnd ·)).2) = text
    rw [List.span_eq_takeWhile_dropWhile, List.takeWhile_append_dropWhile, hcut]
  · split at h
    · obtain ⟨macros, -, rfl⟩ := map_eq_ok h
      exact hcut
    · cases h
      exact hcut

theorem readIdentifier_splits (hcut : cut.1 ++ cut.2 = text)
    (h : readIdentifier fuel site cut = .ok reading) : reading.Splits text := by
  rw [readIdentifier] at h
  split at h
  · cases h
    exact hcut
  · split at h
    · cases h
      exact hcut
    · split at h
      · cases h
        exact hcut
      · split at h
        · exact readInvocation_splits hcut h
        · split at h
          · cases h
            exact hcut
          · cases h
          · rename_i arguments inner hinner
            refine readInvocation_splits ?_ h
            rw [Cut.behind_append, macroInvocation_append hinner, hcut]

theorem readSource_splits {c : Char} (h : readSource fuel site c text = .ok reading) :
    reading.Splits (c :: text) := by
  rw [readSource] at h
  split at h
  · rename_i cut hcut
    have happend := protectedText_append hcut
    split at h
    · obtain ⟨expanded, -, rfl⟩ := map_eq_ok h
      split
      · exact happend
      · exact happend
    · cases h
      exact happend
  · split at h
    · exact readIdentifier_splits (cutIdentifier_append _) h
    · cases h
      rfl

/-- What the loop appends comes from the text, which the view ends with. -/
theorem appendLoop_built {expansionFuel start line : Nat} {fileLiteral view literal : Text}
    (before : Text) {builder builder' : CompilerSourceBuilder} {macros macros' : Macros}
    (h : appendLoop expansionFuel fileLiteral fuel start literal line text builder macros =
      (.ok builder', macros'))
    (hbuilt : Built view start builder) (hview : view = before ++ literal ++ text)
    (hstart : utf8Len before = start) : Built view (utf8Len view) builder' := by
  induction fuel generalizing start line before literal text builder macros with
  | zero =>
    rw [appendLoop] at h
    cases h
  | succ fuel ih =>
    cases text with
    | nil =>
      rw [appendLoop] at h
      cases h
      have happend := hbuilt.appendOriginal hview hstart
      rw [hview, List.append_nil, String.utf8Len_append, hstart]
      rwa [hview, List.append_nil] at happend
    | cons c rest =>
      rw [appendLoop] at h
      dsimp only at h
      split at h
      · cases h
      · rename_i cut hread
        have hsplits : cut.1 ++ cut.2 = c :: rest := readSource_splits hread
        refine ih before h hbuilt ?_ hstart
        rw [hview, ← hsplits]
        simp only [List.append_assoc]
      · rename_i invocation replacement skipped rest' macros₁ hread
        have hsplits : invocation ++ (skipped ++ rest') = c :: rest := readSource_splits hread
        let span : SourceSpan :=
          ⟨start + utf8Len literal, start + utf8Len literal + utf8Len invocation⟩
        have horder : span.start ≤ span.stop := Nat.le_add_right ..
        have happend :=
          (hbuilt.appendOriginal hview hstart).appendReplacement replacement (@le_rfl _ _ span.start)
            horder
        refine ih (before ++ literal ++ invocation ++ skipped) h
          (happend.mono (Nat.le_add_right ..)) ?_ ?_
        · rw [hview, ← hsplits]
          simp only [List.append_assoc, List.nil_append]
        · simp only [String.utf8Len_append, hstart]

end

/-! ## The run over a file -/

theorem textOf_append (a b : List Segment) : textOf (a ++ b) = textOf a ++ textOf b :=
  List.flatMap_append

theorem viewOf_append (a b : List Segment) : viewOf (a ++ b) = viewOf a ++ viewOf b :=
  List.flatMap_append

theorem viewOf_utf8Len (segments : List Segment) :
    utf8Len (viewOf segments) = utf8Len (textOf segments) := by
  induction segments with
  | nil => rfl
  | cons segment segments ih =>
    have hview : utf8Len segment.view = utf8Len segment.text := by
      rw [Segment.view]
      split
      · rfl
      · exact maskedText_utf8Len segment.text
    rw [viewOf, textOf] at ih
    rw [viewOf, textOf, List.flatMap_cons, List.flatMap_cons, String.utf8Len_append,
      String.utf8Len_append, hview, ih]

namespace MappingState

/-- The compiler source comes from what has been read, up to the text that waits. -/
def Valid (state : MappingState) : Prop :=
  match state.deferredExpansion with
  | none => Built (viewOf state.segments) state.cursor state.builder
  | some (start, deferred) => ∃ before, viewOf state.segments = before ++ deferred ∧
      utf8Len before = start ∧ Built before start state.builder

variable {fuel : Nat} {fileLiteral text : Text} {Path : Type} {path : Path}
  {state state' : MappingState} {macros macros' : Macros}

theorem read_view (state : MappingState) (text : Text) (active : Bool) :
    viewOf (state.read text active).segments =
      viewOf state.segments ++ (Segment.mk text active).view := by
  rw [read, viewOf_append]
  exact congrArg _ (List.append_nil _)

theorem read_text (state : MappingState) (text : Text) (active : Bool) :
    textOf (state.read text active).segments = textOf state.segments ++ text := by
  rw [read, textOf_append]
  exact congrArg _ (List.append_nil _)

theorem cursor_read (state : MappingState) (text : Text) (active : Bool) :
    (state.read text active).cursor = state.cursor + utf8Len text := by
  rw [cursor, read_text, String.utf8Len_append, cursor]

theorem cursor_eq (state : MappingState) : state.cursor = utf8Len (viewOf state.segments) :=
  (viewOf_utf8Len state.segments).symm

theorem mask_valid (h : state.Valid) : (state.mask text).Valid := by
  have hview := state.read_view text false
  have hmask : (Segment.mk text false).view = maskedText text := rfl
  rw [hmask] at hview
  rw [Valid] at h
  rw [mask]
  split
  · rename_i start deferred hdeferred
    rw [hdeferred] at h
    obtain ⟨before, hbefore, hstart, hbuilt⟩ := h
    refine ⟨before, ?_, hstart, hbuilt⟩
    rw [← List.append_assoc, ← hbefore]
    exact hview
  · rename_i hnone
    rw [hnone] at h
    dsimp only at h
    have hmasked := (h.extend (maskedText text)).appendMasked text rfl state.cursor_eq.symm
    rw [← hview, ← cursor_read] at hmasked
    rw [Valid]
    simp only [read, hnone]
    exact hmasked

theorem mask_text (state : MappingState) (text : Text) :
    textOf (state.mask text).segments = textOf state.segments ++ text := by
  rw [mask]
  split
  · exact state.read_text text false
  · exact state.read_text text false

section

variable {builder : CompilerSourceBuilder} (h : state.Valid)
  (hnone : state.deferredExpansion = none)
  (hrun : state.expandAtCursor fuel fileLiteral macros text = (.ok builder, macros'))

include h hnone hrun

/-- What is appended at the cursor. -/
theorem expandAtCursor_built :
    Built (viewOf state.segments ++ text) (state.cursor + utf8Len text) builder := by
  rw [Valid, hnone] at h
  have hbuilt := appendLoop_built (viewOf state.segments) hrun (h.extend text)
    (by rw [List.append_nil]) state.cursor_eq.symm
  rwa [String.utf8Len_append, ← cursor_eq] at hbuilt

/-- The state behind ordinary text that has been expanded at the cursor. -/
theorem read_valid : MappingState.Valid { state.read text true with builder := builder } := by
  have hbuilt := expandAtCursor_built h hnone hrun
  have hview := state.read_view text true
  rw [show (Segment.mk text true).view = text from rfl] at hview
  rw [← hview, ← cursor_read] at hbuilt
  rw [Valid]
  simp only [read, hnone]
  exact hbuilt

end

theorem expandText_valid (h : state.Valid) (hnone : state.deferredExpansion = none)
    (hrun : state.expandText fuel fileLiteral path macros text = .ok (state', macros')) :
    state'.Valid := by
  have hview := state.read_view text true
  rw [show (Segment.mk text true).view = text from rfl] at hview
  rw [expandText] at hrun
  split at hrun
  · rename_i builder macros₁ hexpand
    cases hrun
    exact read_valid h hnone hexpand
  · split at hrun
    · cases hrun
      rw [Valid, hnone] at h
      exact ⟨viewOf state.segments, hview, state.cursor_eq.symm, h⟩
    · cases hrun

theorem expandDeferred_valid {start : Nat} {deferred : Text} (h : state.Valid)
    (hsome : state.deferredExpansion = some (start, deferred))
    (hrun : state.expandDeferred fuel fileLiteral path macros start deferred text =
      .ok (state', macros')) : state'.Valid := by
  have hview := state.read_view text true
  rw [show (Segment.mk text true).view = text from rfl] at hview
  rw [Valid, hsome] at h
  obtain ⟨before, hbefore, hstart, hbuilt⟩ := h
  rw [hbefore, List.append_assoc] at hview
  rw [expandDeferred] at hrun
  split at hrun
  · rename_i expanded macros₁ hexpand
    cases hrun
    have hinner := appendLoop_built [] hexpand (Built.new.extend (deferred ++ text)) rfl rfl
    rw [List.nil_append] at hinner
    have hdeferred := hbuilt.appendDeferred hinner hstart
    rw [← hview, ← cursor_eq] at hdeferred
    show Built _ _ _
    rw [← cursor_read state text true]
    exact hdeferred
  · split at hrun
    · cases hrun
      exact ⟨before, hview, hstart, hbuilt⟩
    · cases hrun

theorem ordinary_valid (h : state.Valid)
    (hrun : state.ordinary fuel fileLiteral path macros text = .ok (state', macros')) :
    state'.Valid := by
  rw [ordinary] at hrun
  split at hrun
  · split at hrun
    · rename_i start deferred hsome
      exact expandDeferred_valid h hsome hrun
    · rename_i hnone
      exact expandText_valid h hnone hrun
  · cases hrun
    exact mask_valid h

theorem expandText_text
    (hrun : state.expandText fuel fileLiteral path macros text = .ok (state', macros')) :
    textOf state'.segments = textOf state.segments ++ text := by
  rw [expandText] at hrun
  split at hrun
  · cases hrun
    exact state.read_text text true
  · split at hrun
    · cases hrun
      exact state.read_text text true
    · cases hrun

theorem expandDeferred_text {start : Nat} {deferred : Text}
    (hrun : state.expandDeferred fuel fileLiteral path macros start deferred text =
      .ok (state', macros')) : textOf state'.segments = textOf state.segments ++ text := by
  rw [expandDeferred] at hrun
  split at hrun
  · cases hrun
    exact state.read_text text true
  · split at hrun
    · cases hrun
      exact state.read_text text true
    · cases hrun

theorem ordinary_text
    (hrun : state.ordinary fuel fileLiteral path macros text = .ok (state', macros')) :
    textOf state'.segments = textOf state.segments ++ text := by
  rw [ordinary] at hrun
  split at hrun
  · split at hrun
    · exact expandDeferred_text hrun
    · exact expandText_text hrun
  · cases hrun
    exact state.mask_text text

/-- At the end nothing waits. -/
theorem tail_built (h : state.Valid) (hactive : conditionalActive state.conditionals = true)
    (hrun : state.tail fuel fileLiteral path macros text = .ok (state', macros')) :
    Built (viewOf state'.segments) state'.cursor state'.builder ∧
      textOf state'.segments = textOf state.segments ++ text := by
  rw [tail, if_pos hactive] at hrun
  split at hrun
  · rename_i start deferred hsome
    obtain ⟨⟨r, macros₁⟩, hexpand, hrun⟩ := bind_eq_ok hrun
    split at hrun
    · cases hrun
    · rename_i hdone
      cases hrun
      have hvalid := expandDeferred_valid h hsome hexpand
      rw [Valid, Option.not_isSome_iff_eq_none.1 hdone] at hvalid
      exact ⟨hvalid, expandDeferred_text hexpand⟩
  · rename_i hnone
    split at hrun
    · rename_i builder macros₁ hexpand
      cases hrun
      have hvalid := read_valid h hnone hexpand
      rw [Valid] at hvalid
      simp only [read, hnone] at hvalid
      exact ⟨hvalid, state.read_text text true⟩
    · cases hrun

end MappingState

section

variable {Path : Type} {fuel : Nat} {fileLiteral text : Text} {path : Path}
  {fs : FileSystem Path} {preprocessor : Preprocessor Path}
  {loadFile : Path → Loader Path → Load Path (FileId × Loader Path)} {source : FileId}
  {directives : List Directive} {L : Loader Path}

theorem compileLoop_valid {cursor : Nat} {state : MappingState}
    {r : MappingState × Text × Loader Path} (hvalid : state.Valid)
    (hrun : compileLoop fuel fileLiteral path fs preprocessor loadFile source directives cursor text
      state L = .ok r) :
    r.1.Valid ∧ textOf r.1.segments ++ r.2.1 = textOf state.segments ++ text := by
  induction directives generalizing cursor text state L with
  | nil =>
    cases hrun
    exact ⟨hvalid, rfl⟩
  | cons directive directives ih =>
    rw [compileLoop] at hrun
    split at hrun
    · cases hrun
    · rename_i ordinaryText rest hordinary
      split at hrun
      · cases hrun
      · rename_i directiveText rest' hdirective
        obtain ⟨⟨state₁, macros₁⟩, hstate, hrun⟩ := bind_eq_ok hrun
        obtain ⟨p, -, hrun⟩ := bind_eq_ok hrun
        have hmasked : MappingState.Valid
            { state₁.mask directiveText with conditionals := p.1 } :=
          MappingState.mask_valid (MappingState.ordinary_valid hvalid hstate)
        obtain ⟨hresult, htext⟩ := ih hmasked hrun
        refine ⟨hresult, htext.trans ?_⟩
        have hmask := state₁.mask_text directiveText
        have hread := MappingState.ordinary_text hstate
        rw [← ByteText.splitBytes_append hordinary, ← ByteText.splitBytes_append hdirective]
        dsimp only at hmask ⊢
        rw [hmask, hread]
        simp only [List.append_assoc]

theorem compileDirectives_mapsBack_iff {r : CompiledFile × MappingState × Loader Path}
    (hrun : compileDirectives fuel fileLiteral path fs preprocessor loadFile source text directives
      L = .ok r) (hexpanded : r.1.compilerContents.isSome) :
    textOf r.2.1.segments = text ∧ (MapsBack (viewOf r.2.1.segments) r.2.1.builder.origins r.1 ↔
      ∀ piece ∈ r.2.1.builder.pieces, piece.Distinct) := by
  rw [compileDirectives] at hrun
  obtain ⟨⟨state, rest, L'⟩, hloop, hrun⟩ := bind_eq_ok hrun
  obtain ⟨⟨⟩, hclosed, hrun⟩ := bind_eq_ok hrun
  obtain ⟨⟨state', macros'⟩, htail, rfl⟩ := map_eq_ok hrun
  have hactive : conditionalActive state.conditionals = true := by
    cases hconditionals : state.conditionals with
    | nil => rfl
    | cons frame outer =>
      dsimp only at hclosed
      rw [hconditionals] at hclosed
      cases hclosed
  have hstart : MappingState.Valid ⟨[], .new, [], none⟩ := Built.new
  obtain ⟨hvalid, hread⟩ := compileLoop_valid hstart hloop
  obtain ⟨hbuilt, htext⟩ := MappingState.tail_built hvalid hactive htail
  have hwhole : textOf state'.segments = text := htext.trans hread
  refine ⟨hwhole, ?_⟩
  rw [MappingState.cursor, hwhole] at hbuilt
  refine hbuilt.mapsBack_iff fun hsame => ?_
  dsimp only at hexpanded
  rw [CompilerSourceBuilder.compiled, if_pos hsame] at hexpanded
  cases hexpanded

/-- The map of an expanded file leads back if and only if the lengths tell all of its pieces
apart. -/
theorem compileFile_mapsBack_iff {r : CompiledFile × MappingState × Loader Path}
    (hrun : compileFile fuel fileLiteral path fs preprocessor loadFile source text L = .ok r)
    (hexpanded : r.1.compilerContents.isSome) :
    textOf r.2.1.segments = text ∧ (MapsBack (viewOf r.2.1.segments) r.2.1.builder.origins r.1 ↔
      ∀ piece ∈ r.2.1.builder.pieces, piece.Distinct) := by
  rw [compileFile] at hrun
  split at hrun
  · cases hrun
  · exact compileDirectives_mapsBack_iff hrun hexpanded

end

/-! ## A file on its own -/

/-- A file system with nothing in it. -/
def noFiles : FileSystem Unit where
  canonicalize _ := none
  isFile _ := false
  read _ := none
  extension _ := none
  parent _ := ()
  join _ _ := ()
  isInside _ _ := false
  relativeTo _ _ := ()
  separator := '/'

/-- A preprocessor for files without conditions. -/
def noConditions : Preprocessor Unit where
  expand _ _ text macros := (.ok text, macros)
  evaluate _ _ _ _ := .error "conditions are not evaluated"

/-- A file without includes and conditions. -/
def compileAlone (text : String) : Load Unit (CompiledFile × MappingState × Loader Unit) :=
  compileFile 64 "\"alone.dm\"".toList () noFiles noConditions (fun _ _ => .error .outOfFuel) 0
    text.toList (.new noFiles () [])

theorem eq_ok_of_toOption {ε α β : Type} {x : Except ε α} {f : α → β} {b : β}
    (h : x.toOption.map f = some b) : ∃ a, x = .ok a ∧ f a = b := by
  cases x with
  | error => cases h
  | ok a => exact ⟨a, rfl, Option.some.inj h⟩

/-- The four bytes of a replacement are mapped to the three of its invocation. -/
theorem longer_mapsBack : ∃ r, compileAlone "#define FOO BARS\nFOO\n" = .ok r ∧
    MapsBack (viewOf r.2.1.segments) r.2.1.builder.origins r.1 := by
  have hfacts : (compileAlone "#define FOO BARS\nFOO\n").toOption.map (fun r =>
      (r.1.compilerContents.isSome, decide (∀ piece ∈ r.2.1.builder.pieces, piece.Distinct))) =
      some (true, true) := by decide +kernel
  obtain ⟨r, hr, hfacts⟩ := eq_ok_of_toOption hfacts
  obtain ⟨hexpanded, hdistinct⟩ := Prod.mk.inj hfacts
  exact ⟨r, hr, (compileFile_mapsBack_iff hr hexpanded).2.2 (of_decide_eq_true hdistinct)⟩

/-- The first byte of a replacement that is as long as its invocation is mapped to the first byte
of that. -/
theorem sameLength_not_mapped : ∃ r, compileAlone "#define FOO BAR\nFOO\n" = .ok r ∧
    r.1.compilerContents = some "               \nBAR\n".toList ∧
    r.2.1.builder.origins[16]? = some (.invocation ⟨16, 19⟩) ∧
    r.1.originalSpan ⟨16, 17⟩ = ⟨16, 17⟩ ∧
    ¬ MapsBack (viewOf r.2.1.segments) r.2.1.builder.origins r.1 := by
  have hfacts : (compileAlone "#define FOO BAR\nFOO\n").toOption.map (fun r =>
      (r.1.compilerContents, r.2.1.builder.origins[16]?, r.1.originalSpan ⟨16, 17⟩)) =
      some (some "               \nBAR\n".toList, some (.invocation ⟨16, 19⟩), ⟨16, 17⟩) := by
    decide +kernel
  obtain ⟨r, hr, hfacts⟩ := eq_ok_of_toOption hfacts
  obtain ⟨hcontents, hfacts⟩ := Prod.mk.inj hfacts
  obtain ⟨horigin, hspan⟩ := Prod.mk.inj hfacts
  refine ⟨r, hr, hcontents, horigin, hspan, fun hback => ?_⟩
  have hexact := hback.exact 16 16 _ _ le_rfl horigin horigin
  rw [hspan] at hexact
  cases hexact

end Dream64.Preprocess
