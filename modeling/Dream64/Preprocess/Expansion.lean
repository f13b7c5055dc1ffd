import Dream64.Preprocess.Loader

/-!
# Include expansion

`expansionSegments` splices the included files into the source stream of a
project. It goes through the include edges with a stack of its own. What it
gives is described by an `Expansion`: the includes of a file in their order,
where the first include of another file carries the expansion of that file.
-/

namespace Dream64.Preprocess

/-! ## The traversal -/

structure ExpansionSegment where
  fileId : FileId
  span : SourceSpan
deriving DecidableEq, Repr

structure ExpansionFrame where
  fileId : FileId
  nextInclude : Nat
  cursor : Nat
deriving DecidableEq, Repr

def ExpansionFrame.new (fileId : FileId) : ExpansionFrame := ⟨fileId, 0, 0⟩

/-- The bytes of a file from `start` to `stop`, if there are any. -/
def piece (fileId : FileId) (start stop : Nat) : List ExpansionSegment :=
  if start < stop then [⟨fileId, ⟨start, stop⟩⟩] else []

structure ExpansionState where
  segments : List ExpansionSegment
  expanded : List FileId
  stack : List ExpansionFrame

/-- The file that an include opens: a project file that has not been expanded. -/
def IncludeEdge.opens (edge : IncludeEdge) (expanded : List FileId) : Option FileId :=
  match edge.target with
  | .file target => if target ∈ expanded then none else some target
  | .system _ => none

section

variable {Path : Type} (project : Project Path)

/-- The includes of a file by their position. -/
def Project.includesBy (fileId : FileId) : List IncludeEdge :=
  (project.includes.filter fun edge => edge.source = fileId).mergeSort fun a b =>
    a.span.start < b.span.start || (a.span.start == b.span.start && a.span.stop ≤ b.span.stop)

def Project.fileLength (fileId : FileId) : Nat :=
  (project.files[fileId]?).elim 0 (·.contents.size)

/-- One turn of the loop, for the frame on top of the stack. -/
def expansionStep (frame : ExpansionFrame) (stack : List ExpansionFrame)
    (segments : List ExpansionSegment) (expanded : List FileId) : ExpansionState :=
  match (project.includesBy frame.fileId)[frame.nextInclude]? with
  | some edge =>
    let frame' : ExpansionFrame :=
      ⟨frame.fileId, frame.nextInclude + 1, max frame.cursor edge.span.stop⟩
    let segments' := segments ++ piece frame.fileId frame.cursor edge.span.start
    match edge.opens expanded with
    | some target => ⟨segments', expanded ++ [target], .new target :: frame' :: stack⟩
    | none => ⟨segments', expanded, frame' :: stack⟩
  | none =>
    ⟨segments ++ piece frame.fileId frame.cursor (project.fileLength frame.fileId), expanded, stack⟩

/-- The loop, for at most a number of turns. -/
def expansionLoop : Nat → ExpansionState → ExpansionState
  | 0, state => state
  | turns + 1, state =>
    match state.stack with
    | [] => state
    | frame :: stack =>
      expansionLoop turns (expansionStep project frame stack state.segments state.expanded)

/-- The segments that the loop leaves, if it ends within the turns. -/
def Project.expansionSegments (turns : Nat) : Option (List ExpansionSegment) :=
  match project.files with
  | [] => some []
  | file :: _ =>
    let state := expansionLoop project turns ⟨[], [file.id], [.new file.id]⟩
    if state.stack.isEmpty then some state.segments else none

end

/-! ## Expansions -/

/-- The includes of a file in their order. -/
inductive Expansion where
  | done
  /-- An include that adds nothing. -/
  | skip (edge : IncludeEdge) (rest : Expansion)
  /-- The first include of a file, with the expansion of that file. -/
  | splice (edge : IncludeEdge) (file : FileId) (inner rest : Expansion)

namespace Expansion

/-- All includes in the order of encounter. -/
def edges : Expansion → List IncludeEdge
  | done => []
  | skip edge rest => edge :: rest.edges
  | splice edge _ inner rest => edge :: (inner.edges ++ rest.edges)

/-- The includes of the file itself. -/
def own : Expansion → List IncludeEdge
  | done => []
  | skip edge rest => edge :: rest.own
  | splice edge _ _ rest => edge :: rest.own

/-- The files that are spliced in, in their order. -/
def files : Expansion → List FileId
  | done => []
  | skip _ rest => rest.files
  | splice _ file inner rest => file :: (inner.files ++ rest.files)

/-- The text of a file from `cursor` on, with the files it splices in. -/
def segments (length : FileId → Nat) (file : FileId) : (cursor : Nat) → Expansion →
    List ExpansionSegment
  | cursor, done => piece file cursor (length file)
  | cursor, skip edge rest =>
    piece file cursor edge.span.start ++ segments length file edge.span.stop rest
  | cursor, splice edge target inner rest =>
    piece file cursor edge.span.start ++
      (segments length target 0 inner ++ segments length file edge.span.stop rest)

/-- An include splices its file in if and only if the file has not been met. -/
def Once (met : List FileId) : Expansion → Prop
  | done => True
  | skip edge rest => edge.opens met = none ∧ rest.Once met
  | splice edge file inner rest => edge.opens met = some file ∧
      inner.Once (met ++ [file]) ∧ rest.Once (met ++ file :: inner.files)

/-- The includes of a file are in that file, behind each other, and those of the others too. -/
def Laid (length : FileId → Nat) (file : FileId) : (cursor : Nat) → Expansion → Prop
  | cursor, done => cursor ≤ length file
  | cursor, skip edge rest => edge.source = file ∧ cursor ≤ edge.span.start ∧
      edge.span.start ≤ edge.span.stop ∧ rest.Laid length file edge.span.stop
  | cursor, splice edge target inner rest => edge.source = file ∧ cursor ≤ edge.span.start ∧
      edge.span.start ≤ edge.span.stop ∧ inner.Laid length target 0 ∧
      rest.Laid length file edge.span.stop

end Expansion

end Dream64.Preprocess
