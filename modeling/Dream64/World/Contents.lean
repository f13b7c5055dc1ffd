import Dream64.Core
import Dream64.Library.Subtract

/-!
# Areas and their contents

`world_geometry.rs`, `lists.rs` and `spatial.rs` of the VM: how turfs and
movables move, what that does to the `contents` lists of areas, turfs and
movables, and how these lists are read. A turf that leaves an area is not taken
out of its list at once: it and what it carries are queued, and the queue of a
list is applied when the list is flushed.

The moves take what happens to the old area's list as an argument (`Uncontain`),
so that the code's queue and an immediate removal are two instances of one
definition. Deleted datums stay in lists as dead handles, which read as null.
-/

namespace Dream64.World

open ListSubtract

abbrev DatumId := Nat
abbrev ListId := Nat

/-- What the type path of a datum is below. -/
inductive AtomKind where
  | area | turf | movable | other
deriving DecidableEq

/-- What the moves and the reads use of the execution state. -/
structure State where
  kind : DatumId → AtomKind
  live : DatumId → Bool
  loc : DatumId → Option DatumId
  contents : DatumId → Option ListId
  contentsOwners : ListId → Option DatumId
  lists : ListId → List DatumId
  /-- The handle of the next list that is allocated. -/
  nextList : ListId
  /-- The number of datum handles. -/
  datumCount : Nat
  pendingAreaUncontain : ListId → List DatumId

/-! ## Lists -/

/-- `DmList::subtract_entries`: one pass from the end with a quota for every value. -/
def subtractEntries (values entries : List DatumId) : List DatumId :=
  (dropQuota (fun value => values.count value) entries).2

def State.modifyList (s : State) (list : ListId) (f : List DatumId → List DatumId) : State :=
  { s with lists := Function.update s.lists list (f (s.lists list)) }

/-- `DmList::remove_first`. -/
def removeFirst (value : DatumId) (entries : List DatumId) : List DatumId := entries.erase value

/-- `DmList::add`. -/
def add (value : DatumId) (entries : List DatumId) : List DatumId := entries ++ [value]

def addIfAbsent (entries : List DatumId) (value : DatumId) : List DatumId :=
  if value ∈ entries then entries else add value entries

def State.ensureContents (s : State) (datum : DatumId) : State × ListId :=
  match s.contents datum with
  | some list =>
    ({ s with contentsOwners := Function.update s.contentsOwners list (some datum) }, list)
  | none =>
    ({ s with
        contents := Function.update s.contents datum (some s.nextList)
        contentsOwners := Function.update s.contentsOwners s.nextList (some datum)
        lists := Function.update s.lists s.nextList []
        nextList := s.nextList + 1 }, s.nextList)

/-! ## Deferred removals -/

/-- What a move does to the list of the area that is left. -/
abbrev Uncontain := State → ListId → List DatumId → State

def queueAreaUncontain : Uncontain := fun s list values =>
  { s with
    pendingAreaUncontain := Function.update s.pendingAreaUncontain list
      (s.pendingAreaUncontain list ++ values) }

/-- The removal at once that the queue stands for. -/
def uncontainNow : Uncontain := fun s list values => s.modifyList list (subtractEntries values)

def State.flushAreaUncontain (s : State) (list : ListId) : State :=
  { s with
    lists := Function.update s.lists list
      (subtractEntries (s.pendingAreaUncontain list) (s.lists list))
    pendingAreaUncontain := Function.update s.pendingAreaUncontain list [] }

/-- The lists are flushed one after the other; no flush looks at another list. -/
def State.flushAllAreaUncontain (s : State) : State :=
  { s with
    lists := fun list => subtractEntries (s.pendingAreaUncontain list) (s.lists list)
    pendingAreaUncontain := fun _ => [] }

/-! ## Moves -/

def State.leaveArea (uncontain : Uncontain) (s : State) (oldArea : Option DatumId)
    (values : List DatumId) : State :=
  match oldArea.bind s.contents with
  | some list => uncontain s list values
  | none => s

/-- What is queued to leave the destination is applied before the values are added. -/
def State.enterArea (s : State) (newArea : DatumId) (values : List DatumId) : State :=
  let (s, newContents) := s.ensureContents newArea
  (s.flushAreaUncontain newContents).modifyList newContents (values.foldl addIfAbsent)

def State.setLoc (s : State) (datum : DatumId) (loc : Option DatumId) : State :=
  { s with loc := Function.update s.loc datum loc }

def moveTurfToArea (uncontain : Uncontain) (s : State) (turf newArea : DatumId) : State :=
  let oldArea := s.loc turf
  if oldArea = some newArea then s
  else
    let contained := ((s.contents turf).map s.lists).getD []
    ((s.leaveArea uncontain oldArea (turf :: contained)).enterArea newArea
      (turf :: contained)).setLoc turf (some newArea)

/-- The area of a turf. -/
def State.enclosingArea (s : State) (turf : DatumId) : Option DatumId :=
  if s.kind turf = .turf then s.loc turf else none

def State.removeFrom (s : State) (atom : DatumId) (container : Option DatumId) : State :=
  match container.bind s.contents with
  | some list => s.modifyList list (removeFirst atom)
  | none => s

/-- The atom is added to the contents of its location, which are made if there are none. -/
def State.addToLoc (s : State) (atom : DatumId) (newLoc : Option DatumId) : State :=
  match newLoc.filter (· ≠ atom) with
  | some container =>
    let (s, list) := s.ensureContents container
    s.modifyList list (add atom)
  | none => s

/-- The atom is added to the contents of an area that has some. -/
def State.addToArea (s : State) (atom : DatumId) (area : Option DatumId) : State :=
  match area.bind s.contents with
  | some list => s.modifyList list (add atom)
  | none => s

def synchronizeMovedAtomContents (s : State) (atom : DatumId) (oldLoc newLoc : Option DatumId) :
    State :=
  let oldArea := oldLoc.bind s.enclosingArea
  let newArea := newLoc.bind s.enclosingArea
  let s := (s.removeFrom atom oldLoc).addToLoc atom newLoc
  if oldArea ≠ newArea then (s.removeFrom atom oldArea).addToArea atom newArea else s

def moveMovableToTurf (s : State) (movable turf : DatumId) : State :=
  let oldLoc := s.loc movable
  let moved := s.setLoc movable (some turf)
  if oldLoc ≠ some turf then synchronizeMovedAtomContents moved movable oldLoc (some turf)
  else moved

/-- Whether the movable is the location or above it, or the walk up from the location
returns to where it was. There are `datumCount` handles, so a longer walk does. -/
def insideItself (s : State) (movable : DatumId) : Nat → List DatumId → Option DatumId → Bool
  | _, _, none => false
  | 0, _, some _ => true
  | fuel + 1, visited, some container =>
    if container = movable ∨ container ∈ visited then true
    else insideItself s movable fuel (visited ++ [container]) (s.loc container)

def moveMovableToAtom (s : State) (movable location : DatumId) : State :=
  if insideItself s movable (s.datumCount + 1) [] (some location) then s
  else if s.kind location = .turf then moveMovableToTurf s movable location
  else
    let oldLoc := s.loc movable
    let moved := s.setLoc movable (some location)
    if oldLoc ≠ some location then
      synchronizeMovedAtomContents moved movable oldLoc (some location)
    else moved

/-- The assignment of a movable's `loc`. -/
def assignLoc (s : State) (movable : DatumId) (newLoc : Option DatumId) : State :=
  match newLoc with
  | some location =>
    if s.kind location = .turf then moveMovableToTurf s movable location
    else moveMovableToAtom s movable location
  | none =>
    let oldLoc := s.loc movable
    let left := if oldLoc ≠ none then synchronizeMovedAtomContents s movable oldLoc none else s
    left.setLoc movable none

/-! ## Reads -/

inductive ListOperator where
  | add | subtract | bitOr | bitAnd | bitXor
deriving DecidableEq

/-- The right side of a list operator. -/
inductive Operand where
  | list (list : ListId)
  | value (value : DatumId)
deriving DecidableEq

inductive Read where
  | prepareIteration (list : ListId)
  /-- `length(list)` and `ListLength` -/
  | length (list : ListId)
  /-- `list.len` as a field -/
  | lenField (list : ListId)
  | indexList (list : ListId) (index : Nat)
  | contains (needle : DatumId) (list : ListId)
  | copy (list : ListId) (first last : Int)
  | operator (operator : ListOperator) (left : ListId) (right : Operand)
  | operatorSnapshot (list : ListId)
  /-- `locate(...) in list`; `found` says which candidates match -/
  | locate (found : DatumId → Bool) (list : ListId)

/-- A value read from a list; null is `none`. -/
inductive Observation where
  | entries (entries : List DatumId)
  | number (value : Nat)
  | value (value : Option DatumId)
  | truth (value : Bool)
  | error
deriving DecidableEq

/-- `canonicalize_value`: a dead handle is null. -/
def State.canonicalize (s : State) (value : DatumId) : Option DatumId :=
  if s.live value then some value else none

/-- `atom_contents_iteration_snapshot` for a list with an owner, else a copy. -/
def State.iterationSnapshot (s : State) (list : ListId) : List DatumId :=
  match s.contentsOwners list with
  | some owner => (s.lists list).filter fun member => s.loc member = some owner
  | none => s.lists list

def State.listOperatorSnapshot (s : State) (list : ListId) : List DatumId :=
  (s.lists list).filter s.live

def State.operatorRhsEntries (s : State) : Operand → List DatumId
  | .list list => s.listOperatorSnapshot list
  | .value value => [value]

def addOperatorEntry (onlyIfAbsent : Bool) (target : List DatumId) (key : DatumId) : List DatumId :=
  if onlyIfAbsent && target.contains key then target else target ++ [key]

def State.executeListBinaryOperator (s : State) (operator : ListOperator) (left : ListId)
    (right : Operand) : List DatumId :=
  let rightEntries := s.operatorRhsEntries right
  match operator with
  | .add => rightEntries.foldl (addOperatorEntry false) (s.lists left)
  | .subtract => subtractEntries rightEntries (s.lists left)
  | .bitOr => rightEntries.foldl (addOperatorEntry true)
      ((s.listOperatorSnapshot left).foldl (addOperatorEntry true) [])
  | .bitAnd => (s.listOperatorSnapshot left).foldl
      (fun result entry => if entry ∈ rightEntries then result else result.filter (· ≠ entry))
      (s.lists left)
  | .bitXor =>
    let leftEntries := s.listOperatorSnapshot left
    (rightEntries.filter (· ∉ leftEntries)).foldl (addOperatorEntry true)
      ((leftEntries.filter (· ∉ rightEntries)).foldl (addOperatorEntry true) [])

def listBoundary (value : Int) (length : Nat) (zeroIsEnd : Bool) : Option Nat :=
  let limit := length + 1
  let value := if value = 0 then (if zeroIsEnd then (limit : Int) else 1) else value
  if value < 1 ∨ limit < value then none else some value.toNat

def listCopy (first last : Int) (entries : List DatumId) : Option (List DatumId) := do
  let first ← listBoundary first entries.length false
  let last ← listBoundary last entries.length true
  return (entries.take (last - 1)).drop (first - 1)

/-- The list that a read flushes before it looks. -/
def Read.flushes : Read → Option ListId
  | .prepareIteration list | .length list | .contains _ list | .copy list _ _ => some list
  | .lenField _ | .indexList _ _ | .operator _ _ _ | .operatorSnapshot _ | .locate _ _ => none

def State.observe (s : State) : Read → Observation
  | .prepareIteration list => .entries (s.iterationSnapshot list)
  | .length list | .lenField list => .number (s.lists list).length
  | .indexList list index =>
    if index = 0 then .error
    else ((s.lists list)[index - 1]?.map fun value => .value (s.canonicalize value)).getD .error
  | .contains needle list =>
    .truth ((s.lists list).any fun value => s.canonicalize value = s.canonicalize needle)
  | .copy list first last => ((listCopy first last (s.lists list)).map .entries).getD .error
  | .operator operator left right => .entries (s.executeListBinaryOperator operator left right)
  | .operatorSnapshot list => .entries (s.listOperatorSnapshot list)
  | .locate found list => .value ((s.lists list).find? found)

def State.flushFor (s : State) (read : Read) : State :=
  match read.flushes with
  | some list => s.flushAreaUncontain list
  | none => s

/-! ## Runs -/

inductive Op where
  /-- `area.contents.Add(turf)` -/
  | moveTurf (turf area : DatumId)
  /-- `turf.contents.Add(movable)` -/
  | addToTurf (movable turf : DatumId)
  /-- `new movable(location)` -/
  | place (movable location : DatumId)
  /-- `movable.loc = location` -/
  | assignLoc (movable : DatumId) (location : Option DatumId)
  | read (read : Read)
  | flush (list : ListId)
  | flushAll

/-- The receivers have the kinds that the operations check. -/
def Op.checked (s : State) : Op → Bool
  | .moveTurf turf area => s.kind turf = .turf ∧ s.kind area = .area
  | .addToTurf movable turf => s.kind movable = .movable ∧ s.kind turf = .turf
  | .place movable _ | .assignLoc movable _ => s.kind movable = .movable
  | .read _ | .flush _ | .flushAll => true

/-- A checked operation. -/
def Op.run (uncontain : Uncontain) (s : State) : Op → State × List Observation
  | .moveTurf turf area => (moveTurfToArea uncontain s turf area, [])
  | .addToTurf movable turf => (moveMovableToTurf s movable turf, [])
  | .place movable location => (moveMovableToAtom s movable location, [])
  | .assignLoc movable location => (World.assignLoc s movable location, [])
  | .read query => (s.flushFor query, [(s.flushFor query).observe query])
  | .flush list => (s.flushAreaUncontain list, [])
  | .flushAll => (s.flushAllAreaUncontain, [])

/-- An operation on the wrong kinds is an error that changes nothing. -/
def Op.step (uncontain : Uncontain) (s : State) (op : Op) : State × List Observation :=
  if op.checked s then op.run uncontain s else (s, [.error])

def run (uncontain : Uncontain) : State → List Op → State × List Observation
  | s, [] => (s, [])
  | s, op :: ops =>
    let (s, observed) := op.step uncontain s
    let (s, rest) := run uncontain s ops
    (s, observed ++ rest)

end Dream64.World
