import Dream64.Library.Fallible
import Dream64.Value.ArenaRuns
import Dream64.Value.ListSnapshots
import Dream64.Vm.Bytecode

/-!
# Operators on lists

`a op b` builds a new list and `a op= b` changes the left one; the two have an
implementation each. What a list gives to the result of an operator is its
snapshot: its entries in order, without the handles of objects that are gone,
each with the value of the first association of its key. The lists of
`vis_contents` and `vis_locs`, which the compound form keeps in step with their
atoms, are left out.
-/

namespace Dream64

/-- The handle of the arena of lists. -/
def ListId.handle (id : ListId) : Handle := (id.index, id.generation)

def ListId.ofHandle (handle : Handle) : ListId := ⟨handle.1, handle.2⟩

namespace Vm

open Fallible (Stateful)
open Fallible.Stateful

/-- What the operators use of the execution state. -/
structure ListState where
  lists : Arena DmList
  liveDatum : DatumId → Bool
  associativeLists : ListId → Bool

inductive ListFault where
  | staleList (id : ListId)
  | list (error : ListError)
  | unsupportedBinary (operator : String)
  | undefinedCompound (operator : CompoundAssignmentOperator)
deriving DecidableEq

abbrev ListRun := Stateful ListState ListFault

namespace ListState

def list (s : ListState) (id : ListId) : Option DmList := s.lists.get id.handle

/-- A value that is no handle of a datum or list that is gone. -/
def isLive (s : ListState) : Value → Bool
  | .datum id => s.liveDatum id
  | .list id => (s.list id).isSome
  | _ => true

def write (id : ListId) (list : DmList) (s : ListState) : ListState :=
  { s with lists := s.lists.update id.handle fun _ => list }

/-- What marks the result of an operator like its left operand. -/
def markLike (source result : ListId) (s : ListState) : ListState :=
  if s.associativeLists source then
    { s with associativeLists := fun id => id = result || s.associativeLists id }
  else s

end ListState

structure ListOperatorEntry where
  key : Value
  associated : Option Value

section

variable (hash : SemanticKey → Nat)

/-! ## Lists of the heap -/

def heapList (id : ListId) : ListRun DmList := expect (·.list id) (.staleList id)

def insertList (list : DmList) : ListRun ListId := fun s =>
  match s.lists.insert list with
  | some (lists, handle) => .value (.ofHandle handle, { s with lists := lists })
  | none => .panic

def allocateList : ListRun ListId := insertList .empty

def copyList (source : ListId) : ListRun ListId := do
  let list ← heapList source
  insertList list

/-- The new list of an operator, marked like the left operand. -/
def markedLike (source : ListId) (allocate : ListRun ListId) : ListRun ListId := do
  let result ← allocate
  update (ListState.markLike source result)
  pure result

def copyLike (left : ListId) : ListRun ListId := markedLike left (copyList left)

def allocateLike (left : ListId) : ListRun ListId := markedLike left allocateList

/-- What is done through `list_mut`. -/
def listMut {α : Type} (id : ListId) (change : DmList → Option (DmList × α)) : ListRun α := do
  let list ← heapList id
  let (list, result) ← unwrap (change list)
  update (ListState.write id list)
  pure result

/-! ## Entries -/

def listOperatorSnapshot (list : ListId) : ListRun (List ListOperatorEntry) := do
  let list ← heapList list
  let keys ← unwrap list.positions
  let live ← read ListState.isLive
  pure ((keys.filter live).map fun key => ⟨key, (list.getKey hash key).toOption⟩)

/-- The key is set to its value, or added where there is none. -/
def putOperatorEntry (list : ListId) (entry : ListOperatorEntry) : ListRun Unit :=
  match entry.associated with
  | some associated => do
    let _ ← listMut list (·.setKey hash entry.key associated)
    pure ()
  | none => do
    let _ ← listMut list (·.add entry.key)
    pure ()

def addOperatorEntry (list : ListId) (entry : ListOperatorEntry) (onlyIfAbsent : Bool) :
    ListRun Unit := do
  let preserveExistingKey ← read (·.associativeLists list)
  let target ← heapList list
  if (onlyIfAbsent || preserveExistingKey) && target.contains hash entry.key then pure ()
  else putOperatorEntry hash list entry

def removeAllOperatorMatches (list : ListId) (value : Value) : ListRun Nat :=
  listMut list fun target => target.removeAll hash value (target.order.length + 1)

def operatorRhsEntries : Value → ListRun (List ListOperatorEntry)
  | .list list => listOperatorSnapshot hash list
  | value => pure [⟨value, none⟩]

/-- Some entry has this key. -/
def hasKey (entries : List ListOperatorEntry) (key : Value) : Bool :=
  entries.any fun candidate => candidate.key.semanticEq key

def addEntries (list : ListId) (entries : List ListOperatorEntry) (onlyIfAbsent : Bool) :
    ListRun Unit :=
  entries.forM fun entry => addOperatorEntry hash list entry onlyIfAbsent

def subtractKeys (list : ListId) (keys : List Value) : ListRun Unit := do
  let removed ← listMut list (·.subtractEntries hash keys)
  match removed with
  | .ok _ => pure ()
  | .error error => raise (.list error)

/-- The entries of a snapshot whose key the right side does not have are removed. -/
def removeUnmatched (list : ListId) (right snapshot : List ListOperatorEntry) : ListRun Unit :=
  snapshot.forM fun entry =>
    if hasKey right entry.key then pure ()
    else do
      let _ ← removeAllOperatorMatches hash list entry.key
      pure ()

/-- An entry of the right side removes the equal ones of the left side, or it is added. -/
def exchangeEntries (list : ListId) (original right : List ListOperatorEntry) : ListRun Unit :=
  right.forM fun entry =>
    if hasKey original entry.key then do
      let _ ← removeAllOperatorMatches hash list entry.key
      pure ()
    else addOperatorEntry hash list entry true

/-! ## Operators -/

def executeListBinaryOperator (operator : String) (left : ListId) (right : Value) :
    ListRun Value :=
  if operator = "+" then do
    let result ← copyLike left
    let entries ← operatorRhsEntries hash right
    addEntries hash result entries false
    pure (.list result)
  else if operator = "-" then do
    let result ← copyLike left
    let entries ← operatorRhsEntries hash right
    subtractKeys hash result (entries.map ListOperatorEntry.key)
    pure (.list result)
  else if operator = "|" then do
    let result ← allocateLike left
    let entries ← listOperatorSnapshot hash left
    addEntries hash result entries true
    let entries ← operatorRhsEntries hash right
    addEntries hash result entries true
    pure (.list result)
  else if operator = "&" then do
    let result ← copyLike left
    let rightEntries ← operatorRhsEntries hash right
    let snapshot ← listOperatorSnapshot hash result
    removeUnmatched hash result rightEntries snapshot
    pure (.list result)
  else if operator = "^" then do
    let result ← allocateLike left
    let leftEntries ← listOperatorSnapshot hash left
    let rightEntries ← operatorRhsEntries hash right
    addEntries hash result (leftEntries.filter fun entry => !hasKey rightEntries entry.key) true
    addEntries hash result (rightEntries.filter fun entry => !hasKey leftEntries entry.key) true
    pure (.list result)
  else raise (.unsupportedBinary operator)

def executeListCompoundOperator (operator : CompoundAssignmentOperator) (left : ListId)
    (right : Value) : ListRun Value :=
  match operator with
  | .add => do
    let entries ← operatorRhsEntries hash right
    addEntries hash left entries false
    pure (.list left)
  | .subtract => do
    let entries ← operatorRhsEntries hash right
    subtractKeys hash left (entries.map ListOperatorEntry.key)
    pure (.list left)
  | .bitOr => do
    let entries ← operatorRhsEntries hash right
    addEntries hash left entries true
    pure (.list left)
  | .bitAnd => do
    let rightEntries ← operatorRhsEntries hash right
    let snapshot ← listOperatorSnapshot hash left
    removeUnmatched hash left rightEntries snapshot
    pure (.list left)
  | .bitXor => do
    let rightEntries ← operatorRhsEntries hash right
    let original ← listOperatorSnapshot hash left
    exchangeEntries hash left original rightEntries
    pure (.list left)
  | .multiply | .divide | .remainder | .fractionalRemainder | .shiftLeft | .shiftRight =>
    raise (.undefinedCompound operator)

end

end Vm

end Dream64
