import Dream64.Library.Demand
import Dream64.Library.Fenwick
import Dream64.Library.Pools
import Dream64.Value.SemanticKey

/-!
# Lists

A `DmList` keeps its values in one vector, its associations in another, and the
order of both in a third. Entries that are cut off the front of a list of
values stay in the vectors until something else needs these. Two indexes are
derived from the vectors: one finds associations by the hash of their keys, the
other the last occurrence of a value.

A list without storage is one with empty vectors. Where the code panics the
functions give `none`. The hash of the standard library is a parameter.
-/

namespace Dream64

open Pools
open Demand (flagged)

inductive ListError where
  | indexZero
  | indexOutOfBounds (index len : Nat)
  | missingKey
  | corruptListStorage
deriving DecidableEq

/-- An index of 31 bits, and a bit that says which vector it is for. -/
structure ListOrder where
  bits : Nat
deriving DecidableEq

namespace ListOrder

def associativeBit : Nat := 2 ^ 31

def positional (index : Nat) : Option ListOrder :=
  if index < 2 ^ 32 then some ⟨index⟩ else none

def associative (index : Nat) : Option ListOrder :=
  if index < 2 ^ 32 then some ⟨index ||| associativeBit⟩ else none

def positionalIndex (entry : ListOrder) : Option Nat :=
  if entry.bits &&& associativeBit = 0 then some entry.bits else none

def associativeIndex (entry : ListOrder) : Option Nat :=
  if entry.bits &&& associativeBit ≠ 0 then some (entry.bits &&& (associativeBit - 1)) else none

/-- The two questions in one: an entry is for one vector or for the other. -/
def slot (entry : ListOrder) : Slot :=
  match entry.positionalIndex with
  | some position => .inl position
  | none => .inr (entry.bits &&& (associativeBit - 1))

/-- The entry after a positional slot is gone. -/
def closePositional (gone : Nat) (entry : ListOrder) : Option ListOrder :=
  match entry.positionalIndex with
  | some other => if gone < other then positional (other - 1) else some entry
  | none => some entry

/-- The entry after an associative slot is gone. -/
def closeAssociative (gone : Nat) (entry : ListOrder) : Option ListOrder :=
  match entry.associativeIndex with
  | some other => if gone < other then associative (other - 1) else some entry
  | none => some entry

end ListOrder

structure PositionalRemoveIndex where
  /-- The places of a key, a hash map. -/
  positions : SemanticKey → List Nat
  removed : List Nat

structure DmList where
  positional : List Value
  associative : List (Value × Value)
  order : List ListOrder
  /-- A hash map from hashes to places. -/
  associativeIndex : Option (Nat → Option Nat)
  positionalRemoveIndex : Option PositionalRemoveIndex
  prefixHead : Nat

def associativeIndexThreshold : Nat := 8

def positionalRemoveIndexThreshold : Nat := 64

def associativeIndexCollision : Nat := 2 ^ 32 - 1

/-- `usize::MAX` -/
def maxUsize : Nat := 2 ^ 64 - 1

def checkedSub (a b : Nat) : Option Nat := if b ≤ a then some (a - b) else none

def checkedIndex (index len : Nat) : Except ListError Nat :=
  if index = 0 then .error .indexZero
  else if len < index then .error (.indexOutOfBounds index len)
  else .ok (index - 1)

def checkedBoundary (index len : Nat) : Except ListError Nat :=
  if index = 0 then .error .indexZero
  else if len + 1 < index then .error (.indexOutOfBounds index len)
  else .ok (index - 1)

namespace DmList

def empty : DmList := ⟨[], [], [], none, none, 0⟩

def len (list : DmList) : Nat := list.order.length - list.prefixHead

/-- The value at a place of the order: a positional value or an associative key. -/
def keyAt (list : DmList) (entry : ListOrder) : Option Value :=
  match entry.slot with
  | .inl position => list.positional[position]?
  | .inr association => list.associative[association]?.map (·.1)

/-- The first of some places whose value is equal to this one. -/
def findKey (list : DmList) (value : Value) : List ListOrder → Option (Option Nat)
  | [] => some none
  | entry :: entries => do
    let candidate ← list.keyAt entry
    if candidate.semanticEq value then some (some 0)
    else do
      let found ← list.findKey value entries
      some (found.map (· + 1))

def materializePrefix (list : DmList) : Option DmList :=
  if list.prefixHead = 0 then some list
  else if list.positional.length < list.prefixHead ∨ list.order.length < list.prefixHead then none
  else do
    let order ← (list.order.drop list.prefixHead).mapM fun entry => do
      let index ← entry.positionalIndex
      let index ← checkedSub index list.prefixHead
      ListOrder.positional index
    some { list with
      positional := list.positional.drop list.prefixHead
      order := order
      prefixHead := 0 }

def invalidatePositionalRemoveIndex (list : DmList) : DmList :=
  { list with positionalRemoveIndex := none }

/-! ## The index of associations -/

section

variable (hash : SemanticKey → Nat)

def semanticHash (value : Value) : Option Nat := (semanticKey value).map hash

/-- Puts one association into the index. -/
def indexEntry (associative : List (Value × Value)) (index : Nat → Option Nat) (position : Nat) :
    Option (Nat → Option Nat) := do
  let entry ← associative[position]?
  match semanticHash hash entry.1 with
  | none => some index
  | some keyHash =>
    if 2 ^ 32 ≤ position then none
    else
      match index keyHash with
      | none => some (Function.update index keyHash (some position))
      | some indexed =>
        if indexed = associativeIndexCollision then some index
        else do
          let other ← associative[indexed]?
          if other.1.semanticEq entry.1 then some index
          else some (Function.update index keyHash (some associativeIndexCollision))

def rebuildAssociativeIndex (list : DmList) : Option DmList :=
  if list.associative.length < associativeIndexThreshold then
    some { list with associativeIndex := none }
  else do
    let index ← (List.range list.associative.length).foldlM (indexEntry hash list.associative)
      fun _ => none
    some { list with associativeIndex := some index }

def indexLastAssociation (list : DmList) : Option DmList :=
  if list.associative.length = associativeIndexThreshold then list.rebuildAssociativeIndex hash
  else if list.associative.length < associativeIndexThreshold then some list
  else
    match list.associativeIndex with
    | none => some list
    | some index => do
      let index ← indexEntry hash list.associative index (list.associative.length - 1)
      some { list with associativeIndex := some index }

def scanAssociations (list : DmList) (key : Value) : Option Nat :=
  list.associative.findIdx? fun entry => entry.1.semanticEq key

def associationPositionForKey (list : DmList) (key : Value) : Option Nat :=
  match list.associativeIndex, semanticHash hash key with
  | some index, some keyHash =>
    match index keyHash with
    | some position =>
      if position ≠ associativeIndexCollision ∧
          list.associative[position]?.any fun entry => entry.1.semanticEq key then some position
      else list.scanAssociations key
    | none => none
  | _, _ => list.scanAssociations key

/-! ## Adding and replacing -/

def add (list : DmList) (value : Value) : Option (DmList × Nat) := do
  let entry ← ListOrder.positional list.positional.length
  let list := { list.invalidatePositionalRemoveIndex with
    order := list.order ++ [entry]
    positional := list.positional ++ [value] }
  some (list, list.len)

def extendPositional (list : DmList) (values : List Value) : Option (DmList × Nat) := do
  let entries ← (List.range' list.positional.length values.length).mapM ListOrder.positional
  let list := { list.invalidatePositionalRemoveIndex with
    order := list.order ++ entries
    positional := list.positional ++ values }
  some (list, list.len)

def get (list : DmList) (index : Nat) : Option (Except ListError Value) :=
  match checkedIndex index list.len with
  | .error error => some (.error error)
  | .ok zeroBased => do
    let entry ← list.order[zeroBased + list.prefixHead]?
    let value ← list.keyAt entry
    some (.ok value)

def set (list : DmList) (index : Nat) (value : Value) :
    Option (DmList × Except ListError Value) :=
  match checkedIndex index list.len with
  | .error error => some (list, .error error)
  | .ok zeroBased => do
    let zeroBased := zeroBased + list.prefixHead
    let entry ← list.order[zeroBased]?
    match entry.slot with
    | .inl position =>
      let previous ← list.positional[position]?
      some ({ list.invalidatePositionalRemoveIndex with
        positional := list.positional.set position value }, .ok previous)
    | .inr association =>
      let previous ← list.associative[association]?
      let order ← list.order.mapM (ListOrder.closeAssociative association)
      let entry ← ListOrder.positional list.positional.length
      let list ← rebuildAssociativeIndex hash { list.invalidatePositionalRemoveIndex with
        associative := list.associative.eraseIdx association
        positional := list.positional ++ [value]
        order := order.set zeroBased entry }
      some (list, .ok previous.1)

def insert (list : DmList) (index : Nat) (value : Value) :
    Option (DmList × Except ListError Nat) := do
  let list ← list.materializePrefix
  match checkedBoundary index list.order.length with
  | .error error => some (list, .error error)
  | .ok zeroBased =>
    let entry ← ListOrder.positional list.positional.length
    some ({ list.invalidatePositionalRemoveIndex with
      positional := list.positional ++ [value]
      order := list.order.insertIdx zeroBased entry }, .ok index)

/-! ## Removing -/

def remove (list : DmList) (index : Nat) : Option (DmList × Except ListError Value) := do
  let list ← list.materializePrefix
  let list := list.invalidatePositionalRemoveIndex
  match checkedIndex index list.order.length with
  | .error error => some (list, .error error)
  | .ok zeroBased =>
    let entry ← list.order[zeroBased]?
    let order := list.order.eraseIdx zeroBased
    match entry.slot with
    | .inl position =>
      let order ← order.mapM (ListOrder.closePositional position)
      let value ← list.positional[position]?
      some ({ list with order := order, positional := list.positional.eraseIdx position },
        .ok value)
    | .inr association =>
      let entry ← list.associative[association]?
      let order ← order.mapM (ListOrder.closeAssociative association)
      let list ← rebuildAssociativeIndex hash
        { list with order := order, associative := list.associative.eraseIdx association }
      some (list, .ok entry.1)

/-- `remove(..).ok()` -/
def removeFound (list : DmList) (index : Nat) : Option (DmList × Option Value) := do
  let (list, removed) ← list.remove hash index
  some (list, removed.toOption)

def removeFirst (list : DmList) (value : Value) : Option (DmList × Option Value) := do
  let found ← list.findKey value (list.order.drop list.prefixHead)
  match found with
  | none => some (list, none)
  | some index => list.removeFound hash (index + 1)

/-- The index that `remove_last` builds for a long list of values. -/
def buildPositionalRemoveIndex (list : DmList) : DmList :=
  if list.positionalRemoveIndex.isNone ∧ list.associative.isEmpty ∧
      positionalRemoveIndexThreshold ≤ list.positional.length ∧
      list.order.zipIdx.all fun entry => entry.1.positionalIndex == some entry.2 &&
        (list.positional[entry.2]?.bind semanticKey).isSome then
    { list with
      positionalRemoveIndex := some
        { positions := fun key => (list.positional.zipIdx.filter fun entry =>
            semanticKey entry.1 = some key).map (·.2)
          removed := List.replicate (list.positional.length + 1) 0 } }
  else list

def removeLast (list : DmList) (value : Value) : Option (DmList × Option Value) := do
  let list ← list.materializePrefix
  let list := list.buildPositionalRemoveIndex
  match semanticKey value, list.positionalRemoveIndex with
  | some key, some index =>
    match (index.positions key).getLast? with
    | none => some (list, none)
    | some original =>
      let before ← Fenwick.prefixSum index.removed original
      let current ← checkedSub original before
      let value ← list.positional[current]?
      some ({ list with
        positional := list.positional.eraseIdx current
        order := list.order.dropLast
        positionalRemoveIndex := some
          { positions := Function.update index.positions key (index.positions key).dropLast
            removed := Fenwick.increment 64 index.removed (original + 1) } }, some value)
  | _, _ => do
    let found ← list.findKey value list.order.reverse
    match found with
    | none => some (list, none)
    | some index => list.removeFound hash (list.order.length - index)

/-! ## Cutting and subtracting -/

/-- Sets the flags of the slots of some entries. -/
def markRemoved (flags : List Bool × List Bool) :
    List ListOrder → Except ListError (List Bool × List Bool)
  | [] => .ok flags
  | entry :: entries =>
    match entry.slot with
    | .inl position =>
      if position < flags.1.length then markRemoved (flags.1.set position true, flags.2) entries
      else .error .corruptListStorage
    | .inr association =>
      if association < flags.2.length then
        markRemoved (flags.1, flags.2.set association true) entries
      else .error .corruptListStorage

def renumberEntry (positionalRemap associativeRemap : List Nat) (entry : ListOrder) :
    Option ListOrder :=
  match entry.slot with
  | .inl position => do
    let next ← positionalRemap[position]?
    ListOrder.positional next
  | .inr association => do
    let next ← associativeRemap[association]?
    ListOrder.associative next

/-- Drops the slots of some entries and renumbers those of the others. -/
def dropSlots (list : DmList) (rest gone : List ListOrder) : Option (Except ListError DmList) :=
  match markRemoved (List.replicate list.positional.length false,
    List.replicate list.associative.length false) gone with
  | .error error => some (.error error)
  | .ok flags => do
    let order ← rest.mapM (renumberEntry (renumber maxUsize 0 flags.1) (renumber maxUsize 0 flags.2))
    let list ← rebuildAssociativeIndex hash { list with
      positional := kept list.positional flags.1
      associative := kept list.associative flags.2
      order := order }
    some (.ok list)

def cutRange (list : DmList) (start stop : Nat) : Option (DmList × Except ListError Nat) :=
  match checkedBoundary start list.len, checkedBoundary stop list.len with
  | .error error, _ => some (list, .error error)
  | _, .error error => some (list, .error error)
  | .ok _, .ok _ =>
    if stop ≤ start then some (list, .ok 0)
    else if start = 1 ∧ stop = list.len + 1 then some (empty, .ok (stop - start))
    else if start = 1 ∧ list.associative.isEmpty ∧ (0 < list.prefixHead ∨
        list.order.zipIdx.all fun entry => entry.1.positionalIndex == some entry.2) then
      some ({ list.invalidatePositionalRemoveIndex with
        prefixHead := list.prefixHead + (stop - start) }, .ok (stop - start))
    else do
      let list ← list.materializePrefix
      let list := list.invalidatePositionalRemoveIndex
      let rest := list.order.take (start - 1) ++ list.order.drop (stop - 1)
      let dropped ← list.dropSlots hash rest ((list.order.take (stop - 1)).drop (start - 1))
      match dropped with
      | .error error => some ({ list with order := rest }, .error error)
      | .ok list => some (list, .ok (stop - start))

/-- How many values of each kind are still to be taken. -/
structure Quotas where
  keyed : SemanticKey → Nat
  fallback : List (Value × Nat)

def addFallback (value : Value) : List (Value × Nat) → List (Value × Nat)
  | [] => [(value, 1)]
  | entry :: entries =>
    if entry.1.semanticEq value then (entry.1, entry.2 + 1) :: entries
    else entry :: addFallback value entries

def Quotas.add (quotas : Quotas) (value : Value) : Quotas :=
  match semanticKey value with
  | some key =>
    { quotas with keyed := Function.update quotas.keyed key (quotas.keyed key + 1) }
  | none => { quotas with fallback := addFallback value quotas.fallback }

def takeFallback (candidate : Value) : List (Value × Nat) → Option (List (Value × Nat))
  | [] => none
  | entry :: entries =>
    if 0 < entry.2 ∧ candidate.semanticEq entry.1 then some ((entry.1, entry.2 - 1) :: entries)
    else (takeFallback candidate entries).map (entry :: ·)

/-- The quotas after a candidate is taken, if it is wanted. -/
def Quotas.take (quotas : Quotas) (candidate : Value) : Option Quotas :=
  match semanticKey candidate with
  | some key =>
    if quotas.keyed key = 0 then none
    else some { quotas with keyed := Function.update quotas.keyed key (quotas.keyed key - 1) }
  | none => (takeFallback candidate quotas.fallback).map fun fallback =>
      { quotas with fallback := fallback }

/-- Which of some entries are taken. -/
def takeEntries (list : DmList) : Quotas → List ListOrder → Except ListError (List Bool)
  | _, [] => .ok []
  | quotas, entry :: entries =>
    match list.keyAt entry with
    | none => .error .corruptListStorage
    | some candidate =>
      match quotas.take candidate with
      | some quotas => (list.takeEntries quotas entries).map (true :: ·)
      | none => (list.takeEntries quotas entries).map (false :: ·)

def subtractEntries (list : DmList) (values : List Value) :
    Option (DmList × Except ListError Nat) :=
  if values.isEmpty ∨ list.len = 0 then some (list, .ok 0)
  else
    let live := list.order.drop list.prefixHead
    match list.takeEntries (values.foldl Quotas.add ⟨fun _ => 0, []⟩) live.reverse with
    | .error error => some (list, .error error)
    | .ok flags =>
      let removed := flags.count true
      if removed = 0 then some (list, .ok 0)
      else do
        let list := list.invalidatePositionalRemoveIndex
        let dropped ← ({ list with prefixHead := 0 } : DmList).dropSlots hash
          (flagged false live flags.reverse)
          (list.order.take list.prefixHead ++ flagged true live flags.reverse)
        match dropped with
        | .error error => some (list, .error error)
        | .ok list => some (list, .ok removed)

/-! ## Places and sizes -/

def swap (list : DmList) (first second : Nat) : Option (DmList × Except ListError Unit) := do
  let list ← list.materializePrefix
  match checkedIndex first list.order.length, checkedIndex second list.order.length with
  | .error error, _ => some (list, .error error)
  | _, .error error => some (list, .error error)
  | .ok first, .ok second =>
    let one ← list.order[first]?
    let other ← list.order[second]?
    some ({ list.invalidatePositionalRemoveIndex with
      order := (list.order.set first other).set second one }, .ok ())

/-- Adds `null` values, so many times. -/
def addNulls : Nat → DmList → Option DmList
  | 0, list => some list
  | count + 1, list => do
    let (list, _) ← list.add .null
    addNulls count list

def resize (list : DmList) (newLen : Nat) : Option (DmList × Except ListError Unit) := do
  let list ← addNulls (newLen - list.len) list
  if newLen < list.len then do
    let (list, cut) ← list.cutRange hash (newLen + 1) (list.len + 1)
    some (list, cut.map fun _ => ())
  else some (list, .ok ())

/-! ## Keys -/

def getKey (list : DmList) (key : Value) : Except ListError Value :=
  match (list.associationPositionForKey hash key).bind (list.associative[·]?) with
  | some entry => .ok entry.2
  | none => .error .missingKey

/-- The first positional entry that is equal to the key, with its place in the order. -/
def findPositional (list : DmList) (key : Value) :
    List ListOrder → Option (Option (Nat × Nat))
  | [] => some none
  | entry :: entries => do
    let next := do
      let found ← list.findPositional key entries
      some (found.map fun place => (place.1 + 1, place.2))
    match entry.positionalIndex with
    | none => next
    | some position =>
      let value ← list.positional[position]?
      if value.semanticEq key then some (some (0, position)) else next

def setKey (list : DmList) (key value : Value) : Option (DmList × Option Value) := do
  let list ← list.materializePrefix
  let list := list.invalidatePositionalRemoveIndex
  match list.associationPositionForKey hash key with
  | some position =>
    let entry ← list.associative[position]?
    some ({ list with associative := list.associative.set position (entry.1, value) },
      some entry.2)
  | none =>
    let found ← list.findPositional key list.order
    match found with
    | some (orderIndex, position) =>
      let existingKey ← list.positional[position]?
      let order ← list.order.mapM (ListOrder.closePositional position)
      let entry ← ListOrder.associative list.associative.length
      let list ← indexLastAssociation hash { list with
        positional := list.positional.eraseIdx position
        order := order.set orderIndex entry
        associative := list.associative ++ [(existingKey, value)] }
      some (list, none)
    | none =>
      let entry ← ListOrder.associative list.associative.length
      let list ← indexLastAssociation hash { list with
        order := list.order ++ [entry]
        associative := list.associative ++ [(key, value)] }
      some (list, none)

def contains (list : DmList) (value : Value) : Bool :=
  (list.associationPositionForKey hash value).isSome ||
    (list.positional.drop list.prefixHead).any fun candidate => candidate.semanticEq value

def removeKey (list : DmList) (key : Value) : Option (DmList × Option Value) := do
  let list ← list.materializePrefix
  let list := list.invalidatePositionalRemoveIndex
  match list.scanAssociations key with
  | none => some (list, none)
  | some index =>
    match list.order.findIdx? fun entry => entry.associativeIndex == some index with
    | none => some (list, none)
    | some orderIndex =>
      let removed ← list.associative[index]?
      let order ← (list.order.eraseIdx orderIndex).mapM (ListOrder.closeAssociative index)
      let list ← rebuildAssociativeIndex hash
        { list with associative := list.associative.eraseIdx index, order := order }
      some (list, some removed.2)

end

/-! ## Garbage collection -/

/-- Whether the removed prefix is worth the copy; the bytes of an entry of both vectors depend on
the platform. -/
def shouldCompactPrefixForGc (entryBytes : Nat) (list : DmList) : Bool :=
  1024 ≤ list.prefixHead && (list.positional.length ≤ list.prefixHead * 4 ||
    256 * 1024 ≤ list.prefixHead * entryBytes)

/-- What a collection does to a list; its storage may be shared with a copy of the list. -/
def compactForGc (entryBytes : Nat) (shared : Bool) (list : DmList) : Option DmList :=
  if list.shouldCompactPrefixForGc entryBytes then
    if shared then do
      if list.positional.length < list.prefixHead then none
      else do
        let positional := list.positional.drop list.prefixHead
        let order ← (List.range positional.length).mapM ListOrder.positional
        some ⟨positional, [], order, none, none, 0⟩
    else do
      let list ← list.materializePrefix
      some list.invalidatePositionalRemoveIndex
  else if shared then some list
  else some list.invalidatePositionalRemoveIndex

end DmList

end Dream64
