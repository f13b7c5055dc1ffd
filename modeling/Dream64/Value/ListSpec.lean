import Dream64.Value.DmList

/-!
# Lists as sequences

What the operations of a list mean: a list is one sequence of entries, each of
them a value or a key with its value. `apply` runs an operation of the code,
`spec` the same one on the sequence.
-/

namespace Dream64

abbrev Entry := Value ⊕ (Value × Value)

/-- What a numeric read of the entry gives. -/
def Entry.key : Entry → Value
  | .inl value => value
  | .inr pair => pair.1

inductive ListOp where
  | add (value : Value)
  | extendPositional (values : List Value)
  | set (index : Nat) (value : Value)
  | remove (index : Nat)
  | removeFirst (value : Value)
  | removeLast (value : Value)
  | insert (index : Nat) (value : Value)
  | cutRange (start stop : Nat)
  | subtractEntries (values : List Value)
  | swap (first second : Nat)
  | resize (newLen : Nat)
  | setKey (key value : Value)
  | removeKey (key : Value)
  | compactForGc (entryBytes : Nat) (shared : Bool)

inductive ListResult where
  | len (len : Nat)
  | value (result : Except ListError Value)
  | count (result : Except ListError Nat)
  | done (result : Except ListError Unit)
  | found (result : Option Value)

def ListOp.apply (hash : SemanticKey → Nat) (list : DmList) : ListOp → Option (DmList × ListResult)
  | .add value => (list.add value).map fun r => (r.1, .len r.2)
  | .extendPositional values => (list.extendPositional values).map fun r => (r.1, .len r.2)
  | .set index value => (list.set hash index value).map fun r => (r.1, .value r.2)
  | .remove index => (list.remove hash index).map fun r => (r.1, .value r.2)
  | .removeFirst value => (list.removeFirst hash value).map fun r => (r.1, .found r.2)
  | .removeLast value => (list.removeLast hash value).map fun r => (r.1, .found r.2)
  | .insert index value => (list.insert index value).map fun r => (r.1, .count r.2)
  | .cutRange start stop => (list.cutRange hash start stop).map fun r => (r.1, .count r.2)
  | .subtractEntries values => (list.subtractEntries hash values).map fun r => (r.1, .count r.2)
  | .swap first second => (list.swap first second).map fun r => (r.1, .done r.2)
  | .resize newLen => (list.resize hash newLen).map fun r => (r.1, .done r.2)
  | .setKey key value => (list.setKey hash key value).map fun r => (r.1, .found r.2)
  | .removeKey key => (list.removeKey hash key).map fun r => (r.1, .found r.2)
  | .compactForGc entryBytes shared =>
    (list.compactForGc entryBytes shared).map fun list => (list, .done (.ok ()))

namespace ListSpec

def findFirst (value : Value) (entries : List Entry) : Option Nat :=
  entries.findIdx? fun entry => entry.key.semanticEq value

def findLast (value : Value) (entries : List Entry) : Option Nat :=
  (findFirst value entries.reverse).map (entries.length - 1 - ·)

/-- The value that a place holds. -/
def keyAt (entries : List Entry) (index : Nat) : Except ListError Value :=
  (entries[index]?.map Entry.key).elim (.error .corruptListStorage) .ok

def set (entries : List Entry) (index : Nat) (value : Value) :
    List Entry × Except ListError Value :=
  match checkedIndex index entries.length with
  | .error error => (entries, .error error)
  | .ok place => (entries.set place (.inl value), keyAt entries place)

def remove (entries : List Entry) (index : Nat) : List Entry × Except ListError Value :=
  match checkedIndex index entries.length with
  | .error error => (entries, .error error)
  | .ok place => (entries.eraseIdx place, keyAt entries place)

def removeFound (entries : List Entry) : Option Nat → List Entry × Option Value
  | some place => (entries.eraseIdx place, entries[place]?.map Entry.key)
  | none => (entries, none)

def insert (entries : List Entry) (index : Nat) (value : Value) :
    List Entry × Except ListError Nat :=
  match checkedBoundary index entries.length with
  | .error error => (entries, .error error)
  | .ok place => (entries.insertIdx place (.inl value), .ok index)

def cutRange (entries : List Entry) (start stop : Nat) : List Entry × Except ListError Nat :=
  match checkedBoundary start entries.length, checkedBoundary stop entries.length with
  | .error error, _ => (entries, .error error)
  | _, .error error => (entries, .error error)
  | .ok _, .ok _ =>
    if stop ≤ start then (entries, .ok 0)
    else (entries.take (start - 1) ++ entries.drop (stop - 1), .ok (stop - start))

/-- Removes the last occurrence of one value after the other, and counts those there were. -/
def subtractEntries : List Entry → List Value → List Entry × Nat
  | entries, [] => (entries, 0)
  | entries, value :: values =>
    match findLast value entries with
    | none => subtractEntries entries values
    | some place =>
      let rest := subtractEntries (entries.eraseIdx place) values
      (rest.1, rest.2 + 1)

def swap (entries : List Entry) (first second : Nat) : List Entry × Except ListError Unit :=
  match checkedIndex first entries.length, checkedIndex second entries.length with
  | .error error, _ => (entries, .error error)
  | _, .error error => (entries, .error error)
  | .ok first, .ok second =>
    match entries[first]?, entries[second]? with
    | some one, some other => ((entries.set first other).set second one, .ok ())
    | _, _ => (entries, .ok ())

def resize (entries : List Entry) (newLen : Nat) : List Entry :=
  entries.take newLen ++ List.replicate (newLen - entries.length) (.inl .null)

def isAssociation (key : Value) : Entry → Bool
  | .inl _ => false
  | .inr pair => pair.1.semanticEq key

def isPositional (key : Value) : Entry → Bool
  | .inl value => value.semanticEq key
  | .inr _ => false

/-- The value of an association. -/
def pairValue (entries : List Entry) (place : Nat) : Option Value :=
  entries[place]?.bind fun entry => entry.elim (fun _ => none) fun pair => some pair.2

/-- A key keeps its place and its spelling, and a value that becomes a key as well. -/
def setKey (entries : List Entry) (key value : Value) : List Entry × Option Value :=
  match entries.findIdx? (isAssociation key) with
  | some place =>
    (entries.modify place fun entry => .inr (entry.key, value), pairValue entries place)
  | none =>
    match entries.findIdx? (isPositional key) with
    | some place => (entries.modify place fun entry => .inr (entry.key, value), none)
    | none => (entries ++ [.inr (key, value)], none)

def removeKey (entries : List Entry) (key : Value) : List Entry × Option Value :=
  match entries.findIdx? (isAssociation key) with
  | some place => (entries.eraseIdx place, pairValue entries place)
  | none => (entries, none)

end ListSpec

def ListOp.spec (entries : List Entry) : ListOp → List Entry × ListResult
  | .add value => (entries ++ [.inl value], .len (entries.length + 1))
  | .extendPositional values =>
    (entries ++ values.map .inl, .len (entries.length + values.length))
  | .set index value => (ListSpec.set entries index value).map id .value
  | .remove index => (ListSpec.remove entries index).map id .value
  | .removeFirst value =>
    (ListSpec.removeFound entries (ListSpec.findFirst value entries)).map id .found
  | .removeLast value =>
    (ListSpec.removeFound entries (ListSpec.findLast value entries)).map id .found
  | .insert index value => (ListSpec.insert entries index value).map id .count
  | .cutRange start stop => (ListSpec.cutRange entries start stop).map id .count
  | .subtractEntries values =>
    (ListSpec.subtractEntries entries values).map id fun removed => .count (.ok removed)
  | .swap first second => (ListSpec.swap entries first second).map id .done
  | .resize newLen => (ListSpec.resize entries newLen, .done (.ok ()))
  | .setKey key value => (ListSpec.setKey entries key value).map id .found
  | .removeKey key => (ListSpec.removeKey entries key).map id .found
  | .compactForGc _ _ => (entries, .done (.ok ()))

/-- The operations one after the other, with their results. -/
def runList (hash : SemanticKey → Nat) : DmList → List ListOp → Option (DmList × List ListResult)
  | list, [] => some (list, [])
  | list, op :: ops => do
    let (list, result) ← op.apply hash list
    let (list, results) ← runList hash list ops
    some (list, result :: results)

def specList : List Entry → List ListOp → List Entry × List ListResult
  | entries, [] => (entries, [])
  | entries, op :: ops =>
    let step := op.spec entries
    let rest := specList step.1 ops
    (rest.1, step.2 :: rest.2)

end Dream64
