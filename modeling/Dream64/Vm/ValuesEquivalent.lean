import Dream64.Library.Fuel
import Dream64.Library.Descent
import Dream64.Value.HeapSnapshot
import Dream64.Value.ListSnapshots

/-!
# Equivalence of values

`~=` compares two lists entry by entry and follows what is in them, the keys and
the values of the keys. The recursion has no bound and remembers no list that it
is in, so it is given fuel here.
-/

namespace Dream64

namespace ValueHeap

def datum (heap : ValueHeap) (id : DatumId) : Option DatumRecord :=
  heap.datums.get (id.index, id.generation)

def list (heap : ValueHeap) (id : ListId) : Option DmList := heap.lists.get (id.index, id.generation)

/-- A handle of an object that is gone is null. -/
def canonicalizeValue (heap : ValueHeap) : Value → Value
  | .datum id => if (heap.datum id).isSome then .datum id else .null
  | .list id => if (heap.list id).isSome then .list id else .null
  | value => value

end ValueHeap

namespace Vm

inductive EquivalenceError where
  | staleDatum (id : DatumId)
  | missingField (name : FieldName)
  | staleList (id : ListId)
  | list (error : ListError)
  | notMatrix
deriving DecidableEq

/-! ## Matrices -/

/-- `MATRIX_FIELDS` -/
def matrixFields : List FieldName :=
  [⟨"a", rfl⟩, ⟨"b", rfl⟩, ⟨"c", rfl⟩, ⟨"d", rfl⟩, ⟨"e", rfl⟩, ⟨"f", rfl⟩]

def matrixNumeric : Value → DmNumberBits
  | .number bits => bits
  | _ => 0

def isMatrixDatum (datum : DatumId) (heap : ValueHeap) : Bool :=
  (heap.datum datum).any fun record => record.typePath.path == "/matrix"

def datumField (heap : ValueHeap) (datum : DatumId) (name : FieldName) :
    Except EquivalenceError Value :=
  match heap.datum datum with
  | none => .error (.staleDatum datum)
  | some record =>
    match record.fieldOptional name with
    | none => .error (.missingField name)
    | some value => .ok value

def matrixComponents (datum : DatumId) (heap : ValueHeap) :
    Except EquivalenceError (List DmNumberBits) :=
  if isMatrixDatum datum heap then
    matrixFields.mapM fun name => (datumField heap datum name).map matrixNumeric
  else .error .notMatrix

/-- `==` of two arrays of numbers. -/
def componentsEq (left right : List DmNumberBits) : Bool :=
  (left.zip right).all fun pair => pair.1.numericEq pair.2

def matricesEq (heap : ValueHeap) (left right : DatumId) : Except EquivalenceError Bool :=
  match matrixComponents left heap, matrixComponents right heap with
  | .ok left, .ok right => .ok (componentsEq left right)
  | .error error, _ => .error error
  | _, .error error => .error error

/-! ## Lists -/

abbrev Comparison := Fuelled (Except EquivalenceError Bool)

/-- The next comparison is made where this one gave `true`. -/
def Comparison.andThen (first next : Comparison) : Comparison :=
  first.bind fun answer =>
    match answer with
    | .ok true => next
    | .ok false => .value (.ok false)
    | .error error => .value (.error error)

/-- Continues with an entry of a list. -/
def withEntry (list : DmList) (index : Nat) (next : Value → Comparison) : Comparison :=
  match list.get index with
  | none => .panic
  | some (.error error) => .value (.error (.list error))
  | some (.ok key) => next key

/-- The value of a key, and null for none. -/
def associatedOrNull (hash : SemanticKey → Nat) (list : DmList) (key : Value) : Value :=
  (list.getKey hash key).toOption.getD .null

def compareEntries (hash : SemanticKey → Nat) (equivalent : Value → Value → Comparison)
    (left right : DmList) : List Nat → Comparison
  | [] => .value (.ok true)
  | index :: rest =>
    withEntry left index fun leftKey => withEntry right index fun rightKey =>
      (equivalent leftKey rightKey).andThen <|
        (equivalent (associatedOrNull hash left leftKey) (associatedOrNull hash right rightKey)).andThen <|
          compareEntries hash equivalent left right rest

def compareLists (hash : SemanticKey → Nat) (heap : ValueHeap)
    (equivalent : Value → Value → Comparison) (left right : ListId) : Comparison :=
  match heap.list left, heap.list right with
  | some one, some other =>
    if one.len ≠ other.len then .value (.ok false)
    else compareEntries hash equivalent one other (List.range' 1 one.len)
  | none, _ => .value (.error (.staleList left))
  | _, none => .value (.error (.staleList right))

/-- The comparison of two values that are canonical. -/
def compareCanonical (hash : SemanticKey → Nat) (heap : ValueHeap)
    (equivalent : Value → Value → Comparison) : Value → Value → Comparison
  | .list left, .list right => compareLists hash heap equivalent left right
  | .datum left, .datum right =>
    if isMatrixDatum left heap && isMatrixDatum right heap then .value (matricesEq heap left right)
    else .value (.ok ((Value.datum left).semanticEq (.datum right)))
  | left, right => .value (.ok (left.semanticEq right))

def valuesEquivalent (hash : SemanticKey → Nat) (heap : ValueHeap) : Nat → Value → Value → Comparison
  | 0, _, _ => .error .outOfFuel
  | fuel + 1, left, right =>
    compareCanonical hash heap (valuesEquivalent hash heap fuel) (heap.canonicalizeValue left)
      (heap.canonicalizeValue right)

end Vm

end Dream64
