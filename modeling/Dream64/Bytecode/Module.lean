import Dream64.Vm.Bytecode

/-!
# Modules with the widths of their operands

The data of `bytecode.rs` as it is stored: every instruction with the widths of
its operands, the programs and the module with its name indexes. The text of
the deferred bodies is left out, and so are what two equal modules may differ in
(the identity, the attached wordcode and the digests).
-/

namespace Dream64.Bytecode

open Vm (TypePredicateKind ListEntryKind CompoundAssignmentOperator CompoundListIndexOperator)

/-- A stable index into the procedure table of the module. -/
abbrev ProcedureId := UInt32

abbrev ArgumentNames := List (Option String)

inductive Instruction where
  | pushNull
  | pushNumber (value : DmNumberBits)
  | pushText (value : String)
  | pushFile (value : String)
  | pushTypePath (value : TypePath)
  | addressLocal (slot : UInt16)
  | loadLocalRaw (slot : UInt16)
  | makeModifiedTypePath (fields : List FieldName)
  | allocateDatum (argumentCount : UInt16) (argumentNames : ArgumentNames)
  | allocateCurrentDatum (argumentCount : UInt16)
  | makeRegex (argumentCount : UInt8)
  | makeMutableAppearance (argumentCount : UInt16)
  | makeMatrix (argumentCount : UInt8)
  | makeVector (argumentCount : UInt8)
  | replaceText (argumentCount : UInt8) (exact characterIndices : Bool)
  | copyText (argumentCount : UInt8) (characterIndices : Bool)
  | standardBuiltin (name : String) (argumentCount : UInt16) (argumentNames : ArgumentNames)
  | nativeSrcMethod (name : String) (argumentCount : UInt16)
  | output
  | input
  | externalCall (argumentCount : UInt16)
  | animate (argumentNames : ArgumentNames) (expandedIndices : List UInt16)
  | makeFilter (argumentNames : ArgumentNames) (expandedIndices : List UInt16)
  | initialField (name : FieldName)
  | initialDynamicField
  | block (argumentCount : UInt8)
  | rand (argumentCount : UInt8)
  | roll (argumentCount : UInt8)
  | pick (weighted : List Bool)
  | pickExpandedArguments
  | prob
  | round (argumentCount : UInt8)
  | length
  | ref
  | getStep
  | getStepTowards
  | range (argumentCount : UInt8)
  | typesOf (argumentCount : UInt8)
  | hasCall
  | typeInstances (path : TypePath)
  | typePredicate (kind : TypePredicateKind) (argumentCount : UInt8)
  | makeList (count : UInt16)
  | makeArray (dimensions : UInt8)
  | makeArgs
  | makeListEntries (kinds : List ListEntryKind)
  | makeAssociativeListEntries (kinds : List ListEntryKind)
  | logicalOrEmptyListLocal (slot : UInt16)
  | logicalOrEmptyListGlobal (name : FieldName)
  | logicalOrEmptyListField (name : FieldName)
  | logicalOrEmptyListIndex
  | indexList
  | indexLocalList (slot : UInt16)
  | listLengthLocal (slot : UInt16)
  | nextLocalListIteration (listSlot indexSlot itemSlot : UInt16) (exit : Nat)
  | setListIndex
  | setListIndexKeep
  | compoundListIndex (operator : CompoundListIndexOperator)
  | compoundListIndexKeep (operator : CompoundListIndexOperator)
  | listLength
  | prepareIteration
  | iterationTypeFilter (path : TypePath)
  | loadLocal (slot : UInt16)
  | storeLocal (slot : UInt16)
  | loadStaticLocalOrJump (slot : UInt16) (target : Nat)
  | initializeStaticLocal (slot : UInt16)
  | loadSrc
  | storeSrc
  | loadUsr
  | storeUsr
  | loadCaller
  | loadField (name : FieldName)
  | loadDeclaredField (name : FieldName)
  | storeField (name : FieldName)
  | storeFieldKeep (name : FieldName)
  | loadGlobal (name : FieldName)
  | loadGlobalVars
  | loadDatumVars
  | loadDynamicField
  | storeDynamicField
  | loadInitialGlobal (name : FieldName)
  | storeGlobal (name : FieldName)
  | mutateLocal (slot : UInt16) (delta : Int8) (isPrefix : Bool)
  | mutateField (name : FieldName) (delta : Int8) (isPrefix : Bool)
  | mutateGlobal (name : FieldName) (delta : Int8) (isPrefix : Bool)
  | mutateListIndex (delta : Int8) (isPrefix : Bool)
  | mutateResult (delta : Int8) (isPrefix : Bool)
  | duplicate
  | prepareRhsFirstIndexAssignment
  | loadResult
  | storeResult
  | pop
  | crash
  | beginTry (catchTarget endTarget : Nat) (local? : Option UInt16)
  | endTry
  | throw
  | locate (argumentCount : UInt16)
  | locateIn (argumentCount : UInt16)
  | compoundAssignment (operator : CompoundAssignmentOperator)
  | add | subtract | multiply | power | divide | remainder | fractionalRemainder
  | bitAnd | bitOr | bitXor | shiftLeft | shiftRight | bitNot | negate | not
  | equal | notEqual | equivalent | notEquivalent | compare | contains
  | less | lessEqual | greater | greaterEqual | and | or
  | jumpIfNull (target : Nat)
  | jumpIfFalse (target : Nat)
  | jump (target : Nat)
  | jumpIfArgumentSupplied (parameter : UInt16) (target : Nat)
  | call (procedure : ProcedureId) (argumentCount : UInt16) (argumentNames : ArgumentNames)
  | callCurrent (argumentCount : Option UInt16)
  | callParent (procedure : Option ProcedureId) (argumentCount : Option UInt16)
  | callDynamic (staticSelector : Option String) (argumentCount : UInt16)
      (argumentNames : ArgumentNames) (nullReceiverIsGlobal : Bool)
  | expandArgumentLists (argumentCount : UInt16) (argumentNames : ArgumentNames)
      (expandedIndices : List UInt16)
  | ret
  | spawn (entry : Nat)
  | sleep

/-- Client-side conversion of a verb's argument. -/
inductive VerbParameterType where
  | text
  | message
  | number
  | color
  | file
  /-- A union of obj=1, mob=2, turf=4 and area=8. -/
  | atom (mask : UInt8)
  | anything
  | unsupported

/-- A compiled procedure body. -/
structure Program where
  waitFor : Bool
  parameterCount : Nat
  parameterNames : List String
  verbParameterTypes : List VerbParameterType
  verbName : Option String
  localCount : Nat
  instructions : List Instruction
  sourceSpans : List SourceSpan

/-- A hash map from procedure paths. -/
abbrev NameIndex := String → Option ProcedureId

namespace NameIndex

def empty : NameIndex := fun _ => none

def insert (index : NameIndex) (path : String) (procedure : ProcedureId) : NameIndex :=
  Function.update index path (some procedure)

/-- `entry(..).or_insert(..)`. -/
def orInsert (index : NameIndex) (path : String) (procedure : ProcedureId) : NameIndex :=
  if (index path).isSome then index else index.insert path procedure

end NameIndex

structure InitializerCallNameIndex where
  names : NameIndex
  moduleNamesScanned : Nat

structure Module where
  procedures : List Program
  paths : List String
  names : NameIndex
  /-- The latest implementation for each path without its reopening suffix. -/
  dynamicNames : NameIndex
  /-- The procedures whose bodies are not compiled yet. -/
  deferred : List ProcedureId
  procedureTypes : List TypePath
  initializerCallNames : Option InitializerCallNameIndex

/-! ## Name indexes -/

/-- `split_once('@')`. -/
def splitOnceAt (path : String) : String × Option String :=
  let (base, suffix) := path.toList.span fun c => c ≠ '@'
  (String.ofList base, if suffix = [] then none else some (String.ofList (suffix.drop 1)))

/-- Engine declarations, which a body of the project at the same path replaces. -/
def isFallback (suffix : Option String) : Bool :=
  suffix == some "dream64_builtin" || suffix == some "dream64_native"

/-- One path of `dynamic_name_index`. -/
def addDynamicName (index : NameIndex) (path : String) (procedure : ProcedureId) : NameIndex :=
  if isFallback (splitOnceAt path).2 then index.orInsert (splitOnceAt path).1 procedure
  else index.insert (splitOnceAt path).1 procedure

/-- `dynamic_name_index`, from a position on; it fails where the position is no `u32`. -/
def dynamicNameIndexFrom : (position : Nat) → NameIndex → List String → Except String NameIndex
  | _, index, [] => .ok index
  | position, index, path :: paths =>
    if position < 2 ^ 32 then
      dynamicNameIndexFrom (position + 1) (addDynamicName index path (UInt32.ofNat position)) paths
    else .error "module has more than u32::MAX procedures"

def dynamicNameIndex (paths : List String) : Except String NameIndex :=
  dynamicNameIndexFrom 0 NameIndex.empty paths

end Dream64.Bytecode
