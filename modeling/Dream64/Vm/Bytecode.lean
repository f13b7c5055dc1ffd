import Dream64.Core

/-!
# Portable bytecode

The instructions the expression and statement compilers of `dm-vm` emit.
Jump targets are absolute indices into the instruction stream of the
procedure; counts that the source keeps in `u8` and `u16` are naturals here,
and the compiler checks their bounds where it builds them.
-/

namespace Dream64.Vm

inductive TypePredicateKind where
  | isNull | isNum | isPath | isList | isMovable | isTurf | isLoc | isIcon | isType
deriving DecidableEq, Repr

inductive ListEntryKind where
  | positional | associative
deriving DecidableEq, Repr

inductive CompoundAssignmentOperator where
  | add | subtract | multiply | divide | remainder | fractionalRemainder
  | bitAnd | bitOr | bitXor | shiftLeft | shiftRight
deriving DecidableEq, Repr

/-- `CompoundListIndexOperator`, which has the same members. -/
abbrev CompoundListIndexOperator := CompoundAssignmentOperator

abbrev ProcedureId := Nat

inductive Instruction where
  | pushNull
  | pushNumber (bits : DmNumberBits)
  | pushText (text : String)
  | pushFile (path : String)
  | pushTypePath (path : TypePath)
  | addressLocal (slot : Nat)
  | loadLocalRaw (slot : Nat)
  | makeModifiedTypePath (fields : List FieldName)
  | allocateDatum (argumentCount : Nat) (argumentNames : List (Option String))
  | makeRegex (argumentCount : Nat)
  | makeMutableAppearance (argumentCount : Nat)
  | makeMatrix (argumentCount : Nat)
  | makeVector (argumentCount : Nat)
  | replaceText (argumentCount : Nat) (exact characterIndices : Bool)
  | copyText (argumentCount : Nat) (characterIndices : Bool)
  | standardBuiltin (name : String) (argumentCount : Nat) (argumentNames : List (Option String))
  | nativeSrcMethod (name : String) (argumentCount : Nat)
  | output
  | input
  | externalCall (argumentCount : Nat)
  | animate (argumentNames : List (Option String)) (expandedIndices : List Nat)
  | makeFilter (argumentNames : List (Option String)) (expandedIndices : List Nat)
  | initialField (name : FieldName)
  | initialDynamicField
  | block (argumentCount : Nat)
  | rand (argumentCount : Nat)
  | roll (argumentCount : Nat)
  | pick (weighted : List Bool)
  | pickExpandedArguments
  | prob
  | round (argumentCount : Nat)
  | length
  | ref
  | getStep
  | getStepTowards
  | range (argumentCount : Nat)
  | typesOf (argumentCount : Nat)
  | hasCall
  | typeInstances (path : TypePath)
  | typePredicate (kind : TypePredicateKind) (argumentCount : Nat)
  | makeList (count : Nat)
  | makeListEntries (kinds : List ListEntryKind)
  | makeAssociativeListEntries (kinds : List ListEntryKind)
  | logicalOrEmptyListLocal (slot : Nat)
  | logicalOrEmptyListGlobal (name : FieldName)
  | logicalOrEmptyListField (name : FieldName)
  | logicalOrEmptyListIndex
  | indexList
  | indexLocalList (slot : Nat)
  | listLengthLocal (slot : Nat)
  | setListIndex
  | setListIndexKeep
  | compoundListIndex (operator : CompoundListIndexOperator)
  | compoundListIndexKeep (operator : CompoundListIndexOperator)
  | prepareIteration
  | iterationTypeFilter (path : TypePath)
  | loadLocal (slot : Nat)
  | storeLocal (slot : Nat)
  | loadSrc
  | storeSrc
  | loadUsr
  | storeUsr
  | loadCaller
  | loadField (name : FieldName)
  | loadDeclaredField (name : FieldName)
  | storeField (name : FieldName)
  | storeFieldKeep (name : FieldName)
  | loadGlobal (name : FieldName)
  | loadGlobalVars
  | loadDatumVars
  | loadDynamicField
  | storeDynamicField
  | loadInitialGlobal (name : FieldName)
  | storeGlobal (name : FieldName)
  | mutateLocal (slot : Nat) (delta : Int) (isPrefix : Bool)
  | mutateField (name : FieldName) (delta : Int) (isPrefix : Bool)
  | mutateGlobal (name : FieldName) (delta : Int) (isPrefix : Bool)
  | mutateListIndex (delta : Int) (isPrefix : Bool)
  | mutateResult (delta : Int) (isPrefix : Bool)
  | duplicate
  | prepareRhsFirstIndexAssignment
  | loadResult
  | storeResult
  | pop
  | crash
  | beginTry (catchTarget : Nat) (endTarget : Nat) (local? : Option Nat)
  | endTry
  | throw
  | locate (argumentCount : Nat)
  | locateIn (argumentCount : Nat)
  | compoundAssignment (operator : CompoundAssignmentOperator)
  | add | subtract | multiply | power | divide | remainder | fractionalRemainder
  | bitAnd | bitOr | bitXor | shiftLeft | shiftRight | bitNot | negate | not
  | equal | notEqual | equivalent | notEquivalent | compare | contains
  | less | lessEqual | greater | greaterEqual | and | or
  | jumpIfNull (target : Nat)
  | jumpIfFalse (target : Nat)
  | jump (target : Nat)
  | jumpIfArgumentSupplied (parameter target : Nat)
  | nextLocalListIteration (listSlot indexSlot itemSlot exit : Nat)
  | call (procedure : ProcedureId) (argumentCount : Nat) (argumentNames : List (Option String))
  | callCurrent (argumentCount : Option Nat)
  | callParent (procedure : Option ProcedureId) (argumentCount : Option Nat)
  | callDynamic (staticSelector : Option String) (argumentCount : Nat)
      (argumentNames : List (Option String)) (nullReceiverIsGlobal : Bool)
  | expandArgumentLists (argumentCount : Nat) (argumentNames : List (Option String))
      (expandedIndices : List Nat)
  | sleep
  | spawn (entry : Nat)
  | ret
deriving DecidableEq, Repr

abbrev Code := List Instruction

/-- The marker a call-like instruction uses to consume the count produced by
`expandArgumentLists`. -/
def expandedArgumentCount : Nat := 65535

end Dream64.Vm
