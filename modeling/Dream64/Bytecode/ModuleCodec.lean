import Dream64.Bytecode.Module
import Dream64.Library.Grammar

/-!
# The portable module codec

`module_codec.rs`: a fully eager module as bytes. The indexes of a decoded
module are built from its path table; the reader's tables of equal texts are
left out. Offsets and lengths have 64 bits.
-/

namespace Dream64.Bytecode

open Codec
open Vm (TypePredicateKind ListEntryKind CompoundAssignmentOperator)

def moduleMagic : Bytes := utf8 "DM64MOD" ++ [0]

def moduleVersion : UInt16 := 6

def maxArtifactBytes : Nat := 8 * 1024 * 1024 * 1024

def maxProcedures : Nat := 1000000

def maxProcedureTypes : Nat := 1000000

def maxInstructionsPerProgram : Nat := 65535

def maxTotalInstructions : Nat := 500000000

def maxStringBytes : Nat := 64 * 1024 * 1024

def maxVectorElements : Nat := 1000000

/-- An error's text, the procedure that it is about, or the path that comes twice. -/
inductive ModuleCodecError where
  | message (text : String)
  | procedure (index : Nat) (path : String) (error : ModuleCodecError)
  | duplicatePath (path : String)

abbrev Encoded := Except ModuleCodecError Bytes

abbrev ModuleReader (α : Type) := Reader ModuleCodecError α

/-! ## Checks -/

def validateProcedure (procedure : ProcedureId) (procedureCount : Nat) :
    Except ModuleCodecError Unit :=
  if procedureCount ≤ procedure.toNat then
    throw (.message s!"invalid procedure id {procedure.toNat} for {procedureCount} procedures")
  else pure ()

def validJump (instructionCount target : Nat) : Except ModuleCodecError Unit :=
  if instructionCount ≤ target then
    throw (.message s!"jump target {target} is outside {instructionCount} instructions")
  else pure ()

/-- The loop's body in `validate_program`. -/
def validateInstruction (instructionCount procedureCount : Nat) :
    Instruction → Except ModuleCodecError Unit
  | .loadStaticLocalOrJump _ target => validJump instructionCount target
  | .jumpIfNull target => validJump instructionCount target
  | .jumpIfFalse target => validJump instructionCount target
  | .jump target => validJump instructionCount target
  | .jumpIfArgumentSupplied _ target => validJump instructionCount target
  | .spawn entry => validJump instructionCount entry
  | .beginTry catchTarget endTarget _ => do
    validJump instructionCount catchTarget
    validJump instructionCount endTarget
  | .call procedure _ _ => validateProcedure procedure procedureCount
  | .callParent (some procedure) _ => validateProcedure procedure procedureCount
  | _ => pure ()

def validateSpan (span : SourceSpan) : Except ModuleCodecError Unit :=
  if span.stop < span.start then throw (.message "source span has inverted bounds")
  else if 2 ^ 64 ≤ span.start ∨ 2 ^ 64 ≤ span.stop then
    throw (.message "source span exceeds format limit")
  else pure ()

def validateProgram (program : Program) (procedureCount : Nat) : Except ModuleCodecError Unit :=
  if maxInstructionsPerProgram < program.instructions.length then
    throw (.message "program exceeds instruction limit")
  else if program.sourceSpans.length ≠ program.instructions.length then
    throw (.message "instruction and source-span table lengths differ")
  else if program.parameterNames.length ≠ program.parameterCount then
    throw (.message "parameter name and parameter count differ")
  else if program.verbParameterTypes.length ≠ program.parameterCount then
    throw (.message "verb parameter type and parameter count differ")
  else if program.localCount < program.parameterCount then
    throw (.message "parameter count exceeds local slot count")
  else if 65535 < program.parameterCount ∨ 65535 < program.localCount then
    throw (.message "program slot count exceeds the u16 VM ABI limit")
  else do
    program.sourceSpans.forM validateSpan
    program.instructions.forM (validateInstruction program.instructions.length procedureCount)

/-- The programs are checked one after the other; the number of instructions is added up. -/
def validatePrograms (procedureCount : Nat) :
    (index total : Nat) → List String → List Program → Except ModuleCodecError Unit
  | index, total, path :: paths, program :: programs =>
    match validateProgram program procedureCount with
    | .error error => throw (.procedure index path error)
    | .ok _ =>
      if maxTotalInstructions < total + program.instructions.length then
        throw (.message "module exceeds total instruction limit")
      else validatePrograms procedureCount (index + 1) (total + program.instructions.length) paths
        programs
  | _, _, _, _ => pure ()

def validateModule (module : Module) : Except ModuleCodecError Unit :=
  if module.deferred ≠ [] then
    throw (.message "portable module encoding requires a fully eager module")
  else if maxProcedures < module.procedures.length then
    throw (.message "module exceeds procedure limit")
  else if module.paths.length ≠ module.procedures.length then
    throw (.message "procedure path and program table lengths differ")
  else if maxProcedureTypes < module.procedureTypes.length then
    throw (.message "module exceeds procedure type limit")
  else validatePrograms module.procedures.length 0 0 module.paths module.procedures

/-! ## Writing -/

def writeU8 (value : UInt8) : Encoded := .ok [value]

def writeI8 (value : Int8) : Encoded := writeU8 value.toUInt8

def writeU16 (value : UInt16) : Encoded := .ok (toLittleEndian 2 value.toNat)

def writeU32 (value : UInt32) : Encoded := .ok (toLittleEndian 4 value.toNat)

def writeU64 (value : Nat) : Encoded := .ok (toLittleEndian 8 value)

def writeBoolean (value : Bool) : Encoded := writeU8 (if value then 1 else 0)

def writeLen (max : Nat) (label : String) (value : Nat) : Encoded :=
  if max < value ∨ 2 ^ 32 ≤ value then throw (.message s!"{label} exceeds format limit")
  else .ok (toLittleEndian 4 value)

def writeString (value : String) : Encoded :=
  joined [writeLen maxStringBytes "string length" (utf8 value).length, .ok (utf8 value)]

/-- A flag and then the value, if there is one. -/
def writeOptional {α : Type} (write : α → Encoded) : Option α → Encoded
  | some value => joined [writeBoolean true, write value]
  | none => writeBoolean false

/-- The number of the values and then the values. -/
def writeVector {α : Type} (max : Nat) (label : String) (write : α → Encoded) (values : List α) :
    Encoded :=
  joined (writeLen max label values.length :: values.map write)

def writeOptionalString : Option String → Encoded := writeOptional writeString

def writeOptionalStrings : ArgumentNames → Encoded :=
  writeVector maxVectorElements "optional string vector length" writeOptionalString

def writeTarget (value : Nat) : Encoded :=
  if 2 ^ 32 ≤ value then throw (.message "instruction target exceeds format limit")
  else .ok (toLittleEndian 4 value)

def writeOptionalU16 : Option UInt16 → Encoded := writeOptional writeU16

def writeOptionalProcedure : Option ProcedureId → Encoded := writeOptional writeU32

def writeField (value : FieldName) : Encoded := writeString value.name

def writeTypePath (value : TypePath) : Encoded := writeString value.path

def writeFields : List FieldName → Encoded :=
  writeVector maxVectorElements "field vector length" writeField

def writeU16s : List UInt16 → Encoded := writeVector maxVectorElements "u16 vector length" writeU16

def writeBooleans : List Bool → Encoded :=
  writeVector maxVectorElements "boolean vector length" writeBoolean

def listEntryKindTag : ListEntryKind → UInt8
  | .positional => 0
  | .associative => 1

def writeListEntryKinds : List ListEntryKind → Encoded :=
  writeVector maxVectorElements "list-entry vector length" fun kind =>
    writeU8 (listEntryKindTag kind)

def typePredicateTag : TypePredicateKind → UInt8
  | .isNull => 0
  | .isNum => 1
  | .isPath => 2
  | .isList => 3
  | .isMovable => 4
  | .isTurf => 5
  | .isLoc => 6
  | .isIcon => 7
  | .isType => 8

/-- `compound_list_tag` and `compound_assignment_tag`, which are the same. -/
def compoundTag : CompoundAssignmentOperator → UInt8
  | .add => 0
  | .subtract => 1
  | .multiply => 2
  | .divide => 3
  | .remainder => 4
  | .fractionalRemainder => 5
  | .bitAnd => 6
  | .bitOr => 7
  | .bitXor => 8
  | .shiftLeft => 9
  | .shiftRight => 10

def writeNumber (value : DmNumberBits) : Encoded := .ok (toLittleEndian 4 value.toNat)

def writeTypePredicate (kind : TypePredicateKind) : Encoded := writeU8 (typePredicateTag kind)

def writeCompound (operator : CompoundAssignmentOperator) : Encoded := writeU8 (compoundTag operator)

/-- A tag and the operands behind it. -/
def tagged (tag : UInt8) (operands : List Encoded) : Encoded := joined (writeU8 tag :: operands)

def encodeInstruction : Instruction → Encoded
  | .pushNull => tagged 0 []
  | .pushNumber value => tagged 1 [writeNumber value]
  | .pushText value => tagged 2 [writeString value]
  | .pushFile value => tagged 3 [writeString value]
  | .pushTypePath value => tagged 4 [writeTypePath value]
  | .addressLocal slot => tagged 5 [writeU16 slot]
  | .loadLocalRaw slot => tagged 6 [writeU16 slot]
  | .makeModifiedTypePath fields => tagged 7 [writeFields fields]
  | .allocateDatum argumentCount argumentNames =>
    tagged 8 [writeU16 argumentCount, writeOptionalStrings argumentNames]
  | .allocateCurrentDatum argumentCount => tagged 9 [writeU16 argumentCount]
  | .makeRegex argumentCount => tagged 10 [writeU8 argumentCount]
  | .makeMutableAppearance argumentCount => tagged 11 [writeU16 argumentCount]
  | .makeMatrix argumentCount => tagged 12 [writeU8 argumentCount]
  | .makeVector argumentCount => tagged 13 [writeU8 argumentCount]
  | .replaceText argumentCount exact characterIndices =>
    tagged 14 [writeU8 argumentCount, writeBoolean exact, writeBoolean characterIndices]
  | .copyText argumentCount characterIndices =>
    tagged 15 [writeU8 argumentCount, writeBoolean characterIndices]
  | .standardBuiltin name argumentCount argumentNames =>
    tagged 16 [writeString name, writeU16 argumentCount, writeOptionalStrings argumentNames]
  | .nativeSrcMethod name argumentCount => tagged 17 [writeString name, writeU16 argumentCount]
  | .output => tagged 18 []
  | .input => tagged 19 []
  | .externalCall argumentCount => tagged 20 [writeU16 argumentCount]
  | .animate argumentNames expandedIndices =>
    tagged 21 [writeOptionalStrings argumentNames, writeU16s expandedIndices]
  | .makeFilter argumentNames expandedIndices =>
    tagged 22 [writeOptionalStrings argumentNames, writeU16s expandedIndices]
  | .initialField name => tagged 23 [writeField name]
  | .initialDynamicField => tagged 24 []
  | .block argumentCount => tagged 25 [writeU8 argumentCount]
  | .rand argumentCount => tagged 26 [writeU8 argumentCount]
  | .roll argumentCount => tagged 27 [writeU8 argumentCount]
  | .pick weighted => tagged 28 [writeBooleans weighted]
  | .prob => tagged 29 []
  | .round argumentCount => tagged 30 [writeU8 argumentCount]
  | .length => tagged 31 []
  | .ref => tagged 32 []
  | .getStep => tagged 33 []
  | .getStepTowards => tagged 34 []
  | .range argumentCount => tagged 35 [writeU8 argumentCount]
  | .typesOf argumentCount => tagged 36 [writeU8 argumentCount]
  | .hasCall => tagged 37 []
  | .typeInstances path => tagged 38 [writeTypePath path]
  | .typePredicate kind argumentCount => tagged 39 [writeTypePredicate kind, writeU8 argumentCount]
  | .makeList count => tagged 40 [writeU16 count]
  | .makeArray dimensions => tagged 41 [writeU8 dimensions]
  | .makeArgs => tagged 42 []
  | .makeListEntries kinds => tagged 43 [writeListEntryKinds kinds]
  | .makeAssociativeListEntries kinds => tagged 44 [writeListEntryKinds kinds]
  | .indexList => tagged 45 []
  | .setListIndex => tagged 46 []
  | .setListIndexKeep => tagged 47 []
  | .compoundListIndex operator => tagged 48 [writeCompound operator]
  | .compoundListIndexKeep operator => tagged 49 [writeCompound operator]
  | .listLength => tagged 50 []
  | .prepareIteration => tagged 51 []
  | .iterationTypeFilter path => tagged 52 [writeTypePath path]
  | .loadLocal slot => tagged 53 [writeU16 slot]
  | .storeLocal slot => tagged 54 [writeU16 slot]
  | .loadStaticLocalOrJump slot target => tagged 55 [writeU16 slot, writeTarget target]
  | .initializeStaticLocal slot => tagged 56 [writeU16 slot]
  | .loadSrc => tagged 57 []
  | .storeSrc => tagged 58 []
  | .loadUsr => tagged 59 []
  | .storeUsr => tagged 60 []
  | .loadCaller => tagged 61 []
  | .loadField name => tagged 62 [writeField name]
  | .storeField name => tagged 63 [writeField name]
  | .storeFieldKeep name => tagged 64 [writeField name]
  | .loadGlobal name => tagged 65 [writeField name]
  | .loadGlobalVars => tagged 66 []
  | .loadDatumVars => tagged 67 []
  | .loadInitialGlobal name => tagged 68 [writeField name]
  | .storeGlobal name => tagged 69 [writeField name]
  | .mutateLocal slot delta isPrefix =>
    tagged 70 [writeU16 slot, writeI8 delta, writeBoolean isPrefix]
  | .mutateField name delta isPrefix =>
    tagged 71 [writeField name, writeI8 delta, writeBoolean isPrefix]
  | .mutateGlobal name delta isPrefix =>
    tagged 72 [writeField name, writeI8 delta, writeBoolean isPrefix]
  | .mutateListIndex delta isPrefix => tagged 73 [writeI8 delta, writeBoolean isPrefix]
  | .mutateResult delta isPrefix => tagged 74 [writeI8 delta, writeBoolean isPrefix]
  | .duplicate => tagged 75 []
  | .loadResult => tagged 76 []
  | .storeResult => tagged 77 []
  | .pop => tagged 78 []
  | .crash => tagged 79 []
  | .beginTry catchTarget endTarget local? =>
    tagged 80 [writeTarget catchTarget, writeTarget endTarget, writeOptionalU16 local?]
  | .endTry => tagged 81 []
  | .throw => tagged 82 []
  | .locate argumentCount => tagged 83 [writeU16 argumentCount]
  | .locateIn argumentCount => tagged 84 [writeU16 argumentCount]
  | .compoundAssignment operator => tagged 85 [writeCompound operator]
  | .add => tagged 86 []
  | .subtract => tagged 87 []
  | .multiply => tagged 88 []
  | .power => tagged 89 []
  | .divide => tagged 90 []
  | .remainder => tagged 91 []
  | .fractionalRemainder => tagged 92 []
  | .bitAnd => tagged 93 []
  | .bitOr => tagged 94 []
  | .bitXor => tagged 95 []
  | .shiftLeft => tagged 96 []
  | .shiftRight => tagged 97 []
  | .bitNot => tagged 98 []
  | .negate => tagged 99 []
  | .not => tagged 100 []
  | .equal => tagged 101 []
  | .notEqual => tagged 102 []
  | .equivalent => tagged 103 []
  | .notEquivalent => tagged 104 []
  | .compare => tagged 105 []
  | .contains => tagged 106 []
  | .less => tagged 107 []
  | .lessEqual => tagged 108 []
  | .greater => tagged 109 []
  | .greaterEqual => tagged 110 []
  | .and => tagged 111 []
  | .or => tagged 112 []
  | .jumpIfNull target => tagged 113 [writeTarget target]
  | .jumpIfFalse target => tagged 114 [writeTarget target]
  | .jump target => tagged 115 [writeTarget target]
  | .jumpIfArgumentSupplied parameter target => tagged 116 [writeU16 parameter, writeTarget target]
  | .call procedure argumentCount argumentNames =>
    tagged 117 [writeU32 procedure, writeU16 argumentCount, writeOptionalStrings argumentNames]
  | .callCurrent argumentCount => tagged 118 [writeOptionalU16 argumentCount]
  | .callParent procedure argumentCount =>
    tagged 119 [writeOptionalProcedure procedure, writeOptionalU16 argumentCount]
  | .callDynamic staticSelector argumentCount argumentNames nullReceiverIsGlobal =>
    tagged 120 [writeOptionalString staticSelector, writeU16 argumentCount,
      writeOptionalStrings argumentNames, writeBoolean nullReceiverIsGlobal]
  | .expandArgumentLists argumentCount argumentNames expandedIndices =>
    tagged 121 [writeU16 argumentCount, writeOptionalStrings argumentNames, writeU16s expandedIndices]
  | .ret => tagged 122 []
  | .spawn entry => tagged 123 [writeTarget entry]
  | .sleep => tagged 124 []
  | .logicalOrEmptyListLocal slot => tagged 125 [writeU16 slot]
  | .logicalOrEmptyListGlobal name => tagged 126 [writeField name]
  | .logicalOrEmptyListField name => tagged 127 [writeField name]
  | .logicalOrEmptyListIndex => tagged 128 []
  | .pickExpandedArguments => tagged 129 []
  | .prepareRhsFirstIndexAssignment => tagged 130 []
  | .loadDeclaredField name => tagged 131 [writeField name]
  | .loadDynamicField => tagged 132 []
  | .storeDynamicField => tagged 133 []
  | .indexLocalList slot => tagged 134 [writeU16 slot]
  | .listLengthLocal slot => tagged 135 [writeU16 slot]
  | .nextLocalListIteration listSlot indexSlot itemSlot exit =>
    tagged 136 [writeU16 listSlot, writeU16 indexSlot, writeU16 itemSlot, writeTarget exit]

/-! ## Reading -/

section

variable {α : Type}

def readExactly (count : Nat) (label : String) : ModuleReader Bytes :=
  readExact count (.message s!"truncated {label}")

def readU8 (label : String) : ModuleReader UInt8 := readByte (.message s!"truncated {label}")

def readI8 (label : String) : ModuleReader Int8 := do
  let value ← readU8 label
  pure value.toInt8

/-- A number in some bytes. -/
def readWide (count : Nat) (label : String) : ModuleReader Nat :=
  readNumber count (.message s!"truncated {label}")

def readU16 (label : String) : ModuleReader UInt16 := do
  let value ← readWide 2 label
  pure (UInt16.ofNat value)

def readU32 (label : String) : ModuleReader UInt32 := do
  let value ← readWide 4 label
  pure (UInt32.ofNat value)

def readNumberBits : ModuleReader DmNumberBits := do
  let value ← readWide 4 "number bits"
  pure (BitVec.ofNat 32 value)

def readBoolean (label : String) : ModuleReader Bool := do
  let value ← readU8 label
  if value = 0 then pure false
  else if value = 1 then pure true
  else throw (.message s!"invalid {label} {value.toNat}")

def readLen (max : Nat) (label : String) : ModuleReader Nat := do
  let value ← readWide 4 label
  if max < value then throw (.message s!"{label} exceeds limit") else pure value

/-- So many items must fit into the bytes that are left. -/
def demandItems (count least : Nat) (text : String) : ModuleReader Unit :=
  demand (fun remaining => count ≤ remaining / least) (.message text)

def readLenWithMin (max : Nat) (label : String) (minimumItemBytes : Nat) : ModuleReader Nat := do
  let value ← readLen max label
  demandItems value minimumItemBytes s!"truncated {label}"
  pure value

def textOf (label : String) (raw : Bytes) : ModuleReader String :=
  match ofUtf8 raw with
  | some value => pure value
  | none => throw (.message s!"{label} is not UTF-8")

def readString (label : String) : ModuleReader String := do
  let length ← readLen maxStringBytes s!"{label} length"
  let raw ← readExactly length label
  textOf label raw

def readOptional (label : String) (read : ModuleReader α) : ModuleReader (Option α) := do
  let present ← readBoolean label
  if present then do
    let value ← read
    pure (some value)
  else pure none

def readVector (label : String) (least : Nat) (read : ModuleReader α) :
    ModuleReader (List α) := do
  let length ← readLenWithMin maxVectorElements label least
  readMany (fun _ => read) 0 length

def readOptionalString : ModuleReader (Option String) :=
  readOptional "optional string flag" (readString "optional string")

def readOptionalStrings : ModuleReader ArgumentNames :=
  readVector "optional string vector length" 1 readOptionalString

def readTarget : ModuleReader Nat := readWide 4 "instruction target"

def readOptionalU16 : ModuleReader (Option UInt16) :=
  readOptional "optional u16 flag" (readU16 "optional u16")

/-- A result of a check, or its error. -/
def checked (check : Except ModuleCodecError Unit) (value : α) : ModuleReader α :=
  match check with
  | .error error => throw error
  | .ok _ => pure value

def readProcedure (procedureCount : Nat) : ModuleReader ProcedureId := do
  let value ← readU32 "procedure id"
  checked (validateProcedure value procedureCount) value

def readOptionalProcedure (procedureCount : Nat) : ModuleReader (Option ProcedureId) :=
  readOptional "optional procedure flag" (readProcedure procedureCount)

def fieldOf (raw : String) : ModuleReader FieldName :=
  match FieldName.parse raw with
  | .error error => throw (.message s!"invalid field name: {error}")
  | .ok field => pure field

def readField : ModuleReader FieldName := do
  let raw ← readString "field name"
  fieldOf raw

def readFields : ModuleReader (List FieldName) := readVector "field vector length" 4 readField

/-- `intern_type_path`. -/
def typePathOf (label raw : String) : ModuleReader TypePath :=
  match TypePath.parse raw with
  | .error error => throw (.message s!"invalid {label}: {error}")
  | .ok path => pure path

def readTypePath (label : String) : ModuleReader TypePath := do
  let raw ← readString label
  typePathOf label raw

def readU16s : ModuleReader (List UInt16) := readVector "u16 vector length" 2 (readU16 "u16 vector item")

def readBooleans : ModuleReader (List Bool) :=
  readVector "boolean vector length" 1 (readBoolean "boolean vector item")

def memberOf (what : String) (members : List α) (tag : UInt8) : ModuleReader α :=
  match members[tag.toNat]? with
  | some member => pure member
  | none => throw (.message s!"unknown {what} {tag.toNat}")

/-- One of the members, found by its tag. -/
def readTag (label what : String) (members : List α) : ModuleReader α := do
  let tag ← readU8 label
  memberOf what members tag

def readListEntryKinds : ModuleReader (List ListEntryKind) :=
  readVector "list-entry vector length" 1
    (readTag "list-entry kind" "list-entry kind" [.positional, .associative])

def readTypePredicate : ModuleReader TypePredicateKind :=
  readTag "type predicate tag" "type predicate tag"
    [.isNull, .isNum, .isPath, .isList, .isMovable, .isTurf, .isLoc, .isIcon, .isType]

def readCompound (what : String) : ModuleReader CompoundAssignmentOperator :=
  readTag s!"{what} tag" s!"{what} tag"
    [.add, .subtract, .multiply, .divide, .remainder, .fractionalRemainder, .bitAnd, .bitOr, .bitXor,
      .shiftLeft, .shiftRight]

end

/-! ## Instructions -/

section

variable {α β γ δ : Type}

/-- Instructions of one operand, and so on. -/
def one (make : α → Instruction) (first : ModuleReader α) : ModuleReader Instruction := do
  let a ← first
  pure (make a)

def two (make : α → β → Instruction) (first : ModuleReader α) (second : ModuleReader β) :
    ModuleReader Instruction := do
  let a ← first
  let b ← second
  pure (make a b)

def three (make : α → β → γ → Instruction) (first : ModuleReader α) (second : ModuleReader β)
    (third : ModuleReader γ) : ModuleReader Instruction := do
  let a ← first
  let b ← second
  let c ← third
  pure (make a b c)

def four (make : α → β → γ → δ → Instruction) (first : ModuleReader α) (second : ModuleReader β)
    (third : ModuleReader γ) (fourth : ModuleReader δ) : ModuleReader Instruction := do
  let a ← first
  let b ← second
  let c ← third
  let d ← fourth
  pure (make a b c d)

end

/-- The arms of `decode_instruction`, in the order of their tags. -/
def instructionReaders (procedureCount : Nat) : List (ModuleReader Instruction) :=
  [ pure .pushNull,
    one .pushNumber readNumberBits,
    one .pushText (readString "text constant"),
    one .pushFile (readString "file constant"),
    one .pushTypePath (readTypePath "type path"),
    one .addressLocal (readU16 "local slot"),
    one .loadLocalRaw (readU16 "local slot"),
    one .makeModifiedTypePath readFields,
    two .allocateDatum (readU16 "argument count") readOptionalStrings,
    one .allocateCurrentDatum (readU16 "argument count"),
    one .makeRegex (readU8 "argument count"),
    one .makeMutableAppearance (readU16 "argument count"),
    one .makeMatrix (readU8 "argument count"),
    one .makeVector (readU8 "argument count"),
    three .replaceText (readU8 "argument count") (readBoolean "exact flag")
        (readBoolean "character-index flag"),
    two .copyText (readU8 "argument count") (readBoolean "character-index flag"),
    three .standardBuiltin (readString "builtin name")
        (readU16 "argument count") readOptionalStrings,
    two .nativeSrcMethod (readString "method name") (readU16 "argument count"),
    pure .output,
    pure .input,
    one .externalCall (readU16 "argument count"),
    two .animate readOptionalStrings readU16s,
    two .makeFilter readOptionalStrings readU16s,
    one .initialField readField,
    pure .initialDynamicField,
    one .block (readU8 "argument count"),
    one .rand (readU8 "argument count"),
    one .roll (readU8 "argument count"),
    one .pick readBooleans,
    pure .prob,
    one .round (readU8 "argument count"),
    pure .length,
    pure .ref,
    pure .getStep,
    pure .getStepTowards,
    one .range (readU8 "argument count"),
    one .typesOf (readU8 "argument count"),
    pure .hasCall,
    one .typeInstances (readTypePath "type path"),
    two .typePredicate readTypePredicate (readU8 "argument count"),
    one .makeList (readU16 "list length"),
    one .makeArray (readU8 "array dimension count"),
    pure .makeArgs,
    one .makeListEntries readListEntryKinds,
    one .makeAssociativeListEntries readListEntryKinds,
    pure .indexList,
    pure .setListIndex,
    pure .setListIndexKeep,
    one .compoundListIndex (readCompound "list operator"),
    one .compoundListIndexKeep (readCompound "list operator"),
    pure .listLength,
    pure .prepareIteration,
    one .iterationTypeFilter (readTypePath "type path"),
    one .loadLocal (readU16 "local slot"),
    one .storeLocal (readU16 "local slot"),
    two .loadStaticLocalOrJump (readU16 "local slot") readTarget,
    one .initializeStaticLocal (readU16 "local slot"),
    pure .loadSrc,
    pure .storeSrc,
    pure .loadUsr,
    pure .storeUsr,
    pure .loadCaller,
    one .loadField readField,
    one .storeField readField,
    one .storeFieldKeep readField,
    one .loadGlobal readField,
    pure .loadGlobalVars,
    pure .loadDatumVars,
    one .loadInitialGlobal readField,
    one .storeGlobal readField,
    three .mutateLocal (readU16 "local slot") (readI8 "mutation delta") (readBoolean "prefix flag"),
    three .mutateField readField (readI8 "mutation delta") (readBoolean "prefix flag"),
    three .mutateGlobal readField (readI8 "mutation delta") (readBoolean "prefix flag"),
    two .mutateListIndex (readI8 "mutation delta") (readBoolean "prefix flag"),
    two .mutateResult (readI8 "mutation delta") (readBoolean "prefix flag"),
    pure .duplicate,
    pure .loadResult,
    pure .storeResult,
    pure .pop,
    pure .crash,
    three .beginTry readTarget readTarget readOptionalU16,
    pure .endTry,
    pure .throw,
    one .locate (readU16 "argument count"),
    one .locateIn (readU16 "argument count"),
    one .compoundAssignment (readCompound "assignment operator"),
    pure .add,
    pure .subtract,
    pure .multiply,
    pure .power,
    pure .divide,
    pure .remainder,
    pure .fractionalRemainder,
    pure .bitAnd,
    pure .bitOr,
    pure .bitXor,
    pure .shiftLeft,
    pure .shiftRight,
    pure .bitNot,
    pure .negate,
    pure .not,
    pure .equal,
    pure .notEqual,
    pure .equivalent,
    pure .notEquivalent,
    pure .compare,
    pure .contains,
    pure .less,
    pure .lessEqual,
    pure .greater,
    pure .greaterEqual,
    pure .and,
    pure .or,
    one .jumpIfNull readTarget,
    one .jumpIfFalse readTarget,
    one .jump readTarget,
    two .jumpIfArgumentSupplied (readU16 "parameter index") readTarget,
    three .call (readProcedure procedureCount) (readU16 "argument count") readOptionalStrings,
    one .callCurrent readOptionalU16,
    two .callParent (readOptionalProcedure procedureCount) readOptionalU16,
    four .callDynamic readOptionalString (readU16 "argument count") readOptionalStrings
        (readBoolean "global receiver flag"),
    three .expandArgumentLists (readU16 "argument count") readOptionalStrings readU16s,
    pure .ret,
    one .spawn readTarget,
    pure .sleep,
    one .logicalOrEmptyListLocal (readU16 "local slot"),
    one .logicalOrEmptyListGlobal readField,
    one .logicalOrEmptyListField readField,
    pure .logicalOrEmptyListIndex,
    pure .pickExpandedArguments,
    pure .prepareRhsFirstIndexAssignment,
    one .loadDeclaredField readField,
    pure .loadDynamicField,
    pure .storeDynamicField,
    one .indexLocalList (readU16 "local slot"),
    one .listLengthLocal (readU16 "local slot"),
    four .nextLocalListIteration (readU16 "list local slot") (readU16 "index local slot")
        (readU16 "item local slot") readTarget ]

def instructionReader (procedureCount : Nat) (tag : UInt8) : ModuleReader Instruction :=
  match (instructionReaders procedureCount)[tag.toNat]? with
  | some read => read
  | none => throw (.message s!"unknown instruction tag {tag.toNat}")

def decodeInstruction (procedureCount : Nat) : ModuleReader Instruction := do
  let tag ← readU8 "instruction tag"
  instructionReader procedureCount tag

/-! ## Programs -/

def verbParameterTypeTag : VerbParameterType → UInt8
  | .unsupported => 0
  | .text => 1
  | .number => 2
  | .message => 3
  | .color => 4
  | .file => 5
  | .anything => 6
  | .atom mask => 0x80 ||| (mask &&& 0x0f)

/-- The types that have no mask, in the order of their tags. -/
def plainParameterTypes : List VerbParameterType :=
  [.unsupported, .text, .number, .message, .color, .file, .anything]

def verbParameterTypeOf (tag : UInt8) : ModuleReader VerbParameterType :=
  match plainParameterTypes[tag.toNat]? with
  | some type => pure type
  | none =>
    if tag &&& 0xf0 = 0x80 ∧ tag &&& 0x0f ≠ 0 then pure (.atom (tag &&& 0x0f))
    else throw (.message s!"unknown verb parameter type tag {tag.toNat}")

def readVerbParameterType : ModuleReader VerbParameterType := do
  let tag ← readU8 "verb parameter type"
  verbParameterTypeOf tag

def writeSpan (span : SourceSpan) : Encoded := joined [writeU64 span.start, writeU64 span.stop]

/-- The parameter count and the local count are written as a `u32`. -/
def writeCount (value : Nat) : Encoded := .ok (toLittleEndian 4 value)

def encodeProgram (program : Program) : Encoded :=
  joined [writeBoolean program.waitFor,
    writeCount program.parameterCount,
    writeVector (2 ^ 32 - 1) "parameter name count" writeString program.parameterNames,
    writeVector (2 ^ 32 - 1) "verb parameter type count"
      (fun type => writeU8 (verbParameterTypeTag type)) program.verbParameterTypes,
    writeOptional writeString program.verbName,
    writeCount program.localCount,
    writeVector maxInstructionsPerProgram "instruction count" encodeInstruction program.instructions,
    writeVector maxInstructionsPerProgram "source span count" writeSpan program.sourceSpans]

def readSpan : ModuleReader SourceSpan := do
  let start ← readWide 8 "source span start"
  let stop ← readWide 8 "source span end"
  if stop < start then throw (.message "source span has inverted bounds") else pure ⟨start, stop⟩

/-- A table that has to have so many entries. -/
def readTable {α : Type} (max : Nat) (label : String) (least expected : Nat) (differ : String)
    (read : ModuleReader α) : ModuleReader (List α) := do
  let count ← readLenWithMin max label least
  if count ≠ expected then throw (.message differ) else readMany (fun _ => read) 0 count

def decodeProgram (procedureCount : Nat) : ModuleReader Program := do
  let waitFor ← readBoolean "wait-for flag"
  let parameterCount ← readWide 4 "parameter count"
  if maxVectorElements < parameterCount then throw (.message "parameter count exceeds limit")
  else do
    let parameterNames ← readTable maxVectorElements "parameter name count" 4 parameterCount
      "parameter name and parameter count differ" (readString "parameter name")
    let verbParameterTypes ← readTable maxVectorElements "verb parameter type count" 1 parameterCount
      "verb parameter type and parameter count differ" readVerbParameterType
    let verbName ← readOptional "verb name presence" (readString "verb name")
    let localCount ← readWide 4 "local count"
    if 65535 < localCount then throw (.message "local count exceeds the u16 VM ABI limit")
    else do
      let instructionCount ← readLenWithMin maxInstructionsPerProgram "instruction count" 1
      let instructions ← readMany (fun _ => decodeInstruction procedureCount) 0 instructionCount
      let sourceSpans ← readTable maxInstructionsPerProgram "source span count" 16 instructionCount
        "instruction and source-span table lengths differ" readSpan
      let program : Program :=
        { waitFor, parameterCount, parameterNames, verbParameterTypes, verbName, localCount,
          instructions, sourceSpans }
      checked (validateProgram program procedureCount) program

/-! ## Modules -/

/-- The bytes of `encode_portable`, once the module is checked. -/
def encodeModule (module : Module) : Encoded :=
  joined ([.ok moduleMagic, writeU16 moduleVersion, writeU16 0,
    writeLen maxProcedures "procedure count" module.procedures.length] ++
    module.paths.map writeString ++
    [writeVector maxProcedureTypes "procedure type count" writeTypePath module.procedureTypes] ++
    module.procedures.map encodeProgram)

def encodePortable (module : Module) : Encoded := do
  validateModule module
  let bytes ← encodeModule module
  if maxArtifactBytes < bytes.length then
    throw (.message "encoded module exceeds artifact byte limit")
  else pure bytes

/-- An error names the procedure that is read. -/
def located {α : Type} (index : Nat) (path : String) (read : ModuleReader α) : ModuleReader α :=
  fun bytes => (read bytes).mapError (.procedure index path)

/-- The programs, one for each path; the number of instructions is added up. -/
def decodePrograms (procedureCount : Nat) :
    (index total : Nat) → List String → ModuleReader (List Program)
  | _, _, [] => pure []
  | index, total, path :: paths => do
    let program ← located index path (decodeProgram procedureCount)
    if maxTotalInstructions < total + program.instructions.length then
      throw (.message "module exceeds total instruction limit")
    else do
      let programs ← decodePrograms procedureCount (index + 1)
        (total + program.instructions.length) paths
      pure (program :: programs)

def readModuleHeader : ModuleReader Unit := do
  let magic ← readExactly 8 "module header"
  if magic ≠ moduleMagic then throw (.message "invalid portable module header")
  else do
    let version ← readU16 "module version"
    if version ≠ moduleVersion then
      throw (.message s!"unsupported portable module version {version.toNat}")
    else do
      let flags ← readU16 "reserved header flags"
      if flags ≠ 0 then throw (.message "unknown portable module header flags") else pure ()

/-- The tables of the artifact: the paths, the procedure types and the programs. -/
structure ModuleTables where
  paths : List String
  procedureTypes : List TypePath
  procedures : List Program

def readModuleTables : ModuleReader ModuleTables := do
  let procedureCount ← readLen maxProcedures "procedure count"
  demandItems procedureCount 4 "truncated procedure path table"
  let paths ← readMany (fun _ => readString "procedure path") 0 procedureCount
  let procedureTypeCount ← readLen maxProcedureTypes "procedure type count"
  demandItems procedureTypeCount 4 "truncated procedure type table"
  let procedureTypes ← readMany (fun _ => readTypePath "procedure type path") 0 procedureTypeCount
  demandItems procedureCount 17 "truncated program table"
  let procedures ← decodePrograms procedureCount 0 0 paths
  pure ⟨paths, procedureTypes, procedures⟩

/-- `starts_with('/')`. -/
def isCanonical (path : String) : Bool := path.toList.head? == some '/'

/-- The canonical paths, each of which may come once. -/
def canonicalNames : (index : Nat) → NameIndex → List String → Except ModuleCodecError NameIndex
  | _, names, [] => .ok names
  | index, names, path :: paths =>
    if isCanonical path then
      if (names path).isSome then .error (.duplicatePath path)
      else canonicalNames (index + 1) (names.insert path (UInt32.ofNat index)) paths
    else canonicalNames (index + 1) names paths

/-- The module of the tables, which is checked. -/
def moduleOf (tables : ModuleTables) : Except ModuleCodecError Module := do
  let names ← canonicalNames 0 NameIndex.empty tables.paths
  let dynamicNames ← (dynamicNameIndex tables.paths).mapError .message
  let module : Module :=
    { procedures := tables.procedures
      paths := tables.paths
      names
      dynamicNames
      deferred := []
      procedureTypes := tables.procedureTypes
      initializerCallNames := none }
  validateModule module
  pure module

def decodePortable (bytes : Bytes) : Except ModuleCodecError Module :=
  if maxArtifactBytes < bytes.length then throw (.message "module artifact exceeds byte limit")
  else do
    let header ← readModuleHeader bytes
    let tables ← readModuleTables header.2
    if tables.2 ≠ [] then throw (.message "trailing bytes after portable module")
    else moduleOf tables.1

end Dream64.Bytecode
