import Dream64.Bytecode.ModuleCodec

/-!
# The compact word image

`compact_wordcode.rs`: one 32-bit word for every instruction, a selector in the
upper byte and an operand below it. A word with selector zero leaves its
instruction to the rich bytecode. The image is built from a fully eager module,
checked against it, and stored as bytes.
-/

namespace Dream64.Bytecode

open Codec

def wordcodeMagic : Bytes := utf8 "DM64CWC" ++ [0]

def wordcodeVersion : Nat := 1

def maxStrings : Nat := 16777216

def maxWords : Nat := 500000000

def maxTotalStringBytes : Nat := 1024 * 1024 * 1024

def payloadMask : UInt32 := 0x00ffffff

def opEscape : UInt8 := 0
@[match_pattern] def opPushNull : UInt8 := 1
def opAddressLocal : UInt8 := 2
def opLoadLocalRaw : UInt8 := 3
def opLoadLocal : UInt8 := 4
def opStoreLocal : UInt8 := 5
def opInitializeStaticLocal : UInt8 := 6
@[match_pattern] def opLoadSrc : UInt8 := 7
@[match_pattern] def opStoreSrc : UInt8 := 8
@[match_pattern] def opLoadUsr : UInt8 := 9
@[match_pattern] def opStoreUsr : UInt8 := 10
def opLoadCaller : UInt8 := 11
@[match_pattern] def opLoadResult : UInt8 := 12
@[match_pattern] def opStoreResult : UInt8 := 13
@[match_pattern] def opPop : UInt8 := 14
@[match_pattern] def opDuplicate : UInt8 := 15
def opLoadField : UInt8 := 16
def opLoadDeclaredField : UInt8 := 17
def opStoreField : UInt8 := 18
def opStoreFieldKeep : UInt8 := 19
def opLoadGlobal : UInt8 := 20
def opLoadInitialGlobal : UInt8 := 21
def opStoreGlobal : UInt8 := 22
def opInitialField : UInt8 := 23
def opLogicalOrGlobal : UInt8 := 24
def opLogicalOrField : UInt8 := 25
def opTypeInstances : UInt8 := 26
def opIterationTypeFilter : UInt8 := 27
def opMakeList : UInt8 := 28
def opMakeArray : UInt8 := 29
def opMakeArgs : UInt8 := 30
def opIndexList : UInt8 := 31
def opSetListIndex : UInt8 := 32
def opSetListIndexKeep : UInt8 := 33
def opListLength : UInt8 := 34
def opPrepareIteration : UInt8 := 35
def opIndexLocalList : UInt8 := 36
def opListLengthLocal : UInt8 := 37
def opLogicalOrLocal : UInt8 := 38
def opLogicalOrIndex : UInt8 := 39
def opPrepareRhsIndex : UInt8 := 40
def opLoadDynamicField : UInt8 := 41
def opStoreDynamicField : UInt8 := 42
def opLoadGlobalVars : UInt8 := 43
def opLoadDatumVars : UInt8 := 44
def opAdd : UInt8 := 45
def opSubtract : UInt8 := 46
def opMultiply : UInt8 := 47
def opPower : UInt8 := 48
def opDivide : UInt8 := 49
def opRemainder : UInt8 := 50
def opFractionalRemainder : UInt8 := 51
def opBitAnd : UInt8 := 52
def opBitOr : UInt8 := 53
def opBitXor : UInt8 := 54
def opShiftLeft : UInt8 := 55
def opShiftRight : UInt8 := 56
def opBitNot : UInt8 := 57
def opNegate : UInt8 := 58
def opNot : UInt8 := 59
def opEqual : UInt8 := 60
def opNotEqual : UInt8 := 61
def opEquivalent : UInt8 := 62
def opNotEquivalent : UInt8 := 63
def opCompare : UInt8 := 64
def opContains : UInt8 := 65
def opLess : UInt8 := 66
def opLessEqual : UInt8 := 67
def opGreater : UInt8 := 68
def opGreaterEqual : UInt8 := 69
def opAnd : UInt8 := 70
def opOr : UInt8 := 71
def opJumpIfNull : UInt8 := 72
def opJumpIfFalse : UInt8 := 73
def opJump : UInt8 := 74
def opCall : UInt8 := 75
def opReturn : UInt8 := 76
def opSpawn : UInt8 := 77
def opSleep : UInt8 := 78
def opEndTry : UInt8 := 79
def opThrow : UInt8 := 80
def opCrash : UInt8 := 81
def opOutput : UInt8 := 82
def opInput : UInt8 := 83
def opLength : UInt8 := 84
def opRef : UInt8 := 85
def opProb : UInt8 := 86

structure CompactWordcodeError where
  message : String
deriving DecidableEq

/-- Fixed metadata for one procedure's range in a compact wordcode image. -/
structure CompactProcedureRecord where
  pathId : UInt32
  wordOffset : UInt32
  instructionCount : UInt32
  localCount : UInt32
  parameterCount : UInt32
  flags : UInt32
deriving DecidableEq

structure CompactWordcodeImage where
  strings : List String
  procedures : List CompactProcedureRecord
  words : List UInt32
deriving DecidableEq

inductive CompactFastInstruction where
  | pushNull | loadSrc | storeSrc | loadUsr | storeUsr | loadResult | storeResult | pop | duplicate
deriving DecidableEq

/-! ## Words -/

/-- `CompactWordcodeImage::selector`. -/
def selectorByte (word : UInt32) : UInt8 := (word >>> 24).toUInt8

def pack (opcode : UInt8) (operand : UInt32) : UInt32 :=
  opcode.toUInt32 <<< 24 ||| (operand &&& payloadMask)

/-- An operand that needs more than 24 bits leaves the instruction to the rich bytecode. -/
def packCheckedU32 (opcode : UInt8) (operand : UInt32) : UInt32 :=
  if payloadMask < operand then pack opEscape 0 else pack opcode operand

/-- `u32::try_from`. -/
def toU32 (value : Nat) (message : String) : Except CompactWordcodeError UInt32 :=
  if value < 2 ^ 32 then .ok (UInt32.ofNat value) else throw ⟨message⟩

def packChecked (opcode : UInt8) (operand : Nat) : Except CompactWordcodeError UInt32 := do
  return packCheckedU32 opcode (← toU32 operand "compact operand exceeds u32")

/-- What an arm of `selector_word_with` packs: no operand, a number, or the id of a string. -/
inductive Selector where
  | unit (opcode : UInt8)
  | numeric (opcode : UInt8) (value : Nat)
  | field (opcode : UInt8) (value : String)

def selector : Instruction → Selector
  | .pushNull => .unit opPushNull
  | .addressLocal slot => .numeric opAddressLocal slot.toNat
  | .loadLocalRaw slot => .numeric opLoadLocalRaw slot.toNat
  | .loadLocal slot => .numeric opLoadLocal slot.toNat
  | .storeLocal slot => .numeric opStoreLocal slot.toNat
  | .initializeStaticLocal slot => .numeric opInitializeStaticLocal slot.toNat
  | .loadSrc => .unit opLoadSrc
  | .storeSrc => .unit opStoreSrc
  | .loadUsr => .unit opLoadUsr
  | .storeUsr => .unit opStoreUsr
  | .loadCaller => .unit opLoadCaller
  | .loadResult => .unit opLoadResult
  | .storeResult => .unit opStoreResult
  | .pop => .unit opPop
  | .duplicate => .unit opDuplicate
  | .loadField name => .field opLoadField name.name
  | .loadDeclaredField name => .field opLoadDeclaredField name.name
  | .storeField name => .field opStoreField name.name
  | .storeFieldKeep name => .field opStoreFieldKeep name.name
  | .loadGlobal name => .field opLoadGlobal name.name
  | .loadInitialGlobal name => .field opLoadInitialGlobal name.name
  | .storeGlobal name => .field opStoreGlobal name.name
  | .initialField name => .field opInitialField name.name
  | .logicalOrEmptyListGlobal name => .field opLogicalOrGlobal name.name
  | .logicalOrEmptyListField name => .field opLogicalOrField name.name
  | .typeInstances path => .field opTypeInstances path.path
  | .iterationTypeFilter path => .field opIterationTypeFilter path.path
  | .makeList length => .numeric opMakeList length.toNat
  | .makeArray dimensions => .numeric opMakeArray dimensions.toNat
  | .makeArgs => .unit opMakeArgs
  | .indexList => .unit opIndexList
  | .setListIndex => .unit opSetListIndex
  | .setListIndexKeep => .unit opSetListIndexKeep
  | .listLength => .unit opListLength
  | .prepareIteration => .unit opPrepareIteration
  | .indexLocalList slot => .numeric opIndexLocalList slot.toNat
  | .listLengthLocal slot => .numeric opListLengthLocal slot.toNat
  | .logicalOrEmptyListLocal slot => .numeric opLogicalOrLocal slot.toNat
  | .logicalOrEmptyListIndex => .unit opLogicalOrIndex
  | .prepareRhsFirstIndexAssignment => .unit opPrepareRhsIndex
  | .loadDynamicField => .unit opLoadDynamicField
  | .storeDynamicField => .unit opStoreDynamicField
  | .loadGlobalVars => .unit opLoadGlobalVars
  | .loadDatumVars => .unit opLoadDatumVars
  | .add => .unit opAdd
  | .subtract => .unit opSubtract
  | .multiply => .unit opMultiply
  | .power => .unit opPower
  | .divide => .unit opDivide
  | .remainder => .unit opRemainder
  | .fractionalRemainder => .unit opFractionalRemainder
  | .bitAnd => .unit opBitAnd
  | .bitOr => .unit opBitOr
  | .bitXor => .unit opBitXor
  | .shiftLeft => .unit opShiftLeft
  | .shiftRight => .unit opShiftRight
  | .bitNot => .unit opBitNot
  | .negate => .unit opNegate
  | .not => .unit opNot
  | .equal => .unit opEqual
  | .notEqual => .unit opNotEqual
  | .equivalent => .unit opEquivalent
  | .notEquivalent => .unit opNotEquivalent
  | .compare => .unit opCompare
  | .contains => .unit opContains
  | .less => .unit opLess
  | .lessEqual => .unit opLessEqual
  | .greater => .unit opGreater
  | .greaterEqual => .unit opGreaterEqual
  | .and => .unit opAnd
  | .or => .unit opOr
  | .jumpIfNull target => .numeric opJumpIfNull target
  | .jumpIfFalse target => .numeric opJumpIfFalse target
  | .jump target => .numeric opJump target
  | .call procedure _ _ => .numeric opCall procedure.toNat
  | .ret => .unit opReturn
  | .spawn entry => .numeric opSpawn entry
  | .sleep => .unit opSleep
  | .endTry => .unit opEndTry
  | .throw => .unit opThrow
  | .crash => .unit opCrash
  | .output => .unit opOutput
  | .input => .unit opInput
  | .length => .unit opLength
  | .ref => .unit opRef
  | .prob => .unit opProb
  | _ => .unit opEscape

/-- `selector_word_with`: the ids come from a state that a new string may change. -/
def selectorWordWith {σ : Type} (stringId : String → σ → Except CompactWordcodeError (UInt32 × σ))
    (i : Instruction) (s : σ) : Except CompactWordcodeError (UInt32 × σ) :=
  match selector i with
  | .unit opcode => .ok (pack opcode 0, s)
  | .numeric opcode value => do return (← packChecked opcode value, s)
  | .field opcode value => do
    let (id, s) ← stringId value s
    return (packCheckedU32 opcode id, s)

/-- A map from strings to their ids. -/
abbrev StringIds := String → Option UInt32

def StringIds.insert (ids : StringIds) (value : String) (id : UInt32) : StringIds :=
  Function.update ids value (some id)

structure StringPool where
  strings : List String
  ids : StringIds

def StringPool.empty : StringPool where
  strings := []
  ids := fun _ => none

def internString (value : String) (pool : StringPool) :
    Except CompactWordcodeError (UInt32 × StringPool) :=
  match pool.ids value with
  | some id => .ok (id, pool)
  | none =>
    if maxStringBytes < (utf8 value).length ∨ maxStrings ≤ pool.strings.length then
      throw ⟨"compact string pool exceeds limit"⟩
    else do
      let id ← toU32 pool.strings.length "compact string id exceeds u32"
      return (id, ⟨pool.strings ++ [value], pool.ids.insert value id⟩)

def selectorWord (i : Instruction) (pool : StringPool) :
    Except CompactWordcodeError (UInt32 × StringPool) :=
  selectorWordWith internString i pool

def lookupString (ids : StringIds) (value : String) (s : Unit) :
    Except CompactWordcodeError (UInt32 × Unit) :=
  match ids value with
  | some id => .ok (id, s)
  | none => throw ⟨"compact operand string is missing"⟩

def selectorWordFromIds (i : Instruction) (ids : StringIds) : Except CompactWordcodeError UInt32 := do
  return (← selectorWordWith (lookupString ids) i ()).1

def fastOpcode (opcode : UInt8) : Option CompactFastInstruction :=
  match opcode with
  | opPushNull => some .pushNull
  | opLoadSrc => some .loadSrc
  | opStoreSrc => some .storeSrc
  | opLoadUsr => some .loadUsr
  | opStoreUsr => some .storeUsr
  | opLoadResult => some .loadResult
  | opStoreResult => some .storeResult
  | opPop => some .pop
  | opDuplicate => some .duplicate
  | _ => none

def fastInstruction (word : UInt32) : Option CompactFastInstruction :=
  fastOpcode (selectorByte word)

/-! ## Checks -/

/-- The loop over the strings in `validate_image`. -/
def validateStrings : (total : Nat) → (seen : List String) → List String →
    Except CompactWordcodeError Unit
  | _, _, [] => .ok ()
  | total, seen, value :: strings =>
    if maxStringBytes < (utf8 value).length then throw ⟨"compact string exceeds byte limit"⟩
    else if maxTotalStringBytes < total + (utf8 value).length then
      throw ⟨"compact string table exceeds byte limit"⟩
    else if value ∈ seen then throw ⟨"compact string table contains a duplicate"⟩
    else validateStrings (total + (utf8 value).length) (value :: seen) strings

/-- The loop over the procedures in `validate_image`; it gives the words they take up. -/
def validateRecords (stringCount wordCount : Nat) : (expectedOffset : Nat) →
    List CompactProcedureRecord → Except CompactWordcodeError Nat
  | expectedOffset, [] => .ok expectedOffset
  | expectedOffset, record :: records =>
    if stringCount ≤ record.pathId.toNat then throw ⟨"compact path id is invalid"⟩
    else if record.flags &&& ~~~1 ≠ 0 then throw ⟨"compact procedure has unknown flags"⟩
    else if record.localCount < record.parameterCount then
      throw ⟨"compact parameter count exceeds local count"⟩
    else if record.wordOffset.toNat ≠ expectedOffset then
      throw ⟨"compact procedure ranges are not contiguous"⟩
    else if wordCount < expectedOffset + record.instructionCount.toNat then
      throw ⟨"compact procedure range exceeds word table"⟩
    else validateRecords stringCount wordCount (expectedOffset + record.instructionCount.toNat) records

def validateImage (image : CompactWordcodeImage) : Except CompactWordcodeError Unit :=
  if maxStrings < image.strings.length ∨ maxProcedures < image.procedures.length ∨
      maxWords < image.words.length then
    throw ⟨"compact wordcode image exceeds item limits"⟩
  else do
    validateStrings 0 [] image.strings
    let claimed ← validateRecords image.strings.length image.words.length 0 image.procedures
    if claimed ≠ image.words.length then throw ⟨"compact word table has unclaimed words"⟩
    else .ok ()

/-- The ids of a string table. -/
def stringIds (strings : List String) : StringIds :=
  strings.zipIdx.foldl (fun ids entry => ids.insert entry.1 (UInt32.ofNat entry.2)) fun _ => none

/-- The words of one procedure against its instructions. -/
def validateWords (ids : StringIds) (index : Nat) : (pc : Nat) → List Instruction → List UInt32 →
    Except CompactWordcodeError Unit
  | pc, i :: instructions, word :: words => do
    let expected ← selectorWordFromIds i ids
    if word ≠ expected then
      throw ⟨s!"compact procedure {index} selector differs at instruction {pc}"⟩
    else validateWords ids index (pc + 1) instructions words
  | _, _, _ => .ok ()

/-- `waitfor` as the flags of a record. -/
def procedureFlags (program : Program) : UInt32 := if program.waitFor then 1 else 0

namespace CompactWordcodeImage

/-- One procedure against its program. -/
def validateRecord (image : CompactWordcodeImage) (ids : StringIds) (index : Nat)
    (path : Option String) (record : CompactProcedureRecord) (program : Program) :
    Except CompactWordcodeError Unit :=
  match path, image.strings[record.pathId.toNat]? with
  | none, _ => throw ⟨"missing rich procedure path"⟩
  | some _, none => throw ⟨"compact path id is invalid"⟩
  | some path, some compactPath =>
    if compactPath ≠ path then throw ⟨s!"compact procedure {index} path differs"⟩
    else if record.instructionCount.toNat ≠ program.instructions.length ∨
        record.localCount.toNat ≠ program.localCount ∨
        record.parameterCount.toNat ≠ program.parameterCount ∨
        record.flags ≠ procedureFlags program then
      throw ⟨s!"compact procedure {index} metadata differs"⟩
    else if image.words.length < record.wordOffset.toNat + record.instructionCount.toNat then
      throw ⟨"compact procedure range is invalid"⟩
    else validateWords ids index 0 program.instructions
      ((image.words.drop record.wordOffset.toNat).take record.instructionCount.toNat)

def validateProcedures (image : CompactWordcodeImage) (ids : StringIds) (paths : List String) :
    (index : Nat) → List CompactProcedureRecord → List Program → Except CompactWordcodeError Unit
  | index, record :: records, program :: programs => do
    image.validateRecord ids index paths[index]? record program
    image.validateProcedures ids paths (index + 1) records programs
  | _, _, _ => .ok ()

def validateAgainst (image : CompactWordcodeImage) (module : Module) :
    Except CompactWordcodeError Unit := do
  validateImage image
  if module.deferred ≠ [] then
    throw ⟨"cannot validate compact wordcode against a deferred module"⟩
  else if image.procedures.length ≠ module.procedures.length then
    throw ⟨"compact and rich procedure counts differ"⟩
  else
    image.validateProcedures (stringIds image.strings) module.paths 0 image.procedures
      module.procedures

/-- The word of an instruction. -/
def word (image : CompactWordcodeImage) (procedure : ProcedureId) (instruction : Nat) :
    Option UInt32 := do
  let record ← image.procedures[procedure.toNat]?
  if record.instructionCount.toNat ≤ instruction then none
  else image.words[record.wordOffset.toNat + instruction]?

/-! ## Building -/

/-- The words of one procedure, and the pool with its strings. -/
def addWords : List Instruction → StringPool →
    Except CompactWordcodeError (List UInt32 × StringPool)
  | [], pool => .ok ([], pool)
  | i :: instructions, pool => do
    let (word, pool) ← selectorWord i pool
    let (words, pool) ← addWords instructions pool
    return (word :: words, pool)

/-- What is built so far. -/
structure Draft where
  pool : StringPool
  procedures : List CompactProcedureRecord
  words : List UInt32

def Draft.empty : Draft where
  pool := StringPool.empty
  procedures := []
  words := []

def addProcedure (path : Option String) (program : Program) (draft : Draft) :
    Except CompactWordcodeError Draft :=
  match path with
  | none => throw ⟨"missing procedure path"⟩
  | some path => do
    let (pathId, pool) ← internString path draft.pool
    let wordOffset ← toU32 draft.words.length "compact word offset exceeds u32"
    let instructionCount ← toU32 program.instructions.length
      "procedure instruction count exceeds u32"
    let localCount ← toU32 program.localCount "local count exceeds u32"
    let parameterCount ← toU32 program.parameterCount "parameter count exceeds u32"
    let (words, pool) ← addWords program.instructions pool
    return {
      pool := pool
      procedures := draft.procedures ++ [⟨pathId, wordOffset, instructionCount, localCount,
        parameterCount, procedureFlags program⟩]
      words := draft.words ++ words }

def addProcedures (paths : List String) : (index : Nat) → List Program → Draft →
    Except CompactWordcodeError Draft
  | _, [], draft => .ok draft
  | index, program :: programs, draft => do
    addProcedures paths (index + 1) programs (← addProcedure paths[index]? program draft)

def Draft.image (draft : Draft) : CompactWordcodeImage where
  strings := draft.pool.strings
  procedures := draft.procedures
  words := draft.words

def build (module : Module) : Except CompactWordcodeError CompactWordcodeImage :=
  if module.deferred ≠ [] then throw ⟨"compact wordcode requires a fully eager module"⟩
  else if maxProcedures < module.procedures.length then
    throw ⟨"compact wordcode procedure count exceeds limit"⟩
  else if maxWords < (module.procedures.map fun program => program.instructions.length).sum then
    throw ⟨"compact wordcode instruction count exceeds limit"⟩
  else do
    let draft ← addProcedures module.paths 0 module.procedures Draft.empty
    draft.image.validateAgainst module
    return draft.image

/-! ## Bytes -/

def writeU16 (value : Nat) : Bytes := toLittleEndian 2 value

def writeU32 (value : Nat) : Bytes := toLittleEndian 4 value

def writeText (value : String) : Bytes := writeU32 (utf8 value).length ++ utf8 value

def writeRecord (record : CompactProcedureRecord) : Bytes :=
  writeU32 record.pathId.toNat ++ (writeU32 record.wordOffset.toNat ++
    (writeU32 record.instructionCount.toNat ++ (writeU32 record.localCount.toNat ++
      (writeU32 record.parameterCount.toNat ++ writeU32 record.flags.toNat))))

def write (image : CompactWordcodeImage) : Bytes :=
  wordcodeMagic ++ (writeU16 wordcodeVersion ++ (writeU16 0 ++
    (writeU32 image.strings.length ++ (writeU32 image.procedures.length ++
      (writeU32 image.words.length ++ (image.strings.flatMap writeText ++
        (image.procedures.flatMap writeRecord ++
          image.words.flatMap fun word => writeU32 word.toNat)))))))

def encode (image : CompactWordcodeImage) : Except CompactWordcodeError Bytes := do
  validateImage image
  return image.write

abbrev WordcodeReader (α : Type) := Reader CompactWordcodeError α

def readU16 (label : String) : WordcodeReader Nat :=
  readNumber 2 ⟨s!"truncated {label}"⟩

def readU32 (label : String) : WordcodeReader UInt32 := do
  return UInt32.ofNat (← readNumber 4 ⟨s!"truncated {label}"⟩)

def readCount (maximum : Nat) (label : String) : WordcodeReader Nat :=
  refuse (fun count => maximum < count) (fun _ => ⟨s!"{label} exceeds limit"⟩)
    (readNumber 4 ⟨s!"truncated {label}"⟩)

/-- The string loop of `decode`, with the bytes of the strings so far. -/
def readTexts : (count total : Nat) → WordcodeReader (List String)
  | 0, _ => pure []
  | count + 1, total => do
    let length ← readCount maxStringBytes "string length"
    if maxTotalStringBytes < total + length then
      throw ⟨"compact string table exceeds byte limit"⟩
    else do
      let value ← respell ofUtf8 (fun _ => ⟨"compact string is not UTF-8"⟩)
        (readExact length ⟨"truncated string bytes"⟩)
      let values ← readTexts count (total + length)
      return value :: values

def readRecord : WordcodeReader CompactProcedureRecord := do
  let pathId ← readU32 "path id"
  let wordOffset ← readU32 "word offset"
  let instructionCount ← readU32 "instruction count"
  let localCount ← readU32 "local count"
  let parameterCount ← readU32 "parameter count"
  let flags ← readU32 "procedure flags"
  return ⟨pathId, wordOffset, instructionCount, localCount, parameterCount, flags⟩

def readMagic : WordcodeReader Unit :=
  readExact wordcodeMagic.length ⟨"truncated header"⟩ >>= fun magic =>
    if magic ≠ wordcodeMagic then throw ⟨"invalid compact wordcode header"⟩ else pure ()

def readVersion : WordcodeReader Unit :=
  readU16 "version" >>= fun version =>
    if version ≠ wordcodeVersion then
      throw ⟨s!"unsupported compact wordcode version {version}"⟩
    else pure ()

def readFlags : WordcodeReader Unit :=
  readU16 "flags" >>= fun flags =>
    if flags ≠ 0 then throw ⟨"unknown compact wordcode flags"⟩ else pure ()

def readImage : WordcodeReader CompactWordcodeImage := do
  readMagic
  readVersion
  readFlags
  let stringCount ← readCount maxStrings "string count"
  let procedureCount ← readCount maxProcedures "procedure count"
  let wordCount ← readCount maxWords "word count"
  let strings ← readTexts stringCount 0
  let procedures ← readMany (fun _ => readRecord) 0 procedureCount
  let words ← readMany (fun _ => readU32 "dispatch word") 0 wordCount
  return ⟨strings, procedures, words⟩

def decode (bytes : Bytes) : Except CompactWordcodeError CompactWordcodeImage := do
  let (image, rest) ← readImage bytes
  if rest ≠ [] then throw ⟨"trailing bytes after compact wordcode image"⟩
  else do
    validateImage image
    return image

end CompactWordcodeImage

end Dream64.Bytecode
