import Dream64.Library.Codec
import Dream64.Value.Arena
import Dream64.Value.DmList

/-!
# Heap snapshots

The heap as records without pointers: every slot of the two arenas with its
generation, the fields of a datum in their order, and the entries of a list in
the order of its iteration. A snapshot is restored to a heap with the same
handles. The telemetry of the arenas is left out. Where the code panics a
restored heap is the error `panic`.
-/

namespace Dream64

open SlotIndex

inductive HeapSnapshotValue where
  | null
  | number (bits : DmNumberBits)
  | text (text : String)
  | file (path : String)
  | typePath (path : String)
  | modifiedTypePath (base : String) (overrides : List (String × HeapSnapshotValue))
  | datum (index generation : Nat)
  | list (index generation : Nat)

structure HeapSnapshotDatum where
  typePath : String
  fields : List (String × HeapSnapshotValue)

inductive HeapSnapshotListEntry where
  | positional (value : HeapSnapshotValue)
  | associative (key value : HeapSnapshotValue)

/-- A slot's generation, and its payload if it is live. -/
abbrev HeapSnapshotSlot := ArenaSlot

structure ValueHeapSnapshot where
  datums : List (HeapSnapshotSlot HeapSnapshotDatum)
  datumFree : List Nat
  lists : List (HeapSnapshotSlot (List HeapSnapshotListEntry))
  listFree : List Nat

/-- Owner of all datum and list identities. -/
structure ValueHeap where
  datums : Arena DatumRecord
  lists : Arena DmList

inductive HeapError where
  | message (text : String)
  | panic

/-- A validation error of `dm-value`. -/
def valueError {α : Type} : Except String α → Except HeapError α
  | .ok value => .ok value
  | .error text => .error (.message text)

def orPanic {α : Type} : Option α → Except HeapError α
  | some value => .ok value
  | none => .error .panic

/-! ## Taking -/

mutual

def HeapSnapshotValue.ofValue : Value → HeapSnapshotValue
  | .null => .null
  | .number bits => .number bits
  | .text text => .text text
  | .file path => .file path
  | .typePath path => .typePath path.path
  | .modifiedTypePath base overrides => .modifiedTypePath base.path (snapshotOverrides overrides)
  | .datum id => .datum id.index id.generation
  | .list id => .list id.index id.generation

def snapshotOverrides : List (FieldName × Value) → List (String × HeapSnapshotValue)
  | [] => []
  | entry :: overrides => snapshotOverride entry :: snapshotOverrides overrides

def snapshotOverride : FieldName × Value → String × HeapSnapshotValue
  | (name, value) => (name.name, HeapSnapshotValue.ofValue value)

end

def snapshotDatum (datum : DatumRecord) : HeapSnapshotDatum where
  typePath := datum.typePath.path
  fields := (datum.fields.names.zip datum.fields.values).map fun entry =>
    (entry.1.name, HeapSnapshotValue.ofValue entry.2)

def snapshotListEntry (list : DmList) (entry : ListOrder) : Option HeapSnapshotListEntry :=
  match entry.positionalIndex with
  | some index => (list.positional[index]?).map fun value => .positional (.ofValue value)
  | none => do
    let index ← entry.associativeIndex
    let entry ← list.associative[index]?
    return .associative (.ofValue entry.1) (.ofValue entry.2)

def snapshotListEntries (list : DmList) : Option (List HeapSnapshotListEntry) :=
  (list.order.drop list.prefixHead).mapM (snapshotListEntry list)

/-- A slot whose payload is made into another one, if it can be. -/
def mapSlot {α β : Type} {m : Type → Type} [Monad m] (f : α → m β) (slot : ArenaSlot α) :
    m (ArenaSlot β) :=
  match slot.value with
  | none => pure ⟨slot.generation, none⟩
  | some value => do return ⟨slot.generation, some (← f value)⟩

def ValueHeap.snapshot (heap : ValueHeap) : Option ValueHeapSnapshot := do
  let datums ← heap.datums.snapshotSlots
  let lists ← heap.lists.snapshotSlots
  return {
    datums := datums.map fun slot => ⟨slot.generation, slot.value.map snapshotDatum⟩
    datumFree := heap.datums.free
    lists := ← lists.mapM (mapSlot snapshotListEntries)
    listFree := heap.lists.free }

/-! ## Restoring -/

mutual

def HeapSnapshotValue.intoValue : HeapSnapshotValue → Except String Value
  | .null => .ok .null
  | .number bits => .ok (.number bits)
  | .text text => .ok (.text text)
  | .file path => .ok (.file path)
  | .typePath path => do return .typePath (← TypePath.parse path)
  | .modifiedTypePath base overrides => do
    let overrides ← restoreOverrides overrides
    return .modifiedTypePath (← TypePath.parse base) overrides
  | .datum index generation => .ok (.datum ⟨index, generation⟩)
  | .list index generation => .ok (.list ⟨index, generation⟩)

def restoreOverrides : List (String × HeapSnapshotValue) → Except String (List (FieldName × Value))
  | [] => .ok []
  | entry :: overrides => do
    let first ← restoreOverride entry
    return first :: (← restoreOverrides overrides)

def restoreOverride : String × HeapSnapshotValue → Except String (FieldName × Value)
  | (name, value) => do
    let name ← FieldName.parse name
    return (name, ← value.intoValue)

end

def restoreField (field : String × HeapSnapshotValue) : Except String (FieldName × Value) := do
  let name ← FieldName.parse field.1
  return (name, ← field.2.intoValue)

def restoreSnapshotDatum (datum : HeapSnapshotDatum) : Except HeapError DatumRecord :=
  valueError do
    let typePath ← TypePath.parse datum.typePath
    let fields ← datum.fields.mapM restoreField
    return {
      typePath := typePath
      fields := .owned fields
      fieldIndex := if datumFieldIndexThreshold ≤ fields.length then
        some (insertFrom (fun _ => none) 0 (fields.map (·.1))) else none }

def restoreListEntry (list : DmList) :
    HeapSnapshotListEntry → Except HeapError DmList
  | .positional value => do
    let entry ← orPanic (ListOrder.positional list.positional.length)
    let value ← valueError value.intoValue
    return { list with
      order := list.order ++ [entry]
      positional := list.positional ++ [value] }
  | .associative key value => do
    let entry ← orPanic (ListOrder.associative list.associative.length)
    let key ← valueError key.intoValue
    let value ← valueError value.intoValue
    return { list with
      order := list.order ++ [entry]
      associative := list.associative ++ [(key, value)] }

section

variable (hash : SemanticKey → Nat)

def restoreListEntries (entries : List HeapSnapshotListEntry) : Except HeapError DmList :=
  if entries = [] then .ok DmList.empty
  else do
    let list ← entries.foldlM restoreListEntry DmList.empty
    orPanic (list.rebuildAssociativeIndex hash)

/-- The names are shared with the other datums of this layout, whose index is the same. -/
def DatumRecord.compactRestored (datum : DatumRecord) : DatumRecord :=
  if datum.fields.names = [] then datum
  else { datum with fields := .shared datum.fields.names datum.fields.values }

/-- What is done to every value of an arena. -/
def Arena.mapValues {α : Type} (arena : Arena α) (f : α → α) : Arena α :=
  { arena with
    chunks := arena.chunks.map fun chunk =>
      chunk.map fun slot => ⟨slot.generation, slot.value.map f⟩ }

/-- `compact_restored_datum_layouts` -/
def ValueHeap.compactRestored (heap : ValueHeap) : ValueHeap :=
  { heap with datums := heap.datums.mapValues DatumRecord.compactRestored }

def ValueHeap.fromSnapshot (snapshot : ValueHeapSnapshot) : Except HeapError ValueHeap := do
  let datumSlots ← snapshot.datums.mapM (mapSlot restoreSnapshotDatum)
  let listSlots ← snapshot.lists.mapM (mapSlot (restoreListEntries hash))
  let datums ← valueError (Arena.fromSnapshotSlots datumSlots snapshot.datumFree "datum")
  let lists ← valueError (Arena.fromSnapshotSlots listSlots snapshot.listFree "list")
  return ValueHeap.compactRestored ⟨datums, lists⟩

end

end Dream64

/-!
# The binary heap section

`snapshot.rs`: two writers, one for the records of a snapshot and one that goes
over the heap itself, and two readers, one that gives the records and one that
restores them as they come. Lengths have 64 bits, everything else has 32.
-/

namespace Dream64

open Codec

namespace HeapCodec

def heapMagic : Bytes := utf8 "D64HEAP" ++ [0]

def heapVersion : Nat := 1

def maxSlots : Nat := 100000000

def maxEntries : Nat := 100000000

def maxStringBytes : Nat := 64 * 1024 * 1024

def maxValueDepth : Nat := 64

/-! ## Writing -/

def writeU32 (value : Nat) : Bytes := toLittleEndian 4 value

def writeLen (len : Nat) : Bytes := toLittleEndian 8 len

def writeString (value : String) : Bytes := writeLen (utf8 value).length ++ utf8 value

mutual

def writeValue : HeapSnapshotValue → Bytes
  | .null => [0]
  | .number bits => 1 :: writeU32 bits.toNat
  | .text text => 2 :: writeString text
  | .file path => 3 :: writeString path
  | .typePath path => 4 :: writeString path
  | .modifiedTypePath base overrides =>
    5 :: (writeString base ++ (writeLen overrides.length ++ writeOverrides overrides))
  | .datum index generation => 6 :: (writeU32 index ++ writeU32 generation)
  | .list index generation => 7 :: (writeU32 index ++ writeU32 generation)

def writeOverrides : List (String × HeapSnapshotValue) → Bytes
  | [] => []
  | entry :: overrides => writeOverride entry ++ writeOverrides overrides

def writeOverride : String × HeapSnapshotValue → Bytes
  | (name, value) => writeString name ++ writeValue value

end

def writeField (field : String × HeapSnapshotValue) : Bytes :=
  writeString field.1 ++ writeValue field.2

def writeDatum (datum : HeapSnapshotDatum) : Bytes :=
  writeString datum.typePath ++ (writeLen datum.fields.length ++ datum.fields.flatMap writeField)

def writeEntry : HeapSnapshotListEntry → Bytes
  | .positional value => 0 :: writeValue value
  | .associative key value => 1 :: (writeValue key ++ writeValue value)

def writeList (entries : List HeapSnapshotListEntry) : Bytes :=
  writeLen entries.length ++ entries.flatMap writeEntry

def writeSlot {α : Type} (write : α → Bytes) (slot : HeapSnapshotSlot α) : Bytes :=
  writeU32 slot.generation ++ writeOption write slot.value

def writeSlots {α : Type} (write : α → Bytes) (slots : List (HeapSnapshotSlot α)) : Bytes :=
  writeLen slots.length ++ slots.flatMap (writeSlot write)

def writeU32Vec (values : List Nat) : Bytes :=
  writeLen values.length ++ values.flatMap writeU32

/-- `ValueHeapSnapshot::write_to` -/
def writeSnapshot (snapshot : ValueHeapSnapshot) : Bytes :=
  heapMagic ++ (writeU32 heapVersion ++ (writeSlots writeDatum snapshot.datums ++
    (writeU32Vec snapshot.datumFree ++ (writeSlots writeList snapshot.lists ++
      writeU32Vec snapshot.listFree))))

/-! ## Writing the heap itself -/

mutual

def writeRuntimeValue : Value → Bytes
  | .null => [0]
  | .number bits => 1 :: writeU32 bits.toNat
  | .text text => 2 :: writeString text
  | .file path => 3 :: writeString path
  | .typePath path => 4 :: writeString path.path
  | .modifiedTypePath base overrides =>
    5 :: (writeString base.path ++ (writeLen overrides.length ++ writeRuntimeOverrides overrides))
  | .datum id => 6 :: (writeU32 id.index ++ writeU32 id.generation)
  | .list id => 7 :: (writeU32 id.index ++ writeU32 id.generation)

def writeRuntimeOverrides : List (FieldName × Value) → Bytes
  | [] => []
  | entry :: overrides => writeRuntimeOverride entry ++ writeRuntimeOverrides overrides

def writeRuntimeOverride : FieldName × Value → Bytes
  | (name, value) => writeString name.name ++ writeRuntimeValue value

end

def writeRuntimeDatum (datum : DatumRecord) : Bytes :=
  writeString datum.typePath.path ++ (writeLen datum.fields.length ++
    (datum.fields.names.zip datum.fields.values).flatMap fun field =>
      writeString field.1.name ++ writeRuntimeValue field.2)

def writeRuntimeEntry (list : DmList) (entry : ListOrder) : Option Bytes :=
  match entry.positionalIndex with
  | some index => (list.positional[index]?).map fun value => 0 :: writeRuntimeValue value
  | none => do
    let index ← entry.associativeIndex
    let entry ← list.associative[index]?
    return 1 :: (writeRuntimeValue entry.1 ++ writeRuntimeValue entry.2)

def writeRuntimeList (list : DmList) : Option Bytes := do
  let entries := list.order.drop list.prefixHead
  let parts ← entries.mapM (writeRuntimeEntry list)
  return writeLen entries.length ++ parts.flatten

/-- A list without storage has no entries. -/
def writeRuntimeSlot (slot : ArenaSlot DmList) : Option Bytes := do
  match slot.value with
  | none => return writeU32 slot.generation ++ [0]
  | some list => return writeU32 slot.generation ++ (1 :: (← writeRuntimeList list))

/-- `ValueHeap::write_snapshot_to` -/
def writeHeap (heap : ValueHeap) : Option Bytes := do
  let datums ← heap.datums.snapshotSlots
  let lists ← heap.lists.snapshotSlots
  let parts ← lists.mapM writeRuntimeSlot
  return heapMagic ++ (writeU32 heapVersion ++ (writeSlots writeRuntimeDatum datums ++
    (writeU32Vec heap.datums.free ++ ((writeLen lists.length ++ parts.flatten) ++
      writeU32Vec heap.lists.free))))

/-! ## Reading -/

abbrev HeapReader (α : Type) := Reader HeapError α

/-- `read_exact` on too few bytes. -/
def unexpectedEnd : HeapError := .message "failed to fill whole buffer"

def readU8 : HeapReader UInt8 := readByte unexpectedEnd

def readU32 : HeapReader Nat := readNumber 4 unexpectedEnd

def readLen (max : Nat) : HeapReader Nat :=
  refuse (fun value => max < value)
    (fun value => .message s!"record length {value} exceeds limit {max}")
    (readNumber 8 unexpectedEnd)

def readText (length : Nat) : HeapReader String :=
  respell ofUtf8 (fun _ => .message "invalid utf-8 sequence") (readExact length unexpectedEnd)

def readString : HeapReader String := readLen maxStringBytes >>= readText

/-- A field of a datum, or one that a modified type path overrides. -/
def readNamed (read : HeapReader HeapSnapshotValue) : HeapReader (String × HeapSnapshotValue) := do
  let name ← readString
  return (name, ← read)

/-- What is behind a tag; `read` is for values one level deeper. -/
def readTagged (read : HeapReader HeapSnapshotValue) : (tag : Nat) → HeapReader HeapSnapshotValue
  | 0 => return .null
  | 1 => do return .number (BitVec.ofNat 32 (← readU32))
  | 2 => do return .text (← readString)
  | 3 => do return .file (← readString)
  | 4 => do return .typePath (← readString)
  | 5 => do
    let base ← readString
    let overrides ← readLen maxEntries >>= readMany (fun _ => readNamed read) 0
    return .modifiedTypePath base overrides
  | 6 => do
    let index ← readU32
    return .datum index (← readU32)
  | 7 => do
    let index ← readU32
    return .list index (← readU32)
  | tag => throw (.message s!"invalid heap-value tag {tag}")

/-- `read_value`; the budget is the number of levels that may still come. -/
def readValue : (budget : Nat) → HeapReader HeapSnapshotValue
  | 0 => throw (.message "ready-world value nesting exceeds limit")
  | budget + 1 => do
    let tag ← readU8
    readTagged (readValue budget) tag.toNat

def readTopValue : HeapReader HeapSnapshotValue := readValue (maxValueDepth + 1)

def readField : HeapReader (String × HeapSnapshotValue) := readNamed readTopValue

def readDatum : HeapReader HeapSnapshotDatum := do
  let typePath ← readString
  let fields ← readLen maxEntries >>= readMany (fun _ => readField) 0
  return ⟨typePath, fields⟩

/-- What is behind the tag of an entry. -/
def readTaggedEntry : (tag : Nat) → HeapReader HeapSnapshotListEntry
  | 0 => do return .positional (← readTopValue)
  | 1 => do
    let key ← readTopValue
    return .associative key (← readTopValue)
  | tag => throw (.message s!"invalid list-entry tag {tag}")

def readEntry : HeapReader HeapSnapshotListEntry := do
  let tag ← readU8
  readTaggedEntry tag.toNat

def readList : HeapReader (List HeapSnapshotListEntry) :=
  readLen maxEntries >>= readMany (fun _ => readEntry) 0

/-- The payload behind a tag; what it is made into may fail. -/
def readPayload {α β : Type} (what : String) (read : HeapReader α) (restore : α → Except HeapError β) :
    (tag : Nat) → HeapReader (Option β)
  | 0 => return none
  | 1 => do
    let value ← read
    return some (← restore value)
  | tag => throw (.message s!"invalid {what} tag {tag}")

def readSlot {α β : Type} (what : String) (read : HeapReader α) (restore : α → Except HeapError β) :
    HeapReader (HeapSnapshotSlot β) := do
  let generation ← readU32
  let tag ← readU8
  return ⟨generation, ← readPayload what read restore tag.toNat⟩

def readSlots {α β : Type} (what : String) (read : HeapReader α) (restore : α → Except HeapError β) :
    HeapReader (List (HeapSnapshotSlot β)) :=
  readLen maxSlots >>= readMany (fun _ => readSlot what read restore) 0

def readU32Vec : HeapReader (List Nat) := readLen maxSlots >>= readMany (fun _ => readU32) 0

def readMagic : HeapReader Unit :=
  readExact heapMagic.length unexpectedEnd >>= fun magic =>
    if magic ≠ heapMagic then throw (.message "ready-world heap magic does not match") else pure ()

def readVersion : HeapReader Unit :=
  readU32 >>= fun version =>
    if version ≠ heapVersion then throw (.message
      s!"unsupported ready-world heap version {version}; expected {heapVersion}")
    else pure ()

/-- `ValueHeapSnapshot::read_from` -/
def readSnapshot : HeapReader ValueHeapSnapshot := do
  readMagic
  readVersion
  let datums ← readSlots "arena-presence" readDatum pure
  let datumFree ← readU32Vec
  let lists ← readSlots "arena-presence" readList pure
  let listFree ← readU32Vec
  return ⟨datums, datumFree, lists, listFree⟩

/-- `ValueHeap::read_snapshot_from` -/
def readHeap (hash : SemanticKey → Nat) : HeapReader ValueHeap := do
  readMagic
  readVersion
  let datumSlots ← readSlots "datum-slot presence" readDatum restoreSnapshotDatum
  let datumFree ← readU32Vec
  let datums ← valueError (Arena.readSnapshotSlots datumSlots datumFree "datum")
  let listSlots ← readSlots "list-slot presence" readList (restoreListEntries hash)
  let listFree ← readU32Vec
  let lists ← valueError (Arena.readSnapshotSlots listSlots listFree "list")
  return ValueHeap.compactRestored ⟨datums, lists⟩

end HeapCodec

end Dream64
