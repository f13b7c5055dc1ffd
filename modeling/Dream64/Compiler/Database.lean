import Dream64.Library.Codec
import Dream64.ObjectTree.Tree
import Dream64.Library.Sweep

/-!
# The compiler database

`dm-compiler`, `persistent_database.rs`: what an incremental build keeps for
the next one. The database is checked before it is written and after it is
read. The MD5 sum comes from a package and is a parameter; the platform has 64
bits.
-/

namespace Dream64.Compiler

open Codec

abbrev Md5Digest := { bytes : Bytes // bytes.length = 16 }

/-- Opaque content or configuration digest stored in the compiler database. -/
abbrev Digest := { bytes : Bytes // bytes.length = 32 }

abbrev Md5 := Bytes → Md5Digest

def databaseMagic : Bytes := utf8 "D64CDB" ++ [0, 0]

def databaseVersion : Nat := 1

def headerLen : Nat := 8 + 4 + 4 + 8 + 16

def maxDatabaseBytes : Nat := 8 * 1024 * 1024 * 1024

def maxSectionPayloadBytes : Nat := 64 * 1024 * 1024

def maxRecords : Nat := 1000000

def maxStringBytes : Nat := 16 * 1024 * 1024

/-- One normalized project input and its exact content identity. -/
structure InputDependency where
  identity : String
  contentDigest : Digest
  byteLength : Nat

/-- A stable numeric identity assigned by the linker. -/
structure StableIdEntry where
  nameSpace : String
  name : String
  id : Nat
deriving DecidableEq

/-- Dependency metadata for one serialized compiler or runtime section. -/
structure SectionDependency where
  sectionId : Nat
  sectionDependencies : List Nat
  inputDependencies : List Nat
  contentDigest : Digest
  payload : Bytes

structure PersistentCompilerDatabase where
  semanticDigest : Digest
  buildConfigurationDigest : Digest
  inputs : List InputDependency
  stableIds : List StableIdEntry
  sections : List SectionDependency

inductive DatabaseError where
  | io
  | format (what : String)
  | limit (what : String)

/-! ## Checks -/

/-- `validate_stable_ids`; a name or a number that a set holds already is one that comes twice. -/
def validateStableIds (entries : List StableIdEntry) : Except DatabaseError Unit :=
  if maxRecords < entries.length then throw (.limit "stable-ID record count")
  else if (entries.map fun entry => (entry.nameSpace, entry.name)).Nodup ∧
      (entries.map fun entry => (entry.nameSpace, entry.id)).Nodup then pure ()
  else throw (.format "duplicate stable ID")

def SectionDependency.known (db : PersistentCompilerDatabase) (part : SectionDependency) : Bool :=
  (part.inputDependencies.all fun index => index < db.inputs.length) &&
    part.sectionDependencies.all fun id => db.sections.any fun other => other.sectionId == id

def validate (db : PersistentCompilerDatabase) : Except DatabaseError Unit := do
  if maxRecords < db.inputs.length ∨ maxRecords < db.stableIds.length ∨
      maxRecords < db.sections.length then throw (.limit "record count")
  else if ¬ (db.inputs.map (·.identity)).Nodup then throw (.format "duplicate input identity")
  else do
    validateStableIds db.stableIds
    if ¬ (db.sections.map (·.sectionId)).Nodup then throw (.format "duplicate section ID")
    else if ¬ db.sections.all (SectionDependency.known db) then
      throw (.format "unknown dependency")
    else pure ()

/-! ## Writing -/

def writeU32 (value : Nat) : Bytes := toLittleEndian 4 value

def writeU64 (value : Nat) : Bytes := toLittleEndian 8 value

def writeString (value : String) : Except DatabaseError Bytes :=
  if maxStringBytes < (utf8 value).length then throw (.limit "string")
  else pure (writeU64 (utf8 value).length ++ utf8 value)

def writeU64Vec (values : List Nat) : Except DatabaseError Bytes :=
  if maxRecords < values.length then throw (.limit "dependency count")
  else pure (writeU64 values.length ++ values.flatMap writeU64)

def writeInput (input : InputDependency) : Except DatabaseError Bytes := do
  let identity ← writeString input.identity
  pure (identity ++ input.contentDigest ++ writeU64 input.byteLength)

def writeStableId (entry : StableIdEntry) : Except DatabaseError Bytes := do
  let nameSpace ← writeString entry.nameSpace
  let name ← writeString entry.name
  pure (nameSpace ++ name ++ writeU64 entry.id)

def writeSection (part : SectionDependency) : Except DatabaseError Bytes := do
  let sectionDependencies ← writeU64Vec part.sectionDependencies
  let inputDependencies ← writeU64Vec part.inputDependencies
  if maxSectionPayloadBytes < part.payload.length then throw (.limit "section payload")
  else pure (writeU64 part.sectionId ++ sectionDependencies ++ inputDependencies ++
    part.contentDigest ++ writeU64 part.payload.length ++ part.payload)

/-- The header in front of a payload. -/
def writeHeader (md5 : Md5) (payload : Bytes) : Bytes :=
  databaseMagic ++ writeU32 databaseVersion ++ writeU32 0 ++ writeU64 payload.length ++ md5 payload

def PersistentCompilerDatabase.encode (md5 : Md5) (db : PersistentCompilerDatabase) :
    Except DatabaseError Bytes := do
  validate db
  let inputs ← db.inputs.mapM writeInput
  let stableIds ← db.stableIds.mapM writeStableId
  let sections ← db.sections.mapM writeSection
  let payload := db.semanticDigest ++ db.buildConfigurationDigest ++
    writeU64 db.inputs.length ++ inputs.flatten ++ writeU64 db.stableIds.length ++
    stableIds.flatten ++ writeU64 db.sections.length ++ sections.flatten
  if maxDatabaseBytes - headerLen < payload.length then throw (.limit "database payload")
  else pure (writeHeader md5 payload ++ payload)

/-! ## Reading -/

def readU32 : Reader DatabaseError Nat := readNumber 4 .io

def readU64 : Reader DatabaseError Nat := readNumber 8 .io

def readCount : Reader DatabaseError Nat :=
  readU64 |> refuse (fun count => maxRecords < count) fun _ => .limit "record count"

/-- Bytes behind their number. -/
def readBounded (limit : Nat) (what : String) : Reader DatabaseError Bytes := do
  let length ← readU64
  if limit < length then throw (.limit what) else readExact length .io

def readString : Reader DatabaseError String :=
  readBounded maxStringBytes "string" |> respell ofUtf8 fun _ => .format "UTF-8 string"

def readBytes : Reader DatabaseError Bytes := readBounded maxSectionPayloadBytes "section payload"

def readU64Vec : Reader DatabaseError (List Nat) := do
  let count ← readCount
  readMany (fun _ => readU64) 0 count

/-- The bytes, if there are so many. -/
def sized (count : Nat) (bytes : Bytes) : Option { bytes : Bytes // bytes.length = count } :=
  if h : bytes.length = count then some ⟨bytes, h⟩ else none

def readSized (count : Nat) : Reader DatabaseError { bytes : Bytes // bytes.length = count } :=
  readExact count .io |> respell (sized count) fun _ => .io

def readDigest : Reader DatabaseError Digest := readSized 32

def readInput : Reader DatabaseError InputDependency := do
  let identity ← readString
  let contentDigest ← readDigest
  let byteLength ← readU64
  pure ⟨identity, contentDigest, byteLength⟩

def readStableId : Reader DatabaseError StableIdEntry := do
  let nameSpace ← readString
  let name ← readString
  let id ← readU64
  pure ⟨nameSpace, name, id⟩

def readSection : Reader DatabaseError SectionDependency := do
  let sectionId ← readU64
  let sectionDependencies ← readU64Vec
  let inputDependencies ← readU64Vec
  let contentDigest ← readDigest
  let payload ← readBytes
  pure ⟨sectionId, sectionDependencies, inputDependencies, contentDigest, payload⟩

/-- The records of a table behind their number. -/
def readRecords {α : Type} (read : Reader DatabaseError α) : Reader DatabaseError (List α) := do
  let count ← readCount
  readMany (fun _ => read) 0 count

def readDatabase : Reader DatabaseError PersistentCompilerDatabase := do
  let semanticDigest ← readDigest
  let buildConfigurationDigest ← readDigest
  let inputs ← readRecords readInput
  let stableIds ← readRecords readStableId
  let sections ← readRecords readSection
  pure ⟨semanticDigest, buildConfigurationDigest, inputs, stableIds, sections⟩

def readMagic : Reader DatabaseError Unit := do
  let magic ← readExact 8 .io
  if magic ≠ databaseMagic then throw (.format "magic") else pure ()

/-- The version, and then the flags. -/
def readVersion (expected : Nat) : Reader DatabaseError Unit := do
  let value ← readU32
  if value ≠ expected then throw (.format "version or flags") else pure ()

/-- The length of the payload and its checksum. -/
def readHeader : Reader DatabaseError (Nat × Md5Digest) := do
  readMagic
  readVersion databaseVersion
  readVersion 0
  let payloadLen ← readU64
  let expected ← readSized 16
  pure (payloadLen, expected)

def PersistentCompilerDatabase.decode (md5 : Md5) (bytes : Bytes) :
    Except DatabaseError PersistentCompilerDatabase :=
  if maxDatabaseBytes < bytes.length then throw (.limit "database file")
  else if bytes.length < headerLen then throw (.format "truncated header")
  else do
    let header ← readHeader bytes
    if header.1.1 ≠ bytes.length - headerLen then throw (.format "payload length")
    else if md5 header.2 ≠ header.1.2 then throw (.format "checksum")
    else do
      let (db, rest) ← readDatabase header.2
      if rest ≠ [] then throw (.format "trailing payload")
      else do
        validate db
        pure db

/-!
# Invalidation

`changed_inputs` compares the inputs of the database with new ones place by
place, and `invalidated_sections` sweeps over the sections until no further one
depends on a changed input. It gives the sections from which a changed input is
reached, cycles and unknown sections included (`invalidatedSections_reach`).
-/

deriving instance DecidableEq for InputDependency

namespace PersistentCompilerDatabase

variable (db : PersistentCompilerDatabase)

def changedInputs (current : List InputDependency) : List Nat :=
  (List.range (max db.inputs.length current.length)).filter fun index =>
    decide (db.inputs[index]? ≠ current[index]?)

/-- The section depends on a changed input, or on a section that is marked. -/
def isInvalid (changed : List Nat) (part : SectionDependency) (invalid : Finset Nat) : Bool :=
  (part.inputDependencies.any fun index => decide (index ∈ changed)) ||
    part.sectionDependencies.any fun dependency => decide (dependency ∈ invalid)

def invalidatedSections (changed : List Nat) : List Nat :=
  (Sweep.settle db.sections (·.sectionId) (isInvalid changed) ∅).sort

/-- The input is reached from the section, through section dependencies. -/
inductive Reaches : Nat → Nat → Prop where
  | input (part : SectionDependency) (index : Nat) : part ∈ db.sections →
      index ∈ part.inputDependencies → Reaches part.sectionId index
  | section (part : SectionDependency) (dependency index : Nat) : part ∈ db.sections →
      dependency ∈ part.sectionDependencies → Reaches dependency index →
      Reaches part.sectionId index

variable {db}

theorem isInvalid_iff {changed : List Nat} {part : SectionDependency} {invalid : Finset Nat} :
    isInvalid changed part invalid = true ↔ (∃ index ∈ part.inputDependencies, index ∈ changed) ∨
      ∃ dependency ∈ part.sectionDependencies, dependency ∈ invalid := by
  simp only [isInvalid, Bool.or_eq_true, List.any_eq_true, decide_eq_true_eq]

theorem mem_changedInputs {current : List InputDependency} {index : Nat} :
    index ∈ db.changedInputs current ↔ db.inputs[index]? ≠ current[index]? := by
  rw [changedInputs, List.mem_filter, List.mem_range, decide_eq_true_eq]
  refine ⟨fun h => h.2, fun h => ⟨?_, h⟩⟩
  -- Behind the longer list both have no input.
  by_contra hge
  apply h
  rw [List.getElem?_eq_none (by omega), List.getElem?_eq_none (by omega)]

theorem reaches_of_mem {changed : List Nat} {id : Nat} (h : id ∈ db.invalidatedSections changed) :
    ∃ index ∈ changed, db.Reaches id index := by
  rw [invalidatedSections, Finset.mem_sort] at h
  refine Sweep.settle_least (P := fun id => ∃ index ∈ changed, db.Reaches id index) ?_ ?_ id h
  · intro part hpart invalid hinvalid hrule
    rcases isInvalid_iff.1 hrule with ⟨index, hindex, hchanged⟩ | ⟨dependency, hdep, hmem⟩
    · exact ⟨index, hchanged, .input part index hpart hindex⟩
    · obtain ⟨index, hchanged, hreach⟩ := hinvalid dependency hmem
      exact ⟨index, hchanged, .section part dependency index hpart hdep hreach⟩
  · intro k hk
    exact absurd hk (Finset.notMem_empty k)

theorem mem_of_reaches {changed : List Nat} {id index : Nat} (h : db.Reaches id index)
    (hchanged : index ∈ changed) : id ∈ db.invalidatedSections changed := by
  have hclosed : Sweep.Closed db.sections (·.sectionId) (isInvalid changed) _ :=
    Sweep.settle_closed ∅
  rw [invalidatedSections, Finset.mem_sort]
  induction h with
  | input part index hpart hindex =>
    exact hclosed part hpart (isInvalid_iff.2 (.inl ⟨index, hindex, hchanged⟩))
  | «section» part dependency index hpart hdep _ ih =>
    exact hclosed part hpart (isInvalid_iff.2 (.inr ⟨dependency, hdep, ih hchanged⟩))

/-- The sections that are given reach a changed input, and all that do are given, each once and in
order; the inputs that any other section reaches are in the new inputs at their place. -/
theorem invalidatedSections_reach (db : PersistentCompilerDatabase) (changed : List Nat)
    (current : List InputDependency) :
    (db.invalidatedSections changed).Pairwise (· < ·) ∧
      (∀ id, id ∈ db.invalidatedSections changed ↔ ∃ index ∈ changed, db.Reaches id index) ∧
      ∀ id, id ∉ db.invalidatedSections (db.changedInputs current) →
        ∀ index, db.Reaches id index → db.inputs[index]? = current[index]? := by
  refine ⟨?_, fun id => ⟨reaches_of_mem, ?_⟩, ?_⟩
  · exact (Finset.sortedLT_sort _).pairwise
  · rintro ⟨index, hchanged, hreach⟩
    exact mem_of_reaches hreach hchanged
  · intro id hid index hreach
    by_contra hne
    exact hid (mem_of_reaches hreach (mem_changedInputs.2 hne))

end PersistentCompilerDatabase

end Dream64.Compiler
