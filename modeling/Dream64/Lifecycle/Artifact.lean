import Dream64.Library.Slices

/-!
# The envelope of compiled artifacts

An artifact is a fingerprint of the project and sections of opaque payload. Its
bytes are a header with a table of the sections, the payloads, and a footer;
header, payloads, body and footer are checksummed. `usize` has 64 bits. The
checksum is a parameter, as are the marks of the engine (`Platform`).
-/

namespace Dream64.Lifecycle

open Codec (Bytes toLittleEndian)
open Fallible (refuse)

/-! ## Limits and errors -/

def maxUsize : Nat := 2 ^ 64 - 1

def magic : Bytes := "DREAM64-COMPILED".toList.map fun c => UInt8.ofNat c.toNat

def commitMagic : Bytes := "DREAM64-COMMIT!!".toList.map fun c => UInt8.ofNat c.toNat

def fixedHeaderLength : Nat := 72

def sectionTableEntryLength : Nat := 24

def headerChecksumLength : Nat := 4

def footerLength : Nat := 32

def maxTargetLength : Nat := 255

def artifactSchema : Nat := 1

def maxArtifactLength : Nat := 16 * 1024 * 1024 * 1024

def maxSectionLength : Nat := 8 * 1024 * 1024 * 1024

def maxSections : Nat := 1024

inductive ChecksumRegion where
  | header
  | body
  | footer
  | payload (id : UInt32)
deriving DecidableEq, Repr

inductive ArtifactError where
  | artifactTooLarge (actual maximum : Nat)
  | sectionTooLarge (id : UInt32) (actual maximum : Nat)
  | tooManySections (actual maximum : Nat)
  | duplicateSection (id : UInt32)
  | lengthOverflow
  | targetTooLong (actual maximum : Nat)
  | truncated (expected actual : Nat)
  | extraData (expected actual : Nat)
  | invalidMagic
  | schemaMismatch (found expected : Nat)
  | endianMismatch
  | pointerWidthMismatch
  | targetMismatch (found expected : Bytes)
  | engineFingerprintMismatch
  | projectFingerprintMismatch
  | malformedLayout (reason : String)
  | missingCommitFooter
  | checksumMismatch (region : ChecksumRegion)
  | io (operation : String) (source : String)
deriving DecidableEq, Repr

abbrev Outcome := Fallible ArtifactError

abbrev Fingerprint := {bytes : Bytes // bytes.length = 16}

/-- What an engine writes of itself. -/
structure Platform where
  endian : UInt8
  pointerWidth : UInt8
  target : Bytes
  engineFingerprint : Fingerprint

abbrev Checksum := Bytes → UInt32

/-! ## Arithmetic -/

def checkedAdd (a b : Nat) : Outcome Nat :=
  if a + b ≤ maxUsize then .value (a + b) else .error .lengthOverflow

def checkedMul (a b : Nat) : Outcome Nat :=
  if a * b ≤ maxUsize then .value (a * b) else .error .lengthOverflow

/-- `a + b`, which panics on overflow. -/
def addUsize (a b : Nat) : Outcome Nat := if a + b ≤ maxUsize then .value (a + b) else .panic

def subUsize (a b : Nat) : Outcome Nat := if b ≤ a then .value (a - b) else .panic

/-! ## Artifacts -/

/-- Where the bytes of a payload are kept. -/
inductive ArtifactPayload where
  | owned (payload : Bytes)
  | shared (backing : Bytes) (offset length : Nat) (inside : offset + length ≤ backing.length)
  | mapped (backing : Bytes) (offset length : Nat) (inside : offset + length ≤ backing.length)

structure ArtifactSection where
  id : UInt32
  storage : ArtifactPayload

def ArtifactSection.payload (part : ArtifactSection) : Bytes :=
  match part.storage with
  | .owned payload => payload
  | .shared backing offset length _ => (backing.drop offset).take length
  | .mapped backing offset length _ => (backing.drop offset).take length

/-- What sections are compared by. -/
def ArtifactSection.logical (part : ArtifactSection) : UInt32 × Bytes := (part.id, part.payload)

structure CompiledArtifact where
  projectFingerprint : Fingerprint
  sections : List ArtifactSection

/-- What artifacts are compared by. -/
def CompiledArtifact.logical (artifact : CompiledArtifact) : Fingerprint × List (UInt32 × Bytes) :=
  (artifact.projectFingerprint, artifact.sections.map (·.logical))

/-! ## Encoding -/

def validateSectionsFrom : List UInt32 → List ArtifactSection → Outcome Unit
  | _, [] => .value ()
  | ids, part :: rest => do
    refuse (part.id ∈ ids) (.duplicateSection part.id)
    refuse (maxSectionLength < part.payload.length)
      (.sectionTooLarge part.id part.payload.length maxSectionLength)
    validateSectionsFrom (part.id :: ids) rest

def validateSections (sections : List ArtifactSection) : Outcome Unit := do
  refuse (maxSections < sections.length) (.tooManySections sections.length maxSections)
  validateSectionsFrom [] sections

/-- The lengths of the payloads on top of a length. -/
def addPayloads : Nat → List ArtifactSection → Outcome Nat
  | length, [] => .value length
  | length, part :: rest => do
    let next ← checkedAdd length part.payload.length
    addPayloads next rest

/-- The length of a header, with its checksum. -/
def expectedHeaderLength (targetLength sectionCount : Nat) : Outcome Nat := do
  let tableLength ← checkedMul sectionCount sectionTableEntryLength
  let withTarget ← checkedAdd fixedHeaderLength targetLength
  let withTable ← checkedAdd withTarget tableLength
  checkedAdd withTable headerChecksumLength

def CompiledArtifact.encodedLengths (artifact : CompiledArtifact) (targetLength : Nat) :
    Outcome (Nat × Nat) := do
  refuse (maxTargetLength < targetLength) (.targetTooLong targetLength maxTargetLength)
  validateSections artifact.sections
  let headerLength ← expectedHeaderLength targetLength artifact.sections.length
  let payloadLength ← addPayloads 0 artifact.sections
  let withPayloads ← checkedAdd headerLength payloadLength
  let totalLength ← checkedAdd withPayloads footerLength
  refuse (maxArtifactLength < totalLength) (.artifactTooLarge totalLength maxArtifactLength)
  return (headerLength, totalLength)

section

variable (crc : Checksum) (platform : Platform)

/-- The table of the sections, whose payloads begin at an offset. -/
def pushTable : Nat → List ArtifactSection → Outcome Bytes
  | _, [] => .value []
  | payloadOffset, part :: rest => do
    let next ← checkedAdd payloadOffset part.payload.length
    let more ← pushTable next rest
    return toLittleEndian 4 part.id.toNat ++ toLittleEndian 8 payloadOffset ++
      toLittleEndian 8 part.payload.length ++ toLittleEndian 4 (crc part.payload).toNat ++ more

/-- The header up to the table. -/
def fixedHeader (artifact : CompiledArtifact) (headerLength totalLength : Nat) : Bytes :=
  magic ++ toLittleEndian 2 artifactSchema ++ [platform.endian] ++ [platform.pointerWidth] ++
    toLittleEndian 2 platform.target.length ++ toLittleEndian 2 0 ++
    toLittleEndian 4 artifact.sections.length ++ toLittleEndian 4 headerLength ++
    toLittleEndian 8 totalLength ++ artifact.projectFingerprint ++ platform.engineFingerprint ++
    platform.target

def CompiledArtifact.encodeHeader (artifact : CompiledArtifact) : Outcome (Bytes × Nat) := do
  let lengths ← artifact.encodedLengths platform.target.length
  refuse (2 ^ 32 ≤ lengths.1) .lengthOverflow
  refuse (2 ^ 16 ≤ platform.target.length)
    (.targetTooLong platform.target.length maxTargetLength)
  refuse (2 ^ 32 ≤ artifact.sections.length)
    (.tooManySections artifact.sections.length maxSections)
  let table ← pushTable crc lengths.1 artifact.sections
  let encoded := fixedHeader platform artifact lengths.1 lengths.2 ++ table
  return (encoded ++ toLittleEndian 4 (crc encoded).toNat, lengths.2)

def encodeFooter (totalLength bodyChecksum : Nat) : Bytes :=
  let footer := commitMagic ++ toLittleEndian 4 bodyChecksum ++ toLittleEndian 8 totalLength
  footer ++ toLittleEndian 4 (crc footer).toNat

def CompiledArtifact.encode (artifact : CompiledArtifact) : Outcome Bytes := do
  let header ← artifact.encodeHeader crc platform
  let encoded := artifact.sections.foldl (fun encoded part => encoded ++ part.payload) header.1
  return encoded ++ encodeFooter crc header.2 (crc encoded).toNat

/-! ## Streaming -/

/-- `crc32fast::Hasher`: the checksum of all that it was updated with. -/
structure Hasher where
  fed : Bytes := []
deriving Repr

def Hasher.update (hasher : Hasher) (bytes : Bytes) : Hasher := ⟨hasher.fed ++ bytes⟩

def Hasher.finalize (hasher : Hasher) : UInt32 := crc hasher.fed

structure ArtifactWriteStats where
  encodedBytes : Nat
  payloadBytes : Nat
  writeCalls : Nat
deriving DecidableEq, Repr

/-- Whether the operations on files fail, in their order. -/
abbrev Faults := Nat → Option String

def attempt (faults : Faults) (index : Nat) (operation : String) : Outcome Unit :=
  match faults index with
  | none => .value ()
  | some source => .error (.io operation source)

/-- The payloads, written behind what is in the file. -/
def writePayloads (faults : Faults) : (index : Nat) → Bytes → Hasher → List ArtifactSection →
    Outcome (Bytes × Hasher)
  | _, file, hasher, [] => .value (file, hasher)
  | index, file, hasher, part :: rest => do
    attempt faults index "write temporary artifact section"
    writePayloads faults (index + 1) (file ++ part.payload) (hasher.update part.payload) rest

/-- `write_atomic_with_stats`: what is put in the place of the file. -/
def CompiledArtifact.writeAtomicWithStats (artifact : CompiledArtifact) (faults : Faults) :
    Outcome (Bytes × ArtifactWriteStats) := do
  let header ← artifact.encodeHeader crc platform
  let payloadBytes ← addPayloads 0 artifact.sections
  attempt faults 0 "create parent directory for"
  attempt faults 1 "create temporary artifact beside"
  attempt faults 2 "write temporary artifact header"
  let written ← writePayloads faults 3 header.1 (({} : Hasher).update header.1) artifact.sections
  attempt faults (artifact.sections.length + 3) "write temporary artifact footer"
  let file := written.1 ++ encodeFooter crc header.2 (written.2.finalize crc).toNat
  attempt faults (artifact.sections.length + 4) "flush and sync temporary artifact"
  attempt faults (artifact.sections.length + 5) "atomically replace"
  return (file, ⟨header.2, payloadBytes, artifact.sections.length + 2⟩)

end

/-! ## Validation -/

/-- `bytes[offset]` -/
def indexByte (bytes : Bytes) (offset : Nat) : Outcome UInt8 :=
  match bytes[offset]? with
  | some byte => .value byte
  | none => .panic

/-- The number in the `count` bytes at an offset. -/
def readNumber (bytes : Bytes) (offset count : Nat) (reason : String) : Outcome Nat := do
  let _ ← addUsize offset count
  .orError (Codec.getNumber bytes offset count) (.malformedLayout reason)

def readU16 (bytes : Bytes) (offset : Nat) : Outcome Nat :=
  readNumber bytes offset 2 "u16 field lies outside the artifact"

def readU32 (bytes : Bytes) (offset : Nat) : Outcome Nat :=
  readNumber bytes offset 4 "u32 field lies outside the artifact"

def readU64 (bytes : Bytes) (offset : Nat) : Outcome Nat :=
  readNumber bytes offset 8 "u64 field lies outside the artifact"

def array16 (bytes : Bytes) (offset : Nat) : Outcome Fingerprint := do
  let stop ← addUsize offset 16
  let encoded ← .orError (Codec.get bytes offset stop)
    (.malformedLayout "fingerprint lies outside the artifact")
  if h : encoded.length = 16 then .value ⟨encoded, h⟩
  else .error (.malformedLayout "fingerprint has the wrong length")

/-- The fields of a header that are used behind it. -/
structure Header where
  endian : UInt8
  pointerWidth : UInt8
  targetLength : Nat
  sectionCount : Nat
  headerLength : Nat
  declaredTotal : Nat
deriving DecidableEq, Repr

def headerLengthReason : String := "header length does not match its target and section table"

def readHeader (bytes : Bytes) : Outcome Header := do
  refuse (maxArtifactLength < bytes.length) (.artifactTooLarge bytes.length maxArtifactLength)
  let minimumLength := fixedHeaderLength + headerChecksumLength + footerLength
  refuse (bytes.length < minimumLength) (.truncated minimumLength bytes.length)
  let start ← Codec.slice bytes 0 magic.length
  refuse (start ≠ magic) .invalidMagic
  let schema ← readU16 bytes 16
  refuse (schema ≠ artifactSchema) (.schemaMismatch schema artifactSchema)
  let endian ← indexByte bytes 18
  let pointerWidth ← indexByte bytes 19
  let targetLength ← readU16 bytes 20
  refuse (maxTargetLength < targetLength) (.targetTooLong targetLength maxTargetLength)
  let reserved ← readU16 bytes 22
  refuse (reserved ≠ 0) (.malformedLayout "reserved header bits are nonzero")
  let sectionCount ← readU32 bytes 24
  refuse (maxSections < sectionCount) (.tooManySections sectionCount maxSections)
  let headerLength ← readU32 bytes 28
  let declaredTotal ← readU64 bytes 32
  refuse (maxArtifactLength < declaredTotal) (.artifactTooLarge declaredTotal maxArtifactLength)
  refuse (bytes.length < declaredTotal) (.truncated declaredTotal bytes.length)
  refuse (declaredTotal < bytes.length) (.extraData declaredTotal bytes.length)
  let expected ← expectedHeaderLength targetLength sectionCount
  refuse (headerLength ≠ expected) (.malformedLayout headerLengthReason)
  let body ← subUsize bytes.length footerLength
  refuse (body < headerLength) (.malformedLayout headerLengthReason)
  return ⟨endian, pointerWidth, targetLength, sectionCount, headerLength, declaredTotal⟩

section

variable (crc : Checksum) (platform : Platform)

def checkHeaderChecksum (bytes : Bytes) (headerLength : Nat) : Outcome Unit := do
  let checksumOffset ← subUsize headerLength headerChecksumLength
  let stored ← readU32 bytes checksumOffset
  let covered ← Codec.slice bytes 0 checksumOffset
  refuse ((crc covered).toNat ≠ stored) (.checksumMismatch .header)

/-- The project and the engine; the end of the target is returned. -/
def checkIdentity (bytes : Bytes) (header : Header) (expected : Fingerprint) :
    Outcome Nat := do
  let projectFingerprint ← array16 bytes 40
  refuse (projectFingerprint ≠ expected) .projectFingerprintMismatch
  let engineFingerprint ← array16 bytes 56
  refuse (engineFingerprint ≠ platform.engineFingerprint) .engineFingerprintMismatch
  refuse (header.endian ≠ platform.endian) .endianMismatch
  refuse (header.pointerWidth ≠ platform.pointerWidth) .pointerWidthMismatch
  let targetEnd ← checkedAdd fixedHeaderLength header.targetLength
  let target ← .orError (Codec.get bytes fixedHeaderLength targetEnd)
    (.malformedLayout "target marker lies outside the header")
  refuse (target ≠ platform.target) (.targetMismatch target platform.target)
  return targetEnd

def checkFooter (bytes : Bytes) (footerStart declaredTotal : Nat) : Outcome Unit := do
  let commitEnd ← addUsize footerStart commitMagic.length
  let commit ← Codec.slice bytes footerStart commitEnd
  refuse (commit ≠ commitMagic) .missingCommitFooter
  let checksumField ← addUsize footerStart 16
  let bodyChecksum ← readU32 bytes checksumField
  let totalField ← addUsize footerStart 20
  let total ← readU64 bytes totalField
  refuse (total ≠ declaredTotal)
    (.malformedLayout "commit footer total length disagrees with the header")
  let footerEnd ← addUsize footerStart 28
  let stored ← readU32 bytes footerEnd
  let footer ← Codec.slice bytes footerStart footerEnd
  refuse ((crc footer).toNat ≠ stored) (.checksumMismatch .footer)
  let body ← Codec.slice bytes 0 footerStart
  refuse ((crc body).toNat ≠ bodyChecksum) (.checksumMismatch .body)

/-- An entry of the table; its payload lies inside the bytes. -/
structure EncodedSection (bytes : Bytes) where
  id : UInt32
  offset : Nat
  length : Nat
  checksum : UInt32
  inside : offset + length ≤ bytes.length

def readEntry (bytes : Bytes) (entry footerStart expectedOffset : Nat) (seen : List UInt32) :
    Outcome (EncodedSection bytes) := do
  let number ← readU32 bytes entry
  let id := UInt32.ofNat number
  refuse (id ∈ seen) (.duplicateSection id)
  let offsetField ← addUsize entry 4
  let offset ← readU64 bytes offsetField
  let lengthField ← addUsize entry 12
  let length ← readU64 bytes lengthField
  refuse (maxSectionLength < length) (.sectionTooLarge id length maxSectionLength)
  refuse (offset ≠ expectedOffset)
    (.malformedLayout "sections are not contiguous in table order")
  let stop ← checkedAdd offset length
  refuse (footerStart < stop) (.malformedLayout "section extends into the commit footer")
  let checksumField ← addUsize entry 20
  let checksum ← readU32 bytes checksumField
  if inside : offset + length ≤ bytes.length then
    .value ⟨id, offset, length, UInt32.ofNat checksum, inside⟩
  else .panic

/-- The entries, and the end of the last payload. -/
def readTable (bytes : Bytes) (tableStart footerStart : Nat) :
    (count index expectedOffset : Nat) → (seen : List UInt32) →
      Outcome (List (EncodedSection bytes) × Nat)
  | 0, _, expectedOffset, _ => .value ([], expectedOffset)
  | count + 1, index, expectedOffset, seen => do
    let step ← checkedMul index sectionTableEntryLength
    let entry ← checkedAdd tableStart step
    let encoded ← readEntry bytes entry footerStart expectedOffset seen
    let more ← readTable bytes tableStart footerStart count (index + 1)
      (encoded.offset + encoded.length) (encoded.id :: seen)
    return (encoded :: more.1, more.2)

def EncodedSection.copy {bytes : Bytes} (encoded : EncodedSection bytes) : Outcome Bytes := do
  let stop ← addUsize encoded.offset encoded.length
  Codec.slice bytes encoded.offset stop

def checkPayloads {bytes : Bytes} : List (EncodedSection bytes) → Outcome Unit
  | [] => .value ()
  | encoded :: rest => do
    let payload ← encoded.copy
    refuse (crc payload ≠ encoded.checksum) (.checksumMismatch (.payload encoded.id))
    checkPayloads rest

/-- `validate_artifact`; the fingerprint it returns is the expected one. -/
def validateArtifact (bytes : Bytes) (expected : Fingerprint) :
    Outcome (List (EncodedSection bytes)) := do
  let header ← readHeader bytes
  checkHeaderChecksum crc bytes header.headerLength
  let targetEnd ← checkIdentity platform bytes header expected
  let footerStart ← subUsize bytes.length footerLength
  checkFooter crc bytes footerStart header.declaredTotal
  let table ← readTable bytes targetEnd footerStart header.sectionCount 0 header.headerLength []
  refuse (table.2 ≠ footerStart)
    (.malformedLayout "payload bytes are not fully described by the section table")
  checkPayloads crc table.1
  return table.1

/-! ## Decoding -/

def copySections {bytes : Bytes} : List (EncodedSection bytes) → Outcome (List ArtifactSection)
  | [] => .value []
  | encoded :: rest => do
    let payload ← encoded.copy
    let more ← copySections rest
    return ⟨encoded.id, .owned payload⟩ :: more

def decodeArtifact (bytes : Bytes) (expected : Fingerprint) : Outcome CompiledArtifact := do
  let validated ← validateArtifact crc platform bytes expected
  let sections ← copySections validated
  return ⟨expected, sections⟩

def decodeOwnedArtifact (bytes : Bytes) (expected : Fingerprint) : Outcome CompiledArtifact := do
  let validated ← validateArtifact crc platform bytes expected
  return ⟨expected, validated.map fun encoded =>
    ⟨encoded.id, .shared bytes encoded.offset encoded.length encoded.inside⟩⟩

def decodeMappedArtifact (backing : Bytes) (expected : Fingerprint) :
    Outcome CompiledArtifact := do
  let validated ← validateArtifact crc platform backing expected
  return ⟨expected, validated.map fun encoded =>
    ⟨encoded.id, .mapped backing encoded.offset encoded.length encoded.inside⟩⟩

end

end Dream64.Lifecycle
