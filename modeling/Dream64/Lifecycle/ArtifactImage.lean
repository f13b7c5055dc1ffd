import Dream64.Lifecycle.Artifact

/-!
# The bytes of an artifact

An artifact that is within the limits (`Fits`) is encoded as its `image`, and
no other artifact is encoded. The image is described by what lies at which
offset (`Framed`), the way a reader goes through it.
-/

namespace Dream64.Lifecycle

open Codec (Bytes toLittleEndian At at_append at_zero length_toLittleEndian)
open Fallible (do_bind do_pure bind_eq_value refuse_eq_value)

/-- An identifier and its payload. -/
abbrev Part := UInt32 × Bytes

/-! ## Lengths -/

def payloadLength (parts : List Part) : Nat := (parts.map (·.2.length)).sum

def headerLength (platform : Platform) (count : Nat) : Nat :=
  fixedHeaderLength + platform.target.length + count * sectionTableEntryLength +
    headerChecksumLength

def totalLength (platform : Platform) (parts : List Part) : Nat :=
  headerLength platform parts.length + payloadLength parts + footerLength

/-- What can be encoded. -/
structure Fits (platform : Platform) (parts : List Part) : Prop where
  target : platform.target.length ≤ maxTargetLength
  count : parts.length ≤ maxSections
  ids : (parts.map (·.1)).Nodup
  payloads : ∀ part ∈ parts, part.2.length ≤ maxSectionLength
  total : totalLength platform parts ≤ maxArtifactLength

variable {crc : Checksum} {platform : Platform}

theorem checkedAdd_eq_value {a b c : Nat} :
    checkedAdd a b = .value c ↔ a + b ≤ maxUsize ∧ c = a + b := by
  rw [checkedAdd]
  split_ifs with h
  · simp [h, eq_comm]
  · simp [h]

theorem checkedMul_eq_value {a b c : Nat} :
    checkedMul a b = .value c ↔ a * b ≤ maxUsize ∧ c = a * b := by
  rw [checkedMul]
  split_ifs with h
  · simp [h, eq_comm]
  · simp [h]

theorem expectedHeaderLength_eq_value {targetLength count length : Nat} :
    expectedHeaderLength targetLength count = .value length ↔ length ≤ maxUsize ∧
      length = fixedHeaderLength + targetLength + count * sectionTableEntryLength +
        headerChecksumLength := by
  simp only [expectedHeaderLength, do_bind, bind_eq_value, checkedMul_eq_value,
    checkedAdd_eq_value]
  constructor
  · rintro ⟨_, ⟨-, rfl⟩, _, ⟨-, rfl⟩, _, ⟨-, rfl⟩, hle, rfl⟩
    exact ⟨hle, rfl⟩
  · rintro ⟨hle, rfl⟩
    exact ⟨_, ⟨by omega, rfl⟩, _, ⟨by omega, rfl⟩, _, ⟨by omega, rfl⟩, hle, rfl⟩

theorem payloadLength_cons (part : Part) (parts : List Part) :
    payloadLength (part :: parts) = part.2.length + payloadLength parts := rfl

variable {parts : List ArtifactSection}

theorem addPayloads_eq_value {n m : Nat} (hn : n ≤ maxUsize) : addPayloads n parts = .value m ↔
      m ≤ maxUsize ∧ m = n + payloadLength (parts.map (·.logical)) := by
  induction parts generalizing n with
  | nil =>
    rw [addPayloads, Fallible.value.injEq]
    constructor
    · rintro rfl
      exact ⟨hn, rfl⟩
    · rintro ⟨-, rfl⟩
      rfl
  | cons part parts ih =>
    rw [addPayloads, do_bind, bind_eq_value, List.map_cons, payloadLength_cons]
    constructor
    · rintro ⟨next, hnext, hrest⟩
      obtain ⟨hle, rfl⟩ := checkedAdd_eq_value.1 hnext
      obtain ⟨hm, rfl⟩ := (ih hle).1 hrest
      exact ⟨hm, Nat.add_assoc _ _ _⟩
    · rintro ⟨hm, rfl⟩
      have hpart : part.logical.2.length = part.payload.length := rfl
      have hle : n + part.payload.length ≤ maxUsize := by omega
      exact ⟨_, checkedAdd_eq_value.2 ⟨hle, rfl⟩, (ih hle).2 ⟨hm, by omega⟩⟩

theorem validateSectionsFrom_eq_value {ids : List UInt32} {u : Unit} :
    validateSectionsFrom ids parts = .value u ↔
      ((parts.map (·.logical)).map (·.1)).Nodup ∧ ∀ part ∈ parts.map (·.logical),
        part.1 ∉ ids ∧ part.2.length ≤ maxSectionLength := by
  induction parts generalizing ids with
  | nil => simp [validateSectionsFrom]
  | cons part parts ih =>
    simp only [validateSectionsFrom, do_bind, bind_eq_value, refuse_eq_value, ih, List.map_cons,
      List.nodup_cons, List.forall_mem_cons, not_lt]
    constructor
    · rintro ⟨_, hid, _, hlength, hnodup, hall⟩
      refine ⟨⟨fun hmem => ?_, hnodup⟩, ⟨hid, hlength⟩, fun other hother =>
        ⟨fun hseen => (hall other hother).1 (List.mem_cons_of_mem _ hseen),
          (hall other hother).2⟩⟩
      obtain ⟨other, hother, heq⟩ := List.mem_map.1 hmem
      apply (hall other hother).1
      rw [heq]
      exact List.mem_cons_self
    · rintro ⟨⟨hmem, hnodup⟩, ⟨hid, hlength⟩, hall⟩
      refine ⟨(), hid, (), hlength, hnodup, fun other hother =>
        ⟨fun hseen => ?_, (hall other hother).2⟩⟩
      rcases List.mem_cons.1 hseen with heq | hseen
      · exact hmem (List.mem_map.2 ⟨other, hother, heq⟩)
      · exact (hall other hother).1 hseen

theorem validateSections_eq_value {u : Unit} :
    validateSections parts = .value u ↔ parts.length ≤ maxSections ∧
      ((parts.map (·.logical)).map (·.1)).Nodup ∧
        ∀ part ∈ parts.map (·.logical), part.2.length ≤ maxSectionLength := by
  simp only [validateSections, do_bind, bind_eq_value, refuse_eq_value,
    validateSectionsFrom_eq_value, exists_and_left, exists_const, not_lt, List.not_mem_nil,
    not_false_eq_true, true_and]

theorem maxArtifactLength_le : maxArtifactLength ≤ maxUsize := by decide

variable {artifact : CompiledArtifact}

theorem encodedLengths_eq_value {lengths : Nat × Nat} :
    artifact.encodedLengths platform.target.length = .value lengths ↔
      Fits platform artifact.logical.2 ∧
        lengths = (headerLength platform artifact.sections.length,
          totalLength platform artifact.logical.2) := by
  have hmax := maxArtifactLength_le
  have hcount : artifact.logical.2.length = artifact.sections.length := List.length_map _
  simp only [CompiledArtifact.encodedLengths, do_bind, do_pure, bind_eq_value, refuse_eq_value,
    validateSections_eq_value, expectedHeaderLength_eq_value, checkedAdd_eq_value,
    addPayloads_eq_value (Nat.zero_le maxUsize), Fallible.value.injEq, not_lt]
  constructor
  · rintro ⟨_, htarget, _, ⟨hsections, hids, hpayloads⟩, _, ⟨-, rfl⟩, _, ⟨-, rfl⟩, _, ⟨-, rfl⟩, _,
      ⟨-, rfl⟩, _, htotal, rfl⟩
    rw [Nat.zero_add] at htotal ⊢
    refine ⟨⟨htarget, by rw [hcount]; exact hsections, hids, hpayloads, ?_⟩, ?_⟩
    · rw [totalLength, hcount]
      exact htotal
    · rw [totalLength, hcount]
      rfl
  · rintro ⟨hfits, rfl⟩
    have htotal := hfits.total
    rw [totalLength, hcount, headerLength] at htotal
    refine ⟨(), hfits.target, (), ⟨?_, hfits.ids, hfits.payloads⟩, _, ⟨?_, rfl⟩, _, ⟨?_, rfl⟩, _,
      ⟨?_, rfl⟩, _, ⟨?_, rfl⟩, (), ?_, ?_⟩
    · rw [← hcount]
      exact hfits.count
    · omega
    · have : payloadLength artifact.logical.2 ≤ maxUsize := by omega
      rw [Nat.zero_add]
      exact this
    · rw [Nat.zero_add]
      exact Nat.le_trans (Nat.le_add_right _ _) (Nat.le_trans htotal hmax)
    · rw [Nat.zero_add]
      exact Nat.le_trans htotal hmax
    · rw [Nat.zero_add]
      exact htotal
    · rw [totalLength, hcount, Nat.zero_add]
      rfl

/-! ## The image -/

section

variable (crc : Checksum) (platform : Platform) (project : Fingerprint)

/-- An entry of the table. -/
def entryImage (offset : Nat) (part : Part) : Bytes :=
  toLittleEndian 4 part.1.toNat ++ toLittleEndian 8 offset ++ toLittleEndian 8 part.2.length ++
    toLittleEndian 4 (crc part.2).toNat

def tableImage : Nat → List Part → Bytes
  | _, [] => []
  | offset, part :: parts => entryImage crc offset part ++ tableImage (offset + part.2.length) parts

def payloadImage (parts : List Part) : Bytes := (parts.map (·.2)).flatten

/-- The header without its checksum. -/
def headerImage (parts : List Part) : Bytes :=
  magic ++ toLittleEndian 2 artifactSchema ++ [platform.endian] ++ [platform.pointerWidth] ++
    toLittleEndian 2 platform.target.length ++ toLittleEndian 2 0 ++
    toLittleEndian 4 parts.length ++
    toLittleEndian 4 (headerLength platform parts.length) ++
    toLittleEndian 8 (totalLength platform parts) ++ project ++ platform.engineFingerprint ++
    platform.target ++ tableImage crc (headerLength platform parts.length) parts

def bodyImage (parts : List Part) : Bytes :=
  headerImage crc platform project parts ++
    toLittleEndian 4 (crc (headerImage crc platform project parts)).toNat ++ payloadImage parts

def image (parts : List Part) : Bytes :=
  bodyImage crc platform project parts ++ encodeFooter crc (totalLength platform parts)
    (crc (bodyImage crc platform project parts)).toNat

end

theorem length_entryImage (offset : Nat) (part : Part) :
    (entryImage crc offset part).length = sectionTableEntryLength := by
  simp only [entryImage, List.length_append, length_toLittleEndian]
  rfl

theorem length_tableImage (offset : Nat) (parts : List Part) :
    (tableImage crc offset parts).length = parts.length * sectionTableEntryLength := by
  induction parts generalizing offset with
  | nil => exact (Nat.zero_mul _).symm
  | cons part parts ih =>
    rw [tableImage, List.length_append, length_entryImage, ih, List.length_cons, Nat.succ_mul,
      Nat.add_comm]

theorem length_payloadImage (parts : List Part) :
    (payloadImage parts).length = payloadLength parts := by
  rw [payloadImage, List.length_flatten, List.map_map]
  rfl

theorem length_magic : magic.length = 16 := by decide

theorem length_commitMagic : commitMagic.length = 16 := by decide

theorem length_headerImage (project : Fingerprint) (parts : List Part) :
    (headerImage crc platform project parts).length = fixedHeaderLength + platform.target.length +
      parts.length * sectionTableEntryLength := by
  simp only [headerImage, List.length_append, length_toLittleEndian, length_tableImage,
    length_magic, project.2, platform.engineFingerprint.2, List.length_singleton]
  rfl

theorem length_bodyImage (project : Fingerprint) (parts : List Part) :
    (bodyImage crc platform project parts).length =
      headerLength platform parts.length + payloadLength parts := by
  rw [bodyImage, List.length_append, List.length_append, length_headerImage,
    length_toLittleEndian, length_payloadImage]
  rfl

theorem length_encodeFooter (total checksum : Nat) :
    (encodeFooter crc total checksum).length = footerLength := by
  simp only [encodeFooter, List.length_append, length_toLittleEndian, length_commitMagic]
  rfl

theorem length_image (crc : Checksum) (project : Fingerprint) (parts : List Part) :
    (image crc platform project parts).length = totalLength platform parts := by
  rw [image, List.length_append, length_bodyImage, length_encodeFooter]
  rfl

/-! ## The encoder -/

theorem pushTable_eq_value {n : Nat} (hn : n ≤ maxUsize) {table : Bytes} :
    pushTable crc n parts = .value table ↔
      n + payloadLength (parts.map (·.logical)) ≤ maxUsize ∧
        table = tableImage crc n (parts.map (·.logical)) := by
  induction parts generalizing n table with
  | nil =>
    rw [pushTable, Fallible.value.injEq]
    constructor
    · rintro rfl
      exact ⟨hn, rfl⟩
    · rintro ⟨-, rfl⟩
      rfl
  | cons part parts ih =>
    rw [pushTable, do_bind, bind_eq_value, List.map_cons, payloadLength_cons]
    simp only [do_bind, bind_eq_value]
    constructor
    · rintro ⟨next, hnext, more, hmore, htable⟩
      obtain ⟨hle, rfl⟩ := checkedAdd_eq_value.1 hnext
      obtain ⟨hm, rfl⟩ := (ih hle).1 hmore
      cases htable
      exact ⟨by rw [← Nat.add_assoc]; exact hm, rfl⟩
    · rintro ⟨hm, rfl⟩
      have hpart : part.logical.2.length = part.payload.length := rfl
      have hle : n + part.payload.length ≤ maxUsize := by omega
      exact ⟨_, checkedAdd_eq_value.2 ⟨hle, rfl⟩, _, (ih hle).2 ⟨by omega, rfl⟩, rfl⟩

theorem encodeHeader_eq_value {header : Bytes × Nat} :
    artifact.encodeHeader crc platform = .value header ↔ Fits platform artifact.logical.2 ∧
      header = (headerImage crc platform artifact.projectFingerprint artifact.logical.2 ++
        toLittleEndian 4 (crc (headerImage crc platform artifact.projectFingerprint
          artifact.logical.2)).toNat, totalLength platform artifact.logical.2) := by
  have hcount : artifact.logical.2.length = artifact.sections.length := List.length_map _
  have hmax := maxArtifactLength_le
  have himage : headerImage crc platform artifact.projectFingerprint artifact.logical.2 =
      fixedHeader platform artifact (headerLength platform artifact.sections.length)
        (totalLength platform artifact.logical.2) ++
      tableImage crc (headerLength platform artifact.sections.length) artifact.logical.2 := by
    rw [headerImage, hcount]
    rfl
  simp only [CompiledArtifact.encodeHeader, do_bind, do_pure, bind_eq_value,
    encodedLengths_eq_value, refuse_eq_value, Fallible.value.injEq]
  constructor
  · rintro ⟨_, ⟨hfits, rfl⟩, _, -, _, -, _, -, table, htable, rfl⟩
    have htotal := hfits.total
    rw [totalLength, hcount] at htotal
    obtain ⟨-, rfl⟩ := (pushTable_eq_value (by omega)).1 htable
    refine ⟨hfits, ?_⟩
    rw [himage]
    rfl
  · rintro ⟨hfits, rfl⟩
    have htotal := hfits.total
    rw [totalLength, hcount] at htotal
    have htarget := hfits.target
    have hsections := hfits.count
    rw [hcount] at hsections
    have hheader : headerLength platform artifact.sections.length < 2 ^ 32 := by
      have htable : sectionTableEntryLength = 24 := rfl
      have htargets : maxTargetLength = 255 := rfl
      have hcounts : maxSections = 1024 := rfl
      have hfixed : fixedHeaderLength + headerChecksumLength = 76 := rfl
      rw [headerLength, htable]
      omega
    have h1 : maxTargetLength < 2 ^ 16 := by decide
    have h2 : maxSections < 2 ^ 32 := by decide
    refine ⟨_, ⟨hfits, rfl⟩, (), by omega, (), by omega, (), by omega, _,
      (pushTable_eq_value (by omega)).2 ⟨?_, rfl⟩, ?_⟩
    · show headerLength platform artifact.sections.length + payloadLength artifact.logical.2 ≤ _
      omega
    · rw [himage]
      rfl

theorem foldl_payload (encoded : Bytes) (parts : List ArtifactSection) :
    parts.foldl (fun encoded part => encoded ++ part.payload) encoded =
      encoded ++ payloadImage (parts.map (·.logical)) := by
  induction parts generalizing encoded with
  | nil => exact (List.append_nil _).symm
  | cons part parts ih =>
    rw [List.foldl_cons, ih, List.append_assoc]
    rfl

/-- What fits, and only that, is encoded, as its image. -/
theorem encode_eq_value {bytes : Bytes} :
    artifact.encode crc platform = .value bytes ↔ Fits platform artifact.logical.2 ∧
      bytes = image crc platform artifact.projectFingerprint artifact.logical.2 := by
  simp only [CompiledArtifact.encode, do_bind, do_pure, bind_eq_value, encodeHeader_eq_value,
    foldl_payload, Fallible.value.injEq]
  constructor
  · rintro ⟨_, ⟨hfits, rfl⟩, rfl⟩
    exact ⟨hfits, rfl⟩
  · rintro ⟨hfits, rfl⟩
    exact ⟨_, ⟨hfits, rfl⟩, rfl⟩

/-! ## The image by offsets -/

/-- What lies where in an image. -/
structure Framed (crc : Checksum) (platform : Platform) (project : Fingerprint) (parts : List Part)
    (bytes : Bytes) (tableEnd footerStart : Nat) : Prop where
  start : At bytes 0 magic
  schema : At bytes 16 (toLittleEndian 2 artifactSchema)
  endian : At bytes 18 [platform.endian]
  pointerWidth : At bytes 19 [platform.pointerWidth]
  targetLength : At bytes 20 (toLittleEndian 2 platform.target.length)
  reserved : At bytes 22 (toLittleEndian 2 0)
  count : At bytes 24 (toLittleEndian 4 parts.length)
  header : At bytes 28 (toLittleEndian 4 (headerLength platform parts.length))
  total : At bytes 32 (toLittleEndian 8 (totalLength platform parts))
  project : At bytes 40 project
  engine : At bytes 56 platform.engineFingerprint
  target : At bytes fixedHeaderLength platform.target
  table : At bytes (fixedHeaderLength + platform.target.length)
    (tableImage crc (headerLength platform parts.length) parts)
  headerChecksum : At bytes tableEnd (toLittleEndian 4 (crc (bytes.take tableEnd)).toNat)
  payloads : At bytes (headerLength platform parts.length) (payloadImage parts)
  commit : At bytes footerStart commitMagic
  bodyChecksum : At bytes (footerStart + 16) (toLittleEndian 4 (crc (bytes.take footerStart)).toNat)
  footerTotal : At bytes (footerStart + 20) (toLittleEndian 8 (totalLength platform parts))
  footerChecksum : At bytes (footerStart + 28)
    (toLittleEndian 4 (crc ((bytes.drop footerStart).take 28)).toNat)

theorem at_headerImage {bytes : Bytes} {project : Fingerprint} {parts : List Part} :
    At bytes 0 (headerImage crc platform project parts) ↔
      At bytes 0 magic ∧ At bytes 16 (toLittleEndian 2 artifactSchema) ∧
      At bytes 18 [platform.endian] ∧ At bytes 19 [platform.pointerWidth] ∧
      At bytes 20 (toLittleEndian 2 platform.target.length) ∧ At bytes 22 (toLittleEndian 2 0) ∧
      At bytes 24 (toLittleEndian 4 parts.length) ∧
      At bytes 28 (toLittleEndian 4 (headerLength platform parts.length)) ∧
      At bytes 32 (toLittleEndian 8 (totalLength platform parts)) ∧ At bytes 40 project ∧
      At bytes 56 platform.engineFingerprint ∧ At bytes fixedHeaderLength platform.target ∧
      At bytes (fixedHeaderLength + platform.target.length)
        (tableImage crc (headerLength platform parts.length) parts) := by
  have hproject := project.2
  have hengine := platform.engineFingerprint.2
  have hfixed : fixedHeaderLength = 72 := rfl
  simp only [headerImage, at_append, List.length_append, length_toLittleEndian, length_magic,
    List.length_singleton, hproject, hengine, Nat.zero_add, Nat.reduceAdd, and_assoc, hfixed]

/-- The table ends where the header checksum lies, the payloads where the footer lies. -/
def tableEnd (platform : Platform) (count : Nat) : Nat :=
  fixedHeaderLength + platform.target.length + count * sectionTableEntryLength

def footerStart (platform : Platform) (parts : List Part) : Nat :=
  headerLength platform parts.length + payloadLength parts

section

variable {bytes : Bytes} {project : Fingerprint} {parts : List Part}

theorem at_bodyImage : At bytes 0 (bodyImage crc platform project parts) ↔
    At bytes 0 (headerImage crc platform project parts) ∧
      At bytes (tableEnd platform parts.length)
        (toLittleEndian 4 (crc (bytes.take (tableEnd platform parts.length))).toNat) ∧
      At bytes (headerLength platform parts.length) (payloadImage parts) := by
  rw [bodyImage, at_append, at_append, List.length_append, length_headerImage,
    length_toLittleEndian, Nat.zero_add, Nat.zero_add, and_assoc]
  refine and_congr_right fun hheader => ?_
  have htake := hheader.take
  rw [List.drop_zero, length_headerImage] at htake
  rw [tableEnd, htake]
  rfl

theorem at_footer {start total : Nat} : At bytes start (encodeFooter crc total
      (crc (bytes.take start)).toNat) ↔ At bytes start commitMagic ∧
    At bytes (start + 16) (toLittleEndian 4 (crc (bytes.take start)).toNat) ∧
    At bytes (start + 20) (toLittleEndian 8 total) ∧
    At bytes (start + 28) (toLittleEndian 4 (crc ((bytes.drop start).take 28)).toNat) := by
  have hlength (checksum : Nat) : (commitMagic ++ toLittleEndian 4 checksum ++
      toLittleEndian 8 total).length = 28 := by
    simp only [List.length_append, length_toLittleEndian, length_commitMagic]
  rw [encodeFooter, at_append, hlength]
  constructor
  · rintro ⟨hfooter, hchecksum⟩
    have htake := hfooter.take
    rw [hlength] at htake
    rw [htake]
    rw [at_append, at_append, List.length_append, length_commitMagic, length_toLittleEndian]
      at hfooter
    exact ⟨hfooter.1.1, hfooter.1.2, hfooter.2, hchecksum⟩
  · rintro ⟨hcommit, hbody, htotal, hchecksum⟩
    have hfooter : At bytes start (commitMagic ++
        toLittleEndian 4 (crc (bytes.take start)).toNat ++ toLittleEndian 8 total) := by
      rw [at_append, at_append, List.length_append, length_commitMagic, length_toLittleEndian]
      exact ⟨⟨hcommit, hbody⟩, htotal⟩
    have htake := hfooter.take
    rw [hlength] at htake
    rw [htake] at hchecksum
    exact ⟨hfooter, hchecksum⟩

/-- Bytes of the length of an image are the image if its pieces lie at their offsets. -/
theorem eq_image_iff (hlength : bytes.length = totalLength platform parts) :
    bytes = image crc platform project parts ↔ Framed crc platform project parts bytes
      (tableEnd platform parts.length) (footerStart platform parts) := by
  have himage : bytes.length = (image crc platform project parts).length := by
    rw [hlength, length_image]
  rw [← at_zero himage, image, at_append, length_bodyImage, Nat.zero_add]
  have hbody (h : At bytes 0 (bodyImage crc platform project parts)) :
      bytes.take (footerStart platform parts) = bodyImage crc platform project parts := by
    have htake := h.take
    rwa [List.drop_zero, length_bodyImage] at htake
  constructor
  · rintro ⟨h, hfooter⟩
    rw [← hbody h] at hfooter
    obtain ⟨hcommit, hchecksum, htotal, hfooterChecksum⟩ := at_footer.1 hfooter
    obtain ⟨hheader, hheaderChecksum, hpayloads⟩ := at_bodyImage.1 h
    obtain ⟨h1, h2, h3, h4, h5, h6, h7, h8, h9, h10, h11, h12, h13⟩ := at_headerImage.1 hheader
    exact ⟨h1, h2, h3, h4, h5, h6, h7, h8, h9, h10, h11, h12, h13, hheaderChecksum, hpayloads,
      hcommit, hchecksum, htotal, hfooterChecksum⟩
  · rintro ⟨h1, h2, h3, h4, h5, h6, h7, h8, h9, h10, h11, h12, h13, hheaderChecksum, hpayloads,
      hcommit, hchecksum, htotal, hfooterChecksum⟩
    have h := at_bodyImage.2 ⟨at_headerImage.2 ⟨h1, h2, h3, h4, h5, h6, h7, h8, h9, h10, h11, h12,
      h13⟩, hheaderChecksum, hpayloads⟩
    refine ⟨h, ?_⟩
    rw [← hbody h]
    exact at_footer.2 ⟨hcommit, hchecksum, htotal, hfooterChecksum⟩

end

end Dream64.Lifecycle
