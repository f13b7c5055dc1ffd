import Dream64.Lifecycle.ArtifactDecode

/-!
# The envelope as a whole

No bytes make validation panic or overflow. The streaming writer puts the same
bytes into the file as the encoder returns, and the decoders differ only in
where they keep the payloads. `artifact_bijection` puts this together.
-/

namespace Dream64.Lifecycle

open Codec (Bytes)
open Fallible (do_bind do_pure bind_eq_value refuse_eq_value Spares)

variable {crc : Checksum} {platform : Platform} {bytes : Bytes}

/-! ## No overflow -/

theorem spares_refuse {p : Prop} [Decidable p] {e : ArtifactError} (h : e ≠ .lengthOverflow) :
    (Fallible.refuse p e).Spares .lengthOverflow :=
  Spares.refuse h

theorem spares_addUsize {a b : Nat} (h : a + b ≤ maxUsize) :
    (addUsize a b).Spares .lengthOverflow := by
  rw [addUsize_eq_value.2 ⟨h, rfl⟩]
  exact .value _

theorem spares_subUsize {a b : Nat} (h : b ≤ a) : (subUsize a b).Spares .lengthOverflow := by
  rw [subUsize_eq_value.2 ⟨h, rfl⟩]
  exact .value _

theorem spares_checkedAdd {a b : Nat} (h : a + b ≤ maxUsize) :
    (checkedAdd a b).Spares .lengthOverflow := by
  rw [checkedAdd_eq_value.2 ⟨h, rfl⟩]
  exact .value _

theorem spares_checkedMul {a b : Nat} (h : a * b ≤ maxUsize) :
    (checkedMul a b).Spares .lengthOverflow := by
  rw [checkedMul_eq_value.2 ⟨h, rfl⟩]
  exact .value _

theorem spares_slice {start stop : Nat} (hle : start ≤ stop) (hlength : stop ≤ bytes.length) :
    (Codec.slice bytes start stop : Outcome Bytes).Spares .lengthOverflow := by
  rw [Codec.slice_of_le hle hlength]
  exact .value _

theorem spares_indexByte {offset : Nat} (h : offset < bytes.length) :
    (indexByte bytes offset).Spares .lengthOverflow := by
  rw [indexByte, List.getElem?_eq_getElem h]
  exact .value _

theorem spares_readNumber {offset count : Nat} (h : offset + count ≤ maxUsize) (reason : String) :
    (readNumber bytes offset count reason).Spares .lengthOverflow :=
  (spares_addUsize h).bind fun _ _ => .orError (by simp) _

theorem spares_array16 {offset : Nat} (h : offset + 16 ≤ maxUsize) :
    (array16 bytes offset).Spares .lengthOverflow := by
  refine (spares_addUsize h).bind fun stop _ => (Spares.orError (by simp) _).bind fun encoded _ => ?_
  split_ifs
  · exact .value _
  · exact .error (by simp)

theorem spares_expectedHeaderLength {targetLength count : Nat} (htarget : targetLength ≤ maxTargetLength)
    (hcount : count ≤ maxSections) :
    (expectedHeaderLength targetLength count).Spares .lengthOverflow := by
  have hbound : fixedHeaderLength + targetLength + count * sectionTableEntryLength +
      headerChecksumLength ≤ maxUsize := by
    have hmul := Nat.mul_le_mul_right sectionTableEntryLength hcount
    have hlimit : fixedHeaderLength + maxTargetLength + maxSections * sectionTableEntryLength +
        headerChecksumLength ≤ maxUsize := by decide
    omega
  rw [expectedHeaderLength_eq_value.2 ⟨hbound, rfl⟩]
  exact .value _

theorem spares_readHeader : (readHeader bytes).Spares .lengthOverflow := by
  refine (spares_refuse (by simp)).bind fun _ _ => (spares_refuse (by simp)).bind fun _ hmin => ?_
  have hlength : 108 ≤ bytes.length := Nat.not_lt.1 (refuse_eq_value.1 hmin)
  refine (spares_slice (Nat.zero_le _) (by rw [length_magic]; omega)).bind fun _ _ => ?_
  refine (spares_refuse (by simp)).bind fun _ _ => ?_
  refine (spares_readNumber (by decide) _).bind fun _ _ => (spares_refuse (by simp)).bind fun _ _ => ?_
  refine (spares_indexByte (by omega)).bind fun _ _ => (spares_indexByte (by omega)).bind fun _ _ => ?_
  refine (spares_readNumber (by decide) _).bind fun target _ =>
    (spares_refuse (by simp)).bind fun _ htarget => ?_
  refine (spares_readNumber (by decide) _).bind fun _ _ => (spares_refuse (by simp)).bind fun _ _ => ?_
  refine (spares_readNumber (by decide) _).bind fun count _ =>
    (spares_refuse (by simp)).bind fun _ hcount => ?_
  refine (spares_readNumber (by decide) _).bind fun _ _ =>
    (spares_readNumber (by decide) _).bind fun _ _ => ?_
  refine (spares_refuse (by simp)).bind fun _ _ => (spares_refuse (by simp)).bind fun _ _ =>
    (spares_refuse (by simp)).bind fun _ _ => ?_
  refine (spares_expectedHeaderLength (Nat.not_lt.1 (refuse_eq_value.1 htarget))
    (Nat.not_lt.1 (refuse_eq_value.1 hcount))).bind fun _ _ => ?_
  refine (spares_refuse (by simp)).bind fun _ _ => ?_
  refine (spares_subUsize (by show 32 ≤ _; omega)).bind fun _ _ => ?_
  exact (spares_refuse (by simp)).bind fun _ _ => .value _

theorem spares_checkHeaderChecksum (hlength : bytes.length ≤ maxUsize) {length : Nat}
    (hfour : headerChecksumLength ≤ length) (hle : length ≤ bytes.length) :
    (checkHeaderChecksum crc bytes length).Spares .lengthOverflow := by
  have hchecksum : headerChecksumLength = 4 := rfl
  refine (spares_subUsize hfour).bind fun offset hoffset => ?_
  obtain ⟨-, rfl⟩ := subUsize_eq_value.1 hoffset
  refine (spares_readNumber (by omega) _).bind fun _ _ => ?_
  refine (spares_slice (Nat.zero_le _) (by omega)).bind fun _ _ => ?_
  exact spares_refuse (by simp)

theorem spares_checkIdentity {header : Header} (htarget : header.targetLength ≤ maxTargetLength)
    (expected : Fingerprint) :
    (checkIdentity platform bytes header expected).Spares .lengthOverflow := by
  have hend : fixedHeaderLength + header.targetLength ≤ maxUsize := by
    have hlimit : fixedHeaderLength + maxTargetLength ≤ maxUsize := by decide
    omega
  refine (spares_array16 (by decide)).bind fun _ _ => (spares_refuse (by simp)).bind fun _ _ => ?_
  refine (spares_array16 (by decide)).bind fun _ _ => (spares_refuse (by simp)).bind fun _ _ => ?_
  refine (spares_refuse (by simp)).bind fun _ _ => (spares_refuse (by simp)).bind fun _ _ => ?_
  refine (spares_checkedAdd hend).bind fun _ _ => (Spares.orError (by simp) _).bind fun _ _ => ?_
  exact (spares_refuse (by simp)).bind fun _ _ => .value _

theorem spares_checkFooter (hlength : bytes.length ≤ maxUsize) {start : Nat}
    (hstart : start + footerLength = bytes.length) (declared : Nat) :
    (checkFooter crc bytes start declared).Spares .lengthOverflow := by
  have hfooter : footerLength = 32 := rfl
  have hcommit := length_commitMagic
  refine (spares_addUsize (by omega)).bind fun stop hstop => ?_
  obtain ⟨-, rfl⟩ := addUsize_eq_value.1 hstop
  refine (spares_slice (by omega) (by omega)).bind fun _ _ => (spares_refuse (by simp)).bind fun _ _ => ?_
  refine (spares_addUsize (by omega)).bind fun body hbody => ?_
  obtain ⟨-, rfl⟩ := addUsize_eq_value.1 hbody
  refine (spares_readNumber (by omega) _).bind fun _ _ => ?_
  refine (spares_addUsize (by omega)).bind fun total htotal => ?_
  obtain ⟨-, rfl⟩ := addUsize_eq_value.1 htotal
  refine (spares_readNumber (by omega) _).bind fun _ _ => (spares_refuse (by simp)).bind fun _ _ => ?_
  refine (spares_addUsize (by omega)).bind fun footer hfooterEnd => ?_
  obtain ⟨-, rfl⟩ := addUsize_eq_value.1 hfooterEnd
  refine (spares_readNumber (by omega) _).bind fun _ _ => ?_
  refine (spares_slice (by omega) (by omega)).bind fun _ _ => (spares_refuse (by simp)).bind fun _ _ => ?_
  refine (spares_slice (Nat.zero_le _) (by omega)).bind fun _ _ => ?_
  exact spares_refuse (by simp)

theorem spares_readEntry (hlength : bytes.length ≤ maxArtifactLength)
    {entry footerStart expectedOffset : Nat} (hentry : entry + sectionTableEntryLength ≤ maxUsize)
    (hfooter : footerStart ≤ bytes.length) (hoffset : expectedOffset ≤ footerStart)
    (seen : List UInt32) :
    (readEntry bytes entry footerStart expectedOffset seen).Spares .lengthOverflow := by
  have hsize : sectionTableEntryLength = 24 := rfl
  have hlimit : maxArtifactLength + maxSectionLength ≤ maxUsize := by decide
  refine (spares_readNumber (by omega) _).bind fun _ _ => (spares_refuse (by simp)).bind fun _ _ => ?_
  refine (spares_addUsize (by omega)).bind fun field hfield => ?_
  obtain ⟨-, rfl⟩ := addUsize_eq_value.1 hfield
  refine (spares_readNumber (by omega) _).bind fun offset _ => ?_
  refine (spares_addUsize (by omega)).bind fun field hfield => ?_
  obtain ⟨-, rfl⟩ := addUsize_eq_value.1 hfield
  refine (spares_readNumber (by omega) _).bind fun length _ => ?_
  refine (spares_refuse (by simp)).bind fun _ hbound => (spares_refuse (by simp)).bind fun _ hsame => ?_
  have hpayload := Nat.not_lt.1 (refuse_eq_value.1 hbound)
  have heq : offset = expectedOffset := not_not.1 (refuse_eq_value.1 hsame)
  refine (spares_checkedAdd (by omega)).bind fun stop hstop => ?_
  obtain ⟨-, rfl⟩ := checkedAdd_eq_value.1 hstop
  refine (spares_refuse (by simp)).bind fun _ hinside => ?_
  have hle := Nat.not_lt.1 (refuse_eq_value.1 hinside)
  refine (spares_addUsize (by omega)).bind fun field hfield => ?_
  obtain ⟨-, rfl⟩ := addUsize_eq_value.1 hfield
  refine (spares_readNumber (by omega) _).bind fun _ _ => ?_
  rw [dif_pos (by omega)]
  exact .value _

theorem spares_readTable (hlength : bytes.length ≤ maxArtifactLength)
    {tableStart footerStart count index expectedOffset : Nat}
    (htable : tableStart + (index + count) * sectionTableEntryLength ≤ maxUsize)
    (hfooter : footerStart ≤ bytes.length) (hoffset : expectedOffset ≤ footerStart)
    (seen : List UInt32) : (readTable bytes tableStart footerStart count index expectedOffset
      seen).Spares .lengthOverflow := by
  induction count generalizing index expectedOffset seen with
  | zero => exact .value _
  | succ count ih =>
    have hsize : sectionTableEntryLength = 24 := rfl
    have hindex : index * sectionTableEntryLength = index * 24 := rfl
    rw [hsize] at htable
    refine (spares_checkedMul (by omega)).bind fun step hstep => ?_
    obtain ⟨-, rfl⟩ := checkedMul_eq_value.1 hstep
    refine (spares_checkedAdd (by omega)).bind fun entry hentry => ?_
    obtain ⟨-, rfl⟩ := checkedAdd_eq_value.1 hentry
    refine (spares_readEntry hlength (by omega) hfooter hoffset seen).bind fun encoded hencoded => ?_
    have hstop := ((readEntry_eq_value hlength hfooter).1 hencoded).2.2.2.1
    exact (ih (by rw [hsize]; omega) hstop _).bind fun _ _ => .value _

theorem spares_checkPayloads (hlength : bytes.length ≤ maxUsize)
    (sections : List (EncodedSection bytes)) :
    (checkPayloads crc sections).Spares .lengthOverflow := by
  induction sections with
  | nil => exact .value _
  | cons encoded sections ih =>
    rw [checkPayloads, encoded.copy_eq hlength]
    exact (Spares.value _).bind fun _ _ => (spares_refuse (by simp)).bind fun _ _ => ih

/-- Validation of any bytes neither panics nor overflows. -/
theorem spares_validateArtifact (expected : Fingerprint) :
    (validateArtifact crc platform bytes expected).Spares .lengthOverflow := by
  refine spares_readHeader.bind fun header hread => ?_
  have hheader := readHeader_eq_value.1 hread
  have hmax := maxArtifactLength_le
  have hbound := hheader.bound
  have hinside := hheader.inside
  have hsize := hheader.headerLength
  have htarget := hheader.targetBound
  have hcount := hheader.countBound
  have husize : bytes.length ≤ maxUsize := by omega
  refine (spares_checkHeaderChecksum husize (by omega) (by omega)).bind fun _ _ => ?_
  refine (spares_checkIdentity htarget expected).bind fun targetEnd hidentity => ?_
  obtain ⟨-, -, -, -, rfl, -, -⟩ := (checkIdentity_eq_value husize (by omega)).1 hidentity
  refine (spares_subUsize (by omega)).bind fun footer hfooter => ?_
  obtain ⟨-, rfl⟩ := subUsize_eq_value.1 hfooter
  refine (spares_checkFooter husize (by omega) _).bind fun _ _ => ?_
  have htable : fixedHeaderLength + header.targetLength +
      (0 + header.sectionCount) * sectionTableEntryLength ≤ maxUsize := by
    rw [Nat.zero_add]
    omega
  refine (spares_readTable hbound htable (Nat.sub_le _ _) (by omega) []).bind fun table _ => ?_
  refine (spares_refuse (by simp)).bind fun _ _ => ?_
  exact (spares_checkPayloads husize _).bind fun _ _ => .value _

/-! ## Streaming -/

theorem attempt_eq_value {faults : Faults} {index : Nat} {operation : String} {u : Unit} :
    attempt faults index operation = .value u ↔ faults index = none := by
  rw [attempt]
  cases faults index with
  | none => simp
  | some source => simp

theorem writePayloads_eq_value {faults : Faults} {index : Nat} {file : Bytes} {hasher : Hasher}
    {parts : List ArtifactSection} {written : Bytes × Hasher} :
    writePayloads faults index file hasher parts = .value written ↔
      (∀ i < parts.length, faults (index + i) = none) ∧
        written = (file ++ payloadImage (parts.map (·.logical)),
          hasher.update (payloadImage (parts.map (·.logical)))) := by
  induction parts generalizing index file hasher with
  | nil =>
    rw [writePayloads, Fallible.value.injEq]
    simp only [List.length_nil, Nat.not_lt_zero, false_imp_iff, implies_true, true_and,
      List.map_nil, payloadImage, List.flatten_nil, Hasher.update, List.append_nil]
    exact eq_comm
  | cons part parts ih =>
    rw [writePayloads, do_bind, bind_eq_value]
    simp only [attempt_eq_value, ih, exists_const, Hasher.update, List.append_assoc]
    constructor
    · rintro ⟨hfault, hfaults, rfl⟩
      refine ⟨fun i hi => ?_, rfl⟩
      cases i with
      | zero => exact hfault
      | succ i =>
        have := hfaults i (Nat.lt_of_succ_lt_succ hi)
        rwa [Nat.succ_add_eq_add_succ] at this
    · rintro ⟨hfaults, rfl⟩
      refine ⟨hfaults 0 (Nat.succ_pos _), fun i hi => ?_, rfl⟩
      rw [Nat.succ_add_eq_add_succ]
      exact hfaults (i + 1) (Nat.succ_lt_succ hi)

/-- The writer installs what the encoder returns, if no operation on a file fails. -/
theorem writeAtomicWithStats_eq_value {artifact : CompiledArtifact} {faults : Faults}
    {installed : Bytes × ArtifactWriteStats} :
    artifact.writeAtomicWithStats crc platform faults = .value installed ↔
      artifact.encode crc platform = .value installed.1 ∧
      (∀ i < artifact.sections.length + 6, faults i = none) ∧
      installed.2 = ⟨installed.1.length, payloadLength artifact.logical.2,
        artifact.sections.length + 2⟩ := by
  have hmax := maxArtifactLength_le
  obtain ⟨file, stats⟩ := installed
  simp only [CompiledArtifact.writeAtomicWithStats, do_bind, do_pure, bind_eq_value,
    encodeHeader_eq_value, addPayloads_eq_value (Nat.zero_le maxUsize), attempt_eq_value,
    writePayloads_eq_value, encode_eq_value, exists_const, Fallible.value.injEq, Prod.mk.injEq,
    Nat.zero_add]
  constructor
  · rintro ⟨_, ⟨hfits, rfl⟩, _, ⟨-, rfl⟩, h0, h1, h2, _, ⟨hfaults, rfl⟩, h3, h4, h5, rfl, rfl⟩
    refine ⟨⟨hfits, rfl⟩, fun i hi => ?_, ?_⟩
    · rcases Nat.lt_or_ge i 3 with hlt | hge
      · have hcases : i = 0 ∨ i = 1 ∨ i = 2 := by omega
        rcases hcases with rfl | rfl | rfl
        · exact h0
        · exact h1
        · exact h2
      · rcases Nat.lt_or_ge i (artifact.sections.length + 3) with hlt | hge'
        · have := hfaults (i - 3) (by omega)
          rwa [Nat.add_sub_cancel' hge] at this
        · have hcases : i = artifact.sections.length + 3 ∨ i = artifact.sections.length + 4 ∨
              i = artifact.sections.length + 5 := by omega
          rcases hcases with rfl | rfl | rfl
          · exact h3
          · exact h4
          · exact h5
    · have himage := @length_image platform crc artifact.projectFingerprint artifact.logical.2
      rw [ArtifactWriteStats.mk.injEq]
      exact ⟨himage.symm, rfl, rfl⟩
  · rintro ⟨⟨hfits, rfl⟩, hfaults, rfl⟩
    have htotal := hfits.total
    rw [totalLength] at htotal
    refine ⟨_, ⟨hfits, rfl⟩, _, ⟨?_, rfl⟩, hfaults 0 (by omega), hfaults 1 (by omega),
      hfaults 2 (by omega), _, ⟨fun i hi => hfaults (3 + i) (by omega), rfl⟩, hfaults _ (by omega),
      hfaults _ (by omega), hfaults _ (by omega), rfl, ?_⟩
    · show payloadLength artifact.logical.2 ≤ maxUsize
      omega
    · rw [ArtifactWriteStats.mk.injEq, length_image]
      exact ⟨rfl, rfl, rfl⟩

/-! ## Decoding -/

theorem decodeArtifact_eq_value {expected : Fingerprint} {artifact : CompiledArtifact} :
    decodeArtifact crc platform bytes expected = .value artifact ↔ ∃ sections,
      validateArtifact crc platform bytes expected = .value sections ∧
        artifact = ⟨expected, sections.map fun encoded => ⟨encoded.id, .owned encoded.part.2⟩⟩ := by
  simp only [decodeArtifact, do_bind, do_pure, bind_eq_value, Fallible.value.injEq]
  constructor
  · rintro ⟨sections, hsections, copied, hcopied, rfl⟩
    refine ⟨sections, hsections, ?_⟩
    have hfits := image_of_validateArtifact hsections
    have hmax := maxArtifactLength_le
    have htotal := hfits.1.total
    rw [← length_image crc expected, ← hfits.2] at htotal
    rw [copySections_eq (by omega)] at hcopied
    cases hcopied
    rfl
  · rintro ⟨sections, hsections, rfl⟩
    have hfits := image_of_validateArtifact hsections
    have hmax := maxArtifactLength_le
    have htotal := hfits.1.total
    rw [← length_image crc expected, ← hfits.2] at htotal
    exact ⟨sections, hsections, _, copySections_eq (by omega) sections, rfl⟩

/-- The payloads of the copying decoder, kept in a backing. -/
theorem logical_kept (sections : List (EncodedSection bytes)) (expected : Fingerprint)
    (keep : EncodedSection bytes → ArtifactSection)
    (hkeep : ∀ encoded, (keep encoded).logical = encoded.part) :
    (⟨expected, sections.map keep⟩ : CompiledArtifact).logical =
      (expected, sections.map (·.part)) := by
  rw [CompiledArtifact.logical, List.map_map]
  exact congrArg (Prod.mk expected) (List.map_congr_left fun encoded _ => hkeep encoded)

theorem map_decodeArtifact (expected : Fingerprint) :
    (decodeArtifact crc platform bytes expected).map (·.logical) =
      (validateArtifact crc platform bytes expected).map fun sections =>
        (expected, sections.map (·.part)) := by
  cases hvalidate : validateArtifact crc platform bytes expected with
  | value sections =>
    rw [decodeArtifact_eq_value.2 ⟨sections, hvalidate, rfl⟩]
    rw [Fallible.map_value, Fallible.map_value, logical_kept sections expected _ fun _ => rfl]
  | error e =>
    rw [decodeArtifact, hvalidate]
    rfl
  | panic =>
    rw [decodeArtifact, hvalidate]
    rfl

/-- A decoder that keeps the payloads in the bytes has the same sections. -/
theorem map_kept (expected : Fingerprint) {decode : Outcome CompiledArtifact}
    (keep : EncodedSection bytes → ArtifactSection)
    (hkeep : ∀ encoded, (keep encoded).logical = encoded.part)
    (hdecode : decode = (validateArtifact crc platform bytes expected).bind fun sections =>
      .value ⟨expected, sections.map keep⟩) :
    decode.map (·.logical) = (decodeArtifact crc platform bytes expected).map (·.logical) := by
  rw [map_decodeArtifact, hdecode]
  cases validateArtifact crc platform bytes expected with
  | value sections =>
    rw [Fallible.value_bind, Fallible.map_value, Fallible.map_value,
      logical_kept sections expected keep hkeep]
  | error e => rfl
  | panic => rfl

/-- What encodes is decoded with the same sections, what is accepted is what its result encodes to,
the decoders and the writers agree, and validation neither panics nor overflows. -/
theorem artifact_bijection (crc : Checksum) (platform : Platform) :
    (∀ (artifact : CompiledArtifact) bytes, artifact.encode crc platform = .value bytes → ∃ decoded,
      decodeArtifact crc platform bytes artifact.projectFingerprint = .value decoded ∧
        decoded.logical = artifact.logical) ∧
    (∀ bytes expected artifact, decodeArtifact crc platform bytes expected = .value artifact →
      artifact.projectFingerprint = expected ∧ artifact.encode crc platform = .value bytes) ∧
    (∀ bytes expected,
      (decodeOwnedArtifact crc platform bytes expected).map (·.logical) =
        (decodeArtifact crc platform bytes expected).map (·.logical) ∧
      (decodeMappedArtifact crc platform bytes expected).map (·.logical) =
        (decodeArtifact crc platform bytes expected).map (·.logical)) ∧
    (∀ (artifact : CompiledArtifact) (faults : Faults) (installed : Bytes × ArtifactWriteStats),
      artifact.writeAtomicWithStats crc platform faults = .value installed ↔
        artifact.encode crc platform = .value installed.1 ∧
        (∀ i < artifact.sections.length + 6, faults i = none) ∧
        installed.2 = ⟨installed.1.length, payloadLength artifact.logical.2,
          artifact.sections.length + 2⟩) ∧
    ∀ bytes expected, (validateArtifact crc platform bytes expected).Spares .lengthOverflow ∧
      decodeArtifact crc platform bytes expected ≠ .panic := by
  refine ⟨fun artifact bytes hencode => ?_, fun bytes expected artifact hdecode => ?_,
    fun bytes expected => ⟨map_kept expected _ (fun _ => rfl) rfl,
      map_kept expected _ (fun _ => rfl) rfl⟩,
    fun artifact faults installed => writeAtomicWithStats_eq_value,
    fun bytes expected => ⟨spares_validateArtifact expected, fun hpanic => ?_⟩⟩
  · obtain ⟨hfits, rfl⟩ := encode_eq_value.1 hencode
    obtain ⟨sections, hsections, hparts⟩ :=
      validateArtifact_image crc artifact.projectFingerprint hfits
    refine ⟨_, decodeArtifact_eq_value.2 ⟨sections, hsections, rfl⟩, ?_⟩
    rw [logical_kept sections _ _ fun _ => rfl, hparts]
    rfl
  · obtain ⟨sections, hsections, rfl⟩ := decodeArtifact_eq_value.1 hdecode
    obtain ⟨hfits, hbytes⟩ := image_of_validateArtifact hsections
    refine ⟨rfl, encode_eq_value.2 ?_⟩
    rw [logical_kept sections _ _ fun _ => rfl]
    exact ⟨hfits, hbytes⟩
  · have hmap := @map_decodeArtifact crc platform bytes expected
    rw [hpanic] at hmap
    cases hvalidate : validateArtifact crc platform bytes expected with
    | value sections =>
      rw [hvalidate] at hmap
      cases hmap
    | error e =>
      rw [hvalidate] at hmap
      cases hmap
    | panic => exact (spares_validateArtifact expected).1 hvalidate

/-! ## Two sections -/

/-- A section in memory, and one out of the middle of a mapped file. -/
def twoSections : CompiledArtifact where
  projectFingerprint := ⟨List.replicate 16 7, rfl⟩
  sections := [⟨1, .owned [1, 2]⟩, ⟨9, .mapped [0, 3, 4, 5, 0] 1 3 (by decide)⟩]

def plainPlatform : Platform := ⟨1, 64, [120, 56, 54], ⟨List.replicate 16 5, rfl⟩⟩

def byteSum : Checksum := fun bytes => (bytes.map (·.toUInt32)).sum

theorem twoSections_roundTrips : ∃ bytes decoded,
    twoSections.encode byteSum plainPlatform = .value bytes ∧
      decodeArtifact byteSum plainPlatform bytes twoSections.projectFingerprint = .value decoded ∧
      decoded.logical = twoSections.logical := by
  obtain ⟨hdecodes, -⟩ := artifact_bijection byteSum plainPlatform
  obtain ⟨decoded, hdecode, hlogical⟩ := hdecodes twoSections _ rfl
  exact ⟨_, decoded, rfl, hdecode, hlogical⟩

end Dream64.Lifecycle
