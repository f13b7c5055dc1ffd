import Dream64.Lifecycle.ArtifactImage

/-!
# Decoding artifacts

Validation accepts the images of what fits, and no other bytes, and finds the
sections where the image has them; it neither indexes out of range nor
overflows. With `encode_eq_value` this makes the envelope a bijection
(`artifact_bijection`).
-/

namespace Dream64.Lifecycle

open Codec (Bytes toLittleEndian At at_append at_iff at_nil length_toLittleEndian)
open Fallible (do_bind do_pure bind_eq_value refuse_eq_value orError_eq_value)

variable {crc : Checksum} {platform : Platform} {bytes : Bytes}

/-! ## Fields -/

theorem addUsize_eq_value {a b c : Nat} : addUsize a b = .value c ↔ a + b ≤ maxUsize ∧ c = a + b := by
  rw [addUsize]
  split_ifs with h
  · simp [h, eq_comm]
  · simp [h]

theorem subUsize_eq_value {a b c : Nat} : subUsize a b = .value c ↔ b ≤ a ∧ c = a - b := by
  rw [subUsize]
  split_ifs with h
  · simp [h, eq_comm]
  · simp [h]

theorem readNumber_eq_value (hlength : bytes.length ≤ maxUsize) {offset count n : Nat}
    (hcount : 0 < count) {reason : String} : readNumber bytes offset count reason = .value n ↔
      n < 256 ^ count ∧ At bytes offset (toLittleEndian count n) := by
  simp only [readNumber, do_bind, bind_eq_value, addUsize_eq_value, orError_eq_value,
    Codec.getNumber_eq_some hcount]
  constructor
  · rintro ⟨_, -, h⟩
    exact h
  · rintro ⟨hn, h⟩
    have hle := ((at_iff (length_toLittleEndian count n) hcount).1 h).1
    exact ⟨_, ⟨by omega, rfl⟩, hn, h⟩

theorem indexByte_eq_value {offset : Nat} {byte : UInt8} :
    indexByte bytes offset = .value byte ↔ At bytes offset [byte] := by
  rw [indexByte, at_iff (List.length_singleton) Nat.one_pos]
  by_cases h : offset < bytes.length
  · rw [List.getElem?_eq_getElem h, List.drop_eq_getElem_cons h]
    simp only [Fallible.value.injEq, List.take_succ_cons, List.take_zero, List.cons.injEq,
      and_true]
    exact ⟨fun heq => ⟨by omega, heq⟩, fun heq => heq.2⟩
  · rw [List.getElem?_eq_none (by omega)]
    simp only [reduceCtorEq, false_iff, not_and]
    intro hle
    omega

theorem array16_eq_value (hlength : bytes.length ≤ maxUsize) {offset : Nat}
    {fingerprint : Fingerprint} :
    array16 bytes offset = .value fingerprint ↔ At bytes offset fingerprint := by
  have hcount := fingerprint.2
  rw [at_iff hcount (by decide)]
  simp only [array16, do_bind, bind_eq_value, addUsize_eq_value, orError_eq_value,
    Codec.get_eq_some]
  constructor
  · rintro ⟨_, ⟨-, rfl⟩, encoded, ⟨-, hle, rfl⟩, h⟩
    split_ifs at h with hsize
    cases h
    refine ⟨hle, ?_⟩
    show _ = (bytes.drop offset).take (offset + 16 - offset)
    rw [Nat.add_sub_cancel_left]
  · rintro ⟨hle, htake⟩
    refine ⟨_, ⟨by omega, rfl⟩, fingerprint.1, ⟨Nat.le_add_right _ _, hle, ?_⟩, ?_⟩
    · rw [Nat.add_sub_cancel_left, htake]
    · rw [dif_pos hcount]

/-! ## The header -/

/-- What the reader has found out of a header. -/
structure HeaderAt (bytes : Bytes) (header : Header) : Prop where
  bound : bytes.length ≤ maxArtifactLength
  start : At bytes 0 magic
  schema : At bytes 16 (toLittleEndian 2 artifactSchema)
  endian : At bytes 18 [header.endian]
  pointerWidth : At bytes 19 [header.pointerWidth]
  target : At bytes 20 (toLittleEndian 2 header.targetLength)
  targetBound : header.targetLength ≤ maxTargetLength
  reserved : At bytes 22 (toLittleEndian 2 0)
  count : At bytes 24 (toLittleEndian 4 header.sectionCount)
  countBound : header.sectionCount ≤ maxSections
  lengthField : At bytes 28 (toLittleEndian 4 header.headerLength)
  headerLength : header.headerLength = fixedHeaderLength + header.targetLength +
    header.sectionCount * sectionTableEntryLength + headerChecksumLength
  total : At bytes 32 (toLittleEndian 8 header.declaredTotal)
  declared : header.declaredTotal = bytes.length
  inside : header.headerLength + footerLength ≤ bytes.length

theorem readHeader_eq_value {header : Header} :
    readHeader bytes = .value header ↔ HeaderAt bytes header := by
  have hmax := maxArtifactLength_le
  by_cases hbound : bytes.length ≤ maxArtifactLength
  · have hlength : bytes.length ≤ maxUsize := by omega
    simp only [readHeader, readU16, readU32, readU64, do_bind, do_pure, bind_eq_value,
      refuse_eq_value, readNumber_eq_value hlength (Nat.succ_pos _), indexByte_eq_value,
      expectedHeaderLength_eq_value, subUsize_eq_value, Codec.slice_eq_value, not_lt, not_not,
      Fallible.value.injEq]
    constructor
    · rintro ⟨_, -, _, hminimum, start, ⟨-, hstart, rfl⟩, _, hmagic, schema, ⟨-, hschema⟩, _, rfl,
        endian, hendian, pointerWidth, hpointerWidth, targetLength, ⟨-, htarget⟩, _, htargetBound,
        reserved, ⟨-, hreserved⟩, _, rfl, count, ⟨-, hcount⟩, _, hcountBound, length,
        ⟨-, hlengthField⟩, total, ⟨-, htotal⟩, _, -, _, hle, _, hge, _, ⟨-, rfl⟩, _, rfl, _,
        ⟨hfooter, rfl⟩, _, hinside, rfl⟩
      refine ⟨hbound, (at_iff rfl (by decide)).2 ⟨by omega, hmagic⟩, hschema, hendian,
        hpointerWidth, htarget, htargetBound, hreserved, hcount, hcountBound, hlengthField, rfl,
        htotal, by show total = _; omega, ?_⟩
      show fixedHeaderLength + targetLength + count * sectionTableEntryLength +
        headerChecksumLength + footerLength ≤ _
      omega
    · intro h
      have hminimum : fixedHeaderLength + headerChecksumLength + footerLength ≤ bytes.length := by
        have := h.headerLength
        have := h.inside
        omega
      obtain ⟨hstart, hmagic⟩ := (at_iff length_magic (by decide)).1 h.start
      have htarget := h.targetBound
      have hcount := h.countBound
      have hdeclared := h.declared
      have hinside := h.inside
      have htargets : maxTargetLength = 255 := rfl
      have hcounts : maxSections = 1024 := rfl
      have htable : sectionTableEntryLength = 24 := rfl
      have hfixed : fixedHeaderLength = 72 := rfl
      have hchecksum : headerChecksumLength = 4 := rfl
      have hfooter : footerLength = 32 := rfl
      have hlimit : maxUsize = 2 ^ 64 - 1 := rfl
      have hartifact : maxArtifactLength = 17179869184 := rfl
      have hheader := h.headerLength
      rw [htable] at hheader
      refine ⟨(), hbound, (), hminimum, magic, ⟨Nat.zero_le _, by rw [length_magic]; omega, hmagic⟩,
        (), rfl, artifactSchema, ⟨by decide, h.schema⟩, (), rfl, _, h.endian, _, h.pointerWidth, _,
        ⟨by omega, h.target⟩, (), htarget, 0, ⟨by decide, h.reserved⟩, (), rfl, _,
        ⟨by omega, h.count⟩, (), hcount, _, ⟨by omega, h.lengthField⟩, _, ⟨by omega, h.total⟩, (),
        by omega, (), by omega, (), by omega, _, ⟨?_, rfl⟩, (), h.headerLength, _, ⟨by omega, rfl⟩,
        (), by omega, rfl⟩
      rw [htable]
      omega
  · constructor
    · intro h
      rw [readHeader, do_bind, Fallible.bind_eq_value] at h
      obtain ⟨_, hrefuse, -⟩ := h
      exact absurd (refuse_eq_value.1 hrefuse) (by simpa using hbound)
    · exact fun h => absurd h.bound hbound

/-! ## Checksums -/

theorem slice_take {stop : Nat} {piece : Bytes} :
    (Codec.slice bytes 0 stop : Outcome Bytes) = .value piece ↔
      stop ≤ bytes.length ∧ piece = bytes.take stop := by
  rw [Codec.slice_eq_value, List.drop_zero, Nat.sub_zero]
  exact ⟨fun h => ⟨h.2.1, h.2.2.symm⟩, fun h => ⟨Nat.zero_le _, h.1, h.2.symm⟩⟩

theorem checksum_lt (checksum : UInt32) : checksum.toNat < 256 ^ 4 := checksum.toNat_lt

theorem checkHeaderChecksum_eq_value (hlength : bytes.length ≤ maxUsize) {offset : Nat}
    {u : Unit} : checkHeaderChecksum crc bytes (offset + headerChecksumLength) = .value u ↔
      At bytes offset (toLittleEndian 4 (crc (bytes.take offset)).toNat) := by
  simp only [checkHeaderChecksum, readU32, do_bind, bind_eq_value, subUsize_eq_value,
    readNumber_eq_value hlength (Nat.succ_pos _), slice_take, refuse_eq_value, not_not]
  constructor
  · rintro ⟨_, ⟨-, rfl⟩, stored, ⟨-, hstored⟩, _, ⟨-, rfl⟩, rfl⟩
    exact hstored
  · intro h
    have hle := ((at_iff (length_toLittleEndian 4 _) (by decide)).1 h).1
    refine ⟨_, ⟨Nat.le_add_left _ _, rfl⟩, (crc (bytes.take offset)).toNat,
      ⟨checksum_lt _, ?_⟩, _, ⟨?_, rfl⟩, ?_⟩
    · rw [Nat.add_sub_cancel]
      exact h
    · omega
    · rw [Nat.add_sub_cancel]

theorem checkIdentity_eq_value (hlength : bytes.length ≤ maxUsize) {header : Header}
    {expected : Fingerprint} (hinside : fixedHeaderLength + header.targetLength ≤ bytes.length)
    {targetEnd : Nat} : checkIdentity platform bytes header expected = .value targetEnd ↔
      At bytes 40 expected ∧ At bytes 56 platform.engineFingerprint ∧
        header.endian = platform.endian ∧ header.pointerWidth = platform.pointerWidth ∧
        targetEnd = fixedHeaderLength + header.targetLength ∧
        platform.target.length = header.targetLength ∧
        At bytes fixedHeaderLength platform.target := by
  simp only [checkIdentity, do_bind, do_pure, bind_eq_value, array16_eq_value hlength,
    refuse_eq_value, checkedAdd_eq_value, orError_eq_value, Codec.get_eq_some, not_not,
    Fallible.value.injEq]
  constructor
  · rintro ⟨_, hproject, _, rfl, _, hengine, _, rfl, _, hendian, _, hwidth, _, ⟨-, rfl⟩, target,
      ⟨hle, hstop, htarget⟩, _, rfl, rfl⟩
    obtain ⟨hat, hsize⟩ := At.of_take hle hstop htarget
    exact ⟨hproject, hengine, hendian, hwidth, rfl, by omega, hat⟩
  · rintro ⟨hproject, hengine, hendian, hwidth, rfl, hsize, htarget⟩
    refine ⟨_, hproject, (), rfl, _, hengine, (), rfl, (), hendian, (), hwidth, _,
      ⟨by omega, rfl⟩, _, ⟨Nat.le_add_right _ _, hinside, ?_⟩, (), rfl, rfl⟩
    rw [Nat.add_sub_cancel_left, ← hsize]
    exact htarget.take

theorem checkFooter_eq_value (hlength : bytes.length ≤ maxUsize) {start declared : Nat}
    (hstart : start + footerLength = bytes.length) (hdeclared : declared < 256 ^ 8) {u : Unit} :
    checkFooter crc bytes start declared = .value u ↔ At bytes start commitMagic ∧
      At bytes (start + 16) (toLittleEndian 4 (crc (bytes.take start)).toNat) ∧
      At bytes (start + 20) (toLittleEndian 8 declared) ∧
      At bytes (start + 28) (toLittleEndian 4 (crc ((bytes.drop start).take 28)).toNat) := by
  have hfooter : footerLength = 32 := rfl
  simp only [checkFooter, readU32, readU64, do_bind, bind_eq_value, addUsize_eq_value,
    Codec.slice_eq_value, readNumber_eq_value hlength (Nat.succ_pos _), refuse_eq_value, not_not]
  constructor
  · rintro ⟨_, ⟨-, rfl⟩, _, ⟨-, hle, hcommit⟩, _, rfl, _, ⟨-, rfl⟩, body, ⟨-, hbody⟩, _, ⟨-, rfl⟩,
      total, ⟨-, htotal⟩, _, rfl, _, ⟨-, rfl⟩, stored, ⟨-, hstored⟩, footer, ⟨-, -, hcovered⟩, _,
      rfl, _, ⟨-, -, rfl⟩, rfl⟩
    rw [Nat.add_sub_cancel_left] at hcommit hcovered
    rw [List.drop_zero, Nat.sub_zero] at hbody
    rw [← hcovered] at hstored
    exact ⟨(at_iff rfl (by decide)).2 ⟨hle, hcommit⟩, hbody, htotal, hstored⟩
  · rintro ⟨hcommit, hbody, htotal, hstored⟩
    have hcommitLength := length_commitMagic
    refine ⟨_, ⟨by omega, rfl⟩, commitMagic, ⟨Nat.le_add_right _ _, by omega, ?_⟩, (), rfl, _,
      ⟨by omega, rfl⟩, _, ⟨checksum_lt _, hbody⟩, _, ⟨by omega, rfl⟩, declared,
      ⟨hdeclared, htotal⟩, (), rfl, _, ⟨by omega, rfl⟩, _, ⟨checksum_lt _, hstored⟩, _,
      ⟨Nat.le_add_right _ _, by omega, rfl⟩, (), ?_, _, ⟨Nat.zero_le _, by omega, rfl⟩, ?_⟩
    · rw [Nat.add_sub_cancel_left]
      exact hcommit.take
    · rw [Nat.add_sub_cancel_left]
    · rw [List.drop_zero, Nat.sub_zero]

/-! ## The table -/

namespace EncodedSection

def part (encoded : EncodedSection bytes) : Part :=
  (encoded.id, (bytes.drop encoded.offset).take encoded.length)

theorem length_part (encoded : EncodedSection bytes) :
    encoded.part.2.length = encoded.length := by
  have hinside := encoded.inside
  rw [part, List.length_take, List.length_drop]
  omega

/-- The bytes of an entry. -/
def entry (encoded : EncodedSection bytes) : Bytes :=
  toLittleEndian 4 encoded.id.toNat ++ toLittleEndian 8 encoded.offset ++
    toLittleEndian 8 encoded.length ++ toLittleEndian 4 encoded.checksum.toNat

theorem copy_eq (hlength : bytes.length ≤ maxUsize) (encoded : EncodedSection bytes) :
    encoded.copy = .value encoded.part.2 := by
  have hinside := encoded.inside
  simp only [copy, do_bind, bind_eq_value, addUsize_eq_value, Codec.slice_eq_value]
  refine ⟨_, ⟨by omega, rfl⟩, Nat.le_add_right _ _, hinside, ?_⟩
  rw [Nat.add_sub_cancel_left]
  rfl

end EncodedSection

theorem readEntry_eq_value (hlength : bytes.length ≤ maxArtifactLength)
    {entry footerStart expectedOffset : Nat} (hfooter : footerStart ≤ bytes.length)
    {seen : List UInt32} {encoded : EncodedSection bytes} :
    readEntry bytes entry footerStart expectedOffset seen = .value encoded ↔
      encoded.id ∉ seen ∧ encoded.offset = expectedOffset ∧ encoded.length ≤ maxSectionLength ∧
        encoded.offset + encoded.length ≤ footerStart ∧ At bytes entry encoded.entry := by
  have hmax : maxArtifactLength < 256 ^ 8 := by decide
  have husize : 256 ^ 8 = maxUsize + 1 := by decide
  simp only [readEntry, readU32, readU64, do_bind, bind_eq_value, addUsize_eq_value,
    checkedAdd_eq_value, readNumber_eq_value (by omega : bytes.length ≤ maxUsize)
      (Nat.succ_pos _), refuse_eq_value, not_not, not_lt, EncodedSection.entry, at_append,
    List.length_append, length_toLittleEndian, Nat.reduceAdd]
  constructor
  · rintro ⟨id, ⟨hid, hidAt⟩, _, hseen, _, ⟨-, rfl⟩, offset, ⟨-, hoffset⟩, _, ⟨-, rfl⟩, length,
      ⟨-, hlengthAt⟩, _, hsection, _, rfl, _, ⟨-, rfl⟩, _, hstop, _, ⟨-, rfl⟩, checksum,
      ⟨hchecksum, hchecksumAt⟩, h⟩
    split_ifs at h with hinside
    cases h
    refine ⟨hseen, rfl, hsection, hstop, ⟨⟨?_, hoffset⟩, hlengthAt⟩, ?_⟩
    · show At bytes entry (toLittleEndian 4 (UInt32.ofNat id).toNat)
      rw [UInt32.toNat_ofNat_of_lt' hid]
      exact hidAt
    · show At bytes (entry + 20) (toLittleEndian 4 (UInt32.ofNat checksum).toNat)
      rw [UInt32.toNat_ofNat_of_lt' hchecksum]
      exact hchecksumAt
  · rintro ⟨hseen, hoffset, hsection, hstop, ⟨⟨hidAt, hoffsetAt⟩, hlengthAt⟩, hchecksumAt⟩
    have hentry := ((at_iff (length_toLittleEndian 4 _) (by decide)).1 hchecksumAt).1
    refine ⟨_, ⟨checksum_lt encoded.id, hidAt⟩, (), ?_, _, ⟨by omega, rfl⟩, _,
      ⟨by omega, hoffsetAt⟩, _, ⟨by omega, rfl⟩, _, ⟨by omega, hlengthAt⟩, (), hsection, (),
      hoffset, _, ⟨by omega, rfl⟩, (), hstop, _, ⟨by omega, rfl⟩, _,
      ⟨checksum_lt encoded.checksum, hchecksumAt⟩, ?_⟩
    · rw [UInt32.ofNat_toNat]
      exact hseen
    · rw [dif_pos encoded.inside, UInt32.ofNat_toNat, UInt32.ofNat_toNat]

/-- The parts have entries from an index on, and payloads from an offset on. -/
structure TableAt (crc : Checksum) (bytes : Bytes) (entry footerStart offset : Nat)
    (seen : List UInt32) (parts : List Part) : Prop where
  table : At bytes entry (tableImage crc offset parts)
  payloads : At bytes offset (payloadImage parts)
  inside : offset + payloadLength parts ≤ footerStart
  ids : (parts.map (·.1)).Nodup
  unseen : ∀ part ∈ parts, part.1 ∉ seen
  lengths : ∀ part ∈ parts, part.2.length ≤ maxSectionLength

section Table

variable {entry footerStart offset : Nat} {seen : List UInt32} {part : Part} {parts : List Part}

theorem tableAt_cons : TableAt crc bytes entry footerStart offset seen (part :: parts) ↔
    (part.1 ∉ seen ∧ part.2.length ≤ maxSectionLength ∧
      At bytes entry (entryImage crc offset part) ∧ At bytes offset part.2) ∧
    TableAt crc bytes (entry + sectionTableEntryLength) footerStart (offset + part.2.length)
      (part.1 :: seen) parts := by
  constructor
  · rintro ⟨htable, hpayloads, hinside, hids, hunseen, hlengths⟩
    rw [tableImage, at_append, length_entryImage] at htable
    rw [payloadImage, List.map_cons, List.flatten_cons, at_append] at hpayloads
    rw [List.map_cons, List.nodup_cons] at hids
    rw [payloadLength_cons] at hinside
    rw [List.forall_mem_cons] at hunseen hlengths
    refine ⟨⟨hunseen.1, hlengths.1, htable.1, hpayloads.1⟩, htable.2, hpayloads.2, by omega,
      hids.2, fun other hother hmem => ?_, hlengths.2⟩
    rcases List.mem_cons.1 hmem with heq | hmem
    · apply hids.1
      rw [← heq]
      exact List.mem_map_of_mem hother
    · exact hunseen.2 other hother hmem
  · rintro ⟨⟨hid, hlength, hentry, hpayload⟩, htable, hpayloads, hinside, hids, hunseen, hlengths⟩
    refine ⟨?_, ?_, ?_, ?_, ?_, List.forall_mem_cons.2 ⟨hlength, hlengths⟩⟩
    · rw [tableImage, at_append, length_entryImage]
      exact ⟨hentry, htable⟩
    · rw [payloadImage, List.map_cons, List.flatten_cons, at_append]
      exact ⟨hpayload, hpayloads⟩
    · rw [payloadLength_cons]
      omega
    · rw [List.map_cons, List.nodup_cons]
      refine ⟨fun hmem => ?_, hids⟩
      obtain ⟨other, hother, heq⟩ := List.mem_map.1 hmem
      apply hunseen other hother
      rw [heq]
      exact List.mem_cons_self
    · exact List.forall_mem_cons.2 ⟨hid, fun other hother hmem =>
        hunseen other hother (List.mem_cons_of_mem _ hmem)⟩

/-- The entry of a part whose payload has the stored checksum. -/
theorem EncodedSection.entry_eq (encoded : EncodedSection bytes)
    (h : crc encoded.part.2 = encoded.checksum) :
    encoded.entry = entryImage crc encoded.offset encoded.part := by
  rw [entry, entryImage, encoded.length_part, h]
  rfl

theorem EncodedSection.at_part (encoded : EncodedSection bytes) :
    At bytes encoded.offset encoded.part.2 := List.take_prefix _ _

theorem tableAt_of_readTable (hlength : bytes.length ≤ maxArtifactLength)
    (hfooter : footerStart ≤ bytes.length) {tableStart count index : Nat}
    (hoffset : offset ≤ footerStart) {table : List (EncodedSection bytes) × Nat}
    (h : readTable bytes tableStart footerStart count index offset seen = .value table)
    (hchecksums : ∀ encoded ∈ table.1, crc encoded.part.2 = encoded.checksum) :
    table.1.length = count ∧ table.2 = offset + payloadLength (table.1.map (·.part)) ∧
      TableAt crc bytes (tableStart + index * sectionTableEntryLength) footerStart offset seen
        (table.1.map (·.part)) := by
  induction count generalizing index offset seen table with
  | zero =>
    cases h
    exact ⟨rfl, rfl, at_nil _ _, at_nil _ _, hoffset, List.nodup_nil, List.forall_mem_nil _,
      List.forall_mem_nil _⟩
  | succ count ih =>
    simp only [readTable, do_bind, do_pure, bind_eq_value, checkedMul_eq_value,
      checkedAdd_eq_value, readEntry_eq_value hlength hfooter, Fallible.value.injEq] at h
    obtain ⟨_, ⟨-, rfl⟩, _, ⟨-, rfl⟩, encoded, ⟨hid, rfl, hbound, hstop, hentry⟩, more, hmore,
      rfl⟩ := h
    rw [List.forall_mem_cons] at hchecksums
    obtain ⟨hcount, hend, htable⟩ := ih hstop hmore hchecksums.2
    have hpart := encoded.length_part
    rw [encoded.entry_eq hchecksums.1] at hentry
    refine ⟨congrArg Nat.succ hcount, ?_, ?_⟩
    · rw [List.map_cons, payloadLength_cons, hpart, ← Nat.add_assoc]
      exact hend
    · rw [List.map_cons, tableAt_cons, hpart]
      refine ⟨⟨hid, hbound, hentry, encoded.at_part⟩, ?_⟩
      rw [Nat.succ_mul, ← Nat.add_assoc] at htable
      exact htable

theorem readTable_of_tableAt (hlength : bytes.length ≤ maxArtifactLength)
    (hfooter : footerStart ≤ bytes.length) {tableStart index : Nat}
    (hbound : tableStart + (index + parts.length) * sectionTableEntryLength ≤ maxUsize)
    (h : TableAt crc bytes (tableStart + index * sectionTableEntryLength) footerStart offset seen
      parts) : ∃ sections : List (EncodedSection bytes),
      readTable bytes tableStart footerStart parts.length index offset seen =
        .value (sections, offset + payloadLength parts) ∧ sections.map (·.part) = parts ∧
      ∀ encoded ∈ sections, crc encoded.part.2 = encoded.checksum := by
  induction parts generalizing index offset seen with
  | nil => exact ⟨[], rfl, rfl, List.forall_mem_nil _⟩
  | cons part parts ih =>
    have htotal := h.inside
    rw [payloadLength_cons] at htotal
    obtain ⟨⟨hid, hsize, hentry, hpayload⟩, hrest⟩ := tableAt_cons.1 h
    rw [Nat.add_assoc, ← Nat.succ_mul] at hrest
    rw [List.length_cons] at hbound
    obtain ⟨more, hmore, hparts, hchecksums⟩ := ih (by rwa [Nat.succ_add_eq_add_succ]) hrest
    have hinside : offset + part.2.length ≤ bytes.length := by omega
    have hstep : tableStart + index * sectionTableEntryLength ≤ maxUsize := by
      have := Nat.mul_le_mul_right sectionTableEntryLength
        (Nat.le_add_right index (parts.length + 1))
      omega
    let encoded : EncodedSection bytes := ⟨part.1, offset, part.2.length, crc part.2, hinside⟩
    have hpart : encoded.part = part := by
      rw [EncodedSection.part, hpayload.take]
    refine ⟨encoded :: more, ?_, ?_, ?_⟩
    · simp only [readTable, do_bind, do_pure, bind_eq_value, checkedMul_eq_value,
        checkedAdd_eq_value, readEntry_eq_value hlength hfooter, Fallible.value.injEq,
        List.length_cons]
      refine ⟨_, ⟨by omega, rfl⟩, _, ⟨hstep, rfl⟩, encoded, ⟨hid, rfl, hsize, ?_, hentry⟩, _,
        hmore, ?_⟩
      · show offset + part.2.length ≤ footerStart
        omega
      · rw [payloadLength_cons, Nat.add_assoc]
    · rw [List.map_cons, hpart, hparts]
    · refine List.forall_mem_cons.2 ⟨?_, hchecksums⟩
      rw [hpart]

end Table

theorem checkPayloads_eq_value (hlength : bytes.length ≤ maxUsize)
    {sections : List (EncodedSection bytes)} {u : Unit} :
    checkPayloads crc sections = .value u ↔
      ∀ encoded ∈ sections, crc encoded.part.2 = encoded.checksum := by
  induction sections with
  | nil => exact ⟨fun _ => List.forall_mem_nil _, fun _ => rfl⟩
  | cons encoded sections ih =>
    rw [checkPayloads, encoded.copy_eq hlength, List.forall_mem_cons, ← ih]
    simp only [do_bind, bind_eq_value, Fallible.value.injEq, refuse_eq_value, not_not,
      exists_eq_left', exists_const]

theorem copySections_eq (hlength : bytes.length ≤ maxUsize)
    (sections : List (EncodedSection bytes)) : copySections sections =
      .value (sections.map fun encoded => ⟨encoded.id, .owned encoded.part.2⟩) := by
  induction sections with
  | nil => rfl
  | cons encoded sections ih =>
    rw [copySections, encoded.copy_eq hlength, ih]
    rfl

/-! ## Validation -/

/-- What is accepted is the image of what is found. -/
theorem image_of_validateArtifact {expected : Fingerprint}
    {sections : List (EncodedSection bytes)}
    (h : validateArtifact crc platform bytes expected = .value sections) :
    Fits platform (sections.map (·.part)) ∧
      bytes = image crc platform expected (sections.map (·.part)) := by
  simp only [validateArtifact, do_bind, do_pure, bind_eq_value, readHeader_eq_value,
    subUsize_eq_value, refuse_eq_value, not_not, Fallible.value.injEq] at h
  obtain ⟨header, hheader, _, hchecksum, targetEnd, hidentity, footer, ⟨hle, rfl⟩, _, hfooter, table,
    htable, _, hstop, _, hpayloads, rfl⟩ := h
  have hmax := maxArtifactLength_le
  have hlength := hheader.bound
  have husize : bytes.length ≤ maxUsize := by omega
  have hinside := hheader.inside
  have hsize := hheader.headerLength
  rw [hsize, checkHeaderChecksum_eq_value husize] at hchecksum
  obtain ⟨hproject, hengine, hendian, hwidth, rfl, htarget, htargetAt⟩ :=
    (checkIdentity_eq_value husize (by omega)).1 hidentity
  have hdeclared : header.declaredTotal < 256 ^ 8 := by
    have := hheader.declared
    have hlimit : maxArtifactLength < 256 ^ 8 := by decide
    omega
  obtain ⟨hcommit, hbody, htotal, hfooterChecksum⟩ :=
    (checkFooter_eq_value husize (by omega) hdeclared).1 hfooter
  have hchecksums := (checkPayloads_eq_value husize).1 hpayloads
  obtain ⟨hcount, hend, htableAt⟩ := tableAt_of_readTable hlength (Nat.sub_le _ _) (by omega)
    htable hchecksums
  rw [Nat.zero_mul, Nat.add_zero] at htableAt
  -- the lengths of the header that is read are those of the image
  have hparts : (table.1.map (·.part)).length = header.sectionCount := by
    rw [List.length_map, hcount]
  have hheaderLength : headerLength platform (table.1.map (·.part)).length =
      header.headerLength := by
    rw [headerLength, hparts, htarget, hsize]
  have htotalLength : totalLength platform (table.1.map (·.part)) = bytes.length := by
    rw [totalLength, hheaderLength]
    omega
  have hfooterStart : footerStart platform (table.1.map (·.part)) =
      bytes.length - footerLength := by
    rw [footerStart, hheaderLength]
    omega
  have htableEnd : tableEnd platform (table.1.map (·.part)).length = fixedHeaderLength +
      header.targetLength + header.sectionCount * sectionTableEntryLength := by
    rw [tableEnd, hparts, htarget]
  have hbound := hheader.targetBound
  have hsections := hheader.countBound
  refine ⟨⟨by omega, by omega, htableAt.ids, htableAt.lengths, by omega⟩, ?_⟩
  rw [eq_image_iff htotalLength.symm, hfooterStart, htableEnd]
  refine ⟨hheader.start, hheader.schema, ?_, ?_, ?_, hheader.reserved, ?_, ?_, ?_, hproject, hengine,
    htargetAt, ?_, hchecksum, ?_, hcommit, hbody, ?_, hfooterChecksum⟩
  · rw [← hendian]
    exact hheader.endian
  · rw [← hwidth]
    exact hheader.pointerWidth
  · rw [htarget]
    exact hheader.target
  · rw [hparts]
    exact hheader.count
  · rw [hheaderLength]
    exact hheader.lengthField
  · rw [htotalLength, ← hheader.declared]
    exact hheader.total
  · rw [hheaderLength, htarget]
    exact htableAt.table
  · rw [hheaderLength]
    exact htableAt.payloads
  · rw [hheader.declared] at htotal
    rw [htotalLength]
    exact htotal

/-- The image of what fits is accepted. -/
theorem validateArtifact_image (crc : Checksum) (expected : Fingerprint) {parts : List Part}
    (hfits : Fits platform parts) : ∃ sections,
      validateArtifact crc platform (image crc platform expected parts) expected =
        .value sections ∧ sections.map (·.part) = parts := by
  have hlength := @length_image platform crc expected parts
  generalize himage : image crc platform expected parts = bytes at *
  have hframed := (eq_image_iff hlength).1 himage.symm
  have hmax := maxArtifactLength_le
  have hbound := hfits.total
  have htarget := hfits.target
  have hcount := hfits.count
  have husize : bytes.length ≤ maxUsize := by omega
  have htotal : totalLength platform parts = headerLength platform parts.length +
      payloadLength parts + footerLength := rfl
  have hheaderLength : headerLength platform parts.length = fixedHeaderLength +
      platform.target.length + parts.length * sectionTableEntryLength + headerChecksumLength := rfl
  let header : Header := ⟨platform.endian, platform.pointerWidth, platform.target.length,
    parts.length, headerLength platform parts.length, totalLength platform parts⟩
  have hheader : HeaderAt bytes header := ⟨by omega, hframed.start, hframed.schema, hframed.endian,
    hframed.pointerWidth, hframed.targetLength, htarget, hframed.reserved, hframed.count, hcount,
    hframed.header, rfl, hframed.total, hlength.symm, by
      show headerLength platform parts.length + footerLength ≤ bytes.length
      omega⟩
  have hfooterStart : footerStart platform parts = bytes.length - footerLength := by
    rw [footerStart]
    omega
  have hchecksum := hframed.headerChecksum
  have hcommit := hframed.commit
  have hbody := hframed.bodyChecksum
  have hfooterTotal := hframed.footerTotal
  have hfooterChecksum := hframed.footerChecksum
  rw [hfooterStart] at hcommit hbody hfooterTotal hfooterChecksum
  have htableAt : TableAt crc bytes (fixedHeaderLength + platform.target.length +
      0 * sectionTableEntryLength) (bytes.length - footerLength)
      (headerLength platform parts.length) [] parts := by
    rw [Nat.zero_mul, Nat.add_zero]
    exact ⟨hframed.table, hframed.payloads, by omega, hfits.ids,
      fun part _ => List.not_mem_nil, hfits.payloads⟩
  obtain ⟨sections, htable, hparts, hchecksums⟩ := readTable_of_tableAt (by omega)
    (Nat.sub_le _ _) (by rw [Nat.zero_add]; omega) htableAt
  refine ⟨sections, ?_, hparts⟩
  simp only [validateArtifact, do_bind, do_pure, bind_eq_value, readHeader_eq_value,
    subUsize_eq_value, refuse_eq_value, not_not, Fallible.value.injEq]
  refine ⟨header, hheader, (), (checkHeaderChecksum_eq_value husize).2 hchecksum, _,
    (checkIdentity_eq_value husize ?_).2 ⟨hframed.project, hframed.engine, rfl, rfl, rfl, rfl,
      hframed.target⟩, _, ⟨by omega, rfl⟩, (), (checkFooter_eq_value husize (by omega) ?_).2
      ⟨hcommit, hbody, hfooterTotal, hfooterChecksum⟩, _, htable, (), ?_, (),
      (checkPayloads_eq_value husize).2 hchecksums, rfl⟩
  · show fixedHeaderLength + platform.target.length ≤ bytes.length
    omega
  · show totalLength platform parts < 256 ^ 8
    have hlimit : maxArtifactLength < 256 ^ 8 := by decide
    omega
  · show headerLength platform parts.length + payloadLength parts = bytes.length - footerLength
    omega

end Dream64.Lifecycle
