import Dream64.Bytecode.ModuleCodec

/-!
# Reading the operands

The readers of the operands read what the writers write, and nothing else.
-/

namespace Dream64.Bytecode

open Codec

variable {α : Type}

/-! ## Numbers -/

theorem writtenBy_ok {write : α → Bytes} {out : Bytes} {a : α} :
    WrittenBy (fun a => (.ok (write a) : Encoded)) out a ↔ out = write a := by
  rw [WrittenBy, Except.ok.injEq, eq_comm]

theorem reads_u8 (label : String) : Reads (WrittenBy writeU8) (readU8 label) :=
  (codes_readByte _).reads.congr fun out a => by rw [true_and]; exact writtenBy_ok

theorem reads_i8 (label : String) : Reads (WrittenBy writeI8) (readI8 label) := by
  refine ((reads_u8 label).map fun value => value.toInt8).congr fun out a => ⟨fun h => ?_, ?_⟩
  · exact ⟨a.toUInt8, h, rfl⟩
  · rintro ⟨value, h, rfl⟩
    exact h

theorem reads_wide (count : Nat) (label : String) :
    Reads (fun out value => value < 256 ^ count ∧ out = toLittleEndian count value)
      (readWide count label) :=
  (codes_readNumber count _).reads

theorem reads_u16 (label : String) : Reads (WrittenBy writeU16) (readU16 label) := by
  refine ((reads_wide 2 label).map UInt16.ofNat).congr fun out a => writtenBy_ok.trans ⟨?_, ?_⟩
  · intro h
    exact ⟨a.toNat, ⟨a.toNat_lt, h⟩, UInt16.ofNat_toNat.symm⟩
  · rintro ⟨value, ⟨hlt, rfl⟩, rfl⟩
    rw [UInt16.toNat_ofNat_of_lt' hlt]

theorem reads_u32 (label : String) : Reads (WrittenBy writeU32) (readU32 label) := by
  refine ((reads_wide 4 label).map UInt32.ofNat).congr fun out a => writtenBy_ok.trans ⟨?_, ?_⟩
  · intro h
    exact ⟨a.toNat, ⟨a.toNat_lt, h⟩, UInt32.ofNat_toNat.symm⟩
  · rintro ⟨value, ⟨hlt, rfl⟩, rfl⟩
    rw [UInt32.toNat_ofNat_of_lt' hlt]

theorem reads_number : Reads (WrittenBy writeNumber) readNumberBits := by
  refine ((reads_wide 4 _).map (BitVec.ofNat 32)).congr fun out a => writtenBy_ok.trans ⟨?_, ?_⟩
  · intro h
    exact ⟨a.toNat, ⟨a.isLt, h⟩, by rw [BitVec.ofNat_toNat, BitVec.setWidth_eq]⟩
  · rintro ⟨value, ⟨hlt, rfl⟩, rfl⟩
    have hbits : value < 2 ^ 32 := hlt
    rw [BitVec.toNat_ofNat, Nat.mod_eq_of_lt hbits]

theorem reads_target : Reads (WrittenBy writeTarget) readTarget := by
  refine (reads_wide 4 _).congr fun out value => ?_
  show writeTarget value = .ok out ↔ _
  rw [writeTarget, refuse_eq_ok, Except.ok.injEq, Nat.not_le, eq_comm (a := out)]
  rfl

theorem reads_boolean (label : String) : Reads (WrittenBy writeBoolean) (readBoolean label) where
  complete {out value} hout rest := by
    obtain rfl := Except.ok.inj hout
    cases value <;> rfl
  sound {bytes rest value} hread := by
    rw [readBoolean, bind_apply] at hread
    obtain ⟨⟨tag, rest'⟩, htag, hnext⟩ := bind_eq_ok hread
    obtain ⟨out, hout, rfl⟩ := (reads_u8 label).sound htag
    obtain rfl := Except.ok.inj hout
    dsimp only at hnext
    split at hnext
    · rename_i hzero
      cases hnext
      exact ⟨[0], rfl, by rw [hzero]⟩
    · split at hnext
      · rename_i hone
        cases hnext
        exact ⟨[1], rfl, by rw [hone]⟩
      · cases hnext

/-- A number up to a limit. -/
theorem reads_bounded (max : Nat) (label : String) : Reads (fun out value =>
    value ≤ max ∧ value < 2 ^ 32 ∧ out = toLittleEndian 4 value) (readLen max label) := by
  refine ((reads_wide 4 label).bind fun value => (Reads.pure value).guard).congr fun out value => ?_
  constructor
  · rintro ⟨hle, hlt, rfl⟩
    exact ⟨value, _, ⟨hlt, rfl⟩, [], ⟨Nat.not_lt.2 hle, rfl, rfl⟩, (List.append_nil _).symm⟩
  · rintro ⟨_, _, ⟨hlt, rfl⟩, _, ⟨hle, rfl, rfl⟩, rfl⟩
    exact ⟨Nat.not_lt.1 hle, hlt, List.append_nil _⟩

theorem writeLen_eq_ok {max value : Nat} {label : String} {out : Bytes} :
    writeLen max label value = .ok out ↔
      value ≤ max ∧ value < 2 ^ 32 ∧ out = toLittleEndian 4 value := by
  rw [writeLen, refuse_eq_ok, Except.ok.injEq, eq_comm (a := out), not_or, Nat.not_lt, Nat.not_le,
    and_assoc]

theorem reads_len (max : Nat) (label writeLabel : String) :
    Reads (WrittenBy (writeLen max writeLabel)) (readLen max label) :=
  (reads_bounded max label).congr fun _ _ => writeLen_eq_ok

/-! ## Text -/

theorem reads_exactly (count : Nat) (label : String) :
    Reads (fun out bytes => bytes.length = count ∧ out = bytes) (readExactly count label) :=
  (codes_readExact count _).reads

theorem joined_two_eq_ok {first second : Encoded} {out : Bytes} :
    joined [first, second] = .ok out ↔
      ∃ a, first = .ok a ∧ ∃ b, second = .ok b ∧ out = a ++ b := by
  simp only [joined_cons_eq_ok, joined_nil_eq_ok, exists_eq_left, List.append_nil]
  constructor
  · rintro ⟨a, ha, b, ⟨_, hb, rfl⟩, rfl⟩
    exact ⟨a, ha, b, hb, rfl⟩
  · rintro ⟨a, ha, b, hb, rfl⟩
    exact ⟨a, ha, b, ⟨b, hb, rfl⟩, rfl⟩

theorem reads_textOf (label : String) (raw : Bytes) :
    Reads (fun out value => out = [] ∧ raw = utf8 value) (textOf label raw) := by
  unfold textOf
  cases hvalue : ofUtf8 raw with
  | some value =>
    refine (Reads.pure value).congr fun out other => and_congr_right fun _ => ?_
    rw [← ofUtf8_eq_some, hvalue, Option.some.injEq, eq_comm]
  | none =>
    refine Reads.fail.congr fun out value => ⟨fun h => ?_, False.elim⟩
    rw [← ofUtf8_eq_some, hvalue] at h
    cases h.2

theorem reads_string (label : String) : Reads (WrittenBy writeString) (readString label) := by
  refine ((reads_len _ _ "string length").bind fun length =>
    (reads_exactly length label).bind (reads_textOf label)).congr fun out value => ?_
  refine joined_two_eq_ok.trans ⟨?_, ?_⟩
  · rintro ⟨length, hlength, _, hbytes, rfl⟩
    obtain rfl := Except.ok.inj hbytes
    exact ⟨_, length, hlength, utf8 value, ⟨utf8 value, utf8 value, ⟨rfl, rfl⟩, [], ⟨rfl, rfl⟩,
      (List.append_nil _).symm⟩, rfl⟩
  · rintro ⟨count, length, hlength, _, ⟨_, _, ⟨hcount, rfl⟩, _, ⟨rfl, rfl⟩, rfl⟩, rfl⟩
    rw [← hcount] at hlength
    exact ⟨length, hlength, utf8 value, rfl, by rw [List.append_nil]⟩

/-- A text that is parsed, and nothing is read behind it. -/
theorem reads_parsed {label : String} {spelling : α → String} {parse : String → ModuleReader α}
    (hparse : ∀ raw, Reads (fun out value => out = [] ∧ raw = spelling value) (parse raw)) :
    Reads (WrittenBy fun value => writeString (spelling value))
      (readString label >>= parse) := by
  refine ((reads_string label).bind hparse).congr fun out value => ⟨fun h => ?_, ?_⟩
  · exact ⟨spelling value, out, h, [], ⟨rfl, rfl⟩, (List.append_nil _).symm⟩
  · rintro ⟨_, first, h, _, ⟨rfl, rfl⟩, rfl⟩
    rw [List.append_nil]
    exact h

theorem reads_field : Reads (WrittenBy writeField) readField := by
  refine reads_parsed fun raw => ?_
  unfold fieldOf FieldName.parse
  by_cases hvalid : isFieldName raw = true
  · rw [dif_pos hvalid]
    refine (Reads.pure _).congr fun out value => and_congr_right fun _ => ?_
    rw [FieldName.mk.injEq, eq_comm]
  · rw [dif_neg hvalid]
    exact Reads.fail.congr fun out value => ⟨fun h => hvalid (h.2 ▸ value.valid), False.elim⟩

theorem reads_typePath (label : String) : Reads (WrittenBy writeTypePath) (readTypePath label) := by
  refine reads_parsed fun raw => ?_
  unfold typePathOf TypePath.parse
  by_cases hvalid : isTypePath raw = true
  · rw [dif_pos hvalid]
    refine (Reads.pure _).congr fun out value => and_congr_right fun _ => ?_
    rw [TypePath.mk.injEq, eq_comm]
  · rw [dif_neg hvalid]
    exact Reads.fail.congr fun out value => ⟨fun h => hvalid (h.2 ▸ value.valid), False.elim⟩

/-! ## Tags -/

/-- The tag of a value is its place among the members. -/
theorem reads_tag {tagOf : α → UInt8} {members : List α} (label what : String)
    (hnodup : members.Nodup) (hmembers : ∀ value, members[(tagOf value).toNat]? = some value) :
    Reads (WrittenBy fun value => writeU8 (tagOf value)) (readTag label what members) := by
  have hplace (tag : UInt8) (value : α) : members[tag.toNat]? = some value ↔ tag = tagOf value := by
    constructor
    · intro htag
      obtain ⟨hlt, hvalue⟩ := List.getElem?_eq_some_iff.1 htag
      obtain ⟨hlt', hvalue'⟩ := List.getElem?_eq_some_iff.1 (hmembers value)
      exact UInt8.toNat_inj.1 ((hnodup.getElem_inj_iff).1 (hvalue.trans hvalue'.symm))
    · rintro rfl
      exact hmembers value
  have hmember (tag : UInt8) :
      Reads (fun out value => out = [] ∧ tag = tagOf value) (memberOf what members tag) := by
    unfold memberOf
    cases hvalue : members[tag.toNat]? with
    | some value =>
      refine (Reads.pure value).congr fun out other => and_congr_right fun _ => ?_
      rw [← hplace, hvalue, Option.some.injEq, eq_comm]
    | none =>
      refine Reads.fail.congr fun out value => ⟨fun h => ?_, False.elim⟩
      rw [← hplace, hvalue] at h
      cases h.2
  refine ((reads_u8 label).bind hmember).congr fun out value => ⟨fun h => ?_, ?_⟩
  · exact ⟨tagOf value, out, h, [], ⟨rfl, rfl⟩, (List.append_nil _).symm⟩
  · rintro ⟨_, first, h, _, ⟨rfl, rfl⟩, rfl⟩
    rw [List.append_nil]
    exact h

theorem reads_typePredicate : Reads (WrittenBy writeTypePredicate) readTypePredicate :=
  reads_tag _ _ (by decide) fun value => by cases value <;> rfl

theorem reads_compound (what : String) : Reads (WrittenBy writeCompound) (readCompound what) :=
  reads_tag _ _ (by decide) fun value => by cases value <;> rfl

/-! ## Optional values and vectors -/

section

variable {write : α → Encoded} {read : ModuleReader α}

theorem reads_optional {valid : α → Prop}
    (h : Reads (fun out a => valid a ∧ write a = .ok out) read) (label : String) :
    Reads (fun out value => (∀ a, value = some a → valid a) ∧ writeOptional write value = .ok out)
      (readOptional label read) := by
  have hvalue (present : Bool) : Reads (fun out value =>
      (present = true ∧ ∃ a, (valid a ∧ write a = .ok out) ∧ value = some a) ∨
        (present = false ∧ out = [] ∧ value = none))
      (if present then read >>= fun a => pure (some a) else pure none) := by
    cases present with
    | true =>
      refine (h.map some).congr fun out value => ?_
      simp only [true_and, Bool.true_eq_false, false_and, or_false]
    | false =>
      refine (Reads.pure none).congr fun out value => ?_
      simp only [Bool.false_eq_true, false_and, true_and, false_or]
  refine ((reads_boolean label).bind hvalue).congr fun out value => ⟨fun hout => ?_, ?_⟩
  · obtain ⟨hvalid, hout⟩ := hout
    cases value with
    | some a =>
      obtain ⟨first, hfirst, last, hlast, rfl⟩ := joined_two_eq_ok.1 hout
      exact ⟨true, first, hfirst, last, Or.inl ⟨rfl, a, ⟨hvalid a rfl, hlast⟩, rfl⟩, rfl⟩
    | none =>
      exact ⟨false, out, hout, [], Or.inr ⟨rfl, rfl, rfl⟩, (List.append_nil out).symm⟩
  · rintro ⟨present, first, hfirst, last, ⟨rfl, a, ⟨hvalid, hlast⟩, rfl⟩ | ⟨rfl, rfl, rfl⟩, rfl⟩
    · refine ⟨fun b hb => ?_, joined_two_eq_ok.2 ⟨first, hfirst, last, hlast, rfl⟩⟩
      rw [← Option.some.inj hb]
      exact hvalid
    · rw [List.append_nil]
      exact ⟨fun b hb => (by cases hb), hfirst⟩

theorem reads_option (h : Reads (WrittenBy write) read) (label : String) :
    Reads (WrittenBy (writeOptional write)) (readOptional label read) := by
  refine (reads_optional (h.congr fun out a => (and_iff_right trivial : True ∧ WrittenBy write out a ↔ _)) label).congr
    fun out value => ⟨fun hout => ⟨fun _ _ => trivial, hout⟩, And.right⟩

/-- So many items, for which there have to be bytes enough. -/
theorem reads_items {least : Nat} (h : Reads (WrittenBy write) read) (hpos : 0 < least)
    (hleast : ∀ out a, write a = .ok out → least ≤ out.length) (text : String) (count : Nat) :
    Reads (Repeated (WrittenBy write) count)
      (demandItems count least text >>= fun _ => readMany (fun _ => read) 0 count) := by
  refine (h.many 0 count).demanded _ fun out values rest hout => ?_
  have hlength := hout.length_le hleast
  rw [Nat.le_div_iff_mul_le hpos, List.length_append]
  omega

theorem reads_vector {least max : Nat} (h : Reads (WrittenBy write) read) (hpos : 0 < least)
    (hleast : ∀ out a, write a = .ok out → least ≤ out.length)
    (label : String) :
    Reads (WrittenBy (writeVector max label write))
      (readLenWithMin max label least >>= fun length => readMany (fun _ => read) 0 length) := by
  have hread : (readLenWithMin max label least >>= fun length => readMany (fun _ => read) 0 length) =
      readLen max label >>= fun length =>
        demandItems length least s!"truncated {label}" >>= fun _ => readMany (fun _ => read) 0 length := by
    simp only [readLenWithMin, bind_assoc, pure_bind]
  rw [hread]
  refine ((reads_len max label label).bind fun length => reads_items h hpos hleast _ length).congr
    fun out values => ?_
  show joined _ = .ok out ↔ _
  simp only [joined_cons_eq_ok, joined_map_eq_ok]
  constructor
  · rintro ⟨first, hfirst, last, hlast, rfl⟩
    exact ⟨_, first, hfirst, last, hlast, rfl⟩
  · rintro ⟨count, first, hfirst, last, hlast, rfl⟩
    obtain rfl := hlast.1
    exact ⟨first, hfirst, last, hlast, rfl⟩

end

theorem length_of_u8 {out : Bytes} {value : UInt8} (h : writeU8 value = .ok out) : out.length = 1 := by
  obtain rfl := Except.ok.inj h
  rfl

theorem length_of_u16 {out : Bytes} {value : UInt16} (h : writeU16 value = .ok out) :
    out.length = 2 := by
  obtain rfl := Except.ok.inj h
  exact length_toLittleEndian 2 _

/-- A text takes up four bytes at least. -/
theorem length_of_string {out : Bytes} {value : String} (h : writeString value = .ok out) :
    4 ≤ out.length := by
  obtain ⟨first, hfirst, last, -, rfl⟩ := joined_two_eq_ok.1 h
  obtain ⟨-, -, rfl⟩ := writeLen_eq_ok.1 hfirst
  rw [List.length_append, length_toLittleEndian]
  omega

theorem length_of_optional {write : α → Encoded} {out : Bytes} {value : Option α}
    (h : writeOptional write value = .ok out) : 1 ≤ out.length := by
  cases value with
  | none => exact (length_of_u8 h).ge
  | some a =>
    obtain ⟨first, hfirst, last, -, rfl⟩ := joined_two_eq_ok.1 h
    have hlength := length_of_u8 hfirst
    rw [List.length_append]
    omega

theorem reads_optionalString : Reads (WrittenBy writeOptionalString) readOptionalString :=
  reads_option (reads_string _) _

theorem reads_optionalStrings : Reads (WrittenBy writeOptionalStrings) readOptionalStrings :=
  reads_vector reads_optionalString (by decide) (fun _ _ => length_of_optional) _

theorem reads_optionalU16 : Reads (WrittenBy writeOptionalU16) readOptionalU16 :=
  reads_option (reads_u16 _) _

theorem reads_fields : Reads (WrittenBy writeFields) readFields :=
  reads_vector reads_field (by decide) (fun _ _ => length_of_string) _

theorem reads_u16s : Reads (WrittenBy writeU16s) readU16s :=
  reads_vector (reads_u16 _) (by decide) (fun _ _ h => (length_of_u16 h).ge) _

theorem reads_booleans : Reads (WrittenBy writeBooleans) readBooleans :=
  reads_vector (reads_boolean _) (by decide) (fun _ _ h => (length_of_u8 h).ge) _

theorem reads_listEntryKinds : Reads (WrittenBy writeListEntryKinds) readListEntryKinds :=
  reads_vector (reads_tag _ _ (by decide) fun value => by cases value <;> rfl) (by decide)
    (fun _ _ h => (length_of_u8 h).ge) _

/-! ## Procedures -/

theorem reads_checked {check : Except ModuleCodecError Unit} (value : α) :
    Reads (fun out a => check = .ok () ∧ out = [] ∧ a = value) (checked check value) := by
  unfold checked
  cases check with
  | error error => exact Reads.fail.congr fun out a => ⟨fun h => (by cases h.1), False.elim⟩
  | ok => exact (Reads.pure value).congr fun out a => ⟨And.right, fun h => ⟨rfl, h⟩⟩

theorem validateProcedure_eq_ok {procedure : ProcedureId} {procedureCount : Nat} :
    validateProcedure procedure procedureCount = .ok () ↔ procedure.toNat < procedureCount := by
  rw [validateProcedure, refuse_eq_ok, Nat.not_le]
  exact and_iff_left rfl

/-- A procedure of the module. -/
theorem reads_procedure (procedureCount : Nat) :
    Reads (fun out (procedure : ProcedureId) => procedure.toNat < procedureCount ∧
      writeU32 procedure = .ok out) (readProcedure procedureCount) := by
  refine ((reads_u32 "procedure id").bind fun value => reads_checked value).congr
    fun out procedure => ⟨fun h => ?_, ?_⟩
  · exact ⟨procedure, out, h.2, [], ⟨validateProcedure_eq_ok.2 h.1, rfl, rfl⟩,
      (List.append_nil out).symm⟩
  · rintro ⟨_, first, h, _, ⟨hcheck, rfl, rfl⟩, rfl⟩
    rw [List.append_nil]
    exact ⟨validateProcedure_eq_ok.1 hcheck, h⟩

end Dream64.Bytecode
