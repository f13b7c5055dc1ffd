import Dream64.Bytecode.InstructionCodec

/-!
# Reading the programs

`decodeProgram` reads what `encodeProgram` writes of the programs that pass the
checks and whose atom masks are unions of the four flags, and nothing else.
-/

namespace Dream64.Bytecode

open Codec

variable {α : Type}

/-! ## Verb parameters -/

/-- A mask is a union of obj=1, mob=2, turf=4 and area=8, and not empty. -/
def VerbParameterType.IsUnion : VerbParameterType → Prop
  | .atom mask => mask ≠ 0 ∧ mask &&& 0x0f = mask
  | _ => True

theorem bits_of_tag : ∀ tag : BitVec 8, tag &&& 0xf0#8 = 0x80#8 →
    0x80#8 ||| (tag &&& 0x0f#8 &&& 0x0f#8) = tag ∧ tag &&& 0x0f#8 &&& 0x0f#8 = tag &&& 0x0f#8 := by
  decide +kernel

theorem bits_of_mask : ∀ mask : BitVec 8, mask &&& 0x0f#8 = mask →
    (0x80#8 ||| (mask &&& 0x0f#8)) &&& 0xf0#8 = 0x80#8 ∧
      (0x80#8 ||| (mask &&& 0x0f#8)) &&& 0x0f#8 = mask ∧
      6 < (0x80#8 ||| (mask &&& 0x0f#8)).toNat := by
  decide +kernel

/-- The tag of an atom type is none of the others, and its mask is found in it. -/
theorem tag_of_mask {mask : UInt8} (h : mask &&& 0x0f = mask) :
    (0x80 ||| (mask &&& 0x0f)) &&& 0xf0 = 0x80 ∧ (0x80 ||| (mask &&& 0x0f)) &&& 0x0f = mask ∧
      6 < (0x80 ||| (mask &&& 0x0f)).toNat := by
  have hbits := bits_of_mask mask.toBitVec (congrArg UInt8.toBitVec h)
  exact ⟨UInt8.toBitVec_inj.1 hbits.1, UInt8.toBitVec_inj.1 hbits.2.1, hbits.2.2⟩

theorem mask_of_tag {tag : UInt8} (h : tag &&& 0xf0 = 0x80) :
    0x80 ||| (tag &&& 0x0f &&& 0x0f) = tag ∧ tag &&& 0x0f &&& 0x0f = tag &&& 0x0f := by
  have hbits := bits_of_tag tag.toBitVec (congrArg UInt8.toBitVec h)
  exact ⟨UInt8.toBitVec_inj.1 hbits.1, UInt8.toBitVec_inj.1 hbits.2⟩

theorem plain_tag {place : Nat} {type : VerbParameterType}
    (h : plainParameterTypes[place]? = some type) :
    type.IsUnion ∧ (verbParameterTypeTag type).toNat = place := by
  obtain ⟨hlt, htype⟩ := List.getElem?_eq_some_iff.1 h
  have hplace : place < 7 := hlt
  interval_cases place <;> cases htype <;> exact ⟨trivial, rfl⟩

theorem reads_verbParameterType :
    Reads (fun out type => VerbParameterType.IsUnion type ∧ writeU8 (verbParameterTypeTag type) = .ok out)
      readVerbParameterType where
  complete {out type} h rest := by
    obtain ⟨hunion, hout⟩ := h
    obtain rfl := Except.ok.inj hout
    cases type with
    | atom mask =>
      obtain ⟨hmask, hflags⟩ := hunion
      obtain ⟨hhigh, hlow, hlarge⟩ := tag_of_mask hflags
      have hplain : plainParameterTypes[(0x80 ||| (mask &&& 0x0f)).toNat]? = none :=
        List.getElem?_eq_none hlarge
      rw [readVerbParameterType, (reads_u8 _).step rfl, verbParameterTypeTag, verbParameterTypeOf,
        hplain]
      dsimp only
      rw [if_pos ⟨hhigh, hlow.symm ▸ hmask⟩, hlow]
      rfl
    | _ => rfl
  sound {bytes rest type} hread := by
    obtain ⟨tag, out, rest', hout, rfl, hnext⟩ := (reads_u8 _).split hread
    obtain rfl := Except.ok.inj hout
    rw [verbParameterTypeOf] at hnext
    cases hplain : plainParameterTypes[tag.toNat]? with
    | some plain =>
      rw [hplain] at hnext
      cases hnext
      obtain ⟨hunion, htag⟩ := plain_tag hplain
      exact ⟨[tag], ⟨hunion, by rw [UInt8.toNat_inj.1 htag]; rfl⟩, rfl⟩
    | none =>
      rw [hplain] at hnext
      dsimp only at hnext
      by_cases hmask : tag &&& 0xf0 = 0x80 ∧ tag &&& 0x0f ≠ 0
      · rw [if_pos hmask] at hnext
        cases hnext
        obtain ⟨htag, hflags⟩ := mask_of_tag hmask.1
        refine ⟨[tag], ⟨⟨hmask.2, hflags⟩, ?_⟩, rfl⟩
        rw [verbParameterTypeTag, htag]
        rfl
      · rw [if_neg hmask] at hnext
        cases hnext

/-! ## Tables -/

theorem readLenWithMin_step {max least count : Nat} {label : String} {rest : Bytes}
    (hmax : count ≤ max) (hwide : count < 2 ^ 32) (hpos : 0 < least)
    (hfits : count * least ≤ rest.length) (next : Nat → ModuleReader α) :
    (readLenWithMin max label least >>= next) (toLittleEndian 4 count ++ rest) = next count rest := by
  have hread : readLenWithMin max label least >>= next = readLen max label >>= fun length =>
      demandItems length least s!"truncated {label}" >>= fun _ => next length := by
    simp only [readLenWithMin, bind_assoc, pure_bind]
  rw [hread, (reads_bounded max label).step ⟨hmax, hwide, rfl⟩, bind_apply, demandItems, demand,
    if_pos ((Nat.le_div_iff_mul_le hpos).2 hfits)]
  rfl

theorem readLenWithMin_split {max least : Nat} {label : String} {bytes rest : Bytes}
    {next : Nat → ModuleReader α} {a : α}
    (hread : (readLenWithMin max label least >>= next) bytes = .ok (a, rest)) :
    ∃ count rest', count ≤ max ∧ count < 2 ^ 32 ∧ bytes = toLittleEndian 4 count ++ rest' ∧
      next count rest' = .ok (a, rest) := by
  have heq : readLenWithMin max label least >>= next = readLen max label >>= fun length =>
      demandItems length least s!"truncated {label}" >>= fun _ => next length := by
    simp only [readLenWithMin, bind_assoc, pure_bind]
  rw [heq] at hread
  obtain ⟨count, out, rest', ⟨hmax, hwide, rfl⟩, rfl, hnext⟩ :=
    (reads_bounded max label).split hread
  rw [bind_apply, demandItems, demand] at hnext
  split at hnext
  · exact ⟨count, rest', hmax, hwide, rfl, hnext⟩
  · cases hnext

theorem writeVector_eq_ok {max : Nat} {label : String} {write : α → Encoded} {values : List α}
    {out : Bytes} : writeVector max label write values = .ok out ↔
      values.length ≤ max ∧ values.length < 2 ^ 32 ∧ ∃ items, joined (values.map write) = .ok items ∧
        out = toLittleEndian 4 values.length ++ items := by
  rw [writeVector, joined_cons_eq_ok]
  constructor
  · rintro ⟨first, hfirst, items, hitems, rfl⟩
    obtain ⟨hmax, hwide, rfl⟩ := writeLen_eq_ok.1 hfirst
    exact ⟨hmax, hwide, items, hitems, rfl⟩
  · rintro ⟨hmax, hwide, items, hitems, rfl⟩
    exact ⟨_, writeLen_eq_ok.2 ⟨hmax, hwide, rfl⟩, items, hitems, rfl⟩

section

variable {write : α → Encoded} {read : ModuleReader α} {valid : α → Prop}

/-- Valid items are long enough for their number. -/
theorem length_of_items {least : Nat} (hleast : ∀ out a, write a = .ok out → least ≤ out.length)
    {values : List α} {items : Bytes} (hitems : joined (values.map write) = .ok items) :
    values.length * least ≤ items.length :=
  (joined_map_eq_ok.1 hitems).length_le hleast

/-- A table that has as many entries as expected. -/
theorem reads_table {least : Nat} (h : Reads (fun out a => valid a ∧ write a = .ok out) read)
    (hpos : 0 < least) (hleast : ∀ out a, write a = .ok out → least ≤ out.length) (max : Nat)
    (label : String) (expected : Nat) (differ : String) :
    Reads (fun out values => (values.length = expected ∧ expected ≤ max ∧ expected < 2 ^ 32 ∧
        ∀ a ∈ values, valid a) ∧ ∃ items, joined (values.map write) = .ok items ∧
          out = toLittleEndian 4 expected ++ items)
      (readTable max label least expected differ read) where
  complete {out values} hout rest := by
    obtain ⟨⟨hlength, hmax, hwide, hvalid⟩, items, hitems, rfl⟩ := hout
    have hfits : expected * least ≤ (items ++ rest).length := by
      have hitemsLength := length_of_items hleast hitems
      rw [hlength] at hitemsLength
      rw [List.length_append]
      omega
    rw [readTable, List.append_assoc, readLenWithMin_step hmax hwide hpos hfits, if_neg (by simp)]
    exact (h.many 0 expected).complete (repeated_valid.2 ⟨hlength, hvalid, hitems⟩) rest
  sound {bytes rest values} hread := by
    rw [readTable] at hread
    obtain ⟨count, rest', hmax, hwide, rfl, hnext⟩ := readLenWithMin_split hread
    by_cases hcount : count = expected
    · subst hcount
      rw [if_neg (by simp)] at hnext
      obtain ⟨items, hitems, rfl⟩ := (h.many 0 count).sound hnext
      obtain ⟨hlength, hvalid, hjoined⟩ := repeated_valid.1 hitems
      exact ⟨_, ⟨⟨hlength, hmax, hwide, hvalid⟩, items, hjoined, rfl⟩, (List.append_assoc ..).symm⟩
    · rw [if_pos hcount] at hnext
      cases hnext

end

/-! ## Checked programs -/

theorem forM_eq_ok {check : α → Except ModuleCodecError Unit} {values : List α} {u : PUnit} :
    values.forM check = .ok u ↔ ∀ a ∈ values, check a = .ok () := by
  induction values with
  | nil => exact ⟨fun _ a ha => absurd ha List.not_mem_nil, fun _ => rfl⟩
  | cons a values ih =>
    show (check a >>= fun _ => values.forM check) = .ok u ↔ _
    rw [List.forall_mem_cons, bind_eq_ok_iff, ← ih]
    constructor
    · rintro ⟨_, ha, hvalues⟩
      exact ⟨ha, hvalues⟩
    · rintro ⟨ha, hvalues⟩
      exact ⟨(), ha, hvalues⟩

/-- What `validate_program` asks for. -/
structure Program.Checked (program : Program) (procedureCount : Nat) : Prop where
  instructionCount : program.instructions.length ≤ maxInstructionsPerProgram
  spanCount : program.sourceSpans.length = program.instructions.length
  nameCount : program.parameterNames.length = program.parameterCount
  typeCount : program.verbParameterTypes.length = program.parameterCount
  parameters : program.parameterCount ≤ program.localCount
  locals : program.localCount ≤ 65535
  spans : ∀ span ∈ program.sourceSpans, validateSpan span = .ok ()
  instructions : ∀ i ∈ program.instructions,
    validateInstruction program.instructions.length procedureCount i = .ok ()

theorem validateProgram_eq_ok {program : Program} {procedureCount : Nat} :
    validateProgram program procedureCount = .ok () ↔ program.Checked procedureCount := by
  simp only [validateProgram, refuse_eq_ok, bind_eq_ok_iff, forM_eq_ok]
  constructor
  · rintro ⟨hcount, hspans, hnames, htypes, hparameters, hslots, _, hspan, hinstructions⟩
    exact ⟨Nat.not_lt.1 hcount, not_not.1 hspans, not_not.1 hnames, not_not.1 htypes,
      Nat.not_lt.1 hparameters, by omega, hspan, hinstructions⟩
  · intro h
    have hparameters := h.parameters
    have hlocals := h.locals
    exact ⟨Nat.not_lt.2 h.instructionCount, not_not.2 h.spanCount, not_not.2 h.nameCount,
      not_not.2 h.typeCount, Nat.not_lt.2 hparameters, by omega, (), h.spans, h.instructions⟩

theorem refers_of_validate {instructionCount procedureCount : Nat} {i : Instruction}
    (h : validateInstruction instructionCount procedureCount i = .ok ()) : i.Refers procedureCount := by
  intro procedure hmem
  cases i with
  | call target count names =>
    rw [List.mem_singleton.1 hmem]
    exact validateProcedure_eq_ok.1 h
  | callParent target? count =>
    cases target? with
    | none => exact absurd hmem List.not_mem_nil
    | some target =>
      rw [List.mem_singleton.1 hmem]
      exact validateProcedure_eq_ok.1 h
  | _ => exact absurd hmem List.not_mem_nil

theorem validateSpan_eq_ok {span : SourceSpan} :
    validateSpan span = .ok () ↔ span.start ≤ span.stop ∧ span.start < 2 ^ 64 ∧ span.stop < 2 ^ 64 := by
  rw [validateSpan, refuse_eq_ok, refuse_eq_ok, not_or, Nat.not_lt, Nat.not_le, Nat.not_le]
  exact and_congr_right fun _ => and_iff_left rfl

theorem reads_span :
    Reads (fun out span => validateSpan span = .ok () ∧ writeSpan span = .ok out) readSpan where
  complete {out span} h rest := by
    obtain ⟨hvalid, hout⟩ := h
    obtain ⟨hle, hstart, hstop⟩ := validateSpan_eq_ok.1 hvalid
    obtain ⟨first, hfirst, last, hlast, rfl⟩ := joined_two_eq_ok.1 hout
    obtain rfl := Except.ok.inj hfirst
    obtain rfl := Except.ok.inj hlast
    rw [readSpan, List.append_assoc, (reads_wide 8 _).step ⟨hstart, rfl⟩,
      (reads_wide 8 _).step ⟨hstop, rfl⟩, if_neg (Nat.not_lt.2 hle)]
    rfl
  sound {bytes rest span} hread := by
    obtain ⟨start, _, rest₁, ⟨hstart, rfl⟩, rfl, hread₁⟩ := (reads_wide 8 _).split hread
    obtain ⟨stop, _, rest₂, ⟨hstop, rfl⟩, rfl, hread₂⟩ := (reads_wide 8 _).split hread₁
    by_cases hlt : stop < start
    · rw [if_pos hlt] at hread₂
      cases hread₂
    · rw [if_neg hlt] at hread₂
      cases hread₂
      exact ⟨_, ⟨validateSpan_eq_ok.2 ⟨Nat.not_lt.1 hlt, hstart, hstop⟩,
        joined_two_eq_ok.2 ⟨_, rfl, _, rfl, rfl⟩⟩, (List.append_assoc ..).symm⟩

theorem length_of_span {out : Bytes} {span : SourceSpan} (h : writeSpan span = .ok out) :
    out.length = 16 := by
  obtain ⟨first, hfirst, last, hlast, rfl⟩ := joined_two_eq_ok.1 h
  obtain rfl := Except.ok.inj hfirst
  obtain rfl := Except.ok.inj hlast
  rw [List.length_append, length_toLittleEndian, length_toLittleEndian]

/-- Every instruction has its tag. -/
theorem length_of_instruction {out : Bytes} {i : Instruction} (h : encodeInstruction i = .ok out) :
    1 ≤ out.length := by
  have htag : ∃ tag operands, encodeInstruction i = tagged tag operands := by
    cases i <;> exact ⟨_, _, rfl⟩
  obtain ⟨tag, operands, heq⟩ := htag
  rw [heq] at h
  obtain ⟨tail, -, rfl⟩ := tagged_eq_ok.1 h
  exact Nat.succ_le_of_lt (Nat.zero_lt_succ _)

/-- The parts of a program that is written. -/
theorem encodeProgram_eq_ok {program : Program} {out : Bytes} :
    encodeProgram program = .ok out ↔ ∃ waitFor names types verbName instructions spans,
      writeBoolean program.waitFor = .ok waitFor ∧
      writeVector (2 ^ 32 - 1) "parameter name count" writeString program.parameterNames = .ok names ∧
      writeVector (2 ^ 32 - 1) "verb parameter type count"
        (fun type => writeU8 (verbParameterTypeTag type)) program.verbParameterTypes = .ok types ∧
      writeOptional writeString program.verbName = .ok verbName ∧
      writeVector maxInstructionsPerProgram "instruction count" encodeInstruction
        program.instructions = .ok instructions ∧
      writeVector maxInstructionsPerProgram "source span count" writeSpan program.sourceSpans =
        .ok spans ∧
      out = waitFor ++ (toLittleEndian 4 program.parameterCount ++ (names ++ (types ++ (verbName ++
        (toLittleEndian 4 program.localCount ++ (instructions ++ spans)))))) := by
  simp only [encodeProgram, joined_cons_eq_ok, joined_nil_eq_ok, writeCount, Except.ok.injEq]
  constructor
  · rintro ⟨waitFor, hwaitFor, _, ⟨_, rfl, _, ⟨names, hnames, _, ⟨types, htypes, _, ⟨verbName, hverbName,
      _, ⟨_, rfl, _, ⟨instructions, hinstructions, _, ⟨spans, hspans, _, rfl, rfl⟩, rfl⟩, rfl⟩, rfl⟩, rfl⟩,
      rfl⟩, rfl⟩, rfl⟩
    exact ⟨waitFor, names, types, verbName, instructions, spans, hwaitFor, hnames, htypes, hverbName,
      hinstructions, hspans, by rw [List.append_nil]⟩
  · rintro ⟨waitFor, names, types, verbName, instructions, spans, hwaitFor, hnames, htypes, hverbName,
      hinstructions, hspans, rfl⟩
    exact ⟨waitFor, hwaitFor, _, ⟨_, rfl, _, ⟨names, hnames, _, ⟨types, htypes, _, ⟨verbName, hverbName,
      _, ⟨_, rfl, _, ⟨instructions, hinstructions, _, ⟨spans, hspans, _, rfl, rfl⟩, rfl⟩, rfl⟩, rfl⟩, rfl⟩,
      rfl⟩, rfl⟩, by rw [List.append_nil]⟩

/-- The atom masks of a program are unions of the four flags. -/
def Program.HasUnions (program : Program) : Prop :=
  ∀ type ∈ program.verbParameterTypes, type.IsUnion

theorem reads_any {read : ModuleReader String}
    (h : Reads (WrittenBy writeString) read) :
    Reads (fun out a => True ∧ writeString a = .ok out) read :=
  h.congr fun _ _ => and_iff_right trivial

theorem reads_program (procedureCount : Nat) :
    Reads (fun out program => (program.Checked procedureCount ∧ program.HasUnions) ∧
      encodeProgram program = .ok out) (decodeProgram procedureCount) where
  complete {out program} h rest := by
    obtain ⟨⟨hchecked, hunions⟩, hout⟩ := h
    obtain ⟨waitFor, names, types, verbName, instructions, spans, hwaitFor, hnames, htypes, hverbName,
      hinstructions, hspans, rfl⟩ := encodeProgram_eq_ok.1 hout
    have hparameters := hchecked.parameters
    have hlocals := hchecked.locals
    have hcount := hchecked.instructionCount
    rw [maxInstructionsPerProgram] at hcount
    obtain ⟨-, -, nameItems, hnameItems, rfl⟩ := writeVector_eq_ok.1 hnames
    obtain ⟨-, -, typeItems, htypeItems, rfl⟩ := writeVector_eq_ok.1 htypes
    obtain ⟨hmax, hwide, items, hitems, rfl⟩ := writeVector_eq_ok.1 hinstructions
    obtain ⟨-, -, spanItems, hspanItems, rfl⟩ := writeVector_eq_ok.1 hspans
    have hnameTable := (reads_table (reads_any (reads_string "parameter name")) (by decide)
      (fun _ _ => length_of_string) maxVectorElements "parameter name count" program.parameterCount
      "parameter name and parameter count differ").step (β := Program)
      ⟨⟨hchecked.nameCount, by rw [maxVectorElements]; omega, by omega, fun _ _ => trivial⟩, nameItems,
        hnameItems, rfl⟩
    have htypeTable := (reads_table reads_verbParameterType (by decide)
      (fun _ _ h => (length_of_u8 h).ge) maxVectorElements "verb parameter type count"
      program.parameterCount "verb parameter type and parameter count differ").step (β := Program)
      ⟨⟨hchecked.typeCount, by rw [maxVectorElements]; omega, by omega, hunions⟩, typeItems,
        htypeItems, rfl⟩
    have hspanTable := (reads_table reads_span (by decide) (fun _ _ h => (length_of_span h).ge)
      maxInstructionsPerProgram "source span count" program.instructions.length
      "instruction and source-span table lengths differ").step (β := Program)
      ⟨⟨hchecked.spanCount, hmax, hwide, hchecked.spans⟩, spanItems, hspanItems, rfl⟩
    have hinstructionTable := ((reads_instruction procedureCount).many 0
      program.instructions.length).step (β := Program) (repeated_valid.2
        ⟨rfl, fun i hi => refers_of_validate (hchecked.instructions i hi), hitems⟩)
    have hfits (more : Bytes) : program.instructions.length * 1 ≤ (items ++ more).length := by
      have hlength := length_of_items (fun _ _ => length_of_instruction) hitems
      rw [List.length_append]
      omega
    rw [hchecked.nameCount, hchecked.typeCount, hchecked.spanCount]
    simp only [List.append_assoc] at hnameTable htypeTable hspanTable ⊢
    rw [decodeProgram, (reads_boolean _).step hwaitFor, (reads_wide 4 _).step ⟨by omega, rfl⟩,
      if_neg (by rw [maxVectorElements]; omega), hnameTable, htypeTable,
      (reads_option (reads_string _) _).step hverbName, (reads_wide 4 _).step ⟨by omega, rfl⟩,
      if_neg (by omega), readLenWithMin_step hmax hwide (by decide) (hfits _), hinstructionTable,
      hspanTable]
    exact (reads_checked program).complete ⟨validateProgram_eq_ok.2 hchecked, rfl, rfl⟩ rest
  sound {bytes rest program} hread := by
    obtain ⟨waitFor, waitForBytes, rest₁, hwaitFor, rfl, hread₁⟩ := (reads_boolean _).split hread
    obtain ⟨parameterCount, _, rest₂, ⟨hparameterWide, rfl⟩, rfl, hread₂⟩ :=
      (reads_wide 4 _).split hread₁
    by_cases hlarge : maxVectorElements < parameterCount
    · rw [if_pos hlarge] at hread₂
      cases hread₂
    rw [if_neg hlarge] at hread₂
    obtain ⟨names, _, rest₃, ⟨⟨hnames, -, -, -⟩, nameItems, hnameItems, rfl⟩, rfl, hread₃⟩ :=
      (reads_table (reads_any (reads_string _)) (by decide) (fun _ _ => length_of_string) _ _ _ _).split
        hread₂
    obtain ⟨types, _, rest₄, ⟨⟨htypes, -, -, hunions⟩, typeItems, htypeItems, rfl⟩, rfl, hread₄⟩ :=
      (reads_table reads_verbParameterType (by decide) (fun _ _ h => (length_of_u8 h).ge) _ _ _
        _).split hread₃
    obtain ⟨verbName, verbNameBytes, rest₅, hverbName, rfl, hread₅⟩ :=
      (reads_option (reads_string _) _).split hread₄
    obtain ⟨localCount, _, rest₆, ⟨hlocalWide, rfl⟩, rfl, hread₆⟩ := (reads_wide 4 _).split hread₅
    by_cases hlocals : 65535 < localCount
    · rw [if_pos hlocals] at hread₆
      cases hread₆
    rw [if_neg hlocals] at hread₆
    obtain ⟨count, rest₇, hcount, hcountWide, rfl, hread₇⟩ := readLenWithMin_split hread₆
    obtain ⟨instructions, _, rest₈, hitems, rfl, hread₈⟩ :=
      ((reads_instruction procedureCount).many 0 count).split hread₇
    obtain ⟨hlength, -, hjoined⟩ := repeated_valid.1 hitems
    obtain ⟨spans, _, rest₉, ⟨⟨hspans, -, -, -⟩, spanItems, hspanItems, rfl⟩, rfl, hread₉⟩ :=
      (reads_table reads_span (by decide) (fun _ _ h => (length_of_span h).ge) _ _ _ _).split hread₈
    obtain ⟨_, ⟨hvalid, rfl, rfl⟩, rfl⟩ := (reads_checked _).sound hread₉
    have hchecked := validateProgram_eq_ok.1 hvalid
    have hsmall : parameterCount ≤ 65535 := by
      have hparameters : parameterCount ≤ localCount := hchecked.parameters
      omega
    refine ⟨_, ⟨⟨hchecked, hunions⟩, encodeProgram_eq_ok.2 ⟨waitForBytes,
      toLittleEndian 4 parameterCount ++ nameItems, toLittleEndian 4 parameterCount ++ typeItems,
      verbNameBytes, toLittleEndian 4 count ++ _, toLittleEndian 4 count ++ spanItems, hwaitFor,
      writeVector_eq_ok.2 ⟨show names.length ≤ _ by omega, show names.length < _ by omega, nameItems,
        hnameItems, by rw [hnames]⟩,
      writeVector_eq_ok.2 ⟨show types.length ≤ _ by omega, show types.length < _ by omega, typeItems,
        htypeItems, by rw [htypes]⟩, hverbName,
      writeVector_eq_ok.2 ⟨show instructions.length ≤ _ by omega, show instructions.length < _ by omega,
        _, hjoined, by rw [hlength]⟩,
      writeVector_eq_ok.2 ⟨show spans.length ≤ _ by omega, show spans.length < _ by omega, spanItems,
        hspanItems, by rw [hspans]⟩, rfl⟩⟩, ?_⟩
    simp only [List.append_assoc]

end Dream64.Bytecode
