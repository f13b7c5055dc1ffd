import Dream64.Bytecode.Operands

/-!
# Reading the instructions

`decodeInstruction` reads what `encodeInstruction` writes of the instructions
whose procedures are procedures of the module, and nothing else. Each tag has
its reader; the tag that an instruction is written with is that of its reader.
-/

namespace Dream64.Bytecode

open Codec

/-- The procedures that an instruction names. -/
def Instruction.procedures : Instruction → List ProcedureId
  | .call procedure _ _ => [procedure]
  | .callParent (some procedure) _ => [procedure]
  | _ => []

/-- The procedures that the instruction names are procedures of the module. -/
def Instruction.Refers (procedureCount : Nat) (instruction : Instruction) : Prop :=
  ∀ procedure ∈ instruction.procedures, procedure.toNat < procedureCount

variable {α β γ δ : Type} {write₁ : α → Encoded} {write₂ : β → Encoded} {write₃ : γ → Encoded}
  {write₄ : δ → Encoded} {read₁ : ModuleReader α} {read₂ : ModuleReader β} {read₃ : ModuleReader γ}
  {read₄ : ModuleReader δ} (h₁ : Reads (WrittenBy write₁) read₁) (h₂ : Reads (WrittenBy write₂) read₂)
  (h₃ : Reads (WrittenBy write₃) read₃) (h₄ : Reads (WrittenBy write₄) read₄)

/-! ## Operands -/

section

include h₁

theorem reads_one {make : α → Instruction} :
    Reads (fun out i => ∃ a, i = make a ∧ joined [write₁ a] = .ok out) (one make read₁) := by
  refine (h₁.map make).congr fun out i => ?_
  simp only [joined_cons_eq_ok, joined_nil_eq_ok, exists_eq_left, List.append_nil]
  constructor
  · rintro ⟨a, rfl, _, ha, rfl⟩
    exact ⟨a, ha, rfl⟩
  · rintro ⟨a, ha, rfl⟩
    exact ⟨a, rfl, out, ha, rfl⟩

include h₂

theorem reads_two {make : α → β → Instruction} :
    Reads (fun out i => ∃ a b, i = make a b ∧ joined [write₁ a, write₂ b] = .ok out)
      (two make read₁ read₂) := by
  refine (h₁.bind fun a => (reads_one h₂ : Reads _ (one (make a) read₂))).congr fun out i => ?_
  rw [exists₂_congr fun a b => and_congr_right fun _ => joined_cons_eq_ok]
  constructor
  · rintro ⟨a, b, rfl, first, ha, last, hb, rfl⟩
    exact ⟨a, first, ha, last, ⟨b, rfl, hb⟩, rfl⟩
  · rintro ⟨a, first, ha, last, ⟨b, rfl, hb⟩, rfl⟩
    exact ⟨a, b, rfl, first, ha, last, hb, rfl⟩

include h₃

theorem reads_three {make : α → β → γ → Instruction} :
    Reads (fun out i => ∃ a b c, i = make a b c ∧
      joined [write₁ a, write₂ b, write₃ c] = .ok out) (three make read₁ read₂ read₃) := by
  refine (h₁.bind fun a => (reads_two h₂ h₃ : Reads _ (two (make a) read₂ read₃))).congr fun out i => ?_
  rw [exists₃_congr fun a b c => and_congr_right fun _ => joined_cons_eq_ok]
  constructor
  · rintro ⟨a, b, c, rfl, first, ha, last, hb, rfl⟩
    exact ⟨a, first, ha, last, ⟨b, c, rfl, hb⟩, rfl⟩
  · rintro ⟨a, first, ha, last, ⟨b, c, rfl, hb⟩, rfl⟩
    exact ⟨a, b, c, rfl, first, ha, last, hb, rfl⟩

include h₄

theorem reads_four {make : α → β → γ → δ → Instruction} :
    Reads (fun out i => ∃ a b c d, i = make a b c d ∧
      joined [write₁ a, write₂ b, write₃ c, write₄ d] = .ok out)
      (four make read₁ read₂ read₃ read₄) := by
  refine (h₁.bind fun a => (reads_three h₂ h₃ h₄ :
    Reads _ (three (make a) read₂ read₃ read₄))).congr fun out i => ?_
  rw [exists₄_congr fun a b c d => and_congr_right fun _ => joined_cons_eq_ok]
  constructor
  · rintro ⟨a, b, c, d, rfl, first, ha, last, hb, rfl⟩
    exact ⟨a, first, ha, last, ⟨b, c, d, rfl, hb⟩, rfl⟩
  · rintro ⟨a, first, ha, last, ⟨b, c, d, rfl, hb⟩, rfl⟩
    exact ⟨a, b, c, d, rfl, first, ha, last, hb, rfl⟩

end

/-! ## What a reader accepts -/

/-- What the reader of the tag reads is an instruction that is written with the tag. -/
def SoundAt (procedureCount tag : Nat) (read : ModuleReader Instruction) : Prop :=
  ∀ (bytes rest : Bytes) (i : Instruction), read bytes = .ok (i, rest) →
    i.Refers procedureCount ∧
      ∃ out, encodeInstruction i = .ok (UInt8.ofNat tag :: out) ∧ bytes = out ++ rest

theorem tagged_eq_ok {tag : UInt8} {operands : List Encoded} {out : Bytes} :
    tagged tag operands = .ok out ↔ ∃ tail, joined operands = .ok tail ∧ out = tag :: tail := by
  rw [tagged, joined_cons_eq_ok]
  constructor
  · rintro ⟨first, hfirst, tail, htail, rfl⟩
    obtain rfl := Except.ok.inj hfirst
    exact ⟨tail, htail, rfl⟩
  · rintro ⟨tail, htail, rfl⟩
    exact ⟨[tag], rfl, tail, htail, rfl⟩

section

variable {procedureCount tag : Nat}

/-- An instruction that names no procedure. -/
theorem soundAt_of {read : ModuleReader Instruction} {grammar : Grammar Instruction}
    (h : Reads grammar read) (hgrammar : ∀ out i, grammar out i → ∃ operands,
      joined operands = .ok out ∧ i.procedures = [] ∧
        encodeInstruction i = tagged (UInt8.ofNat tag) operands) :
    SoundAt procedureCount tag read := by
  intro bytes rest i hread
  obtain ⟨out, hout, hbytes⟩ := h.sound hread
  obtain ⟨operands, hoperands, hprocedures, hencode⟩ := hgrammar out i hout
  refine ⟨fun procedure hmem => ?_, out, ?_, hbytes⟩
  · rw [hprocedures] at hmem
    exact absurd hmem List.not_mem_nil
  · rw [hencode]
    exact tagged_eq_ok.2 ⟨out, hoperands, rfl⟩

theorem sound_unit {i : Instruction} (hprocedures : i.procedures = [] := by rfl)
    (hencode : encodeInstruction i = tagged (UInt8.ofNat tag) [] := by rfl) :
    SoundAt procedureCount tag (pure i) := by
  refine soundAt_of (Reads.pure i) fun out i' h => ?_
  obtain ⟨rfl, rfl⟩ := h
  exact ⟨[], joined_nil_eq_ok.2 rfl, hprocedures, hencode⟩

include h₁

theorem sound_one {make : α → Instruction} (hmake : ∀ a, (make a).procedures = [] ∧
      encodeInstruction (make a) = tagged (UInt8.ofNat tag) [write₁ a] := by exact fun _ => ⟨rfl, rfl⟩) :
    SoundAt procedureCount tag (one make read₁) := by
  refine soundAt_of (reads_one h₁) fun out i h => ?_
  obtain ⟨a, rfl, hout⟩ := h
  exact ⟨_, hout, hmake a⟩

include h₂

theorem sound_two {make : α → β → Instruction} (hmake : ∀ a b, (make a b).procedures = [] ∧
      encodeInstruction (make a b) = tagged (UInt8.ofNat tag) [write₁ a, write₂ b] := by
        exact fun _ _ => ⟨rfl, rfl⟩) :
    SoundAt procedureCount tag (two make read₁ read₂) := by
  refine soundAt_of (reads_two h₁ h₂) fun out i h => ?_
  obtain ⟨a, b, rfl, hout⟩ := h
  exact ⟨_, hout, hmake a b⟩

include h₃

theorem sound_three {make : α → β → γ → Instruction}
    (hmake : ∀ a b c, (make a b c).procedures = [] ∧ encodeInstruction (make a b c) =
      tagged (UInt8.ofNat tag) [write₁ a, write₂ b, write₃ c] := by
        exact fun _ _ _ => ⟨rfl, rfl⟩) :
    SoundAt procedureCount tag (three make read₁ read₂ read₃) := by
  refine soundAt_of (reads_three h₁ h₂ h₃) fun out i h => ?_
  obtain ⟨a, b, c, rfl, hout⟩ := h
  exact ⟨_, hout, hmake a b c⟩

include h₄

theorem sound_four {make : α → β → γ → δ → Instruction}
    (hmake : ∀ a b c d, (make a b c d).procedures = [] ∧ encodeInstruction (make a b c d) =
      tagged (UInt8.ofNat tag) [write₁ a, write₂ b, write₃ c, write₄ d] := by
        exact fun _ _ _ _ => ⟨rfl, rfl⟩) :
    SoundAt procedureCount tag (four make read₁ read₂ read₃ read₄) := by
  refine soundAt_of (reads_four h₁ h₂ h₃ h₄) fun out i h => ?_
  obtain ⟨a, b, c, d, rfl, hout⟩ := h
  exact ⟨_, hout, hmake a b c d⟩

omit h₁ h₂ h₃ h₄

/-! ## Calls -/

theorem reads_call (procedureCount : Nat) : Reads (fun out i =>
    ∃ procedure count names, i = .call procedure count names ∧ procedure.toNat < procedureCount ∧
      joined [writeU32 procedure, writeU16 count, writeOptionalStrings names] = .ok out)
    (three .call (readProcedure procedureCount) (readU16 "argument count") readOptionalStrings) := by
  refine ((reads_procedure procedureCount).bind fun procedure =>
    (reads_two (reads_u16 _) reads_optionalStrings : Reads _
      (two (.call procedure) (readU16 "argument count") readOptionalStrings))).congr fun out i => ?_
  constructor
  · rintro ⟨procedure, count, names, rfl, hlt, hout⟩
    obtain ⟨first, hfirst, last, hlast, rfl⟩ := joined_cons_eq_ok.1 hout
    exact ⟨procedure, first, ⟨hlt, hfirst⟩, last, ⟨count, names, rfl, hlast⟩, rfl⟩
  · rintro ⟨procedure, first, ⟨hlt, hfirst⟩, last, ⟨count, names, rfl, hlast⟩, rfl⟩
    exact ⟨procedure, count, names, rfl, hlt, joined_cons_eq_ok.2 ⟨first, hfirst, last, hlast, rfl⟩⟩

theorem sound_call : SoundAt procedureCount 117
    (three .call (readProcedure procedureCount) (readU16 "argument count") readOptionalStrings) := by
  intro bytes rest i hread
  obtain ⟨out, ⟨procedure, count, names, rfl, hlt, hout⟩, hbytes⟩ :=
    (reads_call procedureCount).sound hread
  refine ⟨fun other hmem => ?_, out, tagged_eq_ok.2 ⟨out, hout, rfl⟩, hbytes⟩
  rw [List.mem_singleton.1 hmem]
  exact hlt

theorem reads_optionalProcedure (procedureCount : Nat) :
    Reads (fun out procedure? => (∀ procedure : ProcedureId, procedure? = some procedure →
      procedure.toNat < procedureCount) ∧ writeOptionalProcedure procedure? = .ok out)
      (readOptionalProcedure procedureCount) :=
  reads_optional (reads_procedure procedureCount) _

theorem reads_callParent (procedureCount : Nat) : Reads (fun out i =>
    ∃ procedure? count, i = .callParent procedure? count ∧
      (∀ procedure : ProcedureId, procedure? = some procedure → procedure.toNat < procedureCount) ∧
      joined [writeOptionalProcedure procedure?, writeOptionalU16 count] = .ok out)
    (two .callParent (readOptionalProcedure procedureCount) readOptionalU16) := by
  refine ((reads_optionalProcedure procedureCount).bind fun procedure? =>
    (reads_one reads_optionalU16 : Reads _ (one (.callParent procedure?) readOptionalU16))).congr
    fun out i => ?_
  constructor
  · rintro ⟨procedure?, count, rfl, hlt, hout⟩
    obtain ⟨first, hfirst, last, hlast, rfl⟩ := joined_cons_eq_ok.1 hout
    exact ⟨procedure?, first, ⟨hlt, hfirst⟩, last, ⟨count, rfl, hlast⟩, rfl⟩
  · rintro ⟨procedure?, first, ⟨hlt, hfirst⟩, last, ⟨count, rfl, hlast⟩, rfl⟩
    exact ⟨procedure?, count, rfl, hlt, joined_cons_eq_ok.2 ⟨first, hfirst, last, hlast, rfl⟩⟩

theorem refers_callParent {procedure? : Option ProcedureId} {count : Option UInt16} :
    (Instruction.callParent procedure? count).Refers procedureCount ↔
      ∀ procedure : ProcedureId, procedure? = some procedure → procedure.toNat < procedureCount := by
  cases procedure? with
  | none => simp [Instruction.Refers, Instruction.procedures]
  | some procedure => simp [Instruction.Refers, Instruction.procedures]

theorem sound_callParent : SoundAt procedureCount 119
    (two .callParent (readOptionalProcedure procedureCount) readOptionalU16) := by
  intro bytes rest i hread
  obtain ⟨out, ⟨procedure?, count, rfl, hlt, hout⟩, hbytes⟩ :=
    (reads_callParent procedureCount).sound hread
  exact ⟨refers_callParent.2 hlt, out, tagged_eq_ok.2 ⟨out, hout, rfl⟩, hbytes⟩

end

/-! ## All tags -/

/-- The readers from a tag on. -/
def SoundFrom (procedureCount : Nat) : (tag : Nat) → List (ModuleReader Instruction) → Prop
  | _, [] => True
  | tag, read :: readers => SoundAt procedureCount tag read ∧ SoundFrom procedureCount (tag + 1) readers

theorem SoundFrom.at {procedureCount tag index : Nat} {readers : List (ModuleReader Instruction)}
    {read : ModuleReader Instruction} (h : SoundFrom procedureCount tag readers)
    (hread : readers[index]? = some read) : SoundAt procedureCount (tag + index) read := by
  induction readers generalizing tag index with
  | nil => cases hread
  | cons first readers ih =>
    cases index with
    | zero =>
      cases hread
      exact h.1
    | succ index =>
      have hnext := ih h.2 hread
      rwa [Nat.add_assoc, Nat.add_comm 1] at hnext

theorem instructionReaders_sound (procedureCount : Nat) :
    SoundFrom procedureCount 0 (instructionReaders procedureCount) :=
  ⟨sound_unit, sound_one reads_number, sound_one (reads_string _), sound_one (reads_string _),
    sound_one (reads_typePath _), sound_one (reads_u16 _), sound_one (reads_u16 _),
    sound_one reads_fields, sound_two (reads_u16 _) reads_optionalStrings, sound_one (reads_u16 _),
    sound_one (reads_u8 _), sound_one (reads_u16 _), sound_one (reads_u8 _), sound_one (reads_u8 _),
    sound_three (reads_u8 _) (reads_boolean _) (reads_boolean _),
    sound_two (reads_u8 _) (reads_boolean _),
    sound_three (reads_string _) (reads_u16 _) reads_optionalStrings,
    sound_two (reads_string _) (reads_u16 _), sound_unit, sound_unit, sound_one (reads_u16 _),
    sound_two reads_optionalStrings reads_u16s, sound_two reads_optionalStrings reads_u16s,
    sound_one reads_field, sound_unit, sound_one (reads_u8 _), sound_one (reads_u8 _),
    sound_one (reads_u8 _), sound_one reads_booleans, sound_unit, sound_one (reads_u8 _),
    sound_unit, sound_unit, sound_unit, sound_unit, sound_one (reads_u8 _), sound_one (reads_u8 _),
    sound_unit, sound_one (reads_typePath _), sound_two reads_typePredicate (reads_u8 _),
    sound_one (reads_u16 _), sound_one (reads_u8 _), sound_unit, sound_one reads_listEntryKinds,
    sound_one reads_listEntryKinds, sound_unit, sound_unit, sound_unit,
    sound_one (reads_compound _), sound_one (reads_compound _), sound_unit, sound_unit,
    sound_one (reads_typePath _), sound_one (reads_u16 _), sound_one (reads_u16 _),
    sound_two (reads_u16 _) reads_target, sound_one (reads_u16 _), sound_unit, sound_unit,
    sound_unit, sound_unit, sound_unit, sound_one reads_field, sound_one reads_field,
    sound_one reads_field, sound_one reads_field, sound_unit, sound_unit, sound_one reads_field,
    sound_one reads_field, sound_three (reads_u16 _) (reads_i8 _) (reads_boolean _),
    sound_three reads_field (reads_i8 _) (reads_boolean _),
    sound_three reads_field (reads_i8 _) (reads_boolean _),
    sound_two (reads_i8 _) (reads_boolean _), sound_two (reads_i8 _) (reads_boolean _), sound_unit,
    sound_unit, sound_unit, sound_unit, sound_unit,
    sound_three reads_target reads_target reads_optionalU16, sound_unit, sound_unit,
    sound_one (reads_u16 _), sound_one (reads_u16 _), sound_one (reads_compound _), sound_unit,
    sound_unit, sound_unit, sound_unit, sound_unit, sound_unit, sound_unit, sound_unit, sound_unit,
    sound_unit, sound_unit, sound_unit, sound_unit, sound_unit, sound_unit, sound_unit, sound_unit,
    sound_unit, sound_unit, sound_unit, sound_unit, sound_unit, sound_unit, sound_unit, sound_unit,
    sound_unit, sound_unit, sound_one reads_target, sound_one reads_target, sound_one reads_target,
    sound_two (reads_u16 _) reads_target, sound_call, sound_one reads_optionalU16, sound_callParent,
    sound_four reads_optionalString (reads_u16 _) reads_optionalStrings (reads_boolean _),
    sound_three (reads_u16 _) reads_optionalStrings reads_u16s, sound_unit, sound_one reads_target,
    sound_unit, sound_one (reads_u16 _), sound_one reads_field, sound_one reads_field, sound_unit,
    sound_unit, sound_unit, sound_one reads_field, sound_unit, sound_unit, sound_one (reads_u16 _),
    sound_one (reads_u16 _), sound_four (reads_u16 _) (reads_u16 _) (reads_u16 _) reads_target,
    trivial⟩

theorem decodeInstruction_sound {procedureCount : Nat} {bytes rest : Bytes} {i : Instruction}
    (h : decodeInstruction procedureCount bytes = .ok (i, rest)) :
    i.Refers procedureCount ∧ ∃ out, encodeInstruction i = .ok out ∧ bytes = out ++ rest := by
  rw [decodeInstruction, bind_apply] at h
  obtain ⟨⟨tag, rest'⟩, htag, hread⟩ := bind_eq_ok h
  obtain ⟨first, hfirst, rfl⟩ := (reads_u8 _).sound htag
  obtain rfl := Except.ok.inj hfirst
  dsimp only at hread
  rw [instructionReader] at hread
  cases hreader : (instructionReaders procedureCount)[tag.toNat]? with
  | none =>
    rw [hreader] at hread
    cases hread
  | some read =>
    rw [hreader] at hread
    obtain ⟨hrefers, out, hout, rfl⟩ := (instructionReaders_sound procedureCount).at hreader _ _ _ hread
    rw [Nat.zero_add, UInt8.ofNat_toNat] at hout
    exact ⟨hrefers, tag :: out, hout, rfl⟩

/-! ## What is read again -/

section

variable {procedureCount : Nat} {tag : UInt8} {out : Bytes}

variable {i : Instruction}

theorem complete_of {operands : List Encoded} {read : ModuleReader Instruction}
    (h : tagged tag operands = .ok out)
    (hreader : (instructionReaders procedureCount)[tag.toNat]? = some read) (rest : Bytes)
    (hread : ∀ tail, joined operands = .ok tail → read (tail ++ rest) = .ok (i, rest)) :
    decodeInstruction procedureCount (out ++ rest) = .ok (i, rest) := by
  obtain ⟨tail, htail, rfl⟩ := tagged_eq_ok.1 h
  show instructionReader procedureCount tag (tail ++ rest) = _
  rw [instructionReader, hreader]
  exact hread tail htail

variable {rest : Bytes}

theorem complete_unit (h : tagged tag [] = .ok out)
    (hreader : (instructionReaders procedureCount)[tag.toNat]? = some (pure i)) :
    decodeInstruction procedureCount (out ++ rest) = .ok (i, rest) :=
  complete_of h hreader rest fun _ htail =>
    (Reads.pure i).complete ⟨joined_nil_eq_ok.1 htail, rfl⟩ rest

variable {a : α}

include h₁

theorem complete_one {make : α → Instruction} (h : tagged tag [write₁ a] = .ok out)
    (hreader : (instructionReaders procedureCount)[tag.toNat]? = some (one make read₁)) :
    decodeInstruction procedureCount (out ++ rest) = .ok (make a, rest) :=
  complete_of h hreader rest fun _ htail => (reads_one h₁).complete ⟨a, rfl, htail⟩ rest

variable {b : β}

include h₂

theorem complete_two {make : α → β → Instruction} (h : tagged tag [write₁ a, write₂ b] = .ok out)
    (hreader : (instructionReaders procedureCount)[tag.toNat]? = some (two make read₁ read₂)) :
    decodeInstruction procedureCount (out ++ rest) = .ok (make a b, rest) :=
  complete_of h hreader rest fun _ htail => (reads_two h₁ h₂).complete ⟨a, b, rfl, htail⟩ rest

include h₃

theorem complete_three {make : α → β → γ → Instruction} {c : γ}
    (h : tagged tag [write₁ a, write₂ b, write₃ c] = .ok out)
    (hreader : (instructionReaders procedureCount)[tag.toNat]? =
      some (three make read₁ read₂ read₃)) :
    decodeInstruction procedureCount (out ++ rest) = .ok (make a b c, rest) :=
  complete_of h hreader rest fun _ htail =>
    (reads_three h₁ h₂ h₃).complete ⟨a, b, c, rfl, htail⟩ rest

include h₄

theorem complete_four {make : α → β → γ → δ → Instruction} {c : γ} {d : δ}
    (h : tagged tag [write₁ a, write₂ b, write₃ c, write₄ d] = .ok out)
    (hreader : (instructionReaders procedureCount)[tag.toNat]? =
      some (four make read₁ read₂ read₃ read₄)) :
    decodeInstruction procedureCount (out ++ rest) = .ok (make a b c d, rest) :=
  complete_of h hreader rest fun _ htail =>
    (reads_four h₁ h₂ h₃ h₄).complete ⟨a, b, c, d, rfl, htail⟩ rest

omit h₁ h₂ h₃ h₄

/-- An instruction is read by the reader of the tag that it is written with. -/
theorem decodeInstruction_complete (hrefers : i.Refers procedureCount)
    (h : encodeInstruction i = .ok out) (rest : Bytes) :
    decodeInstruction procedureCount (out ++ rest) = .ok (i, rest) := by
  cases i
  case pushNull | output | input | initialDynamicField | prob | length | ref | getStep |
      getStepTowards | hasCall | makeArgs | indexList | setListIndex | setListIndexKeep |
      listLength | prepareIteration | loadSrc | storeSrc | loadUsr | storeUsr | loadCaller |
      loadGlobalVars | loadDatumVars | duplicate | loadResult | storeResult | pop | crash |
      endTry | throw | add | subtract | multiply | power | divide | remainder |
      fractionalRemainder | bitAnd | bitOr | bitXor | shiftLeft | shiftRight | bitNot | negate |
      not | equal | notEqual | equivalent | notEquivalent | compare | contains | less | lessEqual |
      greater | greaterEqual | and | or | ret | sleep | logicalOrEmptyListIndex |
      pickExpandedArguments | prepareRhsFirstIndexAssignment | loadDynamicField |
      storeDynamicField =>
    exact complete_unit h rfl
  case pushNumber _ =>
    exact complete_one reads_number h rfl
  case pushText _ | pushFile _ =>
    exact complete_one (reads_string _) h rfl
  case pushTypePath _ | typeInstances _ | iterationTypeFilter _ =>
    exact complete_one (reads_typePath _) h rfl
  case addressLocal _ | loadLocalRaw _ | allocateCurrentDatum _ | makeMutableAppearance _ |
      externalCall _ | makeList _ | loadLocal _ | storeLocal _ | initializeStaticLocal _ |
      locate _ | locateIn _ | logicalOrEmptyListLocal _ | indexLocalList _ | listLengthLocal _ =>
    exact complete_one (reads_u16 _) h rfl
  case makeModifiedTypePath _ =>
    exact complete_one reads_fields h rfl
  case allocateDatum _ _ =>
    exact complete_two (reads_u16 _) reads_optionalStrings h rfl
  case makeRegex _ | makeMatrix _ | makeVector _ | block _ | rand _ | roll _ | round _ | range _ |
      typesOf _ | makeArray _ =>
    exact complete_one (reads_u8 _) h rfl
  case replaceText _ _ _ =>
    exact complete_three (reads_u8 _) (reads_boolean _) (reads_boolean _) h rfl
  case copyText _ _ =>
    exact complete_two (reads_u8 _) (reads_boolean _) h rfl
  case standardBuiltin _ _ _ =>
    exact complete_three (reads_string _) (reads_u16 _) reads_optionalStrings h rfl
  case nativeSrcMethod _ _ =>
    exact complete_two (reads_string _) (reads_u16 _) h rfl
  case animate _ _ | makeFilter _ _ =>
    exact complete_two reads_optionalStrings reads_u16s h rfl
  case initialField _ | loadField _ | storeField _ | storeFieldKeep _ | loadGlobal _ |
      loadInitialGlobal _ | storeGlobal _ | logicalOrEmptyListGlobal _ |
      logicalOrEmptyListField _ | loadDeclaredField _ =>
    exact complete_one reads_field h rfl
  case pick _ =>
    exact complete_one reads_booleans h rfl
  case typePredicate _ _ =>
    exact complete_two reads_typePredicate (reads_u8 _) h rfl
  case makeListEntries _ | makeAssociativeListEntries _ =>
    exact complete_one reads_listEntryKinds h rfl
  case compoundListIndex _ | compoundListIndexKeep _ | compoundAssignment _ =>
    exact complete_one (reads_compound _) h rfl
  case loadStaticLocalOrJump _ _ | jumpIfArgumentSupplied _ _ =>
    exact complete_two (reads_u16 _) reads_target h rfl
  case mutateLocal _ _ _ =>
    exact complete_three (reads_u16 _) (reads_i8 _) (reads_boolean _) h rfl
  case mutateField _ _ _ | mutateGlobal _ _ _ =>
    exact complete_three reads_field (reads_i8 _) (reads_boolean _) h rfl
  case mutateListIndex _ _ | mutateResult _ _ =>
    exact complete_two (reads_i8 _) (reads_boolean _) h rfl
  case beginTry _ _ _ =>
    exact complete_three reads_target reads_target reads_optionalU16 h rfl
  case jumpIfNull _ | jumpIfFalse _ | jump _ | spawn _ =>
    exact complete_one reads_target h rfl
  case callCurrent _ =>
    exact complete_one reads_optionalU16 h rfl
  case callDynamic _ _ _ _ =>
    exact complete_four reads_optionalString (reads_u16 _) reads_optionalStrings (reads_boolean _) h rfl
  case expandArgumentLists _ _ _ =>
    exact complete_three (reads_u16 _) reads_optionalStrings reads_u16s h rfl
  case nextLocalListIteration _ _ _ _ =>
    exact complete_four (reads_u16 _) (reads_u16 _) (reads_u16 _) reads_target h rfl
  case call procedure count names =>
    exact complete_of h rfl rest fun _ htail => (reads_call procedureCount).complete
      ⟨procedure, count, names, rfl, hrefers procedure List.mem_cons_self, htail⟩ rest
  case callParent procedure? count =>
    exact complete_of h rfl rest fun _ htail => (reads_callParent procedureCount).complete
      ⟨procedure?, count, rfl, refers_callParent.1 hrefers, htail⟩ rest

end

theorem reads_instruction (procedureCount : Nat) :
    Reads (fun out i => i.Refers procedureCount ∧ encodeInstruction i = .ok out)
      (decodeInstruction procedureCount) where
  complete h rest := decodeInstruction_complete h.1 h.2 rest
  sound h := by
    obtain ⟨hrefers, out, hout, hbytes⟩ := decodeInstruction_sound h
    exact ⟨out, ⟨hrefers, hout⟩, hbytes⟩

end Dream64.Bytecode
