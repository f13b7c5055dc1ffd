import Dream64.Bytecode.Wordcode

/-!
# The bytes of a word image

A word image is decoded from its own bytes and from no others.
-/

namespace Dream64.Bytecode.CompactWordcodeImage

open Codec

theorem codes_u32 (label : String) :
    Codes (fun value : UInt32 => writeU32 value.toNat) (readU32 label) fun _ => True where
  read_write value rest _ := by
    rw [readU32, bind_apply, writeU32, (codes_readNumber 4 _).read_write _ rest value.toNat_lt]
    show Except.ok (UInt32.ofNat value.toNat, rest) = _
    rw [UInt32.ofNat_toNat]
  write_read bytes value rest hread := by
    rw [readU32, bind_apply] at hread
    obtain ⟨⟨number, rest'⟩, hnumber, hnext⟩ := bind_eq_ok hread
    obtain ⟨hlt, rfl⟩ := (codes_readNumber 4 _).write_read _ _ _ hnumber
    cases hnext
    exact ⟨trivial, by rw [UInt32.toNat_ofNat_of_lt' hlt, writeU32]⟩

theorem codes_count (maximum : Nat) (label : String) :
    Codes (writeU32) (readCount maximum label) fun count =>
      count < 256 ^ 4 ∧ ¬ maximum < count :=
  (codes_readNumber 4 _).refused _ _

theorem codes_magic : Codes (fun _ => wordcodeMagic) readMagic fun _ => True :=
  (codes_readExact _ _).expected (x := wordcodeMagic) rfl (fun _ => Iff.rfl) _

theorem codes_version :
    Codes (fun _ => writeU16 wordcodeVersion) readVersion fun _ => True :=
  (codes_readNumber 2 _).expected (x := wordcodeVersion) (by decide) (fun _ => Iff.rfl) _

theorem codes_flags : Codes (fun _ => writeU16 0) readFlags fun _ => True :=
  (codes_readNumber 2 _).expected (x := 0) (by decide) (fun _ => Iff.rfl) _

theorem codes_record : Codes writeRecord readRecord fun _ => True := by
  have hfields := Codes.field (k := fun _ => True) CompactProcedureRecord.pathId
      (codes_u32 "path id") fun pathId =>
    Codes.field CompactProcedureRecord.wordOffset (codes_u32 "word offset") fun wordOffset =>
    Codes.field CompactProcedureRecord.instructionCount (codes_u32 "instruction count")
      fun instructionCount =>
    Codes.field CompactProcedureRecord.localCount (codes_u32 "local count") fun localCount =>
    Codes.field CompactProcedureRecord.parameterCount (codes_u32 "parameter count")
      fun parameterCount =>
    Codes.field CompactProcedureRecord.flags (codes_u32 "procedure flags") fun flags =>
    Codes.pure (x := CompactProcedureRecord.mk pathId wordOffset instructionCount localCount
      parameterCount flags) fun record => by
        obtain ⟨_, _, _, _, _, _⟩ := record
        simp only [CompactProcedureRecord.mk.injEq, true_and, and_assoc]
  refine hfields.congr (fun record => ?_) fun record => ?_
  · rw [List.append_nil]
    rfl
  · exact ⟨fun _ => ⟨trivial, trivial, trivial, trivial, trivial, trivial, trivial, trivial⟩,
      fun _ => trivial⟩

/-! ## Strings -/

/-- The limits of the string table, with the bytes of the strings before. -/
def TextsFit : (total : Nat) → List String → Prop
  | _, [] => True
  | total, value :: strings =>
    (utf8 value).length ≤ maxStringBytes ∧
      total + (utf8 value).length ≤ maxTotalStringBytes ∧
      TextsFit (total + (utf8 value).length) strings

theorem codes_textOf (length : Nat) :
    Codes utf8 (respell ofUtf8 (fun _ => ⟨"compact string is not UTF-8"⟩)
      (readExact length ⟨"truncated string bytes"⟩) : WordcodeReader String)
      fun value => (utf8 value).length = length :=
  (codes_readExact length _).respelled (fun _ _ => ofUtf8_eq_some) _

theorem codes_texts (count total : Nat) :
    Codes (fun strings => strings.flatMap writeText) (readTexts count total) fun strings =>
      strings.length = count ∧ TextsFit total strings := by
  induction count generalizing total with
  | zero =>
    constructor
    · rintro strings rest ⟨hlength, -⟩
      rw [List.eq_nil_of_length_eq_zero hlength]
      rfl
    · intro bytes strings rest hread
      cases hread
      exact ⟨⟨rfl, trivial⟩, rfl⟩
  | succ count ih =>
    constructor
    · rintro strings rest ⟨hlength, hfit⟩
      cases strings with
      | nil => cases hlength
      | cons value strings =>
        obtain ⟨hbytes, htotal, hfit⟩ := hfit
        have hcount : (utf8 value).length < 256 ^ 4 := by
          have hmax : maxStringBytes < 256 ^ 4 := by decide
          omega
        have hstrings := (ih (total + (utf8 value).length)).read_write strings rest
          ⟨Nat.succ.inj hlength, hfit⟩
        rw [readTexts, List.flatMap_cons, writeText, List.append_assoc, List.append_assoc, bind_apply,
          (codes_count _ _).read_write _ _ ⟨hcount, Nat.not_lt.2 hbytes⟩]
        show (if _ then _ else _ : WordcodeReader (List String)) _ = _
        rw [if_neg (Nat.not_lt.2 htotal), bind_apply, (codes_textOf _).read_write value _ rfl]
        show (readTexts count _ >>= _) _ = _
        rw [bind_apply, hstrings]
        rfl
    · intro bytes strings rest hread
      rw [readTexts, bind_apply] at hread
      obtain ⟨⟨length, rest'⟩, hlength, hnext⟩ := bind_eq_ok hread
      obtain ⟨⟨-, hbytes⟩, rfl⟩ := (codes_count _ _).write_read _ _ _ hlength
      by_cases htotal : maxTotalStringBytes < total + length
      · rw [if_pos htotal] at hnext
        cases hnext
      · rw [if_neg htotal, bind_apply] at hnext
        obtain ⟨⟨value, rest''⟩, hvalue, hmore⟩ := bind_eq_ok hnext
        obtain ⟨rfl, rfl⟩ := (codes_textOf _).write_read _ _ _ hvalue
        rw [bind_apply] at hmore
        obtain ⟨⟨more, rest'''⟩, hstrings, hlast⟩ := bind_eq_ok hmore
        obtain ⟨⟨hcount, hfit⟩, rfl⟩ := (ih _).write_read _ _ _ hstrings
        cases hlast
        refine ⟨⟨congrArg (· + 1) hcount, Nat.not_lt.1 hbytes, Nat.not_lt.1 htotal, hfit⟩, ?_⟩
        rw [List.flatMap_cons, writeText, List.append_assoc, List.append_assoc]

/-! ## Images -/

/-- The limits that a reader checks. -/
structure Fits (image : CompactWordcodeImage) : Prop where
  strings : image.strings.length ≤ maxStrings
  procedures : image.procedures.length ≤ maxProcedures
  words : image.words.length ≤ maxWords
  texts : TextsFit 0 image.strings

theorem codes_image : Codes write readImage Fits := by
  have hfields := Codes.field (k := fun _ => True) (fun _ : CompactWordcodeImage => ())
      codes_magic fun _ =>
    Codes.field (fun _ => ()) codes_version fun _ =>
    Codes.field (fun _ => ()) codes_flags fun _ =>
    Codes.field (fun image : CompactWordcodeImage => image.strings.length)
      (codes_count maxStrings "string count") fun stringCount =>
    Codes.field (fun image : CompactWordcodeImage => image.procedures.length)
      (codes_count maxProcedures "procedure count") fun procedureCount =>
    Codes.field (fun image : CompactWordcodeImage => image.words.length)
      (codes_count maxWords "word count") fun wordCount =>
    Codes.fieldOf CompactWordcodeImage.strings (codes_texts stringCount 0)
      (fun _ h => and_iff_right h.1.1.2) fun strings hstrings =>
    Codes.fieldOf CompactWordcodeImage.procedures
      (codes_readMany (fun _ => codes_record) 0 procedureCount)
      (fun _ h => iff_true_intro ⟨h.1.1.2, fun _ _ _ => trivial⟩) fun procedures hprocedures =>
    Codes.fieldOf CompactWordcodeImage.words
      (codes_readMany (fun _ => codes_u32 "dispatch word") 0 wordCount)
      (fun _ h => iff_true_intro ⟨h.1.1.2, fun _ _ _ => trivial⟩) fun words hwords =>
    Codes.pure (x := CompactWordcodeImage.mk strings procedures words) fun image => by
      obtain ⟨_, _, _⟩ := image
      simp only [CompactWordcodeImage.mk.injEq, true_and, and_assoc]
      constructor
      · exact fun h => ⟨h.2.2.2.1, h.2.2.2.2.1, h.2.2.2.2.2⟩
      · rintro ⟨rfl, rfl, rfl⟩
        exact ⟨hstrings.1, hprocedures.1, hwords.1, rfl, rfl, rfl⟩
  refine hfields.congr (fun image => ?_) fun image => ?_
  · rw [List.append_nil]
    rfl
  · simp only [true_and, and_true, Nat.not_lt]
    have hstrings : maxStrings < 256 ^ 4 := by decide
    have hprocedures : maxProcedures < 256 ^ 4 := by decide
    have hwords : maxWords < 256 ^ 4 := by decide
    constructor
    · intro h
      exact ⟨⟨Nat.lt_of_le_of_lt h.strings hstrings, h.strings⟩,
        ⟨Nat.lt_of_le_of_lt h.procedures hprocedures, h.procedures⟩,
        ⟨Nat.lt_of_le_of_lt h.words hwords, h.words⟩, h.texts⟩
    · rintro ⟨⟨-, hstrings⟩, ⟨-, hprocedures⟩, ⟨-, hwords⟩, htexts⟩
      exact ⟨hstrings, hprocedures, hwords, htexts⟩

/-- The string table has no string twice. -/
theorem validateStrings_eq_ok {total : Nat} {seen strings : List String} {u : Unit} :
    validateStrings total seen strings = .ok u ↔
      TextsFit total strings ∧ strings.Nodup ∧ ∀ value ∈ strings, value ∉ seen := by
  induction strings generalizing total seen with
  | nil => simp [validateStrings, TextsFit]
  | cons value strings ih =>
    rw [validateStrings, TextsFit, List.forall_mem_cons]
    simp only [refuse_eq_ok, ih, Nat.not_lt, List.nodup_cons, List.mem_cons, not_or]
    constructor
    · rintro ⟨hbytes, htotal, hseen, hfit, hnodup, hmore⟩
      exact ⟨⟨hbytes, htotal, hfit⟩, ⟨fun hmem => (hmore value hmem).1 rfl, hnodup⟩, hseen,
        fun other hmem => (hmore other hmem).2⟩
    · rintro ⟨⟨hbytes, htotal, hfit⟩, ⟨hvalue, hnodup⟩, hseen, hmore⟩
      exact ⟨hbytes, htotal, hseen, hfit, hnodup, fun other hmem =>
        ⟨fun heq => hvalue (heq ▸ hmem), hmore other hmem⟩⟩

/-- What the checks of an image alone say. -/
structure Valid (image : CompactWordcodeImage) : Prop extends image.Fits where
  nodup : image.strings.Nodup
  records : validateRecords image.strings.length image.words.length 0 image.procedures =
    .ok image.words.length

theorem validateImage_eq_ok {image : CompactWordcodeImage} {u : Unit} :
    validateImage image = .ok u ↔ image.Valid := by
  rw [validateImage, refuse_eq_ok]
  simp only [bind_eq_ok_iff, refuse_eq_ok, validateStrings_eq_ok, not_or, Nat.not_lt, not_not]
  constructor
  · rintro ⟨⟨hstrings, hprocedures, hwords⟩, -, ⟨htexts, hnodup, -⟩, claimed, hrecords, rfl, -⟩
    exact ⟨⟨hstrings, hprocedures, hwords, htexts⟩, hnodup, hrecords⟩
  · intro h
    exact ⟨⟨h.strings, h.procedures, h.words⟩, (), ⟨h.texts, h.nodup, fun _ _ => List.not_mem_nil⟩,
      _, h.records, rfl, trivial⟩

theorem encode_eq_ok {image : CompactWordcodeImage} {bytes : Bytes} :
    encode image = .ok bytes ↔ image.Valid ∧ bytes = image.write := by
  simp only [encode, bind_eq_ok_iff, pure_eq_ok, validateImage_eq_ok, exists_const]

/-- Decoding accepts the bytes that encoding gives, and no others. -/
theorem decode_eq_ok {image : CompactWordcodeImage} {bytes : Bytes} :
    decode bytes = .ok image ↔ encode image = .ok bytes := by
  rw [encode_eq_ok, decode]
  simp only [bind_eq_ok_iff, refuse_eq_ok, pure_eq_ok, validateImage_eq_ok, exists_const, not_not]
  constructor
  · rintro ⟨⟨read, rest⟩, hread, rfl, hvalid, rfl⟩
    obtain ⟨-, hbytes⟩ := codes_image.write_read _ _ _ hread
    exact ⟨hvalid, hbytes.trans (List.append_nil _)⟩
  · rintro ⟨hvalid, rfl⟩
    have hread := codes_image.read_write image [] hvalid.toFits
    rw [List.append_nil] at hread
    exact ⟨(image, []), hread, rfl, hvalid, rfl⟩

end Dream64.Bytecode.CompactWordcodeImage

/-!
# What the words of an image say

An image that passes the check against a module has the word of its instruction
at every position, and the image of a module that keeps to the limits is built
and passes.
-/

namespace Dream64.Bytecode

open Codec

/-! ## Selectors -/

def Selector.opcode : Selector → UInt8
  | .unit opcode => opcode
  | .numeric opcode _ => opcode
  | .field opcode _ => opcode

/-- The rich instruction that a fast one stands for. -/
def CompactFastInstruction.instruction : CompactFastInstruction → Instruction
  | .pushNull => .pushNull
  | .loadSrc => .loadSrc
  | .storeSrc => .storeSrc
  | .loadUsr => .loadUsr
  | .storeUsr => .storeUsr
  | .loadResult => .loadResult
  | .storeResult => .storeResult
  | .pop => .pop
  | .duplicate => .duplicate

theorem selectorByte_pack (opcode : UInt8) (value : UInt32) :
    selectorByte (pack opcode value) = opcode := by
  have hlow : value.toNat &&& payloadMask.toNat < 2 ^ 24 :=
    Nat.lt_of_le_of_lt Nat.and_le_right (by decide)
  have hopcode := opcode.toNat_lt
  apply UInt8.toNat_inj.1
  rw [selectorByte, pack, UInt32.toNat_toUInt8, UInt32.toNat_shiftRight, UInt32.toNat_or,
    UInt32.toNat_shiftLeft, UInt32.toNat_and, UInt8.toNat_toUInt32]
  show (((opcode.toNat <<< 24) % 2 ^ 32 ||| (value.toNat &&& payloadMask.toNat)) >>> 24) % 2 ^ 8 = _
  have hshift : opcode.toNat <<< 24 < 2 ^ 32 := by
    rw [Nat.shiftLeft_eq]
    omega
  rw [Nat.mod_eq_of_lt hshift, ← Nat.shiftLeft_add_eq_or_of_lt hlow, Nat.shiftLeft_eq,
    Nat.shiftRight_eq_div_pow]
  omega

variable {i : Instruction} {word : UInt32}

/-- The opcode of the instruction's arm, or the one that leaves it to the rich bytecode. -/
theorem selectorByte_of_selectorWordWith {σ : Type}
    {stringId : String → σ → Except CompactWordcodeError (UInt32 × σ)} {s s' : σ}
    (h : selectorWordWith stringId i s = .ok (word, s')) :
    selectorByte word = (selector i).opcode ∨ selectorByte word = opEscape := by
  have hchecked (opcode : UInt8) (value : UInt32) :
      selectorByte (packCheckedU32 opcode value) = opcode ∨
        selectorByte (packCheckedU32 opcode value) = opEscape := by
    rw [packCheckedU32]
    split
    · exact Or.inr (selectorByte_pack ..)
    · exact Or.inl (selectorByte_pack ..)
  rw [selectorWordWith] at h
  cases hselector : selector i with
  | unit opcode =>
    rw [hselector] at h
    cases h
    exact Or.inl (selectorByte_pack ..)
  | numeric opcode value =>
    rw [hselector] at h
    simp only [packChecked, bind_eq_ok_iff, pure_eq_ok, Prod.mk.injEq] at h
    obtain ⟨_, ⟨operand, -, rfl⟩, rfl, -⟩ := h
    exact hchecked opcode operand
  | field opcode value =>
    rw [hselector] at h
    simp only [bind_eq_ok_iff, pure_eq_ok, Prod.mk.injEq] at h
    obtain ⟨⟨id, _⟩, -, rfl, -⟩ := h
    exact hchecked opcode id

variable {ids : StringIds}

theorem selectorByte_of_selectorWordFromIds (h : selectorWordFromIds i ids = .ok word) :
    selectorByte word = (selector i).opcode ∨ selectorByte word = opEscape := by
  simp only [selectorWordFromIds, bind_eq_ok_iff, pure_eq_ok] at h
  obtain ⟨⟨_, _⟩, hword, rfl⟩ := h
  exact selectorByte_of_selectorWordWith hword

/-- No other instruction has the opcode of a fast one. -/
theorem instruction_of_fastOpcode {op : CompactFastInstruction}
    (h : fastOpcode (selector i).opcode = some op) : i = op.instruction := by
  cases i <;> first | (cases h; rfl) | cases h

/-- A fast instruction is read only from the word of its rich instruction. -/
theorem instruction_of_fast {op : CompactFastInstruction}
    (hword : selectorWordFromIds i ids = .ok word) (h : fastInstruction word = some op) :
    i = op.instruction := by
  rw [fastInstruction] at h
  obtain hopcode | hescape := selectorByte_of_selectorWordFromIds hword
  · exact instruction_of_fastOpcode (hopcode ▸ h)
  · rw [hescape] at h
    cases h

/-! ## Positions -/

/-- The rich instruction at a position. -/
def Module.instruction (module : Module) (procedure : ProcedureId) (pc : Nat) :
    Option Instruction := do
  let program ← module.procedures[procedure.toNat]?
  program.instructions[pc]?

theorem word_of_validateWords {index pc : Nat} {instructions : List Instruction}
    {words : List UInt32} (h : validateWords ids index pc instructions words = .ok ()) {k : Nat}
    (hi : instructions[k]? = some i) (hword : words[k]? = some word) :
    selectorWordFromIds i ids = .ok word := by
  induction instructions generalizing pc words k with
  | nil => cases hi
  | cons first instructions ih =>
    cases words with
    | nil => cases hword
    | cons firstWord words =>
      simp only [validateWords, bind_eq_ok_iff, refuse_eq_ok, not_not] at h
      obtain ⟨expected, hexpected, rfl, hmore⟩ := h
      cases k with
      | zero =>
        cases hi
        cases hword
        exact hexpected
      | succ k => exact ih hmore hi hword

namespace CompactWordcodeImage

variable {image : CompactWordcodeImage}

theorem validateRecord_of_validateProcedures {ids : StringIds} {paths : List String} {index : Nat}
    {records : List CompactProcedureRecord} {programs : List Program}
    (h : image.validateProcedures ids paths index records programs = .ok ()) {k : Nat}
    {record : CompactProcedureRecord} {program : Program} (hrecord : records[k]? = some record)
    (hprogram : programs[k]? = some program) :
    image.validateRecord ids (index + k) paths[index + k]? record program = .ok () := by
  induction records generalizing index programs k with
  | nil => cases hrecord
  | cons firstRecord records ih =>
    cases programs with
    | nil => cases hprogram
    | cons firstProgram programs =>
      simp only [validateProcedures, bind_eq_ok_iff] at h
      obtain ⟨⟨⟩, hfirst, hmore⟩ := h
      cases k with
      | zero =>
        cases hrecord
        cases hprogram
        exact hfirst
      | succ k =>
        have hk := ih hmore hrecord hprogram
        rwa [show index + 1 + k = index + (k + 1) by omega] at hk

/-- A checked record has as many words as the program has instructions, and theirs. -/
theorem words_of_validateRecord {ids : StringIds} {index : Nat} {path : Option String}
    {record : CompactProcedureRecord} {program : Program}
    (h : image.validateRecord ids index path record program = .ok ()) :
    record.instructionCount.toNat = program.instructions.length ∧
      validateWords ids index 0 program.instructions
        ((image.words.drop record.wordOffset.toNat).take record.instructionCount.toNat) = .ok () := by
  unfold validateRecord at h
  split at h
  · cases h
  · cases h
  · simp only [refuse_eq_ok, not_or, not_not] at h
    obtain ⟨-, ⟨hcount, -⟩, -, hwords⟩ := h
    exact ⟨hcount, hwords⟩

/-- The word at a position is the word of the instruction there. -/
theorem instruction_of_word {module : Module} (h : image.validateAgainst module = .ok ())
    {procedure : ProcedureId} {pc : Nat} {word : UInt32}
    (hword : image.word procedure pc = some word) : ∃ i,
      module.instruction procedure pc = some i ∧
        selectorWordFromIds i (stringIds image.strings) = .ok word := by
  simp only [validateAgainst, bind_eq_ok_iff, refuse_eq_ok, not_not] at h
  obtain ⟨-, -, -, hlength, hprocedures⟩ := h
  simp only [CompactWordcodeImage.word, Option.bind_eq_bind, Option.bind_eq_some_iff] at hword
  obtain ⟨record, hrecord, hword⟩ := hword
  split at hword
  · cases hword
  · rename_i hpc
    have hlt : procedure.toNat < module.procedures.length := by
      rw [← hlength]
      exact (List.getElem?_eq_some_iff.1 hrecord).1
    have hprogram := List.getElem?_eq_getElem hlt
    obtain ⟨hcount, hwords⟩ := words_of_validateRecord
      (validateRecord_of_validateProcedures hprocedures hrecord hprogram)
    have hi := List.getElem?_eq_getElem (show pc < module.procedures[procedure.toNat].instructions.length
      by omega)
    refine ⟨_, ?_, word_of_validateWords hwords hi ?_⟩
    · rw [Module.instruction, hprogram]
      exact hi
    · rw [List.getElem?_take_of_lt (Nat.not_le.1 hpc), List.getElem?_drop]
      exact hword

/-- A fast instruction denotes the rich instruction at its position. -/
theorem instruction_of_fastInstruction {module : Module} (h : image.validateAgainst module = .ok ())
    {procedure : ProcedureId} {pc : Nat} {op : CompactFastInstruction}
    (hop : (image.word procedure pc).bind fastInstruction = some op) :
    module.instruction procedure pc = some op.instruction := by
  obtain ⟨word, hword, hfast⟩ := Option.bind_eq_some_iff.1 hop
  obtain ⟨i, hi, hselector⟩ := instruction_of_word h hword
  rw [hi, instruction_of_fast hselector hfast]

end CompactWordcodeImage

end Dream64.Bytecode
