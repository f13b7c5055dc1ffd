import Dream64.Bytecode.WordcodeCodec

/-!
# Building the image of a module

A module that keeps to the limits of the format has an image: the strings of its
words are numbered as they come, and the check finds every word again.
-/

namespace Dream64.Bytecode

open Codec

/-! ## The string table -/

/-- The string whose id the word of an instruction holds. -/
def Instruction.wordString? (i : Instruction) : Option String :=
  match selector i with
  | .field _ value => some value
  | _ => none

/-- The strings of one procedure in the order in which they are numbered. -/
def Program.wordStrings (path : String) (program : Program) : List String :=
  path :: program.instructions.filterMap Instruction.wordString?

def addString (strings : List String) (value : String) : List String :=
  if value ∈ strings then strings else strings ++ [value]

def Module.stringTable (module : Module) : List String :=
  (List.zipWith Program.wordStrings module.paths module.procedures).flatten.foldl addString []

/-- A module within the limits of the format. -/
structure Module.WordcodeFits (module : Module) : Prop where
  eager : module.deferred = []
  paths : module.procedures.length ≤ module.paths.length
  procedures : module.procedures.length ≤ maxProcedures
  words : (module.procedures.map fun program => program.instructions.length).sum ≤ maxWords
  slots : ∀ program ∈ module.procedures,
    program.parameterCount ≤ program.localCount ∧ program.localCount < 2 ^ 32
  operands : ∀ program ∈ module.procedures, ∀ i ∈ program.instructions, ∀ opcode value,
    selector i = .numeric opcode value → value < 2 ^ 32
  strings : module.stringTable.length ≤ maxStrings
  texts : CompactWordcodeImage.TextsFit 0 module.stringTable

variable {strings : List String}

theorem addString_nodup (h : strings.Nodup) (value : String) : (addString strings value).Nodup := by
  rw [addString]
  split
  · exact h
  · rename_i hmem
    exact List.nodup_append.2 ⟨h, List.nodup_singleton value, fun a ha b hb heq => hmem (by
      rw [List.mem_singleton] at hb
      exact hb ▸ heq ▸ ha)⟩

theorem prefix_addString (strings : List String) (value : String) :
    strings <+: addString strings value := by
  rw [addString]
  split
  · exact List.prefix_refl _
  · exact List.prefix_append ..

theorem foldl_addString_nodup (h : strings.Nodup) (values : List String) :
    (values.foldl addString strings).Nodup := by
  induction values generalizing strings with
  | nil => exact h
  | cons value values ih => exact ih (addString_nodup h value)

theorem prefix_foldl_addString (strings values : List String) :
    strings <+: values.foldl addString strings := by
  induction values generalizing strings with
  | nil => exact List.prefix_refl _
  | cons value values ih => exact (prefix_addString strings value).trans (ih _)

variable {value : String}

theorem length_of_textsFit {total : Nat} (h : CompactWordcodeImage.TextsFit total strings)
    (hmem : value ∈ strings) : (utf8 value).length ≤ maxStringBytes := by
  induction strings generalizing total with
  | nil => cases hmem
  | cons first strings ih =>
    obtain ⟨hbytes, -, hmore⟩ := h
    obtain rfl | hmem := List.mem_cons.1 hmem
    · exact hbytes
    · exact ih hmore hmem

theorem StringIds.insert_self (ids : StringIds) (value : String) (id : UInt32) :
    ids.insert value id value = some id := Function.update_self ..

theorem StringIds.insert_of_ne (ids : StringIds) {other : String} (id : UInt32) (h : other ≠ value)
    : ids.insert value id other = ids other := Function.update_of_ne h ..

/-- The ids of a table without a string twice are the positions. -/
theorem foldl_insert_zipIdx (hnodup : strings.Nodup) (index : Nat) (ids : StringIds)
    (value : String) : (∀ k, strings[k]? = some value → (strings.zipIdx index).foldl
      (fun ids entry => ids.insert entry.1 (UInt32.ofNat entry.2)) ids value =
        some (UInt32.ofNat (index + k))) ∧
    (value ∉ strings → (strings.zipIdx index).foldl
      (fun ids entry => ids.insert entry.1 (UInt32.ofNat entry.2)) ids value = ids value) := by
  induction strings generalizing index ids with
  | nil => exact ⟨fun k hk => (by cases hk), fun _ => rfl⟩
  | cons first strings ih =>
    obtain ⟨hfirst, hnodup⟩ := List.nodup_cons.1 hnodup
    obtain ⟨hat, hmissing⟩ := ih hnodup (index + 1) (ids.insert first (UInt32.ofNat index))
    constructor
    · intro k hk
      rw [List.zipIdx_cons, List.foldl_cons]
      cases k with
      | zero =>
        cases hk
        rw [hmissing hfirst, StringIds.insert_self]
        rfl
      | succ k =>
        rw [hat k hk, show index + (k + 1) = index + 1 + k by omega]
    · intro hmem
      rw [List.mem_cons, not_or] at hmem
      rw [List.zipIdx_cons, List.foldl_cons, hmissing hmem.2, StringIds.insert_of_ne _ _ hmem.1]

theorem stringIds_eq_some (hnodup : strings.Nodup) {id : UInt32}
    (h : strings[id.toNat]? = some value) : stringIds strings value = some id := by
  rw [stringIds, (foldl_insert_zipIdx hnodup 0 _ value).1 _ h, Nat.zero_add, UInt32.ofNat_toNat]

/-! ## The pool -/

/-- The ids of a pool are the positions of its strings. -/
structure StringPool.Sound (pool : StringPool) : Prop where
  ids : ∀ value id, pool.ids value = some id → pool.strings[id.toNat]? = some value
  missing : ∀ value, pool.ids value = none → value ∉ pool.strings

theorem getElem?_of_prefix {more : List String} (h : strings <+: more) {k : Nat}
    (hk : strings[k]? = some value) : more[k]? = some value := by
  obtain ⟨rest, rfl⟩ := h
  rw [List.getElem?_append_left (List.getElem?_eq_some_iff.1 hk).1]
  exact hk

/-- The next string has the next id. -/
theorem StringPool.Sound.insert {pool : StringPool} (h : pool.Sound)
    (hlt : pool.strings.length < 2 ^ 32) (hmem : value ∉ pool.strings) :
    StringPool.Sound ⟨pool.strings ++ [value],
      pool.ids.insert value (UInt32.ofNat pool.strings.length)⟩ where
  ids other id hother := by
    dsimp only at hother ⊢
    by_cases heq : other = value
    · subst heq
      rw [StringIds.insert_self] at hother
      obtain rfl := Option.some.inj hother
      rw [UInt32.toNat_ofNat_of_lt' hlt, List.getElem?_concat_length]
    · rw [StringIds.insert_of_ne _ _ heq] at hother
      exact getElem?_of_prefix (List.prefix_append ..) (h.ids other id hother)
  missing other hother := by
    dsimp only at hother ⊢
    by_cases heq : other = value
    · subst heq
      rw [StringIds.insert_self] at hother
      cases hother
    · rw [StringIds.insert_of_ne _ _ heq] at hother
      rw [List.mem_append, List.mem_singleton, not_or]
      exact ⟨h.missing other hother, heq⟩

/-- A string table that keeps to the limits. -/
structure TableFits (table : List String) : Prop where
  nodup : table.Nodup
  length : table.length ≤ maxStrings
  texts : CompactWordcodeImage.TextsFit 0 table

section

variable {table : List String} (htable : TableFits table)

variable {pool : StringPool}

include htable in
theorem internString_eq_ok (hsound : pool.Sound) {value : String}
    (hfront : addString pool.strings value <+: table) : ∃ id pool',
      internString value pool = .ok (id, pool') ∧ pool'.Sound ∧
        pool'.strings = addString pool.strings value ∧ table[id.toNat]? = some value := by
  cases hid : pool.ids value with
  | some id =>
    have hat := hsound.ids value id hid
    have hstrings : addString pool.strings value = pool.strings :=
      if_pos (List.mem_of_getElem? hat)
    rw [hstrings] at hfront
    exact ⟨id, pool, by rw [internString, hid], hsound, hstrings.symm,
      getElem?_of_prefix hfront hat⟩
  | none =>
    have hmem := hsound.missing value hid
    have hstrings : addString pool.strings value = pool.strings ++ [value] := if_neg hmem
    rw [hstrings] at hfront
    have hlength : pool.strings.length < maxStrings := by
      have hle := hfront.length_le
      rw [List.length_append, List.length_singleton] at hle
      have hmax := htable.length
      omega
    have hvalue : value ∈ table := hfront.subset (List.mem_append_right _ List.mem_cons_self)
    have hlt : pool.strings.length < 2 ^ 32 := Nat.lt_trans hlength (by decide)
    have htoNat : (UInt32.ofNat pool.strings.length).toNat = pool.strings.length :=
      UInt32.toNat_ofNat_of_lt' hlt
    have hat : (pool.strings ++ [value])[(UInt32.ofNat pool.strings.length).toNat]? = some value := by
      rw [htoNat, List.getElem?_concat_length]
    refine ⟨UInt32.ofNat pool.strings.length, ⟨pool.strings ++ [value],
      pool.ids.insert value (UInt32.ofNat pool.strings.length)⟩, ?_, ?_, hstrings.symm, ?_⟩
    · rw [internString, hid]
      simp only
      rw [if_neg (not_or.2 ⟨Nat.not_lt.2 (length_of_textsFit htable.texts hvalue),
        Nat.not_le.2 hlength⟩), toU32, if_pos hlt]
      rfl
    · exact hsound.insert hlt hmem
    · exact getElem?_of_prefix hfront hat

include htable in
theorem selectorWord_eq_ok (hsound : pool.Sound) {i : Instruction}
    (hfront : i.wordString?.toList.foldl addString pool.strings <+: table)
    (hoperand : ∀ opcode value, selector i = .numeric opcode value → value < 2 ^ 32) :
    ∃ word pool', selectorWord i pool = .ok (word, pool') ∧ pool'.Sound ∧
      pool'.strings = i.wordString?.toList.foldl addString pool.strings ∧
      selectorWordFromIds i (stringIds table) = .ok word := by
  simp only [selectorWord, selectorWordFromIds, selectorWordWith, Instruction.wordString?] at *
  cases hselector : selector i with
  | unit opcode => exact ⟨_, pool, rfl, hsound, rfl, rfl⟩
  | numeric opcode value =>
    have hword : packChecked opcode value =
        .ok (packCheckedU32 opcode (UInt32.ofNat value)) := by
      rw [packChecked, toU32, if_pos (hoperand _ _ hselector)]
      rfl
    dsimp only
    rw [hword]
    exact ⟨_, pool, rfl, hsound, rfl, rfl⟩
  | field opcode value =>
    rw [hselector] at hfront
    obtain ⟨id, pool', hintern, hsound', hstrings, hid⟩ :=
      internString_eq_ok htable hsound hfront
    dsimp only
    rw [hintern, lookupString, stringIds_eq_some htable.nodup hid]
    exact ⟨_, pool', rfl, hsound', hstrings, rfl⟩

include htable in
theorem addWords_eq_ok {instructions : List Instruction} (hsound : pool.Sound)
    (hfront : (instructions.filterMap Instruction.wordString?).foldl addString pool.strings <+: table)
    (hoperands : ∀ i ∈ instructions, ∀ opcode value,
      selector i = .numeric opcode value → value < 2 ^ 32) :
    ∃ words pool', CompactWordcodeImage.addWords instructions pool = .ok (words, pool') ∧
      pool'.Sound ∧
      pool'.strings = (instructions.filterMap Instruction.wordString?).foldl addString pool.strings ∧
      words.length = instructions.length ∧
      ∀ index pc, validateWords (stringIds table) index pc instructions words = .ok () := by
  induction instructions generalizing pool with
  | nil => exact ⟨[], pool, rfl, hsound, rfl, rfl, fun _ _ => rfl⟩
  | cons i instructions ih =>
    have hfilter : (i :: instructions).filterMap Instruction.wordString? =
        i.wordString?.toList ++ instructions.filterMap Instruction.wordString? := by
      rw [List.filterMap_cons]
      cases i.wordString? <;> rfl
    rw [hfilter, List.foldl_append] at hfront ⊢
    obtain ⟨word, pool', hword, hsound', hstrings, hids⟩ := selectorWord_eq_ok htable hsound
      ((prefix_foldl_addString _ _).trans hfront) (hoperands i List.mem_cons_self)
    rw [← hstrings] at hfront ⊢
    obtain ⟨words, pool'', hwords, hsound'', hstrings', hlength, hvalid⟩ :=
      ih hsound' hfront fun j hj => hoperands j (List.mem_cons_of_mem _ hj)
    refine ⟨word :: words, pool'', ?_, hsound'', hstrings', congrArg (· + 1) hlength,
      fun index pc => ?_⟩
    · rw [CompactWordcodeImage.addWords, hword]
      show (CompactWordcodeImage.addWords instructions pool' >>= _) = _
      rw [hwords]
      rfl
    · rw [validateWords, hids]
      show (if word ≠ word then _ else _ : Except CompactWordcodeError Unit) = _
      rw [if_neg (not_not.2 rfl)]
      exact hvalid index (pc + 1)

/-- What the limits say of one program. -/
structure Program.WordcodeFits (program : Program) : Prop where
  slots : program.parameterCount ≤ program.localCount
  localCount : program.localCount < 2 ^ 32
  operands : ∀ i ∈ program.instructions, ∀ opcode value,
    selector i = .numeric opcode value → value < 2 ^ 32

/-- A record and words of a program, the words from a position on. -/
structure Describes (table : List String) (path : String) (program : Program) (offset : Nat)
    (record : CompactProcedureRecord) (words : List UInt32) : Prop where
  path : table[record.pathId.toNat]? = some path
  offset : record.wordOffset.toNat = offset
  instructionCount : record.instructionCount.toNat = program.instructions.length
  localCount : record.localCount.toNat = program.localCount
  parameterCount : record.parameterCount.toNat = program.parameterCount
  flags : record.flags = procedureFlags program
  length : words.length = program.instructions.length
  words : ∀ index pc, validateWords (stringIds table) index pc program.instructions words = .ok ()

open CompactWordcodeImage (Draft addProcedure addProcedures)

variable {path : String} {program : Program}

include htable in
theorem addProcedure_eq_ok {draft : Draft} (hsound : draft.pool.Sound)
    (hfront : (program.wordStrings path).foldl addString draft.pool.strings <+: table)
    (hfits : program.WordcodeFits)
    (hlength : draft.words.length + program.instructions.length < 2 ^ 32) :
    ∃ pool record words, addProcedure (some path) program draft =
        .ok ⟨pool, draft.procedures ++ [record], draft.words ++ words⟩ ∧ pool.Sound ∧
      pool.strings = (program.wordStrings path).foldl addString draft.pool.strings ∧
      Describes table path program draft.words.length record words := by
  rw [Program.wordStrings, List.foldl_cons] at hfront ⊢
  obtain ⟨pathId, pool, hintern, hsound', hstrings, hpath⟩ := internString_eq_ok htable hsound
    ((prefix_foldl_addString _ _).trans hfront)
  rw [← hstrings] at hfront ⊢
  obtain ⟨words, pool', hwords, hsound'', hstrings', hcount, hvalid⟩ :=
    addWords_eq_ok htable hsound' hfront hfits.operands
  have hlocal := hfits.localCount
  have hparameters := Nat.lt_of_le_of_lt hfits.slots hlocal
  have hoffset := Nat.lt_of_le_of_lt (Nat.le_add_right ..) hlength
  have hinstructions := Nat.lt_of_le_of_lt (Nat.le_add_left ..) hlength
  have hu32 {value : Nat} (h : value < 2 ^ 32) (message : String) :
      toU32 value message = .ok (UInt32.ofNat value) := if_pos h
  refine ⟨pool', ⟨pathId, UInt32.ofNat draft.words.length,
    UInt32.ofNat program.instructions.length, UInt32.ofNat program.localCount,
    UInt32.ofNat program.parameterCount, procedureFlags program⟩, words, ?_, hsound'', hstrings',
    hpath, UInt32.toNat_ofNat_of_lt' hoffset, UInt32.toNat_ofNat_of_lt' hinstructions,
    UInt32.toNat_ofNat_of_lt' hlocal, UInt32.toNat_ofNat_of_lt' hparameters, rfl, hcount, hvalid⟩
  rw [addProcedure, hintern, hu32 hoffset, hu32 hinstructions, hu32 hlocal, hu32 hparameters]
  show (CompactWordcodeImage.addWords program.instructions pool >>= _) = _
  rw [hwords]
  rfl

/-- A described procedure passes the checks of any image that goes on from here. -/
theorem Describes.validateRecord {record : CompactProcedureRecord} {before words : List UInt32}
    (h : Describes table path program before.length record words) {image : CompactWordcodeImage}
    (hstrings : image.strings = table) (hwords : before ++ words <+: image.words) (index : Nat) :
    image.validateRecord (stringIds table) index (some path) record program = .ok () := by
  obtain ⟨rest, hrest⟩ := hwords
  have hlength : before.length + words.length + rest.length = image.words.length := by
    rw [← hrest, List.length_append, List.length_append]
  have hslice : (image.words.drop record.wordOffset.toNat).take record.instructionCount.toNat =
      words := by
    rw [h.offset, h.instructionCount, ← h.length, ← hrest, List.append_assoc, List.drop_left,
      List.take_left]
  have hpath : image.strings[record.pathId.toNat]? = some path := by
    rw [hstrings]
    exact h.path
  unfold CompactWordcodeImage.validateRecord
  rw [hpath]
  dsimp only
  rw [if_neg (not_not.2 rfl), if_neg, if_neg, hslice]
  · exact h.words index 0
  · rw [h.offset, h.instructionCount, ← h.length]
    omega
  · rw [h.instructionCount, h.localCount, h.parameterCount, h.flags]
    simp

/-- A described procedure starts where the words before it end. -/
theorem Describes.validateRecords {record : CompactProcedureRecord} {before words : List UInt32}
    (h : Describes table path program before.length record words) (hfits : program.WordcodeFits)
    {wordCount : Nat} (hcount : (before ++ words).length ≤ wordCount)
    (records : List CompactProcedureRecord) :
    validateRecords table.length wordCount before.length (record :: records) =
      validateRecords table.length wordCount (before ++ words).length records := by
  have hpath := (List.getElem?_eq_some_iff.1 h.path).1
  have hend : before.length + record.instructionCount.toNat = (before ++ words).length := by
    rw [List.length_append, h.instructionCount, h.length]
  have hflags : record.flags &&& ~~~1 = 0 := by
    rw [h.flags, procedureFlags]
    split <;> decide
  have hslots : record.parameterCount ≤ record.localCount := by
    rw [UInt32.le_iff_toNat_le, h.parameterCount, h.localCount]
    exact hfits.slots
  conv_lhs => rw [Dream64.Bytecode.validateRecords]
  rw [if_neg (Nat.not_le.2 hpath), if_neg (not_not.2 hflags), if_neg (UInt32.not_lt.2 hslots),
    if_neg (not_not.2 h.offset), hend, if_neg (Nat.not_lt.2 hcount)]

include htable in
/-- The procedures from an index on are added, and the check accepts them. -/
theorem addProcedures_eq_ok {paths : List String} {programs : List Program} {index : Nat}
    {draft : Draft} (hsound : draft.pool.Sound)
    (hfront : (List.zipWith Program.wordStrings (paths.drop index) programs).flatten.foldl addString
      draft.pool.strings <+: table)
    (hpaths : index + programs.length ≤ paths.length)
    (hfits : ∀ program ∈ programs, program.WordcodeFits)
    (hlength : draft.words.length + (programs.map fun program => program.instructions.length).sum <
      2 ^ 32) :
    ∃ pool records words, addProcedures paths index programs draft =
        .ok ⟨pool, draft.procedures ++ records, draft.words ++ words⟩ ∧
      pool.strings = (List.zipWith Program.wordStrings (paths.drop index) programs).flatten.foldl
        addString draft.pool.strings ∧
      records.length = programs.length ∧
      words.length = (programs.map fun program => program.instructions.length).sum ∧
      ∀ image : CompactWordcodeImage, image.strings = table → draft.words ++ words <+: image.words →
        validateRecords table.length image.words.length draft.words.length records =
          .ok (draft.words ++ words).length ∧
        image.validateProcedures (stringIds table) paths index records programs = .ok () := by
  induction programs generalizing index draft with
  | nil =>
    refine ⟨draft.pool, [], [], ?_, ?_, rfl, rfl, fun image _ _ => ⟨?_, rfl⟩⟩
    · rw [addProcedures, List.append_nil, List.append_nil]
    · rw [List.zipWith_nil_right]
      rfl
    · rw [validateRecords, List.append_nil]
  | cons program programs ih =>
    rw [List.length_cons] at hpaths
    rw [List.map_cons, List.sum_cons] at hlength
    have hat : paths[index]? = some paths[index] := List.getElem?_eq_getElem (by omega)
    have hzip : List.zipWith Program.wordStrings (paths.drop index) (program :: programs) =
        program.wordStrings paths[index] ::
          List.zipWith Program.wordStrings (paths.drop (index + 1)) programs := by
      rw [List.drop_eq_getElem_cons (by omega), List.zipWith_cons_cons]
    rw [hzip, List.flatten_cons, List.foldl_append] at hfront ⊢
    have hfit := hfits program List.mem_cons_self
    obtain ⟨pool, record, words, hadd, hsound', hstrings, hdescribes⟩ :=
      addProcedure_eq_ok htable hsound ((prefix_foldl_addString _ _).trans hfront) hfit (by omega)
    rw [← hstrings] at hfront ⊢
    have hcount := hdescribes.length
    obtain ⟨pool', records, words', hmore, hstrings', hrecords, hwords, hchecks⟩ :=
      ih (show (Draft.pool ⟨pool, draft.procedures ++ [record], draft.words ++ words⟩).Sound from hsound')
        hfront
        (by omega) (fun other hmem => hfits other (List.mem_cons_of_mem _ hmem))
        (by
          rw [List.length_append, hcount]
          omega)
    refine ⟨pool', record :: records, words ++ words', ?_, hstrings', congrArg (· + 1) hrecords,
      ?_, fun image htexts himage => ?_⟩
    · rw [addProcedures, hat, hadd]
      show addProcedures paths (index + 1) programs _ = _
      rw [hmore, List.append_assoc, List.append_assoc]
      rfl
    · rw [List.length_append, List.map_cons, List.sum_cons, hcount, hwords]
    · rw [← List.append_assoc] at himage ⊢
      obtain ⟨hvalidRecords, hvalidProcedures⟩ := hchecks image htexts himage
      have hbefore := (List.prefix_append (draft.words ++ words) words').trans himage
      constructor
      · rw [hdescribes.validateRecords hfit hbefore.length_le]
        exact hvalidRecords
      · rw [CompactWordcodeImage.validateProcedures, hat,
          hdescribes.validateRecord htexts hbefore index]
        exact hvalidProcedures

end

variable {module : Module}

theorem Module.WordcodeFits.table (h : module.WordcodeFits) : TableFits module.stringTable :=
  ⟨foldl_addString_nodup List.nodup_nil _, h.strings, h.texts⟩

/-- A module within the limits has an image. -/
theorem build_eq_ok_of_fits (h : module.WordcodeFits) :
    ∃ image, CompactWordcodeImage.build module = .ok image := by
  have hmax : maxWords < 2 ^ 32 := by decide
  have hwords := h.words
  have hprograms (program : Program) (hmem : program ∈ module.procedures) : program.WordcodeFits :=
    ⟨(h.slots program hmem).1, (h.slots program hmem).2, h.operands program hmem⟩
  have hempty : CompactWordcodeImage.Draft.empty.pool.Sound := ⟨fun _ _ hid => (by cases hid), fun _ _ => List.not_mem_nil⟩
  obtain ⟨pool, records, words, hadd, hstrings, hrecords, hcount, hchecks⟩ :=
    addProcedures_eq_ok h.table hempty
      (show (List.zipWith _ (module.paths.drop 0) module.procedures).flatten.foldl addString [] <+: _
        from List.prefix_refl _) (by rw [Nat.zero_add]; exact h.paths) hprograms (by
        show 0 + _ < _
        omega)
  have htable : pool.strings = module.stringTable := hstrings
  have himage := hchecks ⟨pool.strings, records, words⟩ htable (List.prefix_refl _)
  obtain ⟨hvalidRecords, hvalidProcedures⟩ := himage
  rw [← htable] at hvalidRecords hvalidProcedures
  have hvalid : CompactWordcodeImage.Valid ⟨pool.strings, records, words⟩ :=
    ⟨⟨htable ▸ h.strings, hrecords ▸ h.procedures, hcount ▸ h.words, htable ▸ h.texts⟩,
      htable ▸ h.table.nodup, hvalidRecords⟩
  refine ⟨⟨pool.strings, records, words⟩, ?_⟩
  rw [CompactWordcodeImage.build, if_neg (not_not.2 h.eager), if_neg (Nat.not_lt.2 h.procedures),
    if_neg (Nat.not_lt.2 h.words), hadd]
  show (CompactWordcodeImage.validateAgainst ⟨pool.strings, records, words⟩ module >>= _) = _
  have hagainst : CompactWordcodeImage.validateAgainst ⟨pool.strings, records, words⟩ module =
      .ok () := by
    rw [CompactWordcodeImage.validateAgainst,
      (CompactWordcodeImage.validateImage_eq_ok (u := ())).2 hvalid]
    show (if module.deferred ≠ [] then _ else _ : Except CompactWordcodeError Unit) = _
    rw [if_neg (not_not.2 h.eager), if_neg (not_not.2 hrecords)]
    exact hvalidProcedures
  rw [hagainst]
  rfl

/-- The check has accepted what was built. -/
theorem validateAgainst_of_build {image : CompactWordcodeImage}
    (h : CompactWordcodeImage.build module = .ok image) :
    image.validateAgainst module = .ok () := by
  simp only [CompactWordcodeImage.build, refuse_eq_ok, bind_eq_ok_iff, pure_eq_ok] at h
  obtain ⟨-, -, -, draft, -, ⟨⟩, hvalid, rfl⟩ := h
  exact hvalid

end Dream64.Bytecode
