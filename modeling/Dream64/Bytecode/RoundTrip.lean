import Dream64.Bytecode.ProgramCodec

/-!
# The round trip of a module

What `decodePortable` accepts is encoded as the same bytes again. An encoded
module is decoded with its programs, paths and types; the name indexes are those
of its path table, and the index of initializer calls is not kept. So the module
comes back where its indexes are those of the path table.
-/

namespace Dream64.Bytecode

open Codec

/-! ## The programs of a module -/

def totalInstructions (programs : List Program) : Nat :=
  (programs.map fun program => program.instructions.length).sum

variable {index : Nat} {paths : List String}

theorem validatePrograms_eq_ok {procedureCount total : Nat} {programs : List Program}
    (hlength : paths.length = programs.length) (htotal : total ≤ maxTotalInstructions) :
    validatePrograms procedureCount index total paths programs = .ok () ↔
      (∀ program ∈ programs, program.Checked procedureCount) ∧
        total + totalInstructions programs ≤ maxTotalInstructions := by
  induction programs generalizing index total paths with
  | nil =>
    rw [List.eq_nil_of_length_eq_zero hlength]
    exact ⟨fun _ => ⟨fun _ hmem => absurd hmem List.not_mem_nil, htotal⟩, fun _ => rfl⟩
  | cons program programs ih =>
    cases paths with
    | nil => cases hlength
    | cons path paths =>
      rw [validatePrograms, List.forall_mem_cons, totalInstructions, List.map_cons, List.sum_cons,
        ← Nat.add_assoc]
      cases hvalid : validateProgram program procedureCount with
      | error error =>
        refine ⟨fun h => (by cases h), fun h => ?_⟩
        rw [validateProgram_eq_ok.2 h.1.1] at hvalid
        cases hvalid
      | ok =>
        have hchecked := validateProgram_eq_ok.1 hvalid
        dsimp only
        by_cases hlimit : maxTotalInstructions < total + program.instructions.length
        · rw [if_pos hlimit]
          exact ⟨fun h => (by cases h), fun h => absurd h.2 (by omega)⟩
        · rw [if_neg hlimit, ih (Nat.succ.inj hlength) (Nat.not_lt.1 hlimit)]
          exact ⟨fun h => ⟨⟨hchecked, h.1⟩, h.2⟩, fun h => ⟨h.1.2, h.2⟩⟩

/-- What `validate_module` asks for. -/
structure Module.Checked (module : Module) : Prop where
  eager : module.deferred = []
  procedureCount : module.procedures.length ≤ maxProcedures
  pathCount : module.paths.length = module.procedures.length
  typeCount : module.procedureTypes.length ≤ maxProcedureTypes
  programs : ∀ program ∈ module.procedures, program.Checked module.procedures.length
  total : totalInstructions module.procedures ≤ maxTotalInstructions

variable {module : Module}

theorem validateModule_eq_ok : validateModule module = .ok () ↔ module.Checked := by
  simp only [validateModule, refuse_eq_ok, not_not, Nat.not_lt]
  constructor
  · rintro ⟨heager, hcount, hpaths, htypes, hprograms⟩
    obtain ⟨hchecked, htotal⟩ := (validatePrograms_eq_ok hpaths (Nat.zero_le _)).1 hprograms
    rw [Nat.zero_add] at htotal
    exact ⟨heager, hcount, hpaths, htypes, hchecked, htotal⟩
  · intro h
    refine ⟨h.eager, h.procedureCount, h.pathCount, h.typeCount,
      (validatePrograms_eq_ok h.pathCount (Nat.zero_le _)).2 ⟨h.programs, ?_⟩⟩
    rw [Nat.zero_add]
    exact h.total

variable {α : Type}

theorem reads_located {grammar : Grammar α} {read : ModuleReader α} (index : Nat) (path : String)
    (h : Reads grammar read) : Reads grammar (located index path read) where
  complete hout rest := by
    rw [located, h.complete hout]
    rfl
  sound {bytes rest a} hread := by
    unfold located at hread
    cases hresult : read bytes with
    | error error =>
      rw [hresult] at hread
      cases hread
    | ok result =>
      rw [hresult] at hread
      cases hread
      exact h.sound hresult

theorem reads_programs (procedureCount index total : Nat) (paths : List String)
    (htotal : total ≤ maxTotalInstructions) :
    Reads (fun out programs => (programs.length = paths.length ∧
        (∀ program ∈ programs, program.Checked procedureCount ∧ program.HasUnions) ∧
        total + totalInstructions programs ≤ maxTotalInstructions) ∧
          joined (programs.map encodeProgram) = .ok out)
      (decodePrograms procedureCount index total paths) := by
  induction paths generalizing index total with
  | nil =>
    refine (Reads.pure []).congr fun out programs => ⟨?_, ?_⟩
    · rintro ⟨⟨hlength, -, -⟩, hout⟩
      have hnil := List.eq_nil_of_length_eq_zero hlength
      subst hnil
      exact ⟨joined_nil_eq_ok.1 hout, rfl⟩
    · rintro ⟨rfl, rfl⟩
      exact ⟨⟨rfl, fun _ hmem => absurd hmem List.not_mem_nil, htotal⟩, joined_nil_eq_ok.2 rfl⟩
  | cons path paths ih =>
    constructor
    · intro out programs h rest
      obtain ⟨⟨hlength, hvalid, hlimit⟩, hout⟩ := h
      cases programs with
      | nil => cases hlength
      | cons program programs =>
        rw [totalInstructions, List.map_cons, List.sum_cons, ← Nat.add_assoc] at hlimit
        obtain ⟨hprogram, hprograms⟩ := List.forall_mem_cons.1 hvalid
        obtain ⟨first, hfirst, last, hlast, rfl⟩ := joined_cons_eq_ok.1 hout
        have hpart : total + program.instructions.length ≤ maxTotalInstructions := by omega
        rw [decodePrograms, List.append_assoc,
          (reads_located index path (reads_program procedureCount)).step ⟨hprogram, hfirst⟩,
          if_neg (Nat.not_lt.2 hpart),
          (ih (index + 1) _ hpart).step ⟨⟨Nat.succ.inj hlength, hprograms, hlimit⟩, hlast⟩]
        rfl
    · intro bytes rest programs hread
      rw [decodePrograms] at hread
      obtain ⟨program, first, rest₁, ⟨hprogram, hfirst⟩, rfl, hread₁⟩ :=
        (reads_located index path (reads_program procedureCount)).split hread
      by_cases hlimit : maxTotalInstructions < total + program.instructions.length
      · rw [if_pos hlimit] at hread₁
        cases hread₁
      rw [if_neg hlimit] at hread₁
      obtain ⟨more, last, rest₂, ⟨⟨hlength, hmore, hmoreLimit⟩, hlast⟩, rfl, hread₂⟩ :=
        (ih (index + 1) _ (Nat.not_lt.1 hlimit)).split hread₁
      cases hread₂
      refine ⟨first ++ last, ⟨⟨congrArg (· + 1) hlength, List.forall_mem_cons.2 ⟨hprogram, hmore⟩, ?_⟩,
        joined_cons_eq_ok.2 ⟨first, hfirst, last, hlast, rfl⟩⟩, (List.append_assoc ..).symm⟩
      rw [totalInstructions, List.map_cons, List.sum_cons, ← Nat.add_assoc]
      exact hmoreLimit

/-! ## The tables -/

/-- A program takes up 17 bytes at least. -/
theorem length_of_program {out : Bytes} {program : Program} (h : encodeProgram program = .ok out) :
    17 ≤ out.length := by
  obtain ⟨waitFor, names, types, verbName, instructions, spans, hwaitFor, hnames, htypes, -, -, -, rfl⟩ :=
    encodeProgram_eq_ok.1 h
  obtain ⟨-, -, nameItems, -, rfl⟩ := writeVector_eq_ok.1 hnames
  obtain ⟨-, -, typeItems, -, rfl⟩ := writeVector_eq_ok.1 htypes
  simp only [List.length_append, length_toLittleEndian, length_of_u8 hwaitFor]
  omega

/-- The tables of a module that passes the checks. -/
structure ModuleTables.Valid (tables : ModuleTables) : Prop where
  pathCount : tables.procedures.length = tables.paths.length
  procedureCount : tables.paths.length ≤ maxProcedures
  typeCount : tables.procedureTypes.length ≤ maxProcedureTypes
  programs : ∀ program ∈ tables.procedures,
    program.Checked tables.paths.length ∧ program.HasUnions
  total : totalInstructions tables.procedures ≤ maxTotalInstructions

/-- The bytes of the tables. -/
def WritesTables (tables : ModuleTables) (out : Bytes) : Prop :=
  ∃ paths types programs, joined (tables.paths.map writeString) = .ok paths ∧
    joined (tables.procedureTypes.map writeTypePath) = .ok types ∧
    joined (tables.procedures.map encodeProgram) = .ok programs ∧
    out = toLittleEndian 4 tables.paths.length ++ (paths ++
      (toLittleEndian 4 tables.procedureTypes.length ++ (types ++ programs)))

variable {bytes : Bytes}

/-- A number that has been read demands enough bytes. -/
theorem demandItems_step {count least : Nat} {text : String} (hpos : 0 < least)
    (hfits : count * least ≤ bytes.length) (next : Unit → ModuleReader α) :
    (demandItems count least text >>= next) bytes = next () bytes := by
  rw [bind_apply, demandItems, demand, if_pos ((Nat.le_div_iff_mul_le hpos).2 hfits)]
  rfl

theorem demandItems_split {count least : Nat} {text : String} {rest : Bytes} {a : α}
    {next : Unit → ModuleReader α}
    (h : (demandItems count least text >>= next) bytes = .ok (a, rest)) :
    next () bytes = .ok (a, rest) := by
  rw [bind_apply, demandItems, demand] at h
  split at h
  · exact h
  · cases h

theorem reads_tables :
    Reads (fun out tables => ModuleTables.Valid tables ∧ WritesTables tables out) readModuleTables where
  complete {out tables} h rest := by
    obtain ⟨hvalid, paths, types, programs, hpaths, htypes, hprograms, rfl⟩ := h
    have hcount := hvalid.procedureCount
    have htypeCount := hvalid.typeCount
    rw [maxProcedures] at hcount
    rw [maxProcedureTypes] at htypeCount
    have hpathFits := length_of_items (fun _ _ => length_of_string) hpaths
    have htypeFits := length_of_items (fun _ _ h => length_of_string h) htypes
    have hprogramFits := length_of_items (fun _ _ => length_of_program) hprograms
    rw [hvalid.pathCount] at hprogramFits
    simp only [List.append_assoc]
    rw [readModuleTables, (reads_bounded _ _).step ⟨hvalid.procedureCount, by omega, rfl⟩,
      demandItems_step (by decide) (by rw [List.length_append]; omega),
      ((reads_any (reads_string _)).many 0 _).step
        (repeated_valid.2 ⟨rfl, fun _ _ => trivial, hpaths⟩),
      (reads_bounded _ _).step ⟨hvalid.typeCount, by omega, rfl⟩,
      demandItems_step (by decide) (by rw [List.length_append]; omega),
      (((reads_typePath _).congr fun _ _ => and_iff_right trivial).many 0 _).step
        (repeated_valid.2 ⟨rfl, fun _ _ => trivial, htypes⟩),
      demandItems_step (by decide) (by rw [List.length_append]; omega),
      (reads_programs _ 0 0 _ (Nat.zero_le _)).step
        ⟨⟨hvalid.pathCount, hvalid.programs, by rw [Nat.zero_add]; exact hvalid.total⟩, hprograms⟩]
    rfl
  sound {bytes rest tables} hread := by
    obtain ⟨count, _, rest₁, ⟨hcount, -, rfl⟩, rfl, hread₁⟩ := (reads_bounded _ _).split hread
    obtain ⟨paths, pathBytes, rest₂, hpaths, rfl, hread₂⟩ :=
      ((reads_any (reads_string _)).many 0 _).split (demandItems_split hread₁)
    obtain ⟨rfl, -, hpathBytes⟩ := repeated_valid.1 hpaths
    obtain ⟨typeCount, _, rest₃, ⟨htypeCount, -, rfl⟩, rfl, hread₃⟩ := (reads_bounded _ _).split hread₂
    obtain ⟨types, typeBytes, rest₄, htypes, rfl, hread₄⟩ :=
      (((reads_typePath _).congr fun _ _ => and_iff_right trivial).many 0 _).split
        (demandItems_split hread₃)
    obtain ⟨rfl, -, htypeBytes⟩ := repeated_valid.1 htypes
    obtain ⟨programs, programBytes, rest₅, ⟨⟨hlength, hvalid, htotal⟩, hprogramBytes⟩, rfl, hread₅⟩ :=
      (reads_programs _ 0 0 _ (Nat.zero_le _)).split (demandItems_split hread₄)
    cases hread₅
    rw [Nat.zero_add] at htotal
    refine ⟨_, ⟨⟨hlength, hcount, htypeCount, hvalid, htotal⟩, pathBytes, typeBytes, programBytes,
      hpathBytes, htypeBytes, hprogramBytes, rfl⟩, ?_⟩
    simp only [List.append_assoc]

/-! ## The indexes -/

/-- The canonical paths, each with its place. -/
def nameIndexFrom : (index : Nat) → NameIndex → List String → NameIndex
  | _, names, [] => names
  | index, names, path :: paths =>
    nameIndexFrom (index + 1)
      (if isCanonical path then names.insert path (UInt32.ofNat index) else names) paths

/-- `dynamic_name_index`, where all places are numbers of 32 bits. -/
def dynamicNamesFrom : (index : Nat) → NameIndex → List String → NameIndex
  | _, names, [] => names
  | index, names, path :: paths =>
    dynamicNamesFrom (index + 1) (addDynamicName names path (UInt32.ofNat index)) paths

/-- The module with the indexes of its path table. -/
def Module.rebuilt (module : Module) : Module :=
  { module with
    names := nameIndexFrom 0 NameIndex.empty module.paths
    dynamicNames := dynamicNamesFrom 0 NameIndex.empty module.paths
    initializerCallNames := none }

/-- No canonical path comes twice. -/
def DistinctPaths (paths : List String) : Prop := (paths.filter isCanonical).Nodup

theorem canonicalNames_eq_ok {names result : NameIndex} :
    canonicalNames index names paths = .ok result ↔
      (DistinctPaths paths ∧ ∀ path ∈ paths, isCanonical path = true → names path = none) ∧
        result = nameIndexFrom index names paths := by
  induction paths generalizing index names with
  | nil =>
    rw [canonicalNames, Except.ok.injEq, eq_comm]
    exact (and_iff_right ⟨List.nodup_nil, fun _ hmem => absurd hmem List.not_mem_nil⟩).symm
  | cons path paths ih =>
    rw [canonicalNames, nameIndexFrom, DistinctPaths, List.filter_cons, List.forall_mem_cons]
    by_cases hcanonical : isCanonical path = true
    · rw [if_pos hcanonical, if_pos hcanonical, if_pos hcanonical, List.nodup_cons]
      by_cases htaken : (names path).isSome = true
      · rw [if_pos htaken]
        refine ⟨fun h => (by cases h), fun h => ?_⟩
        rw [h.1.2.1 hcanonical] at htaken
        cases htaken
      · rw [if_neg htaken, ih]
        have hfree : names path = none := Option.not_isSome_iff_eq_none.1 htaken
        have hinsert (other : String) (hother : isCanonical other = true) :
            (names.insert path (UInt32.ofNat index)) other = none ↔
              other ≠ path ∧ names other = none := by
          rw [NameIndex.insert, Function.update_apply]
          by_cases heq : other = path
          · simp [heq]
          · simp [heq]
        refine and_congr_left fun _ => ⟨?_, ?_⟩
        · rintro ⟨hdistinct, hnames⟩
          refine ⟨⟨fun hmem => ?_, hdistinct⟩, fun _ => hfree, fun other hmem hother =>
            ((hinsert other hother).1 (hnames other hmem hother)).2⟩
          have hmem := (List.mem_filter.1 hmem).1
          exact ((hinsert path hcanonical).1 (hnames path hmem hcanonical)).1 rfl
        · rintro ⟨⟨hfresh, hdistinct⟩, -, hnames⟩
          refine ⟨hdistinct, fun other hmem hother => (hinsert other hother).2
            ⟨fun heq => hfresh ?_, hnames other hmem hother⟩⟩
          exact List.mem_filter.2 ⟨heq ▸ hmem, hcanonical⟩
    · rw [if_neg hcanonical, if_neg hcanonical, if_neg hcanonical, ih]
      exact and_congr_left fun _ => and_congr_right fun _ =>
        ⟨fun h => ⟨fun hpath => absurd hpath hcanonical, h⟩, And.right⟩

theorem dynamicNameIndexFrom_eq {names : NameIndex} (h : index + paths.length ≤ 2 ^ 32) :
    dynamicNameIndexFrom index names paths = .ok (dynamicNamesFrom index names paths) := by
  induction paths generalizing index names with
  | nil => rfl
  | cons path paths ih =>
    rw [List.length_cons] at h
    rw [dynamicNameIndexFrom, if_pos (by omega), dynamicNamesFrom]
    exact ih (by omega)

/-! ## The artifact -/

def Module.tables (module : Module) : ModuleTables :=
  ⟨module.paths, module.procedureTypes, module.procedures⟩

def moduleHeader : Bytes := moduleMagic ++ (toLittleEndian 2 6 ++ toLittleEndian 2 0)

theorem reads_header : Reads (fun out (_ : Unit) => out = moduleHeader) readModuleHeader where
  complete {out u} h rest := by
    subst h
    rfl
  sound {bytes rest u} hread := by
    obtain ⟨magic, first, rest₁, ⟨-, hfirst⟩, rfl, hread₁⟩ := (reads_exactly 8 _).split hread
    by_cases hmagic : magic = moduleMagic
    · rw [if_neg (not_not.2 hmagic)] at hread₁
      obtain ⟨version, _, rest₂, hversionBytes, rfl, hread₂⟩ := (reads_u16 _).split hread₁
      by_cases hversion : version = moduleVersion
      · rw [if_neg (not_not.2 hversion)] at hread₂
        obtain ⟨flags, _, rest₃, hflagBytes, rfl, hread₃⟩ := (reads_u16 _).split hread₂
        by_cases hflags : flags = 0
        · rw [if_neg (not_not.2 hflags)] at hread₃
          cases hread₃
          obtain rfl := Except.ok.inj hversionBytes
          obtain rfl := Except.ok.inj hflagBytes
          refine ⟨_, rfl, ?_⟩
          rw [hfirst, hmagic, hversion, hflags, moduleHeader, List.append_assoc, List.append_assoc]
          rfl
        · rw [if_pos hflags] at hread₃
          cases hread₃
      · rw [if_pos hversion] at hread₂
        cases hread₂
    · rw [if_pos hmagic] at hread₁
      cases hread₁

theorem encodeModule_eq_ok (hchecked : module.Checked) : encodeModule module = .ok bytes ↔
      ∃ body, WritesTables module.tables body ∧ bytes = moduleHeader ++ body := by
  have hcount := hchecked.procedureCount
  have htypeCount := hchecked.typeCount
  have hlen : writeLen maxProcedures "procedure count" module.procedures.length =
      .ok (toLittleEndian 4 module.paths.length) := by
    rw [writeLen_eq_ok, hchecked.pathCount]
    rw [maxProcedures] at *
    exact ⟨hcount, by omega, rfl⟩
  have htypes (types : Bytes) : writeVector maxProcedureTypes "procedure type count" writeTypePath
      module.procedureTypes = .ok types ↔ ∃ items,
        joined (module.procedureTypes.map writeTypePath) = .ok items ∧
          types = toLittleEndian 4 module.procedureTypes.length ++ items := by
    rw [writeVector_eq_ok]
    rw [maxProcedureTypes] at *
    exact ⟨fun h => h.2.2, fun h => ⟨htypeCount, by omega, h⟩⟩
  simp only [encodeModule, joined_append_eq_ok, joined_cons_eq_ok, joined_nil_eq_ok, hlen, htypes,
    writeU16, Except.ok.injEq, WritesTables, Module.tables]
  constructor
  · rintro ⟨_, ⟨_, ⟨_, ⟨_, rfl, _, ⟨_, rfl, _, ⟨_, rfl, _, ⟨_, rfl, _, rfl, rfl⟩, rfl⟩, rfl⟩, rfl⟩,
      paths, hpaths, rfl⟩, _, ⟨_, ⟨types, htypes, rfl⟩, _, rfl, rfl⟩, rfl⟩, programs, hprograms, rfl⟩
    refine ⟨_, ⟨paths, types, programs, hpaths, htypes, hprograms, rfl⟩, ?_⟩
    simp only [moduleHeader, List.append_assoc, List.append_nil]
    rfl
  · rintro ⟨_, ⟨paths, types, programs, hpaths, htypes, hprograms, rfl⟩, rfl⟩
    refine ⟨_, ⟨_, ⟨_, ⟨_, rfl, _, ⟨_, rfl, _, ⟨_, rfl, _, ⟨_, rfl, _, rfl, rfl⟩, rfl⟩, rfl⟩, rfl⟩,
      paths, hpaths, rfl⟩, _, ⟨_, ⟨types, htypes, rfl⟩, _, rfl, rfl⟩, rfl⟩, programs, hprograms, ?_⟩
    simp only [moduleHeader, List.append_assoc, List.append_nil]
    rfl

/-- What is encoded: the modules that pass the checks, up to a number of bytes. -/
theorem encodePortable_eq_ok :
    encodePortable module = .ok bytes ↔ module.Checked ∧ bytes.length ≤ maxArtifactBytes ∧
      ∃ body, WritesTables module.tables body ∧ bytes = moduleHeader ++ body := by
  simp only [encodePortable, bind_eq_ok_iff, refuse_eq_ok, pure_eq_ok, Nat.not_lt]
  constructor
  · rintro ⟨_, hvalid, _, hbytes, hlimit, rfl⟩
    have hchecked := validateModule_eq_ok.1 hvalid
    exact ⟨hchecked, hlimit, (encodeModule_eq_ok hchecked).1 hbytes⟩
  · rintro ⟨hchecked, hlimit, hbody⟩
    exact ⟨(), validateModule_eq_ok.2 hchecked, bytes, (encodeModule_eq_ok hchecked).2 hbody, hlimit, rfl⟩

/-- The atom masks of a module are unions of the four flags. -/
def Module.HasUnions (module : Module) : Prop := ∀ program ∈ module.procedures, program.HasUnions

theorem Module.Checked.tables_valid (h : module.Checked) (hunions : module.HasUnions) :
    module.tables.Valid := by
  have hcount := h.procedureCount
  rw [← h.pathCount] at hcount
  refine ⟨h.pathCount.symm, hcount, h.typeCount, fun program hmem => ⟨?_, hunions program hmem⟩, h.total⟩
  show program.Checked module.paths.length
  rw [h.pathCount]
  exact h.programs program hmem

theorem moduleOf_eq_ok {tables : ModuleTables} (hcount : tables.paths.length ≤ maxProcedures) :
    moduleOf tables = .ok module ↔ module.tables = tables ∧ module.Checked ∧
      DistinctPaths module.paths ∧ module.rebuilt = module := by
  have hwide : 0 + tables.paths.length ≤ 2 ^ 32 := by
    rw [maxProcedures] at hcount
    omega
  have hdynamic : (dynamicNameIndex tables.paths).mapError ModuleCodecError.message =
      .ok (dynamicNamesFrom 0 NameIndex.empty tables.paths) := by
    rw [dynamicNameIndex, dynamicNameIndexFrom_eq hwide]
    rfl
  simp only [moduleOf, bind_eq_ok_iff, canonicalNames_eq_ok, hdynamic, Except.ok.injEq, pure_eq_ok]
  constructor
  · rintro ⟨_, ⟨⟨hdistinct, -⟩, rfl⟩, _, rfl, _, hchecked, rfl⟩
    exact ⟨rfl, validateModule_eq_ok.1 hchecked, hdistinct, rfl⟩
  · rintro ⟨rfl, hchecked, hdistinct, hrebuilt⟩
    have hsame : module = ⟨module.procedures, module.paths, nameIndexFrom 0 NameIndex.empty module.paths,
        dynamicNamesFrom 0 NameIndex.empty module.paths, [], module.procedureTypes, none⟩ := by
      conv_lhs => rw [← hrebuilt]
      rw [← hchecked.eager]
      rfl
    refine ⟨_, ⟨⟨hdistinct, fun _ _ _ => rfl⟩, rfl⟩, _, rfl, (), ?_, hsame⟩
    exact validateModule_eq_ok.2 (hsame ▸ hchecked)

/-- What is decoded: the tables, with the indexes of the path table. -/
theorem decodePortable_eq_ok :
    decodePortable bytes = .ok module ↔ bytes.length ≤ maxArtifactBytes ∧ module.Checked ∧
      module.HasUnions ∧ DistinctPaths module.paths ∧ module.rebuilt = module ∧
      ∃ body, WritesTables module.tables body ∧ bytes = moduleHeader ++ body := by
  rw [decodePortable, refuse_eq_ok, Nat.not_lt]
  simp only [bind_eq_ok_iff, refuse_eq_ok, not_not]
  refine and_congr_right fun _ => ⟨?_, ?_⟩
  · rintro ⟨⟨_, body⟩, hheader, ⟨tables, rest⟩, htables, hrest, hmodule⟩
    obtain ⟨_, rfl, rfl⟩ := reads_header.sound hheader
    obtain ⟨out, ⟨hvalid, hwritten⟩, hbody⟩ := reads_tables.sound htables
    obtain ⟨rfl, hchecked, hdistinct, hrebuilt⟩ := (moduleOf_eq_ok hvalid.procedureCount).1 hmodule
    refine ⟨hchecked, fun program hmem => (hvalid.programs program hmem).2, hdistinct, hrebuilt, out,
      hwritten, ?_⟩
    have hout : body = out := by
      rw [show body = out ++ rest from hbody, show rest = [] from hrest, List.append_nil]
    rw [hout]
  · rintro ⟨hchecked, hunions, hdistinct, hrebuilt, body, hbody, rfl⟩
    have hvalid := hchecked.tables_valid hunions
    have hread := reads_tables.complete ⟨hvalid, hbody⟩ []
    rw [List.append_nil] at hread
    exact ⟨((), body), reads_header.complete rfl body, (module.tables, []), hread, rfl,
      (moduleOf_eq_ok hvalid.procedureCount).2 ⟨rfl, hchecked, hdistinct, hrebuilt⟩⟩

theorem decodePortable_of_encoded (hunions : module.HasUnions)
    (hdistinct : DistinctPaths module.paths) (h : encodePortable module = .ok bytes) :
    decodePortable bytes = .ok module.rebuilt := by
  obtain ⟨hchecked, hlimit, hbody⟩ := encodePortable_eq_ok.1 h
  refine decodePortable_eq_ok.2 ⟨hlimit, ?_, hunions, hdistinct, rfl, hbody⟩
  exact ⟨hchecked.eager, hchecked.procedureCount, hchecked.pathCount, hchecked.typeCount,
    hchecked.programs, hchecked.total⟩

theorem encodePortable_of_decoded (h : decodePortable bytes = .ok module) :
    encodePortable module = .ok bytes := by
  obtain ⟨hlimit, hchecked, -, -, -, hbody⟩ := decodePortable_eq_ok.1 h
  exact encodePortable_eq_ok.2 ⟨hchecked, hlimit, hbody⟩

/-- An encoded module is decoded with the indexes of its path table, and so as an equal module where
these are its indexes; what is decoded is encoded as the same bytes. -/
theorem portable_roundTrip (module : Module) (bytes : Bytes) :
    (encodePortable module = .ok bytes →
      (module.HasUnions ∧ DistinctPaths module.paths → decodePortable bytes = .ok module.rebuilt) ∧
      (decodePortable bytes = .ok module ↔
        module.HasUnions ∧ DistinctPaths module.paths ∧ module.rebuilt = module)) ∧
    (decodePortable bytes = .ok module → encodePortable module = .ok bytes) := by
  refine ⟨fun hencode => ⟨fun h => decodePortable_of_encoded h.1 h.2 hencode, ?_⟩,
    encodePortable_of_decoded⟩
  obtain ⟨hchecked, hlimit, hbody⟩ := encodePortable_eq_ok.1 hencode
  rw [decodePortable_eq_ok]
  constructor
  · rintro ⟨-, -, hunions, hdistinct, hrebuilt, -⟩
    exact ⟨hunions, hdistinct, hrebuilt⟩
  · rintro ⟨hunions, hdistinct, hrebuilt⟩
    exact ⟨hlimit, hchecked, hunions, hdistinct, hrebuilt, hbody⟩

/-- A procedure that returns null. -/
def returnNullProgram : Program :=
  { waitFor := true
    parameterCount := 0
    parameterNames := []
    verbParameterTypes := []
    verbName := none
    localCount := 0
    instructions := [.pushNull, .ret]
    sourceSpans := [⟨0, 1⟩, ⟨1, 2⟩] }

def returnNull : Module :=
  { procedures := [returnNullProgram]
    paths := ["/proc/main"]
    names := NameIndex.empty.insert "/proc/main" 0
    dynamicNames := NameIndex.empty.insert "/proc/main" 0
    deferred := []
    procedureTypes := []
    initializerCallNames := none }

/-- The same module, once an initializer was compiled against it. -/
def returnNullIndexed : Module :=
  { returnNull with initializerCallNames := some ⟨NameIndex.empty.insert "main" 0, 1⟩ }

theorem rebuilt_programs (programs : List Program) :
    ({ returnNull with procedures := programs } : Module).rebuilt =
      { returnNull with procedures := programs } := by
  rw [Module.rebuilt, returnNull, nameIndexFrom, if_pos (by decide), dynamicNamesFrom]
  rfl

/-- Procedures without parameters have no masks. -/
theorem hasUnions_of_nil (h : ∀ program ∈ module.procedures, program.verbParameterTypes = []) :
    module.HasUnions := by
  intro program hmem type htype
  rw [h program hmem] at htype
  exact absurd htype List.not_mem_nil

/-- A verb with a movable in its view as the argument, and a jump. -/
def pointVerb : Module :=
  { returnNull with procedures := [{ returnNullProgram with
      parameterCount := 1
      parameterNames := ["target"]
      verbParameterTypes := [.atom 3]
      verbName := some "point"
      localCount := 1
      instructions := [.loadLocal 0, .jumpIfFalse 0, .ret]
      sourceSpans := [⟨0, 1⟩, ⟨1, 2⟩, ⟨2, 3⟩] }] }

set_option maxRecDepth 2000 in
theorem pointVerb_roundTrips :
    ∃ bytes, encodePortable pointVerb = .ok bytes ∧ decodePortable bytes = .ok pointVerb := by
  have hunions : pointVerb.HasUnions := by
    intro program hmem type htype
    cases List.mem_singleton.1 hmem
    cases List.mem_singleton.1 htype
    exact ⟨by decide, by decide⟩
  exact ⟨_, rfl, ((portable_roundTrip pointVerb _).1 rfl).2.2
    ⟨hunions, by unfold DistinctPaths; decide, rebuilt_programs _⟩⟩

/-- The index of the initializer calls does not come back. -/
theorem returnNullIndexed_not_kept : ¬ ∀ module bytes, module.deferred = [] →
    encodePortable module = .ok bytes → decodePortable bytes = .ok module := by
  intro h
  obtain ⟨-, -, -, -, hrebuilt, -⟩ := decodePortable_eq_ok.1 (h returnNullIndexed _ rfl rfl)
  have hindex := congrArg (fun module => module.initializerCallNames.isSome) hrebuilt
  exact absurd hindex (by decide)

end Dream64.Bytecode
