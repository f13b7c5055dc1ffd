import Dream64.Vm.ReadyWorld

/-!
# What a failed restore leaves

The handles of a snapshot are checked before the state is touched, but the
names and the paths of seven sections are parsed after the sections before them
are restored. So a failed restore leaves the state as it was exactly where
nothing after the handles is misspelt, or where the state already held all that
comes before the first misspelt section.
-/

namespace Dream64

open Codec HeapCodec Staged

/-- A computation that gives a result. -/
def Succeeds {ε α : Type} (value : Except ε α) : Prop := ∃ result, value = .ok result

section

variable {ε α β : Type}

@[simp] theorem succeeds_ok (value : α) : Succeeds (.ok value : Except ε α) := ⟨value, rfl⟩

@[simp] theorem succeeds_error (error : ε) : ¬ Succeeds (.error error : Except ε α) := by
  rintro ⟨result, h⟩
  cases h

/-- What comes next succeeds or fails whatever the first result is. -/
theorem succeeds_bind {p : Prop} {first : Except ε α} {next : α → Except ε β}
    (hnext : ∀ result, Succeeds (next result) ↔ p) :
    Succeeds (first >>= next) ↔ Succeeds first ∧ p := by
  cases first with
  | error error => simp [bind, Except.bind]
  | ok result => simpa [bind, Except.bind] using hnext result

@[simp] theorem succeeds_bind_pure {first : Except ε α} (f : α → β) :
    (Succeeds do return f (← first)) ↔ Succeeds first := by
  cases first <;> simp [bind, Except.bind, pure, Except.pure]

theorem succeeds_mapM {p : α → Bool} {f : α → Except ε β}
    (hf : ∀ value, Succeeds (f value) ↔ p value = true) (values : List α) :
    Succeeds (values.mapM f) ↔ values.all p = true := by
  induction values with
  | nil => simp [pure, Except.pure]
  | cons value values ih =>
    rw [List.mapM_cons, succeeds_bind (fun result => succeeds_bind_pure _), hf, ih]
    simp

end

/-! ## Spellings -/

theorem succeeds_parse_name (name : String) :
    Succeeds (FieldName.parse name) ↔ isFieldName name = true := by
  unfold FieldName.parse
  split <;> simp [*]

theorem succeeds_parse_path (path : String) :
    Succeeds (TypePath.parse path) ↔ isTypePath path = true := by
  unfold TypePath.parse
  split <;> simp [*]

mutual

/-- Its type paths and field names are ones that `parse` accepts. -/
def HeapSnapshotValue.spelled : HeapSnapshotValue → Bool
  | .typePath path => isTypePath path
  | .modifiedTypePath base overrides => spelledOverrides overrides && isTypePath base
  | _ => true

def spelledOverrides : List (String × HeapSnapshotValue) → Bool
  | [] => true
  | entry :: overrides => spelledOverride entry && spelledOverrides overrides

def spelledOverride : String × HeapSnapshotValue → Bool
  | (name, value) => isFieldName name && value.spelled

end

mutual

theorem succeeds_intoValue :
    ∀ value : HeapSnapshotValue, Succeeds value.intoValue ↔ value.spelled = true
  | .null | .number _ | .text _ | .file _ | .datum _ _ | .list _ _ => by
    simp [HeapSnapshotValue.intoValue, HeapSnapshotValue.spelled]
  | .typePath path => by
    rw [HeapSnapshotValue.intoValue, succeeds_bind_pure, succeeds_parse_path,
      HeapSnapshotValue.spelled]
  | .modifiedTypePath base overrides => by
    rw [HeapSnapshotValue.intoValue, succeeds_bind (fun result => succeeds_bind_pure _),
      succeeds_parse_path, succeeds_restoreOverrides overrides, HeapSnapshotValue.spelled,
      Bool.and_eq_true]

theorem succeeds_restoreOverrides :
    ∀ overrides : List (String × HeapSnapshotValue),
      Succeeds (restoreOverrides overrides) ↔ spelledOverrides overrides = true
  | [] => by simp [restoreOverrides, spelledOverrides]
  | entry :: overrides => by
    rw [restoreOverrides, succeeds_bind (fun result => succeeds_bind_pure _),
      succeeds_restoreOverride entry, succeeds_restoreOverrides overrides, spelledOverrides,
      Bool.and_eq_true]

theorem succeeds_restoreOverride :
    ∀ entry : String × HeapSnapshotValue,
      Succeeds (restoreOverride entry) ↔ spelledOverride entry = true
  | (name, value) => by
    rw [restoreOverride, succeeds_bind (fun result => succeeds_bind_pure _),
      succeeds_parse_name, succeeds_intoValue value, spelledOverride, Bool.and_eq_true]

end

namespace ReadyWorld

def spelledOption : Option HeapSnapshotValue → Bool
  | none => true
  | some value => value.spelled

def spelledRecord (record : FrameRecord HeapSnapshotValue) : Bool :=
  record.locals.all (·.spelled) && record.stack.all (·.spelled) && record.result.spelled
    && record.src.spelled && record.usr.spelled && record.arguments.all (·.spelled)

def spelledRoots (record : FrameRecord HeapSnapshotValue) : Bool :=
  record.pendingArgumentRoots.all (·.spelled) && record.retainedCallRoots.all (·.spelled)

def CallFrameSnapshot.spelled : CallFrameSnapshot → Bool
  | .mk record none =>
    spelledOption record.callerResultOverride && (spelledRoots record && spelledRecord record)
  | .mk record (some next) =>
    spelledOption record.callerResultOverride
      && (next.spelled && (spelledRoots record && spelledRecord record))

theorem succeeds_restoreValues (values : List HeapSnapshotValue) :
    Succeeds (restoreValues values) ↔ values.all (·.spelled) = true :=
  succeeds_mapM succeeds_intoValue values

theorem succeeds_restoreOption :
    ∀ value, Succeeds (restoreOption value) ↔ spelledOption value = true
  | none => by simp [restoreOption, spelledOption]
  | some value => by
    rw [restoreOption, succeeds_bind_pure, succeeds_intoValue, spelledOption]

theorem succeeds_restoreColdRoots (record : FrameRecord HeapSnapshotValue) :
    Succeeds (restoreColdRoots record) ↔ spelledRoots record = true := by
  rw [restoreColdRoots, succeeds_bind (fun result => succeeds_bind_pure _),
    succeeds_restoreValues, succeeds_restoreValues, spelledRoots, Bool.and_eq_true]

theorem succeeds_restoreRecord (record : FrameRecord HeapSnapshotValue)
    (callerResultOverride : Option Value) (roots : List Value × List Value) :
    Succeeds (restoreRecord record callerResultOverride roots) ↔ spelledRecord record = true := by
  unfold restoreRecord
  rw [succeeds_bind fun locals => succeeds_bind fun stack => succeeds_bind fun result =>
    succeeds_bind fun src => succeeds_bind fun usr => succeeds_bind_pure _]
  simp only [succeeds_restoreValues, succeeds_intoValue, spelledRecord, Bool.and_eq_true, and_assoc]

theorem succeeds_intoRuntime {Row : Type} :
    ∀ frame : CallFrameSnapshot,
      Succeeds (frame.intoRuntime : Except String (CallFrame Row)) ↔ frame.spelled = true
  | .mk record none => by
    rw [CallFrameSnapshot.intoRuntime, succeeds_bind fun value => succeeds_bind fun roots =>
      (succeeds_bind_pure _).trans (succeeds_restoreRecord record value roots)]
    simp only [succeeds_restoreOption, succeeds_restoreColdRoots, CallFrameSnapshot.spelled,
      Bool.and_eq_true]
  | .mk record (some next) => by
    rw [CallFrameSnapshot.intoRuntime, succeeds_bind fun value => succeeds_bind fun next =>
      succeeds_bind fun roots =>
        (succeeds_bind_pure _).trans (succeeds_restoreRecord record value roots)]
    simp only [succeeds_restoreOption, succeeds_restoreColdRoots, CallFrameSnapshot.spelled,
      succeeds_intoRuntime next, Bool.and_eq_true]

/-! ## Sections -/

/-- The sections that are parsed after the handles are checked, in their order. -/
inductive Section where
  | savefiles
  | initialPrototypes
  | globals
  | scheduledSpawns
  | lastAnimationTarget
  | environmentOverrides
  | procedureStaticLocals
deriving DecidableEq

def Section.all : List Section :=
  [.savefiles, .initialPrototypes, .globals, .scheduledSpawns, .lastAnimationTarget,
    .environmentOverrides, .procedureStaticLocals]

namespace ReadyWorldCoreSnapshot

def spelled (snapshot : ReadyWorldCoreSnapshot) : Section → Bool
  | .savefiles => snapshot.savefiles.all fun file => file.2.2.all fun entry => entry.2.spelled
  | .initialPrototypes => snapshot.initialPrototypes.all fun entry => isTypePath entry.1
  | .globals => snapshot.globals.all fun entry => isFieldName entry.1 && entry.2.spelled
  | .scheduledSpawns => snapshot.scheduledSpawns.all fun spawn => spawn.frames.all (·.spelled)
  | .lastAnimationTarget => spelledOption snapshot.lastAnimationTarget
  | .environmentOverrides => snapshot.environmentOverrides.all fun entry => spelledOption entry.2
  | .procedureStaticLocals =>
    snapshot.procedureStaticLocals.all fun entry => entry.2.all fun slot => slot.2.spelled

def firstMisspelt (snapshot : ReadyWorldCoreSnapshot) : Option Section :=
  Section.all.find? fun part => !snapshot.spelled part

variable (snapshot : ReadyWorldCoreSnapshot)

theorem succeeds_restoreNamed {K : Type} (entry : K × HeapSnapshotValue) :
    Succeeds (restoreNamed entry) ↔ entry.2.spelled = true := by
  rw [restoreNamed, succeeds_bind_pure, succeeds_intoValue]

theorem succeeds_savefiles :
    Succeeds (restoreSavefiles snapshot.savefiles) ↔ snapshot.spelled .savefiles = true := by
  rw [restoreSavefiles, succeeds_bind_pure]
  refine succeeds_mapM (fun file => ?_) _
  rw [restoreSavefile, succeeds_bind_pure]
  exact succeeds_mapM succeeds_restoreNamed file.2.2

theorem succeeds_initialPrototypes :
    Succeeds (restorePrototypes snapshot.initialPrototypes)
      ↔ snapshot.spelled .initialPrototypes = true := by
  rw [restorePrototypes, succeeds_bind_pure]
  refine succeeds_mapM (fun entry => ?_) _
  rw [restorePrototype, succeeds_bind_pure, succeeds_parse_path]

theorem succeeds_globals :
    Succeeds (restoreGlobals snapshot.globals) ↔ snapshot.spelled .globals = true := by
  rw [restoreGlobals, succeeds_bind_pure]
  refine succeeds_mapM (fun entry => ?_) _
  rw [restoreField, succeeds_bind (fun name => succeeds_bind_pure _), succeeds_parse_name,
    succeeds_intoValue, Bool.and_eq_true]

theorem succeeds_scheduledSpawns {Row : Type} :
    Succeeds (restoreSpawns snapshot.scheduledSpawns : Except String (List (ScheduledSpawn Row)))
      ↔ snapshot.spelled .scheduledSpawns = true := by
  refine succeeds_mapM (fun spawn => ?_) _
  rw [ScheduledSpawnSnapshot.intoRuntime, succeeds_bind_pure]
  exact succeeds_mapM succeeds_intoRuntime spawn.frames

theorem succeeds_lastAnimationTarget :
    Succeeds (restoreOption snapshot.lastAnimationTarget)
      ↔ snapshot.spelled .lastAnimationTarget = true :=
  succeeds_restoreOption snapshot.lastAnimationTarget

theorem succeeds_environmentOverrides :
    Succeeds (restoreEnvironment snapshot.environmentOverrides)
      ↔ snapshot.spelled .environmentOverrides = true := by
  rw [restoreEnvironment, succeeds_bind_pure]
  refine succeeds_mapM (fun entry => ?_) _
  rw [restoreEnvironmentOverride, succeeds_bind_pure, succeeds_restoreOption]

theorem succeeds_procedureStaticLocals :
    Succeeds (restoreStatics snapshot.procedureStaticLocals)
      ↔ snapshot.spelled .procedureStaticLocals = true := by
  rw [restoreStatics, succeeds_bind_pure]
  refine succeeds_mapM (fun entry => ?_) _
  rw [restoreStaticLocals, succeeds_bind_pure]
  exact succeeds_mapM succeeds_restoreNamed entry.2

end ReadyWorldCoreSnapshot

/-! ## What is restored before a section -/

section

variable {Row : Type}

/-- The state holds the heap and the lists of a snapshot. -/
@[mk_iff]
structure HoldsHeap (state : ExecutionState Row) (snapshot : ReadyWorldCoreSnapshot)
    (heap : ValueHeap) : Prop where
  heap : heap = state.heap
  associativeLists : collectSet snapshot.associativeLists = state.associativeLists
  referenceLists : collectSet snapshot.referenceLists = state.referenceLists

@[mk_iff]
structure HoldsSavefiles (state : ExecutionState Row) (snapshot : ReadyWorldCoreSnapshot)
    (heap : ValueHeap) : Prop extends HoldsHeap state snapshot heap where
  savefiles : restoreSavefiles snapshot.savefiles = .ok state.savefiles
  savefileEntries : collectMap snapshot.savefileEntries = state.savefileEntries
  globalVarsProxy : snapshot.globalVarsProxy = state.globalVarsProxy
  datumVarsProxies : collectMap snapshot.datumVarsProxies = state.datumVarsProxies
  datumVarsByDatum : collectMap snapshot.datumVarsByDatum = state.datumVarsByDatum

@[mk_iff]
structure HoldsPrototypes (state : ExecutionState Row) (snapshot : ReadyWorldCoreSnapshot)
    (heap : ValueHeap) : Prop extends HoldsSavefiles state snapshot heap where
  initialPrototypes : restorePrototypes snapshot.initialPrototypes = .ok state.initialPrototypes
  initializing : (fun _ => false) = state.initialPrototypesInitializing

@[mk_iff]
structure HoldsGlobals (state : ExecutionState Row) (snapshot : ReadyWorldCoreSnapshot)
    (heap : ValueHeap) : Prop extends HoldsPrototypes state snapshot heap where
  globals : restoreGlobals snapshot.globals = .ok state.globals
  compactDefaultDatums : collectSet snapshot.compactDefaultDatums = state.compactDefaultDatums
  randomState : snapshot.randomState = state.randomState
  schedulerTick : snapshot.schedulerTick = state.schedulerTick
  schedulerSequence : snapshot.schedulerSequence = state.schedulerSequence

@[mk_iff]
structure HoldsSpawns (state : ExecutionState Row) (snapshot : ReadyWorldCoreSnapshot)
    (heap : ValueHeap) : Prop extends HoldsGlobals state snapshot heap where
  scheduledSpawns : restoreSpawns snapshot.scheduledSpawns = .ok state.scheduledSpawns
  nativeWalks : collectMap snapshot.nativeWalks = state.nativeWalks

@[mk_iff]
structure HoldsAnimation (state : ExecutionState Row) (snapshot : ReadyWorldCoreSnapshot)
    (heap : ValueHeap) : Prop extends HoldsSpawns state snapshot heap where
  lastAnimationTarget :
    restoreOption snapshot.lastAnimationTarget = .ok state.lastAnimationTarget

@[mk_iff]
structure HoldsEnvironment (restoredAt : Nat) (state : ExecutionState Row)
    (snapshot : ReadyWorldCoreSnapshot) (heap : ValueHeap) : Prop
    extends HoldsAnimation state snapshot heap where
  environmentOverrides :
    restoreEnvironment snapshot.environmentOverrides = .ok state.environmentOverrides
  externalTimers : restoreTimers restoredAt snapshot.externalTimers = state.externalTimers
  iconforgeJobs : collectMap snapshot.iconforgeJobs = state.iconforgeJobs
  iconforgeNextJob : snapshot.iconforgeNextJob = state.iconforgeNextJob
  iconforgeGagsConfigs : collectMap snapshot.iconforgeGagsConfigs = state.iconforgeGagsConfigs
  sqlJobs : collectMap snapshot.sqlJobs = state.sqlJobs
  sqlNextJob : snapshot.sqlNextJob = state.sqlNextJob

/-- The state already holds everything that is restored before a section. -/
def HoldsBefore (restoredAt : Nat) (state : ExecutionState Row)
    (snapshot : ReadyWorldCoreSnapshot) (heap : ValueHeap) : Section → Prop
  | .savefiles => HoldsHeap state snapshot heap
  | .initialPrototypes => HoldsSavefiles state snapshot heap
  | .globals => HoldsPrototypes state snapshot heap
  | .scheduledSpawns => HoldsGlobals state snapshot heap
  | .lastAnimationTarget => HoldsSpawns state snapshot heap
  | .environmentOverrides => HoldsAnimation state snapshot heap
  | .procedureStaticLocals => HoldsEnvironment restoredAt state snapshot heap

end

/-! ## Failures -/

section

variable {Row : Type} {original current : ExecutionState Row}

section
variable {α β : Type} {parsed : Except String α} {spelled : Bool}

/-- A section that is parsed is either misspelt, or the restore goes on with it. -/
theorem leaves_parsed (hparsed : Succeeds parsed ↔ spelled = true)
    (next : α → Staging HeapError (ExecutionState Row) β) :
    Leaves original (attempt (valueError parsed) >>= next) current ↔
      (spelled = false → current = original) ∧
        ∀ result, parsed = .ok result → Leaves original (next result) current := by
  rw [leaves_attempt_bind]
  cases parsed with
  | error error =>
    have hspelled : spelled = false := by
      simpa using hparsed
    simp [valueError, hspelled]
  | ok result =>
    have hspelled : spelled = true := by
      simpa using hparsed
    simp [valueError, hspelled]

theorem forall_parsed_iff {p : α → Prop} {q : Prop} (hparsed : Succeeds parsed ↔ spelled = true)
    (h : ∀ result, parsed = .ok result → (p result ↔ q)) :
    (∀ result, parsed = .ok result → p result) ↔ (spelled = true → q) := by
  constructor
  · intro hp hspelled
    obtain ⟨result, hresult⟩ := hparsed.2 hspelled
    exact (h result hresult).1 (hp result hresult)
  · intro hq result hresult
    exact (h result hresult).2 (hq (hparsed.1 ⟨result, hresult⟩))

end

/-- The first part that is found, one part after the other. -/
theorem forall_find?_cons {α : Type} {q : α → Prop} (p : α → Bool) (part : α) (parts : List α) :
    (∀ found, (part :: parts).find? p = some found → q found) ↔
      (p part = true → q part) ∧
        (p part = false → ∀ found, parts.find? p = some found → q found) := by
  cases h : p part <;> simp [h]

theorem leaves_restoreReadyWorldParts
    (rebuildWorldGeometry : ExecutionState Row → ExecutionState Row) (restoredAt : Nat)
    (snapshot : ReadyWorldCoreSnapshot) (heap : ValueHeap) (state : ExecutionState Row) :
    Leaves state (restoreReadyWorldParts rebuildWorldGeometry restoredAt snapshot heap) state ↔
      (validateSnapshotHandles heap snapshot = .ok () →
        ∀ part, snapshot.firstMisspelt = some part →
          HoldsBefore restoredAt state snapshot heap part) := by
  unfold restoreReadyWorldParts
  rw [leaves_attempt_bind]
  simp only [leaves_commit_bind, leaves_commit,
    leaves_parsed snapshot.succeeds_savefiles,
    leaves_parsed snapshot.succeeds_initialPrototypes,
    leaves_parsed snapshot.succeeds_globals,
    leaves_parsed snapshot.succeeds_scheduledSpawns,
    leaves_parsed snapshot.succeeds_lastAnimationTarget,
    leaves_parsed snapshot.succeeds_environmentOverrides,
    leaves_parsed snapshot.succeeds_procedureStaticLocals]
  simp only [ReadyWorldCoreSnapshot.firstMisspelt, Section.all, forall_find?_cons,
    Bool.not_eq_true', Bool.not_eq_false', List.find?_nil, reduceCtorEq, false_implies,
    implies_true, and_true, true_and, HoldsBefore]
  rcases hchecked : validateSnapshotHandles heap snapshot with error | ⟨⟨⟩⟩
  · simp [valueError]
  simp only [valueError, forall_const]
  refine and_congr (imp_congr_right fun _ => ?_)
    (forall_parsed_iff snapshot.succeeds_savefiles fun savefiles hsavefiles => ?_)
  · simp only [ExecutionState.ext_iff, holdsHeap_iff, and_true]
  refine and_congr (imp_congr_right fun _ => ?_)
    (forall_parsed_iff snapshot.succeeds_initialPrototypes fun prototypes hprototypes => ?_)
  · simp only [ExecutionState.ext_iff, holdsHeap_iff, holdsSavefiles_iff, hsavefiles,
      Except.ok.injEq, and_true, and_assoc]
  refine and_congr (imp_congr_right fun _ => ?_)
    (forall_parsed_iff snapshot.succeeds_globals fun globals hglobals => ?_)
  · simp only [ExecutionState.ext_iff, holdsHeap_iff, holdsSavefiles_iff, hsavefiles,
      holdsPrototypes_iff, hprototypes, Except.ok.injEq, and_true, and_assoc]
  refine and_congr (imp_congr_right fun _ => ?_)
    (forall_parsed_iff snapshot.succeeds_scheduledSpawns fun spawns hspawns => ?_)
  · simp only [ExecutionState.ext_iff, holdsHeap_iff, holdsSavefiles_iff, hsavefiles,
      holdsPrototypes_iff, hprototypes, holdsGlobals_iff, hglobals, Except.ok.injEq, and_true,
      and_assoc]
  refine and_congr (imp_congr_right fun _ => ?_)
    (forall_parsed_iff snapshot.succeeds_lastAnimationTarget fun target htarget => ?_)
  · simp only [ExecutionState.ext_iff, holdsHeap_iff, holdsSavefiles_iff, hsavefiles,
      holdsPrototypes_iff, hprototypes, holdsGlobals_iff, hglobals, holdsSpawns_iff, hspawns,
      Except.ok.injEq, and_true, and_assoc]
  refine and_congr (imp_congr_right fun _ => ?_)
    (forall_parsed_iff snapshot.succeeds_environmentOverrides fun overrides hoverrides => ?_)
  · simp only [ExecutionState.ext_iff, holdsHeap_iff, holdsSavefiles_iff, hsavefiles,
      holdsPrototypes_iff, hprototypes, holdsGlobals_iff, hglobals, holdsSpawns_iff, hspawns,
      holdsAnimation_iff, htarget, Except.ok.injEq, and_true, and_assoc]
  refine imp_congr_right fun _ => ?_
  simp only [ExecutionState.ext_iff, holdsHeap_iff, holdsSavefiles_iff, hsavefiles,
    holdsPrototypes_iff, hprototypes, holdsGlobals_iff, hglobals, holdsSpawns_iff, hspawns,
    holdsAnimation_iff, htarget, holdsEnvironment_iff, hoverrides, Except.ok.injEq, and_true,
    and_assoc]

/-- What a call leaves is decided by what it reads first, when that updates nothing. -/
theorem leaves_read {α : Type} (read : Except HeapError α)
    (next : α → Staging HeapError (ExecutionState Row) Unit) (state : ExecutionState Row) :
    Leaves state (attempt read >>= next) state ↔
      ∀ result, read = .ok result → Leaves state (next result) state := by
  rw [leaves_attempt_bind]
  exact and_iff_right fun _ _ => rfl

end

section

variable {Row : Type} (rebuildWorldGeometry : ExecutionState Row → ExecutionState Row)
  (restoredAt : Nat) (hash : SemanticKey → Nat)

/-- Both restores leave the state alone when they fail exactly where, once the image is read and
its handles are live, nothing is misspelt or the state held all that is restored before the first
misspelt section. -/
theorem restore_atomic_iff (deserialize : HeapReader ReadyWorldCoreSnapshot)
    (procedure : Bytecode.ProcedureId → Option Bytecode.Program) (state : ExecutionState Row) :
    (∀ bytes : Bytes,
      (∀ error, (perform (restoreReadyWorldSnapshotFrom rebuildWorldGeometry restoredAt hash
          deserialize procedure bytes) state).1 = .error error →
        (perform (restoreReadyWorldSnapshotFrom rebuildWorldGeometry restoredAt hash deserialize
          procedure bytes) state).2 = state) ↔
      ∀ image, (readReadyWorld hash deserialize procedure).run' bytes = .ok image →
        validateSnapshotHandles image.2 image.1 = .ok () →
          ∀ part, image.1.firstMisspelt = some part →
            HoldsBefore restoredAt state image.1 image.2 part) ∧
    ∀ snapshot : ReadyWorldCoreSnapshot,
      (∀ error, (perform (restoreReadyWorldCore rebuildWorldGeometry restoredAt hash snapshot)
          state).1 = .error error →
        (perform (restoreReadyWorldCore rebuildWorldGeometry restoredAt hash snapshot)
          state).2 = state) ↔
      ∀ heap, ValueHeap.fromSnapshot hash snapshot.heap = .ok heap →
        validateSnapshotHandles heap snapshot = .ok () →
          ∀ part, snapshot.firstMisspelt = some part →
            HoldsBefore restoredAt state snapshot heap part := by
  refine ⟨fun bytes => ?_, fun snapshot => ?_⟩
  · show Leaves state _ state ↔ _
    rw [restoreReadyWorldSnapshotFrom, leaves_read]
    exact forall_congr' fun image => imp_congr_right fun _ =>
      leaves_restoreReadyWorldParts rebuildWorldGeometry restoredAt image.1 image.2 state
  · show Leaves state _ state ↔ _
    rw [restoreReadyWorldCore, leaves_read]
    refine forall_congr' fun heap => imp_congr_right fun _ => ?_
    -- the parts never look at the heap section of the snapshot
    exact leaves_restoreReadyWorldParts rebuildWorldGeometry restoredAt snapshot heap state

end

/-! ## A misspelt global -/

/-- A state around one empty list. -/
def oneListState : ExecutionState Unit where
  heap := ⟨Arena.empty, ((Arena.empty.insert DmList.empty).map (·.1)).getD Arena.empty⟩
  associativeLists := fun _ => false
  referenceLists := fun _ => false
  savefiles := fun _ => none
  savefileEntries := fun _ => none
  globalVarsProxy := none
  datumVarsProxies := fun _ => none
  datumVarsByDatum := fun _ => none
  initialPrototypes := fun _ => none
  initialPrototypesInitializing := fun _ => false
  globals := .empty
  compactDefaultDatums := fun _ => false
  randomState := 0
  schedulerTick := 0
  schedulerSequence := 0
  scheduledSpawns := []
  nativeWalks := fun _ => none
  lastAnimationTarget := none
  environmentOverrides := fun _ => none
  externalTimers := fun _ => none
  iconforgeJobs := fun _ => none
  iconforgeNextJob := 0
  iconforgeGagsConfigs := fun _ => none
  sqlJobs := fun _ => none
  sqlNextJob := 0
  procedureStaticLocals := fun _ => none
  host := .cleared
  geometry := ⟨fun _ => none, [], (0, 0, 0), fun _ => none, fun _ => [], fun _ => none,
    fun _ => none, fun _ => none⟩
  defaultWorldArea := none

/-- An empty heap, and a global whose name starts with a digit. -/
def misspeltGlobal : ReadyWorldCoreSnapshot where
  heap := emptyHeapSnapshot
  associativeLists := []
  referenceLists := []
  savefiles := []
  savefileEntries := []
  globalVarsProxy := none
  datumVarsProxies := []
  datumVarsByDatum := []
  initialPrototypes := []
  globals := [("1bad", .null)]
  compactDefaultDatums := []
  randomState := 0
  schedulerTick := 0
  schedulerSequence := 0
  scheduledSpawns := []
  nativeWalks := []
  lastAnimationTarget := none
  environmentOverrides := []
  externalTimers := []
  iconforgeJobs := []
  iconforgeNextJob := 0
  iconforgeGagsConfigs := []
  sqlJobs := []
  sqlNextJob := 0
  procedureStaticLocals := []
  defaultWorldArea := none

theorem misspeltGlobal_replaces_heap :
    ¬ ∀ (state : ExecutionState Unit) (snapshot : ReadyWorldCoreSnapshot), ∀ error,
      (perform (restoreReadyWorldCore id 0 (fun _ => 0) snapshot) state).1 = .error error →
        (perform (restoreReadyWorldCore id 0 (fun _ => 0) snapshot) state).2 = state := by
  intro hatomic
  have hleft := hatomic oneListState misspeltGlobal (.message "invalid DM field name \"1bad\"") rfl
  have hlists := congrArg (fun state => state.heap.lists.slotLen) hleft
  revert hlists
  decide

end ReadyWorld

end Dream64
