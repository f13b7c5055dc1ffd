import Dream64.Bytecode.Module
import Dream64.Library.Staged
import Dream64.Value.HeapSnapshot

/-!
# Restoring a ready world

`ready_snapshot.rs`: the mutable tables of an execution state as a snapshot
writes them, and how a restore puts them back, section by section. What belongs
to one process has no place in a snapshot: a restore clears it. The rows of
those tables are left open (`Row`), and so is what the geometry of the world is
rebuilt to.
-/

namespace Dream64.ReadyWorld

open Codec HeapCodec Staged

/-! ## Call frames -/

structure ExceptionHandler where
  start : Nat
  stop : Nat
  catchAt : Nat
  localSlot : Option UInt16
  stackDepth : Nat

inductive ShuttleTracePostReturn where
  | atmosInit
  | nullifyNode (slot : Option Nat)

structure NumericExecutionState where
  locals : List DmNumberBits
  stack : List DmNumberBits
  fields : List DmNumberBits
  dirtyFields : UInt64
  dirtyLocals : UInt64
  actionBits : UInt64
  instruction : UInt32

/-- What a snapshot keeps of a frame, apart from the frame after its return. -/
structure FrameRecord (V : Type) where
  procedure : Bytecode.ProcedureId
  instruction : Nat
  locals : List V
  stack : List V
  result : V
  src : V
  usr : V
  arguments : List V
  argsList : Option ListId
  declaredArgumentCount : Nat
  suppliedParameters : List Bool
  pendingArgumentNames : Option (List (Option String))
  pendingArgumentRoots : List V
  retainedCallRoots : List V
  exceptionHandlers : List ExceptionHandler
  detachedWaitfor : Bool
  callerResultOverride : Option V
  staticLocals : List UInt16
  shuttleTraceTarget : Option DatumId
  shuttleTracePostReturn : Option ShuttleTracePostReturn
  numericJitState : Option NumericExecutionState

inductive CallFrameSnapshot where
  | mk (record : FrameRecord HeapSnapshotValue) (enginePostReturn : Option CallFrameSnapshot)

/-- What a frame has only while its process runs. -/
structure TransientFrame (Row : Type) where
  rootedOperands : List Value := []
  bootTraceStarted : Option Nat := none
  bootTraceHeap : Option (Nat × Nat × Nat) := none
  bootTraceStep : UInt64 := 0
  packedNumericState : Option Row := none
  tgmLoad : Option Row := none
  ruinScan : Option Row := none
  tgmRouteTraceMask : UInt8 := 0
  atomsProfileEntryCounted : Bool := false
  atomsProfileRoot : Bool := false
  tgmProfileRoot : Bool := false

inductive CallFrame (Row : Type) where
  | mk (record : FrameRecord Value) (transient : TransientFrame Row)
    (enginePostReturn : Option (CallFrame Row))

def restoreValues (values : List HeapSnapshotValue) : Except String (List Value) :=
  values.mapM HeapSnapshotValue.intoValue

def restoreOption : Option HeapSnapshotValue → Except String (Option Value)
  | none => .ok none
  | some value => do return some (← value.intoValue)

def restoreColdRoots (record : FrameRecord HeapSnapshotValue) :
    Except String (List Value × List Value) := do
  let pendingArgumentRoots ← restoreValues record.pendingArgumentRoots
  return (pendingArgumentRoots, ← restoreValues record.retainedCallRoots)

/-- The rest of a frame, when its cold part is restored. -/
def restoreRecord (record : FrameRecord HeapSnapshotValue) (callerResultOverride : Option Value)
    (roots : List Value × List Value) : Except String (FrameRecord Value) := do
  let locals ← restoreValues record.locals
  let stack ← restoreValues record.stack
  let result ← record.result.intoValue
  let src ← record.src.intoValue
  let usr ← record.usr.intoValue
  let arguments ← restoreValues record.arguments
  return { record with
    locals, stack, result, src, usr, arguments, callerResultOverride
    pendingArgumentRoots := roots.1
    retainedCallRoots := roots.2 }

def CallFrameSnapshot.intoRuntime {Row : Type} : CallFrameSnapshot → Except String (CallFrame Row)
  | .mk record none => do
    let callerResultOverride ← restoreOption record.callerResultOverride
    let roots ← restoreColdRoots record
    return .mk (← restoreRecord record callerResultOverride roots) {} none
  | .mk record (some next) => do
    let callerResultOverride ← restoreOption record.callerResultOverride
    let next ← next.intoRuntime
    let roots ← restoreColdRoots record
    return .mk (← restoreRecord record callerResultOverride roots) {} (some next)

/-! ## The scheduler -/

structure ScheduledSpawnSnapshot where
  dueTick : UInt64
  sequence : UInt64
  frames : List CallFrameSnapshot

/-- The continuation of a spawn has the spawn's sequence number for its identity. -/
structure ScheduledSpawn (Row : Type) where
  dueTick : UInt64
  sequence : UInt64
  continuation : UInt64
  frames : List (CallFrame Row)

def ScheduledSpawnSnapshot.intoRuntime {Row : Type} (spawn : ScheduledSpawnSnapshot) :
    Except String (ScheduledSpawn Row) := do
  let frames ← spawn.frames.mapM CallFrameSnapshot.intoRuntime
  return ⟨spawn.dueTick, spawn.sequence, spawn.sequence, frames⟩

inductive NativeWalkKind where
  | direction (direction : Int16)
  | random
  | towards (target : DatumId)
  | to (target : DatumId) (minimum : DmNumberBits)
  | away (target : DatumId) (maximum : DmNumberBits)

/-- A snapshot keeps a walk as it is. -/
structure NativeWalk where
  dueTick : UInt64
  sequence : UInt64
  lag : UInt64
  kind : NativeWalkKind

/-! ## Snapshots and states -/

structure ReadyWorldCoreSnapshot where
  heap : ValueHeapSnapshot
  associativeLists : List ListId
  referenceLists : List ListId
  savefiles : List (DatumId × String × List (String × HeapSnapshotValue))
  savefileEntries : List (DatumId × DatumId × String)
  globalVarsProxy : Option ListId
  datumVarsProxies : List (ListId × DatumId)
  datumVarsByDatum : List (DatumId × ListId)
  initialPrototypes : List (String × DatumId)
  globals : List (String × HeapSnapshotValue)
  compactDefaultDatums : List DatumId
  randomState : UInt64
  schedulerTick : UInt64
  schedulerSequence : UInt64
  scheduledSpawns : List ScheduledSpawnSnapshot
  nativeWalks : List (DatumId × NativeWalk)
  lastAnimationTarget : Option HeapSnapshotValue
  environmentOverrides : List (String × Option HeapSnapshotValue)
  externalTimers : List (String × UInt64)
  iconforgeJobs : List (String × Bool × String)
  iconforgeNextJob : UInt64
  iconforgeGagsConfigs : List (String × String × String)
  sqlJobs : List (String × Bool × String)
  sqlNextJob : UInt64
  procedureStaticLocals : List (String × List (UInt16 × HeapSnapshotValue))
  defaultWorldArea : Option DatumId

def emptyHeapSnapshot : ValueHeapSnapshot := ⟨[], [], [], []⟩

structure SavefileState where
  entries : String → Option Value
  cd : String

structure GlobalStore where
  names : FieldName → Bool
  slotsByName : FieldName → Option Nat
  slots : List (Option Value)
  /-- The last one is popped first. -/
  freeSlots : List Nat

namespace GlobalStore

def empty : GlobalStore := ⟨fun _ => false, fun _ => none, [], []⟩

/-- The slot for a new name, the slots and the free slots that are left. -/
def takeSlot (globals : GlobalStore) : Nat × List (Option Value) × List Nat :=
  match globals.freeSlots.getLast? with
  | some slot => (slot, globals.slots, globals.freeSlots.dropLast)
  | none => (globals.slots.length, globals.slots ++ [none], globals.freeSlots)

def insert (globals : GlobalStore) (entry : FieldName × Value) : GlobalStore :=
  match globals.slotsByName entry.1 with
  | some slot => { globals with slots := globals.slots.set slot (some entry.2) }
  | none => {
    names := Function.update globals.names entry.1 true
    slotsByName := Function.update globals.slotsByName entry.1 (some globals.takeSlot.1)
    slots := globals.takeSlot.2.1.set globals.takeSlot.1 (some entry.2)
    freeSlots := globals.takeSlot.2.2 }

/-- `FromIterator` -/
def collect (entries : List (FieldName × Value)) : GlobalStore := entries.foldl insert empty

end GlobalStore

/-- The tables of clients, caches and profilers, which belong to one process. -/
structure HostTables (Row : Type) where
  clientSessions : List Row
  interactiveLocalClients : List Row
  localClientOutboundEvents : List Row
  localClientMobs : List Row
  localClientCommands : List Row
  pendingLocalPrompts : List Row
  dynamicReceiverTargets : List Row
  dynamicCallsiteTargets : List Row
  programSidecars : List Row
  declaredFieldQuickening : Option Row
  effectiveInitialValueCache : List Row
  schedulerInflight : List Row
  schedulerTickStarted : Option Row
  atomsProfile : Option Row
  deletingDatums : List Row
  hostValueRoots : List Row

def HostTables.cleared {Row : Type} : HostTables Row :=
  ⟨[], [], [], [], [], [], [], [], [], none, [], [], none, none, [], []⟩

/-- The tables that follow from the heap. -/
structure WorldGeometry where
  worldTurfs : Int × Int × Int → Option DatumId
  worldTurfLookup : List (Option DatumId)
  worldTurfLookupDimensions : Int × Int × Int
  worldAreas : Int × Int × Int → Option DatumId
  pendingAreaUncontain : ListId → List Value
  contentsOwners : ListId → Option DatumId
  visContentsOwners : ListId → Option DatumId
  visLocsOwners : ListId → Option DatumId

@[ext]
structure ExecutionState (Row : Type) where
  heap : ValueHeap
  associativeLists : ListId → Bool
  referenceLists : ListId → Bool
  savefiles : DatumId → Option SavefileState
  savefileEntries : DatumId → Option (DatumId × String)
  globalVarsProxy : Option ListId
  datumVarsProxies : ListId → Option DatumId
  datumVarsByDatum : DatumId → Option ListId
  initialPrototypes : TypePath → Option DatumId
  initialPrototypesInitializing : TypePath → Bool
  globals : GlobalStore
  compactDefaultDatums : DatumId → Bool
  randomState : UInt64
  schedulerTick : UInt64
  schedulerSequence : UInt64
  scheduledSpawns : List (ScheduledSpawn Row)
  nativeWalks : DatumId → Option NativeWalk
  lastAnimationTarget : Option Value
  environmentOverrides : String → Option (Option Value)
  /-- The instants at which they started. -/
  externalTimers : String → Option Nat
  iconforgeJobs : String → Option (Bool × String)
  iconforgeNextJob : UInt64
  iconforgeGagsConfigs : String → Option (String × String)
  sqlJobs : String → Option (Bool × String)
  sqlNextJob : UInt64
  procedureStaticLocals : String → Option (UInt16 → Option Value)
  host : HostTables Row
  geometry : WorldGeometry
  defaultWorldArea : Option DatumId

/-! ## Checks -/

section

variable (procedure : Bytecode.ProcedureId → Option Bytecode.Program)

def invalidHandler (program : Bytecode.Program) (record : FrameRecord HeapSnapshotValue)
    (handler : ExceptionHandler) : Bool :=
  handler.stop < handler.start || program.instructions.length < handler.stop
    || program.instructions.length ≤ handler.catchAt || record.stack.length < handler.stackDepth
    || handler.localSlot.any fun slot => record.locals.length ≤ slot.toNat

def validateRecord (record : FrameRecord HeapSnapshotValue) : Except String Unit :=
  match procedure record.procedure with
  | none =>
    .error s!"ready-world frame references missing procedure {record.procedure.toNat}"
  | some program =>
    if program.instructions.length ≤ record.instruction then
      .error (s!"ready-world frame instruction {record.instruction} exceeds procedure "
        ++ s!"{record.procedure.toNat} length {program.instructions.length}")
    else if record.locals.length ≠ program.localCount then
      .error (s!"ready-world frame for procedure {record.procedure.toNat} has "
        ++ s!"{record.locals.length} locals; executable expects {program.localCount}")
    else if record.exceptionHandlers.any (invalidHandler program record) then
      .error (s!"ready-world frame for procedure {record.procedure.toNat} has an invalid "
        ++ "exception handler")
    else .ok ()

def validateFrame (depth : Nat) : CallFrameSnapshot → Except String Unit
  | .mk record next => do
    if 1024 < depth then
      throw "ready-world engine-return frame nesting exceeds 1024"
    else do
      validateRecord procedure record
      match next with
      | none => return ()
      | some next => validateFrame (depth + 1) next

def validateSpawn (spawn : ScheduledSpawnSnapshot) : Except String Unit :=
  if spawn.frames = [] then .error "ready-world scheduler record has no call frames"
  else spawn.frames.forM (validateFrame procedure 0)

def ReadyWorldCoreSnapshot.validateModule (snapshot : ReadyWorldCoreSnapshot) :
    Except String Unit :=
  snapshot.scheduledSpawns.forM (validateSpawn procedure)

end

def validateDatum (heap : ValueHeap) (id : DatumId) : Except String Unit :=
  if (heap.datums.get (id.index, id.generation)).isSome then .ok ()
  else .error ("stale datum handle DatumId \x7b "
    ++ s!"index: {id.index}, generation: {id.generation} \x7d")

def validateList (heap : ValueHeap) (id : ListId) : Except String Unit :=
  if (heap.lists.get (id.index, id.generation)).isSome then .ok ()
  else .error ("stale list handle ListId \x7b "
    ++ s!"index: {id.index}, generation: {id.generation} \x7d")

def validateSnapshotHandles (heap : ValueHeap) (snapshot : ReadyWorldCoreSnapshot) :
    Except String Unit := do
  (snapshot.associativeLists ++ snapshot.referenceLists).forM (validateList heap)
  (snapshot.initialPrototypes.map (·.2) ++ snapshot.compactDefaultDatums
    ++ snapshot.defaultWorldArea.toList).forM (validateDatum heap)
  snapshot.globalVarsProxy.toList.forM (validateList heap)
  snapshot.datumVarsProxies.forM fun entry => do
    validateList heap entry.1
    validateDatum heap entry.2
  snapshot.datumVarsByDatum.forM fun entry => do
    validateDatum heap entry.1
    validateList heap entry.2

/-! ## Restoring the sections -/

/-- A map from its entries; a later entry replaces an earlier one. -/
def collectMap {K V : Type} [DecidableEq K] (entries : List (K × V)) : K → Option V :=
  entries.foldl (fun map entry => Function.update map entry.1 (some entry.2)) fun _ => none

def collectSet {K : Type} [DecidableEq K] (members : List K) : K → Bool :=
  fun key => decide (key ∈ members)

def restoreNamed {K : Type} (entry : K × HeapSnapshotValue) : Except String (K × Value) := do
  return (entry.1, ← entry.2.intoValue)

def restoreSavefile (file : DatumId × String × List (String × HeapSnapshotValue)) :
    Except String (DatumId × SavefileState) := do
  let entries ← file.2.2.mapM restoreNamed
  return (file.1, ⟨collectMap entries, file.2.1⟩)

def restoreSavefiles (files : List (DatumId × String × List (String × HeapSnapshotValue))) :
    Except String (DatumId → Option SavefileState) := do
  return collectMap (← files.mapM restoreSavefile)

def restorePrototype (entry : String × DatumId) : Except String (TypePath × DatumId) := do
  return (← TypePath.parse entry.1, entry.2)

def restorePrototypes (entries : List (String × DatumId)) :
    Except String (TypePath → Option DatumId) := do
  return collectMap (← entries.mapM restorePrototype)

def restoreGlobals (entries : List (String × HeapSnapshotValue)) : Except String GlobalStore := do
  return GlobalStore.collect (← entries.mapM restoreField)

def restoreSpawns {Row : Type} (spawns : List ScheduledSpawnSnapshot) :
    Except String (List (ScheduledSpawn Row)) :=
  spawns.mapM ScheduledSpawnSnapshot.intoRuntime

def restoreEnvironmentOverride (entry : String × Option HeapSnapshotValue) :
    Except String (String × Option Value) := do
  return (entry.1, ← restoreOption entry.2)

def restoreEnvironment (entries : List (String × Option HeapSnapshotValue)) :
    Except String (String → Option (Option Value)) := do
  return collectMap (← entries.mapM restoreEnvironmentOverride)

/-- A timer that ran longer than the clock does now starts again. -/
def restoreTimers (restoredAt : Nat) (timers : List (String × UInt64)) : String → Option Nat :=
  collectMap (timers.map fun timer =>
    (timer.1, if timer.2.toNat ≤ restoredAt then restoredAt - timer.2.toNat else restoredAt))

def restoreStaticLocals (entry : String × List (UInt16 × HeapSnapshotValue)) :
    Except String (String × (UInt16 → Option Value)) := do
  return (entry.1, collectMap (← entry.2.mapM restoreNamed))

def restoreStatics (entries : List (String × List (UInt16 × HeapSnapshotValue))) :
    Except String (String → Option (UInt16 → Option Value)) := do
  return collectMap (← entries.mapM restoreStaticLocals)

section

variable {Row : Type} (rebuildWorldGeometry : ExecutionState Row → ExecutionState Row)
  (restoredAt : Nat)

/-- `restore_ready_world_parts` -/
def restoreReadyWorldParts (snapshot : ReadyWorldCoreSnapshot) (heap : ValueHeap) :
    Staging HeapError (ExecutionState Row) Unit := do
  attempt (valueError (validateSnapshotHandles heap snapshot))
  commit fun state => { state with
    heap := heap
    associativeLists := collectSet snapshot.associativeLists
    referenceLists := collectSet snapshot.referenceLists }
  let savefiles ← attempt (valueError (restoreSavefiles snapshot.savefiles))
  commit fun state => { state with
    savefiles := savefiles
    savefileEntries := collectMap snapshot.savefileEntries
    globalVarsProxy := snapshot.globalVarsProxy
    datumVarsProxies := collectMap snapshot.datumVarsProxies
    datumVarsByDatum := collectMap snapshot.datumVarsByDatum }
  let initialPrototypes ← attempt (valueError (restorePrototypes snapshot.initialPrototypes))
  commit fun state => { state with
    initialPrototypes := initialPrototypes
    initialPrototypesInitializing := fun _ => false }
  let globals ← attempt (valueError (restoreGlobals snapshot.globals))
  commit fun state => { state with
    globals := globals
    compactDefaultDatums := collectSet snapshot.compactDefaultDatums
    randomState := snapshot.randomState
    schedulerTick := snapshot.schedulerTick
    schedulerSequence := snapshot.schedulerSequence }
  let scheduledSpawns ← attempt (valueError (restoreSpawns snapshot.scheduledSpawns))
  commit fun state => { state with
    scheduledSpawns := scheduledSpawns
    nativeWalks := collectMap snapshot.nativeWalks }
  let lastAnimationTarget ← attempt (valueError (restoreOption snapshot.lastAnimationTarget))
  commit fun state => { state with lastAnimationTarget := lastAnimationTarget }
  let environmentOverrides ← attempt (valueError (restoreEnvironment snapshot.environmentOverrides))
  commit fun state => { state with
    environmentOverrides := environmentOverrides
    externalTimers := restoreTimers restoredAt snapshot.externalTimers
    iconforgeJobs := collectMap snapshot.iconforgeJobs
    iconforgeNextJob := snapshot.iconforgeNextJob
    iconforgeGagsConfigs := collectMap snapshot.iconforgeGagsConfigs
    sqlJobs := collectMap snapshot.sqlJobs
    sqlNextJob := snapshot.sqlNextJob }
  let statics ← attempt (valueError (restoreStatics snapshot.procedureStaticLocals))
  commit fun state => { state with procedureStaticLocals := statics }
  commit fun state => { state with host := .cleared }
  commit rebuildWorldGeometry
  commit fun state => { state with defaultWorldArea := snapshot.defaultWorldArea }

def readyWorldMagic : Bytes := utf8 "D64READY"

def readyWorldVersion : Nat := 1

section

variable (hash : SemanticKey → Nat) (deserialize : HeapReader ReadyWorldCoreSnapshot)
  (procedure : Bytecode.ProcedureId → Option Bytecode.Program)

/-- Everything that is checked before a restore from bytes touches the state. -/
def readReadyWorld : HeapReader (ReadyWorldCoreSnapshot × ValueHeap) := do
  let magic ← readExact readyWorldMagic.length unexpectedEnd
  if magic ≠ readyWorldMagic then
    throw (.message "ready-world state magic does not match")
  else do
    let version ← readU32
    if version ≠ readyWorldVersion then throw (.message
      s!"unsupported ready-world state version {version}; expected {readyWorldVersion}")
    else do
      let heap ← readHeap hash
      let metadata ← deserialize
      if metadata.heap.datums ≠ [] ∨ metadata.heap.datumFree ≠ [] ∨ metadata.heap.lists ≠ []
          ∨ metadata.heap.listFree ≠ [] then
        throw (.message "ready-world metadata contains a duplicate heap section")
      else do
        valueError (metadata.validateModule procedure)
        return (metadata, heap)

/-- `restore_ready_world_snapshot_from`; `deserialize` reads the metadata section. -/
def restoreReadyWorldSnapshotFrom (bytes : Bytes) : Staging HeapError (ExecutionState Row) Unit := do
  let image ← attempt ((readReadyWorld hash deserialize procedure).run' bytes)
  restoreReadyWorldParts rebuildWorldGeometry restoredAt image.1 image.2

/-- `restore_ready_world_core` -/
def restoreReadyWorldCore (snapshot : ReadyWorldCoreSnapshot) :
    Staging HeapError (ExecutionState Row) Unit := do
  let heap ← attempt (ValueHeap.fromSnapshot hash snapshot.heap)
  restoreReadyWorldParts rebuildWorldGeometry restoredAt
    { snapshot with heap := emptyHeapSnapshot } heap

end

end

end Dream64.ReadyWorld
