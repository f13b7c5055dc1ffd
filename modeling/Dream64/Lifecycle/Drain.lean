import Dream64.Library.Advance
import Dream64.Vm.Scheduler

/-!
# Draining the persistent scheduler

The server advances its scheduler to the next tick at which something is due,
round after round, until nothing is pending, the ticks or the rounds are used
up, or a fatal error ends it; then the clock moves on to the end of the slice.
A task that awaits a prompt is pending without a tick. What tasks and native
walks do is given from outside, for each round; the heap is left out, and with
it the order of the walks. A walk may go on for ever: its loop takes fuel.
-/

namespace Dream64.Lifecycle

/-! ## Native walks -/

structure NativeWalk where
  dueTick : Nat
  sequence : Nat
  lag : Nat
  lag_pos : 0 < lag
deriving DecidableEq, Repr

/-- The walks by movable. -/
abbrev Walks := List (Nat × NativeWalk)

def insertWalk (movable : Nat) (walk : NativeWalk) (walks : Walks) : Walks :=
  (walks.filter fun other => other.1 ≠ movable) ++ [(movable, walk)]

def removeWalk (movable : Nat) (walks : Walks) : Walks :=
  walks.filter fun other => other.1 ≠ movable

/-- A walk in its loop: whether it is active, and how many steps it has made. -/
structure Walking where
  active : Bool
  walk : NativeWalk
  steps : Nat
deriving DecidableEq, Repr

/-- One time around the loop of a walk; `step` says whether a step leaves it active. -/
def Walking.turn (now : Nat) (step : Nat → Bool) (walking : Walking) :
    Fallible Empty (Advance.Turn Walking Walking) :=
  if walking.active = true ∧ walking.walk.dueTick ≤ now then
    .value (.next ⟨step walking.steps,
      { walking.walk with dueTick := saturatingAdd walking.walk.dueTick walking.walk.lag },
      walking.steps + 1⟩)
  else .value (.last walking)

/-- `advance_native_walks` -/
def advanceNativeWalks (fuel now : Nat) (step : Nat → Nat → Bool) :
    Walks → Fallible (Halt Empty) Walks
  | [] => .value []
  | (movable, walk) :: walks =>
    (Advance.run (Walking.turn now (step movable)) fuel ⟨true, walk, 0⟩).bind fun walking =>
      (advanceNativeWalks fuel now step walks).map fun rest =>
        if walking.active then (movable, walking.walk) :: rest else rest

/-! ## One advance -/

structure TaskError where
  message : String
  callStack : List String
deriving DecidableEq, Repr

structure ServerState (F : Type) where
  scheduler : Scheduler F
  nativeWalks : Walks
  pendingPrompts : List Nat

/-- What running code asks for. -/
inductive ServerRequest (F : Type) where
  | scheduleFrames (frames : F) (delayTicks : Nat)
  | startWalk (movable lag : Nat) (lag_pos : 0 < lag)
  | stopWalk (movable : Nat)
  | registerPrompt (id : Nat)
  | takePrompt (id : Nat)

inductive TaskOutcome (F : Type) where
  | complete
  | yielded (frames : F) (delayTicks : Nat)
  | prompted (id : Nat)
  | error (error : TaskError)

/-- One task's turn. -/
structure TaskTurn (F : Type) where
  requests : List (ServerRequest F)
  outcome : TaskOutcome F

/-- An advance of the server, with the results it has collected and how the tasks that ran ended. -/
structure ServerProgress (F : Type) where
  progress : Progress F
  nativeWalks : Walks
  pendingPrompts : List Nat
  completed : Nat
  outcomes : List (TaskOutcome F)
  error : Option TaskError

namespace ServerProgress

variable {F : Type}

def registerPrompt (server : ServerProgress F) (id : Nat) : ServerProgress F :=
  { server with pendingPrompts := id :: server.pendingPrompts.filter fun other => other ≠ id }

def request (server : ServerProgress F) : ServerRequest F → ServerProgress F
  | .scheduleFrames frames delayTicks =>
    { server with progress := server.progress.request (.scheduleFrames frames delayTicks) }
  | .startWalk movable lag lag_pos =>
    { server with
      progress := server.progress.request .walk
      nativeWalks := insertWalk movable
        ⟨saturatingAdd server.progress.state.schedulerTick lag,
          server.progress.state.schedulerSequence, lag, lag_pos⟩ server.nativeWalks }
  | .stopWalk movable => { server with nativeWalks := removeWalk movable server.nativeWalks }
  | .registerPrompt id => server.registerPrompt id
  | .takePrompt id =>
    { server with pendingPrompts := server.pendingPrompts.filter fun other => other ≠ id }

def requests (server : ServerProgress F) (requests : List (ServerRequest F)) : ServerProgress F :=
  requests.foldl request server

/-- The next task is taken and runs. -/
def runs (server : ServerProgress F) (spawn : ScheduledSpawn F) (turn : TaskTurn F) :
    ServerProgress F :=
  { (({ server with progress := server.progress.pop.ran spawn }).requests turn.requests) with
    outcomes := server.outcomes ++ [turn.outcome] }

@[simp] theorem request_inflight (server : ServerProgress F) (r : ServerRequest F) :
    (server.request r).progress.state.schedulerInflight =
      server.progress.state.schedulerInflight := by
  cases r with
  | scheduleFrames frames delayTicks => exact Progress.request_inflight _ _
  | startWalk movable lag lag_pos => exact Progress.request_inflight _ _
  | stopWalk movable => rfl
  | registerPrompt id => rfl
  | takePrompt id => rfl

@[simp] theorem requests_inflight (server : ServerProgress F) (requests : List (ServerRequest F)) :
    (server.requests requests).progress.state.schedulerInflight =
      server.progress.state.schedulerInflight := by
  induction requests generalizing server with
  | nil => rfl
  | cons r requests ih => exact (ih (server.request r)).trans (request_inflight server r)

@[simp] theorem runs_inflight (server : ServerProgress F) (spawn : ScheduledSpawn F)
    (turn : TaskTurn F) : (server.runs spawn turn).progress.state.schedulerInflight =
      server.progress.state.schedulerInflight.dropLast :=
  requests_inflight _ turn.requests

/-- The loop of `advance_scheduler`. -/
def dispatch (run : Nat → Option (TaskTurn F)) (turn : Nat) (server : ServerProgress F) :
    ServerProgress F :=
  if hne : server.progress.state.schedulerInflight = [] then server
  else
    match run turn with
    | none => { server with progress := server.progress.putBack false }
    | some task =>
      let after := server.runs (server.progress.state.schedulerInflight.getLast hne) task
      match task.outcome with
      | .error error =>
        { after with progress := after.progress.putBack true, error := some error }
      | .yielded frames delayTicks =>
        dispatch run (turn + 1) (after.request (.scheduleFrames frames delayTicks))
      | .complete => dispatch run (turn + 1) { after with completed := after.completed + 1 }
      | .prompted id => dispatch run (turn + 1) (after.registerPrompt id)
termination_by server.progress.state.schedulerInflight.length
decreasing_by
  all_goals
    have := List.length_pos_iff.2 hne
    simp only [request_inflight, runs_inflight, registerPrompt, List.length_dropLast]
    omega

end ServerProgress

/-- What happens in a round: the tasks' turns, and whether the steps of a walk leave it active. -/
structure RoundBehaviour (F : Type) where
  turns : Nat → Option (TaskTurn F)
  walkStep : Nat → Nat → Bool

namespace ServerState

variable {F : Type}

def tick (server : ServerState F) : Nat := server.scheduler.schedulerTick

def queue (server : ServerState F) : List (ScheduledSpawn F) := server.scheduler.scheduledSpawns

def scheduledTaskCount (server : ServerState F) : Nat :=
  server.queue.length + server.pendingPrompts.length

def nextScheduledTick (server : ServerState F) : Option Nat :=
  (server.queue.map (·.dueTick) ++ server.nativeWalks.map (·.2.dueTick)).min?

variable (sort : List (ScheduledSpawn F) → List (ScheduledSpawn F))

/-- `advance_scheduler` -/
def advance (fuel ticks : Nat) (behaviour : RoundBehaviour F) (server : ServerState F) :
    Fallible (Halt Empty) (ServerProgress F) :=
  let scheduler := server.scheduler.advanceTick ticks
  (advanceNativeWalks fuel scheduler.schedulerTick behaviour.walkStep server.nativeWalks).map
    fun walks =>
      ServerProgress.dispatch behaviour.turns 0
        ⟨Progress.start (scheduler.takeDue sort), walks, server.pendingPrompts, 0, [], none⟩

end ServerState

/-! ## Rounds -/

structure SchedulerDrainLimits where
  maxTicks : Nat
  maxRounds : Nat
deriving DecidableEq, Repr

inductive SchedulerDrainTermination where
  | stableIdle
  | headlessReady
  | tickLimit
  | roundLimit
deriving DecidableEq, Repr

structure SchedulerDrain where
  finalTick : Nat
  rounds : Nat
  completedTasks : Nat
  failedTasks : Nat
  pendingTasks : Nat
  termination : SchedulerDrainTermination
deriving DecidableEq, Repr

/-- `scheduler_budget_exhausted` -/
def TaskError.budgetExhausted (error : TaskError) : Bool :=
  let first := "instruction budget of ".toList
  first.isPrefixOf error.message.toList &&
    " exhausted".toList.isSuffixOf (error.message.toList.drop first.length)

def masterInitializeProc : String := "/datum/controller/master/proc/Initialize"

/-- `runtime_error_unwound_master_initialize` -/
def TaskError.unwoundMasterInitialize (error : TaskError) : Bool :=
  error.callStack.any fun procedure =>
    procedure.toList.takeWhile (fun c => c ≠ '@') == masterInitializeProc.toList

def TaskError.fatal (error : TaskError) : Bool :=
  !error.budgetExhausted && error.unwoundMasterInitialize

/-- The server while it is drained, with what has been run and queued and how the tasks ended. -/
structure Draining (F : Type) where
  server : ServerState F
  drain : SchedulerDrain
  dispatched : List (ScheduledSpawn F)
  scheduled : List (ScheduledSpawn F)
  outcomes : List (TaskOutcome F)

namespace Draining

variable {F : Type}

def start (server : ServerState F) : Draining F :=
  { server
    drain := ⟨server.tick, 0, 0, 0, 0, .stableIdle⟩
    dispatched := []
    scheduled := []
    outcomes := [] }

/-- The round, without what it reports. -/
def after (draining : Draining F) (server : ServerProgress F) : Draining F :=
  { server := ⟨server.progress.state, server.nativeWalks, server.pendingPrompts⟩
    drain := { draining.drain with rounds := draining.drain.rounds + 1 }
    dispatched := draining.dispatched ++ server.progress.dispatched
    scheduled := draining.scheduled ++ server.progress.scheduled
    outcomes := draining.outcomes ++ server.outcomes }

def count (draining : Draining F) (completed failed : Nat) : Draining F :=
  { draining with
    drain := { draining.drain with
      completedTasks := draining.drain.completedTasks + completed
      failedTasks := draining.drain.failedTasks + failed
      finalTick := draining.server.tick } }

def terminate (draining : Draining F) (termination : SchedulerDrainTermination) : Draining F :=
  { draining with drain := { draining.drain with termination } }

/-- What an advance reports: it goes on, unless the error is fatal. -/
def report (draining : Draining F) (server : ServerProgress F) :
    Advance.Turn (Draining F) (Draining F × Option TaskError) :=
  match server.error with
  | none => .next ((draining.after server).count server.completed 0)
  | some error =>
    if error.budgetExhausted then .next ((draining.after server).count 0 0)
    else if error.unwoundMasterInitialize then .last (draining.after server, some error)
    else .next ((draining.after server).count 0 1)

variable (sort : List (ScheduledSpawn F) → List (ScheduledSpawn F))
  (limits : SchedulerDrainLimits) (tickLimit : Nat) (behaviour : Nat → RoundBehaviour F)
  (fuel : Nat)

/-- One time around the loop of the drain. -/
def turn (draining : Draining F) :
    Fallible (Halt Empty) (Advance.Turn (Draining F) (Draining F × Option TaskError)) :=
  if draining.server.scheduledTaskCount = 0 then .value (.last (draining, none))
  else if limits.maxRounds ≤ draining.drain.rounds then
    .value (.last (draining.terminate .roundLimit, none))
  else
    match draining.server.nextScheduledTick with
    -- a non-empty scheduler has an earliest task
    | none => .panic
    | some nextTick =>
      if tickLimit < nextTick then .value (.last (draining.terminate .tickLimit, none))
      else
        (draining.server.advance sort fuel (nextTick - draining.server.tick)
          (behaviour draining.drain.rounds)).map draining.report

/-- What is pending, and why the drain stopped. -/
def conclude (draining : Draining F) : Draining F :=
  let pendingTasks := draining.server.scheduledTaskCount
  { draining with
    drain := { draining.drain with
      pendingTasks
      termination :=
        if pendingTasks = 0 then .stableIdle
        else if draining.drain.termination ≠ .roundLimit then .tickLimit
        else draining.drain.termination } }

/-- The rest of the slice. -/
def idle (draining : Draining F) : Fallible (Halt Empty) (Draining F) :=
  if draining.drain.termination ≠ .roundLimit ∧ draining.server.tick < tickLimit then
    (draining.server.advance sort fuel (tickLimit - draining.server.tick)
      (behaviour draining.drain.rounds)).bind fun server =>
        match server.error with
        -- no scheduled task is due before the validated persistent tick boundary
        | some _ => .panic
        | none => .value ((draining.after server).count server.completed 0).conclude
  else .value draining.conclude

end Draining

/-- `drain_persistent_scheduler`, with the fatal error that it returns, if there is one; the loop
has a turn for each round and two to stop. -/
def drainPersistentScheduler {F : Type}
    (sort : List (ScheduledSpawn F) → List (ScheduledSpawn F)) (limits : SchedulerDrainLimits)
    (behaviour : Nat → RoundBehaviour F) (fuel : Nat) (server : ServerState F) :
    Fallible (Halt (Halt Empty)) (Draining F × Option TaskError) :=
  let tickLimit := saturatingAdd server.tick limits.maxTicks
  (Advance.run (Draining.turn sort limits tickLimit behaviour fuel) (limits.maxRounds + 2)
      (Draining.start server)).bind fun stopped =>
    match stopped.2 with
    | some error => .value (stopped.1, some error)
    | none =>
      (stopped.1.idle sort tickLimit behaviour fuel).raise.map fun draining => (draining, none)

end Dream64.Lifecycle
