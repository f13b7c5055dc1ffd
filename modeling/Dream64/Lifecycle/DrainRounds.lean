import Dream64.Lifecycle.Drain

/-!
# A round of the drain

The walks that are due come to rest unless the clock stands at its last tick and
a walk stays active for ever. An advance of the server is an advance of its
scheduler; it collects a result for each task that completes, and ends early
with the error of the task that fails.
-/

namespace Dream64.Lifecycle

open Fallible (bind_eq_value map_eq_value)

/-! ## Walks -/

/-- The walk is not due, or time goes on, or it becomes inactive. -/
def WalkStops (now : Nat) (step : Nat → Bool) (walk : NativeWalk) : Prop :=
  now < walk.dueTick ∨ now < maxTick ∨ ∃ k, step k = false

def WalksStop (now : Nat) (step : Nat → Nat → Bool) (walks : Walks) : Prop :=
  ∀ entry ∈ walks, WalkStops now (step entry.1) entry.2

section Walks

variable {now : Nat} {step : Nat → Bool} {walking : Walking}

theorem Walking.turn_of_rest (h : ¬ (walking.active = true ∧ walking.walk.dueTick ≤ now)) :
    walking.turn now step = .value (.last walking) := if_neg h

theorem Walking.run_of_rest (h : ¬ (walking.active = true ∧ walking.walk.dueTick ≤ now)) :
    Advance.run (Walking.turn now step) 1 walking = .value walking := by
  rw [Advance.run, turn_of_rest h]

/-- Each step brings a walk nearer to a tick that is still to come. -/
theorem Walking.run_of_time (hnow : now < maxTick) (walking : Walking) :
    ∃ fuel last, Advance.run (Walking.turn now step) fuel walking = .value last := by
  induction hk : maxTick - walking.walk.dueTick using Nat.strongRecOn generalizing walking with
  | ind k ih =>
    by_cases hdue : walking.active = true ∧ walking.walk.dueTick ≤ now
    · have hlag := walking.walk.lag_pos
      have hadd : saturatingAdd walking.walk.dueTick walking.walk.lag =
          min (walking.walk.dueTick + walking.walk.lag) maxTick := rfl
      let next : Walking := ⟨step walking.steps,
        { walking.walk with dueTick := saturatingAdd walking.walk.dueTick walking.walk.lag },
        walking.steps + 1⟩
      have hnext : next.walk.dueTick = saturatingAdd walking.walk.dueTick walking.walk.lag := rfl
      have hlt := hdue.2
      obtain ⟨fuel, last, hrun⟩ := ih (maxTick - next.walk.dueTick) (by omega) next rfl
      refine ⟨fuel + 1, last, ?_⟩
      have hturn : walking.turn now step = .value (.next next) := if_pos hdue
      rw [Advance.run_next hturn, hrun]
    · exact ⟨1, walking, run_of_rest hdue⟩

/-- The step that leaves a walk inactive is the last. -/
theorem Walking.run_of_inactive {k : Nat} (hk : step k = false) (walking : Walking)
    (h : walking.active = false ∨ walking.steps ≤ k) :
    ∃ fuel last, Advance.run (Walking.turn now step) fuel walking = .value last := by
  induction hn : k + 1 - walking.steps generalizing walking with
  | zero =>
    refine ⟨1, walking, run_of_rest fun hdue => ?_⟩
    rcases h with hinactive | hle
    · rw [hdue.1] at hinactive
      cases hinactive
    · omega
  | succ n ih =>
    by_cases hdue : walking.active = true ∧ walking.walk.dueTick ≤ now
    · let next : Walking := ⟨step walking.steps,
        { walking.walk with dueTick := saturatingAdd walking.walk.dueTick walking.walk.lag },
        walking.steps + 1⟩
      have hnext : next.active = false ∨ next.steps ≤ k := by
        rcases Nat.lt_or_ge walking.steps k with hlt | hge
        · exact .inr hlt
        · left
          have heq : walking.steps = k := by omega
          show step walking.steps = false
          rw [heq, hk]
      obtain ⟨fuel, last, hrun⟩ := ih next hnext (by show k + 1 - (walking.steps + 1) = n; omega)
      refine ⟨fuel + 1, last, ?_⟩
      have hturn : walking.turn now step = .value (.next next) := if_pos hdue
      rw [Advance.run_next hturn, hrun]
    · exact ⟨1, walking, run_of_rest hdue⟩

/-- At the last tick a walk that stays active is always due. -/
theorem Walking.run_of_active (hnow : maxTick ≤ now) (hstep : ∀ k, step k = true) (fuel : Nat)
    {walking : Walking} (hactive : walking.active = true) (hdue : walking.walk.dueTick ≤ now) :
    Advance.run (Walking.turn now step) fuel walking = .error .outOfFuel := by
  induction fuel generalizing walking with
  | zero => rfl
  | succ fuel ih =>
    have hturn : walking.turn now step = .value (.next ⟨step walking.steps,
        { walking.walk with dueTick := saturatingAdd walking.walk.dueTick walking.walk.lag },
        walking.steps + 1⟩) := if_pos ⟨hactive, hdue⟩
    rw [Advance.run_next hturn]
    refine ih (hstep _) ?_
    exact Nat.le_trans (Nat.min_le_right _ _) hnow

theorem run_walking_iff {walk : NativeWalk} :
    (∃ fuel last, Advance.run (Walking.turn now step) fuel ⟨true, walk, 0⟩ = .value last) ↔
      WalkStops now step walk := by
  constructor
  · rintro ⟨fuel, last, hrun⟩
    by_contra hstops
    rw [WalkStops, not_or, not_or, not_exists] at hstops
    obtain ⟨hdue, htime, hactive⟩ := hstops
    rw [Walking.run_of_active (Nat.not_lt.1 htime) (fun k => by simpa using hactive k) fuel rfl
      (Nat.not_lt.1 hdue)] at hrun
    cases hrun
  · rintro (hdue | htime | ⟨k, hk⟩)
    · exact ⟨1, _, Walking.run_of_rest fun h => absurd h.2 (Nat.not_le.2 hdue)⟩
    · exact Walking.run_of_time htime _
    · exact Walking.run_of_inactive hk _ (.inr (Nat.zero_le k))

end Walks

section

variable {now fuel fuel' : Nat} {step : Nat → Nat → Bool} {walks rest : Walks}

theorem advanceNativeWalks_cons_eq_value {entry : Nat × NativeWalk} :
    advanceNativeWalks fuel now step (entry :: walks) = .value rest ↔ ∃ walking others,
      Advance.run (Walking.turn now (step entry.1)) fuel ⟨true, entry.2, 0⟩ = .value walking ∧
        advanceNativeWalks fuel now step walks = .value others ∧
        (if walking.active then (entry.1, walking.walk) :: others else others) = rest := by
  obtain ⟨movable, walk⟩ := entry
  rw [advanceNativeWalks, bind_eq_value]
  constructor
  · rintro ⟨walking, hwalking, h⟩
    obtain ⟨others, hothers, hrest⟩ := map_eq_value.1 h
    exact ⟨walking, others, hwalking, hothers, hrest⟩
  · rintro ⟨walking, others, hwalking, hothers, hrest⟩
    exact ⟨walking, hwalking, map_eq_value.2 ⟨others, hothers, hrest⟩⟩

theorem advanceNativeWalks_of_le (h : advanceNativeWalks fuel now step walks = .value rest)
    (hle : fuel ≤ fuel') : advanceNativeWalks fuel' now step walks = .value rest := by
  induction walks generalizing rest with
  | nil => exact h
  | cons entry walks ih =>
    obtain ⟨walking, others, hwalking, hothers, hrest⟩ := advanceNativeWalks_cons_eq_value.1 h
    exact advanceNativeWalks_cons_eq_value.2
      ⟨walking, others, Advance.run_of_le hwalking hle, ih hothers, hrest⟩

theorem walksStop_of_value (h : advanceNativeWalks fuel now step walks = .value rest) :
    WalksStop now step walks := by
  induction walks generalizing rest with
  | nil => exact List.forall_mem_nil _
  | cons entry walks ih =>
    obtain ⟨walking, others, hwalking, hothers, -⟩ := advanceNativeWalks_cons_eq_value.1 h
    exact List.forall_mem_cons.2 ⟨run_walking_iff.1 ⟨fuel, walking, hwalking⟩, ih hothers⟩

theorem advanceNativeWalks_of_walksStop (h : WalksStop now step walks) :
    ∃ fuel rest, advanceNativeWalks fuel now step walks = .value rest := by
  induction walks with
  | nil => exact ⟨0, [], rfl⟩
  | cons entry walks ih =>
    obtain ⟨hentry, hwalks⟩ := List.forall_mem_cons.1 h
    obtain ⟨fuel, walking, hwalking⟩ := run_walking_iff.2 hentry
    obtain ⟨fuel', others, hothers⟩ := ih hwalks
    exact ⟨max fuel fuel', _, advanceNativeWalks_cons_eq_value.2 ⟨walking, others,
      Advance.run_of_le hwalking (Nat.le_max_left _ _),
      advanceNativeWalks_of_le hothers (Nat.le_max_right _ _), rfl⟩⟩

end

/-! ## Tasks -/

variable {F : Type}

def ServerRequest.toRequests : ServerRequest F → List (Request F)
  | .scheduleFrames frames delayTicks => [.scheduleFrames frames delayTicks]
  | .startWalk _ _ _ => [.walk]
  | _ => []

def TaskOutcome.toOutcome : TaskOutcome F → FrameRunOutcome F
  | .complete => .complete
  | .yielded frames delayTicks => .yielded frames delayTicks
  | .prompted _ => .prompted
  | .error _ => .error

/-- What the scheduler sees of a turn. -/
def TaskTurn.slice (turn : TaskTurn F) : Slice F :=
  ⟨turn.requests.flatMap (·.toRequests), turn.outcome.toOutcome⟩

def TaskOutcome.completed : TaskOutcome F → Bool
  | .complete => true
  | _ => false

def TaskOutcome.failed : TaskOutcome F → Bool
  | .error _ => true
  | _ => false

namespace ServerProgress

variable {server : ServerProgress F}

theorem progress_requests (server : ServerProgress F) (requests : List (ServerRequest F)) :
    (server.requests requests).progress =
      server.progress.requests (requests.flatMap (·.toRequests)) := by
  induction requests generalizing server with
  | nil => rfl
  | cons r requests ih =>
    rw [List.flatMap_cons, Progress.requests, List.foldl_append]
    refine (ih (server.request r)).trans ?_
    rw [Progress.requests]
    congr 1
    cases r with
    | scheduleFrames _ _ | startWalk _ _ _ | stopWalk _ | registerPrompt _ | takePrompt _ => rfl

theorem progress_runs (server : ServerProgress F) (spawn : ScheduledSpawn F) (turn : TaskTurn F) :
    (server.runs spawn turn).progress =
      (server.progress.pop.ran spawn).requests turn.slice.requests :=
  progress_requests _ turn.requests

/-- What requests leave alone. -/
theorem runs_fields (server : ServerProgress F) (spawn : ScheduledSpawn F) (turn : TaskTurn F) :
    (server.runs spawn turn).completed = server.completed ∧
      (server.runs spawn turn).error = server.error ∧
      (server.runs spawn turn).outcomes = server.outcomes ++ [turn.outcome] := by
  have hrequests (server : ServerProgress F) (requests : List (ServerRequest F)) :
      (server.requests requests).completed = server.completed ∧
        (server.requests requests).error = server.error := by
    induction requests generalizing server with
    | nil => exact ⟨rfl, rfl⟩
    | cons r requests ih =>
      obtain ⟨hcompleted, herror⟩ := ih (server.request r)
      cases r with
      | scheduleFrames _ _ | startWalk _ _ _ | stopWalk _ | registerPrompt _ | takePrompt _ =>
        exact ⟨hcompleted, herror⟩
  obtain ⟨hcompleted, herror⟩ :=
    hrequests { server with progress := server.progress.pop.ran spawn } turn.requests
  exact ⟨hcompleted, herror, rfl⟩

/-- An advance of the server is one of its scheduler. -/
theorem dispatch_progress (run : Nat → Option (TaskTurn F)) (turn : Nat)
    (server : ServerProgress F) : (dispatch run turn server).progress =
      Progress.dispatch (fun turn => (run turn).map (·.slice)) turn server.progress := by
  induction turn, server using dispatch.induct run with
  | case1 turn server hempty =>
    rw [dispatch, dif_pos hempty, Progress.dispatch, dif_pos hempty]
  | case2 turn server hne hrun =>
    rw [dispatch, dif_neg hne, hrun, Progress.dispatch, dif_neg hne, hrun]
    rfl
  | case3 turn server hne task hrun error houtcome =>
    rw [dispatch, dif_neg hne, hrun, Progress.dispatch, dif_neg hne, hrun]
    have hslice : task.slice.outcome = .error := by
      rw [TaskTurn.slice, houtcome]
      rfl
    simp only [houtcome, Option.map_some, hslice]
    rw [progress_runs]
  | case4 turn server hne task hrun after frames delayTicks houtcome ih =>
    rw [dispatch, dif_neg hne, hrun, Progress.dispatch, dif_neg hne, hrun]
    have hslice : task.slice.outcome = .yielded frames delayTicks := by
      rw [TaskTurn.slice, houtcome]
      rfl
    simp only [houtcome, Option.map_some, hslice]
    rw [ih]
    congr 1
    exact congrArg (fun progress => progress.request (.scheduleFrames frames delayTicks))
      (progress_runs server _ task)
  | case5 turn server hne task hrun after houtcome ih =>
    rw [dispatch, dif_neg hne, hrun, Progress.dispatch, dif_neg hne, hrun]
    have hslice : task.slice.outcome = .complete := by
      rw [TaskTurn.slice, houtcome]
      rfl
    simp only [houtcome, Option.map_some, hslice]
    rw [ih]
    congr 1
    exact progress_runs _ _ task
  | case6 turn server hne task hrun after id houtcome ih =>
    rw [dispatch, dif_neg hne, hrun, Progress.dispatch, dif_neg hne, hrun]
    have hslice : task.slice.outcome = .prompted := by
      rw [TaskTurn.slice, houtcome]
      rfl
    simp only [houtcome, Option.map_some, hslice]
    rw [ih]
    congr 1
    exact progress_runs _ _ task

/-- How an advance goes on: it notes an outcome for each task that runs, collects a result for each
that completes, and has an error if one fails. -/
structure Noted (before after : ServerProgress F) : Prop where
  outcomes : after.outcomes.length + before.progress.dispatched.length =
    before.outcomes.length + after.progress.dispatched.length
  completed : after.completed + before.outcomes.countP (·.completed) =
    before.completed + after.outcomes.countP (·.completed)
  failed : after.outcomes.countP (·.failed) =
    before.outcomes.countP (·.failed) + if after.error.isSome then 1 else 0
  error : after.error.isSome → before.progress.state.schedulerInflight ≠ []

/-- A task that runs is noted. -/
theorem runs_noted (server : ServerProgress F) (spawn : ScheduledSpawn F) (turn : TaskTurn F) :
    (server.runs spawn turn).outcomes.length = server.outcomes.length + 1 ∧
      (server.runs spawn turn).progress.dispatched.length =
        server.progress.dispatched.length + 1 ∧
      (server.runs spawn turn).outcomes.countP (·.completed) =
        server.outcomes.countP (·.completed) + turn.outcome.completed.toNat ∧
      (server.runs spawn turn).outcomes.countP (·.failed) =
        server.outcomes.countP (·.failed) + turn.outcome.failed.toNat := by
  obtain ⟨-, -, houtcomes⟩ := runs_fields server spawn turn
  have hdispatched := (Progress.requested_requests (server.progress.pop.ran spawn)
    turn.slice.requests).dispatched
  rw [houtcomes, progress_runs, hdispatched]
  refine ⟨List.length_append, List.length_append, ?_, ?_⟩
  · rw [List.countP_append, List.countP_singleton]
    cases turn.outcome.completed <;> rfl
  · rw [List.countP_append, List.countP_singleton]
    cases turn.outcome.failed <;> rfl

/-- A task that does not fail, and the rest of the advance. -/
theorem Noted.turn (spawn : ScheduledSpawn F) (turn : TaskTurn F) {after last : ServerProgress F}
    (h : Noted after last) (hne : server.progress.state.schedulerInflight ≠ [])
    (herror : turn.outcome.failed = false)
    (houtcomes : after.outcomes = (server.runs spawn turn).outcomes)
    (hdispatched : after.progress.dispatched = (server.runs spawn turn).progress.dispatched)
    (hcompleted : after.completed = server.completed + turn.outcome.completed.toNat) :
    Noted server last := by
  obtain ⟨hlength, hran, hcompletes, hfails⟩ := runs_noted server spawn turn
  have h1 := h.outcomes
  have h2 := h.completed
  have h3 := h.failed
  rw [houtcomes] at h1 h2 h3
  rw [hdispatched] at h1
  rw [herror] at hfails
  refine ⟨by omega, by omega, ?_, fun _ => hne⟩
  rw [h3, hfails]
  rfl

theorem dispatch_noted (run : Nat → Option (TaskTurn F)) (turn : Nat) (server : ServerProgress F)
    (herror : server.error = none) : Noted server (dispatch run turn server) := by
  induction turn, server using dispatch.induct run with
  | case1 turn server hempty =>
    rw [dispatch, dif_pos hempty]
    exact ⟨rfl, rfl, by rw [herror]; rfl, fun h => by rw [herror] at h; cases h⟩
  | case2 turn server hne hrun =>
    rw [dispatch, dif_neg hne, hrun]
    exact ⟨rfl, rfl, by show _ = _ + if server.error.isSome then 1 else 0; rw [herror]; rfl,
      fun _ => hne⟩
  | case3 turn server hne task hrun error houtcome =>
    rw [dispatch, dif_neg hne, hrun]
    simp only [houtcome]
    obtain ⟨hlength, hran, hcompletes, hfails⟩ :=
      runs_noted server (server.progress.state.schedulerInflight.getLast hne) task
    obtain ⟨hcompleted, -, -⟩ :=
      runs_fields server (server.progress.state.schedulerInflight.getLast hne) task
    rw [houtcome] at hcompletes hfails
    refine ⟨?_, ?_, hfails, fun _ => hne⟩
    · show (server.runs (server.progress.state.schedulerInflight.getLast hne) task).outcomes.length +
        server.progress.dispatched.length = server.outcomes.length + (server.runs
          (server.progress.state.schedulerInflight.getLast hne) task).progress.dispatched.length
      omega
    · show (server.runs (server.progress.state.schedulerInflight.getLast hne) task).completed + _ =
        _ + (server.runs (server.progress.state.schedulerInflight.getLast hne) task).outcomes.countP _
      rw [hcompleted, hcompletes]
      rfl
  | case4 turn server hne task hrun after frames delayTicks houtcome ih =>
    rw [dispatch, dif_neg hne, hrun]
    simp only [houtcome]
    obtain ⟨hcompleted, hnone, -⟩ :=
      runs_fields server (server.progress.state.schedulerInflight.getLast hne) task
    refine Noted.turn _ task (ih (hnone.trans herror)) hne (by rw [houtcome]; rfl) rfl rfl ?_
    rw [houtcome]
    exact hcompleted
  | case5 turn server hne task hrun after houtcome ih =>
    rw [dispatch, dif_neg hne, hrun]
    simp only [houtcome]
    obtain ⟨hcompleted, hnone, -⟩ :=
      runs_fields server (server.progress.state.schedulerInflight.getLast hne) task
    refine Noted.turn _ task (ih (hnone.trans herror)) hne (by rw [houtcome]; rfl) rfl rfl ?_
    rw [houtcome]
    exact congrArg (· + 1) hcompleted
  | case6 turn server hne task hrun after id houtcome ih =>
    rw [dispatch, dif_neg hne, hrun]
    simp only [houtcome]
    obtain ⟨hcompleted, hnone, -⟩ :=
      runs_fields server (server.progress.state.schedulerInflight.getLast hne) task
    refine Noted.turn _ task (ih (hnone.trans herror)) hne (by rw [houtcome]; rfl) rfl rfl ?_
    rw [houtcome]
    exact hcompleted

end ServerProgress

/-! ## Advances -/

section Advance

variable {sort : List (ScheduledSpawn F) → List (ScheduledSpawn F)} {fuel fuel' ticks : Nat}
  {behaviour : RoundBehaviour F} {server : ServerState F} {after : ServerProgress F}

theorem advance_of_le (h : server.advance sort fuel ticks behaviour = .value after)
    (hle : fuel ≤ fuel') : server.advance sort fuel' ticks behaviour = .value after := by
  obtain ⟨walks, hwalks, hafter⟩ := map_eq_value.1 h
  exact map_eq_value.2 ⟨walks, advanceNativeWalks_of_le hwalks hle, hafter⟩

theorem exists_advance_iff : (∃ fuel after, server.advance sort fuel ticks behaviour = .value after) ↔
    WalksStop (saturatingAdd server.tick ticks) behaviour.walkStep server.nativeWalks := by
  constructor
  · rintro ⟨fuel, after, h⟩
    obtain ⟨walks, hwalks, -⟩ := map_eq_value.1 h
    exact walksStop_of_value hwalks
  · intro h
    obtain ⟨fuel, walks, hwalks⟩ := advanceNativeWalks_of_walksStop h
    exact ⟨fuel, _, map_eq_value.2 ⟨walks, hwalks, rfl⟩⟩

/-- What an advance of the server does to its queue, and what it reports. -/
structure Advanced (server : ServerState F) (ticks : Nat) (after : ServerProgress F) : Prop where
  inflight : after.progress.state.schedulerInflight = []
  tick : after.progress.state.schedulerTick = saturatingAdd server.tick ticks
  queue : (after.progress.dispatched ++ after.progress.state.scheduledSpawns).Perm
    (server.queue ++ after.progress.scheduled)
  outcomes : after.outcomes.length = after.progress.dispatched.length
  completed : after.completed = after.outcomes.countP (·.completed)
  failed : after.outcomes.countP (·.failed) = if after.error.isSome then 1 else 0
  /-- Nothing runs unless something is due. -/
  idle : (∀ spawn ∈ server.queue, saturatingAdd server.tick ticks < spawn.dueTick) →
    after.error = none ∧ after.outcomes = [] ∧ after.progress.dispatched = [] ∧
      after.progress.scheduled = [] ∧ after.progress.state.scheduledSpawns = server.queue ∧
      after.pendingPrompts = server.pendingPrompts

theorem advance_advanced (hsort : LawfulSort sort)
    (h : server.advance sort fuel ticks behaviour = .value after) :
    Advanced server ticks after := by
  obtain ⟨walks, -, hafter⟩ := map_eq_value.1 h
  let before : ServerProgress F :=
    ⟨Progress.start ((server.scheduler.advanceTick ticks).takeDue sort), walks,
      server.pendingPrompts, 0, [], none⟩
  have hdispatch : ServerProgress.dispatch behaviour.turns 0 before = after := hafter
  have hprogress : after.progress = server.scheduler.advance sort ticks
      (fun turn => (behaviour.turns turn).map (·.slice)) := by
    rw [← hdispatch]
    exact ServerProgress.dispatch_progress behaviour.turns 0 before
  have hfinished := Scheduler.advance_finished sort ticks
    (fun turn => (behaviour.turns turn).map (·.slice)) server.scheduler
  rw [← hprogress] at hfinished
  have hnoted := ServerProgress.dispatch_noted behaviour.turns 0 before rfl
  rw [hdispatch] at hnoted
  have houtcomes : after.outcomes.length + 0 = 0 + after.progress.dispatched.length :=
    hnoted.outcomes
  have hcompleted : after.completed + 0 = 0 + after.outcomes.countP (·.completed) :=
    hnoted.completed
  have hfailed : after.outcomes.countP (·.failed) = 0 + if after.error.isSome then 1 else 0 :=
    hnoted.failed
  have horder : after.progress.dispatched ++ after.progress.left =
      sort (server.queue.filter (server.scheduler.advanceTick ticks).isDue) := by
    rw [hfinished.order]
    exact List.reverse_reverse _
  obtain ⟨meanwhile, hscheduled, hqueue⟩ := hfinished.queue
  have hmeanwhile : after.progress.scheduled = meanwhile := hscheduled
  have hrest : after.progress.state.scheduledSpawns =
      (server.queue.filter fun spawn => !(server.scheduler.advanceTick ticks).isDue spawn) ++
        after.progress.scheduled ++ after.progress.left := by
    rw [hmeanwhile]
    exact hqueue
  refine ⟨hfinished.inflight, hfinished.tick, ?_, by omega, by omega, by omega, fun hnone => ?_⟩
  · have hdue := hsort.perm (server.queue.filter (server.scheduler.advanceTick ticks).isDue)
    rw [← horder] at hdue
    have hsplit := List.filter_append_perm (server.scheduler.advanceTick ticks).isDue server.queue
    rw [hrest]
    refine List.Perm.trans ?_ (hsplit.append_right _)
    refine List.Perm.trans ?_ ((hdue.append_right _).append_right _)
    rw [List.append_assoc after.progress.dispatched, List.append_assoc after.progress.dispatched,
      List.append_assoc after.progress.left]
    exact List.Perm.append_left _ List.perm_append_comm
  · have hfilter : server.queue.filter (server.scheduler.advanceTick ticks).isDue = [] := by
      rw [List.filter_eq_nil_iff]
      intro spawn hspawn hdue
      have := hnone spawn hspawn
      have hle : spawn.dueTick ≤ saturatingAdd server.tick ticks := of_decide_eq_true hdue
      omega
    have hinflight : before.progress.state.schedulerInflight = [] := by
      have hnil := (hsort.perm []).eq_nil
      show (sort (server.queue.filter (server.scheduler.advanceTick ticks).isDue)).reverse = []
      rw [hfilter, hnil]
      rfl
    have hall : (server.queue.filter fun spawn =>
        !(server.scheduler.advanceTick ticks).isDue spawn) = server.queue := by
      rw [List.filter_eq_self]
      intro spawn hspawn
      have := List.filter_eq_nil_iff.1 hfilter spawn hspawn
      simpa using this
    rw [ServerProgress.dispatch, dif_pos hinflight] at hdispatch
    rw [← hdispatch]
    exact ⟨rfl, rfl, rfl, rfl, hall, rfl⟩

end Advance

end Dream64.Lifecycle
