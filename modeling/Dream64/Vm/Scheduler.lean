import Dream64.Core
import Dream64.Library.Sorting

/-!
# The scheduler

Continuations wait for their tick in a queue. An advance takes those whose
tick has come out of the queue, in the order of their ticks and of their
numbers, and runs one after the other until all have run, one fails, or the
time of the advance is used up; those left over go back into the queue.

The frames of a continuation are a parameter. What a continuation does when it
runs is given from outside, for each turn: what it schedules meanwhile and how
it ends, or that there is no time for it. A delay is given in ticks: the
quotient of two floating-point numbers that it is rounded from is left out.
-/

namespace Dream64

/-- `u64::MAX`. -/
def maxTick : Nat := 18446744073709551615

/-- `u64::saturating_add`. -/
def saturatingAdd (a b : Nat) : Nat := min (a + b) maxTick

structure ScheduledSpawn (F : Type) where
  dueTick : Nat
  sequence : Nat
  frames : F
deriving DecidableEq, Repr

/-- What the due continuations are sorted by. -/
def ScheduledSpawn.key {F : Type} (spawn : ScheduledSpawn F) : ℕ ×ₗ ℕ :=
  toLex (spawn.dueTick, spawn.sequence)

structure Scheduler (F : Type) where
  schedulerTick : Nat
  schedulerSequence : Nat
  scheduledSpawns : List (ScheduledSpawn F)
  schedulerInflight : List (ScheduledSpawn F)
deriving DecidableEq, Repr

/-- What running code asks of the scheduler: to queue a continuation, or a number for a native walk. -/
inductive Request (F : Type) where
  | scheduleFrames (frames : F) (delayTicks : Nat)
  | walk
deriving Repr

inductive FrameRunOutcome (F : Type) where
  | complete
  | yielded (frames : F) (delayTicks : Nat)
  | prompted
  | error
deriving Repr

/-- One continuation's turn. -/
structure Slice (F : Type) where
  requests : List (Request F)
  outcome : FrameRunOutcome F
deriving Repr

/-- `sort_unstable_by_key`: the order of continuations with the same key is not promised. -/
structure LawfulSort {F : Type} (sort : List (ScheduledSpawn F) → List (ScheduledSpawn F)) : Prop where
  perm : ∀ spawns, (sort spawns).Perm spawns
  sorted : ∀ spawns, (sort spawns).Pairwise fun a b => a.key ≤ b.key

namespace Scheduler

variable {F : Type}

def initial : Scheduler F := ⟨0, 0, [], []⟩

/-- The continuation that `schedule_frames` queues. -/
def spawn (state : Scheduler F) (frames : F) (delayTicks : Nat) : ScheduledSpawn F :=
  { dueTick := saturatingAdd state.schedulerTick delayTicks
    sequence := state.schedulerSequence
    frames }

def takeSequence (state : Scheduler F) : Scheduler F :=
  { state with schedulerSequence := saturatingAdd state.schedulerSequence 1 }

def scheduleFrames (state : Scheduler F) (frames : F) (delayTicks : Nat) : Scheduler F :=
  { state.takeSequence with
    scheduledSpawns := state.scheduledSpawns ++ [state.spawn frames delayTicks] }

/-- What is in flight goes back into the queue, the next to run first. -/
def putBack (state : Scheduler F) : Scheduler F :=
  { state with
    scheduledSpawns := state.scheduledSpawns ++ state.schedulerInflight.reverse
    schedulerInflight := [] }

end Scheduler

/-- The scheduler, with what an advance has done so far: the continuations it has run, those queued
meanwhile, and those it put back. -/
structure Progress (F : Type) where
  state : Scheduler F
  dispatched : List (ScheduledSpawn F)
  scheduled : List (ScheduledSpawn F)
  left : List (ScheduledSpawn F)
  failed : Bool
deriving DecidableEq, Repr

namespace Progress

variable {F : Type}

def start (state : Scheduler F) : Progress F :=
  { state, dispatched := [], scheduled := [], left := [], failed := false }

def request (progress : Progress F) : Request F → Progress F
  | .scheduleFrames frames delayTicks =>
    { progress with
      state := progress.state.scheduleFrames frames delayTicks
      scheduled := progress.scheduled ++ [progress.state.spawn frames delayTicks] }
  | .walk => { progress with state := progress.state.takeSequence }

def requests (progress : Progress F) (requests : List (Request F)) : Progress F :=
  requests.foldl request progress

/-- The continuation is taken out of what is in flight. -/
def pop (progress : Progress F) : Progress F :=
  { progress with
    state := { progress.state with
      schedulerInflight := progress.state.schedulerInflight.dropLast } }

def ran (progress : Progress F) (spawn : ScheduledSpawn F) : Progress F :=
  { progress with dispatched := progress.dispatched ++ [spawn] }

/-- An early exit. -/
def putBack (progress : Progress F) (failed : Bool) : Progress F :=
  { progress with
    state := progress.state.putBack
    left := progress.state.schedulerInflight.reverse
    failed }

@[simp] theorem request_inflight (progress : Progress F) (r : Request F) :
    (progress.request r).state.schedulerInflight = progress.state.schedulerInflight := by
  cases r <;> rfl

@[simp] theorem requests_inflight (progress : Progress F) (requests : List (Request F)) :
    (progress.requests requests).state.schedulerInflight = progress.state.schedulerInflight := by
  induction requests generalizing progress with
  | nil => rfl
  | cons r requests ih => exact (ih (progress.request r)).trans (request_inflight progress r)

/-- The loop of `advance_scheduler`. A turn that is `none` finds the budget used up. -/
def dispatch (run : Nat → Option (Slice F)) (turn : Nat) (progress : Progress F) : Progress F :=
  if hne : progress.state.schedulerInflight = [] then progress
  else
    match run turn with
    | none => progress.putBack false
    | some slice =>
      let after := (progress.pop.ran (progress.state.schedulerInflight.getLast hne)).requests
        slice.requests
      match slice.outcome with
      | .error => after.putBack true
      | .yielded frames delayTicks =>
        dispatch run (turn + 1) (after.request (.scheduleFrames frames delayTicks))
      | .complete => dispatch run (turn + 1) after
      | .prompted => dispatch run (turn + 1) after
termination_by progress.state.schedulerInflight.length
decreasing_by
  all_goals
    have := List.length_pos_iff.2 hne
    simp only [request_inflight, requests_inflight, pop, ran, List.length_dropLast]
    omega

end Progress

namespace Scheduler

variable {F : Type}

def isDue (state : Scheduler F) (spawn : ScheduledSpawn F) : Bool :=
  decide (spawn.dueTick ≤ state.schedulerTick)

def advanceTick (state : Scheduler F) (ticks : Nat) : Scheduler F :=
  { state with schedulerTick := saturatingAdd state.schedulerTick ticks }

/-- The due continuations are in flight, the next to run last. -/
def takeDue (sort : List (ScheduledSpawn F) → List (ScheduledSpawn F)) (state : Scheduler F) :
    Scheduler F :=
  { state with
    scheduledSpawns := state.scheduledSpawns.filter fun spawn => !state.isDue spawn
    schedulerInflight := (sort (state.scheduledSpawns.filter state.isDue)).reverse }

/-- `advance_scheduler`. -/
def advance (sort : List (ScheduledSpawn F) → List (ScheduledSpawn F)) (ticks : Nat)
    (run : Nat → Option (Slice F)) (state : Scheduler F) : Progress F :=
  Progress.dispatch run 0 (Progress.start ((state.advanceTick ticks).takeDue sort))

end Scheduler

/-!
# What an advance does to the queue

Over a whole run every continuation that was queued is queued still or has been
run, and not both. An advance runs the due continuations in their order; what it
does not come to stays in that order, and what is queued meanwhile is not run.
-/

variable {F : Type}

/-! ## One advance -/

namespace Progress

variable {progress : Progress F}

/-- How an advance goes on from here: what is in flight is run or put back, in its order, and the
queue holds what is scheduled meanwhile and then what is put back. -/
structure Finished (before after : Progress F) : Prop where
  inflight : after.state.schedulerInflight = []
  order : after.dispatched ++ after.left =
    before.dispatched ++ before.state.schedulerInflight.reverse
  queue : ∃ meanwhile, after.scheduled = before.scheduled ++ meanwhile ∧
    after.state.scheduledSpawns = before.state.scheduledSpawns ++ meanwhile ++ after.left
  tick : after.state.schedulerTick = before.state.schedulerTick

/-- What running code does to the scheduler: continuations are added to the queue. -/
structure Requested (before after : Progress F) : Prop where
  inflight : after.state.schedulerInflight = before.state.schedulerInflight
  dispatched : after.dispatched = before.dispatched
  left : after.left = before.left
  queue : ∃ meanwhile, after.scheduled = before.scheduled ++ meanwhile ∧
    after.state.scheduledSpawns = before.state.scheduledSpawns ++ meanwhile
  tick : after.state.schedulerTick = before.state.schedulerTick

theorem Requested.refl (progress : Progress F) : Requested progress progress :=
  ⟨rfl, rfl, rfl, ⟨[], by simp⟩, rfl⟩

theorem Requested.trans {first second third : Progress F} (h : Requested first second)
    (h' : Requested second third) : Requested first third := by
  obtain ⟨meanwhile, hscheduled, hqueue⟩ := h.queue
  obtain ⟨meanwhile', hscheduled', hqueue'⟩ := h'.queue
  refine ⟨h'.inflight.trans h.inflight, h'.dispatched.trans h.dispatched, h'.left.trans h.left,
    ⟨meanwhile ++ meanwhile', ?_, ?_⟩, h'.tick.trans h.tick⟩
  · rw [hscheduled', hscheduled, List.append_assoc]
  · rw [hqueue', hqueue, List.append_assoc]

theorem requested_request (progress : Progress F) (r : Request F) :
    Requested progress (progress.request r) := by
  cases r with
  | scheduleFrames frames delayTicks =>
    exact ⟨rfl, rfl, rfl, ⟨[progress.state.spawn frames delayTicks], rfl, rfl⟩, rfl⟩
  | walk => exact ⟨rfl, rfl, rfl, ⟨[], by simp [request], by simp [request, Scheduler.takeSequence]⟩,
      rfl⟩

theorem requested_requests (progress : Progress F) (requests : List (Request F)) :
    Requested progress (progress.requests requests) := by
  induction requests generalizing progress with
  | nil => exact Requested.refl progress
  | cons r requests ih => exact (requested_request progress r).trans (ih (progress.request r))

theorem finished_putBack (failed : Bool) : Finished progress (progress.putBack failed) :=
  ⟨rfl, rfl, ⟨[], by simp [putBack], by simp [putBack, Scheduler.putBack]⟩, rfl⟩

/-- A turn and the rest of the advance. -/
theorem Finished.turn {after last : Progress F} (hne : progress.state.schedulerInflight ≠ [])
    (hrequested :
      Requested (progress.pop.ran (progress.state.schedulerInflight.getLast hne)) after)
    (h : Finished after last) : Finished progress last := by
  obtain ⟨meanwhile, hscheduled, hqueue⟩ := hrequested.queue
  obtain ⟨meanwhile', hscheduled', hqueue'⟩ := h.queue
  refine ⟨h.inflight, ?_, ⟨meanwhile ++ meanwhile', ?_, ?_⟩, h.tick.trans hrequested.tick⟩
  · have hsplit := List.dropLast_append_getLast hne
    rw [h.order, hrequested.inflight, hrequested.dispatched]
    show progress.dispatched ++ [_] ++ progress.state.schedulerInflight.dropLast.reverse = _
    conv_rhs => rw [← hsplit]
    rw [List.reverse_append, List.append_assoc]
    rfl
  · rw [hscheduled', hscheduled, List.append_assoc]
    rfl
  · rw [hqueue', hqueue]
    simp only [List.append_assoc]
    rfl

/-- The turn finds the budget used up, or fails. -/
def BreaksOff (run : Nat → Option (Slice F)) (turn : Nat) : Prop :=
  run turn = none ∨ ∃ slice, run turn = some slice ∧ slice.outcome = .error

/-- The last continuation in flight is run, and the code asks for what it queues. -/
def turned (progress : Progress F) (hne : progress.state.schedulerInflight ≠ [])
    (requests : List (Request F)) : Progress F :=
  (progress.pop.ran (progress.state.schedulerInflight.getLast hne)).requests requests

/-- What holds where an advance ends or breaks off, and what its turns keep, holds of all of it. -/
theorem dispatch_rule {run : Nat → Option (Slice F)} {P : Nat → Progress F → Progress F → Prop}
    (hidle : ∀ turn progress, progress.state.schedulerInflight = [] → P turn progress progress)
    (hspent : ∀ turn progress, BreaksOff run turn → P turn progress (progress.putBack false))
    (hfailed : ∀ turn progress hne requests, BreaksOff run turn →
      P turn progress ((progress.turned hne requests).putBack true))
    (hturn : ∀ turn progress hne requests last,
      P (turn + 1) (progress.turned hne requests) last → P turn progress last)
    (turn : Nat) (progress : Progress F) : P turn progress (dispatch run turn progress) := by
  induction turn, progress using dispatch.induct run with
  | case1 turn progress hempty =>
    rw [dispatch, dif_pos hempty]
    exact hidle turn progress hempty
  | case2 turn progress hne hrun =>
    rw [dispatch, dif_neg hne, hrun]
    exact hspent turn progress (.inl hrun)
  | case3 turn progress hne slice hrun houtcome =>
    rw [dispatch, dif_neg hne, hrun]
    simp only [houtcome]
    exact hfailed turn progress hne slice.requests (.inr ⟨slice, hrun, houtcome⟩)
  | case4 turn progress hne slice hrun after frames delayTicks houtcome ih =>
    rw [dispatch, dif_neg hne, hrun]
    simp only [houtcome]
    refine hturn turn progress hne (slice.requests ++ [.scheduleFrames frames delayTicks]) _ ?_
    rw [turned, requests, List.foldl_append]
    exact ih
  | case5 turn progress hne slice hrun after houtcome ih =>
    rw [dispatch, dif_neg hne, hrun]
    simp only [houtcome]
    exact hturn turn progress hne slice.requests _ ih
  | case6 turn progress hne slice hrun after houtcome ih =>
    rw [dispatch, dif_neg hne, hrun]
    simp only [houtcome]
    exact hturn turn progress hne slice.requests _ ih

/-- Only a turn that breaks off leaves continuations. -/
theorem dispatch_left (run : Nat → Option (Slice F)) (turn : Nat) (progress : Progress F)
    (hleft : progress.left = []) (hnot : ∀ last, turn ≤ last → ¬ BreaksOff run last) :
    (dispatch run turn progress).left = [] := by
  refine dispatch_rule (P := fun turn progress last => progress.left = [] →
    (∀ later, turn ≤ later → ¬ BreaksOff run later) → last.left = []) ?_ ?_ ?_ ?_ turn progress
    hleft hnot
  · intro _ _ _ hleft _
    exact hleft
  · intro turn _ hbreaks _ hnot
    exact absurd hbreaks (hnot turn le_rfl)
  · intro turn _ _ _ hbreaks _ hnot
    exact absurd hbreaks (hnot turn le_rfl)
  · intro _ _ _ _ _ ih hleft hnot
    exact ih ((requested_requests _ _).left.trans hleft)
      fun later hlater => hnot later (Nat.le_of_succ_le hlater)

theorem dispatch_finished (run : Nat → Option (Slice F)) (turn : Nat) (progress : Progress F)
    (hleft : progress.left = []) : Finished progress (dispatch run turn progress) := by
  refine dispatch_rule (P := fun _ progress last => progress.left = [] → Finished progress last)
    ?_ ?_ ?_ ?_ turn progress hleft
  · intro _ _ hempty hleft
    exact ⟨hempty, by rw [hleft, hempty]; rfl, ⟨[], by simp [hleft]⟩, rfl⟩
  · intro _ _ _ _
    exact finished_putBack false
  · intro _ _ hne _ _ _
    exact .turn hne (requested_requests _ _) (finished_putBack true)
  · intro _ _ hne _ _ ih hleft
    exact .turn hne (requested_requests _ _) (ih ((requested_requests _ _).left.trans hleft))

/-! ## Numbers -/

end Progress

/-- One comes before the other: its key is lower, or no more numbers were left for them. -/
def Before (a b : ScheduledSpawn F) : Prop :=
  a.key < b.key ∨ a.dueTick = b.dueTick ∧ a.sequence = maxTick ∧ b.sequence = maxTick

/-- The numbers that were given, up to the next one. -/
structure Numbered (scheduled : List (ScheduledSpawn F)) (sequence : Nat) : Prop where
  distinct : scheduled.Pairwise fun a b => a.sequence = b.sequence → a.sequence = maxTick
  bound : sequence ≤ maxTick
  below : ∀ spawn ∈ scheduled, spawn.sequence < sequence ∨ sequence = maxTick

theorem Numbered.take {scheduled : List (ScheduledSpawn F)} {sequence : Nat}
    (h : Numbered scheduled sequence) : Numbered scheduled (saturatingAdd sequence 1) := by
  have hbound := h.bound
  refine ⟨h.distinct, Nat.min_le_right _ _, fun spawn hmem => ?_⟩
  rw [saturatingAdd]
  rcases h.below spawn hmem with hlt | heq
  · omega
  · omega

theorem Numbered.give {scheduled : List (ScheduledSpawn F)} {state : Scheduler F} (frames : F)
    (delayTicks : Nat) (h : Numbered scheduled state.schedulerSequence) :
    Numbered (scheduled ++ [state.spawn frames delayTicks]) (saturatingAdd state.schedulerSequence 1) := by
  have hbound := h.bound
  refine ⟨List.pairwise_append.2 ⟨h.distinct, List.pairwise_singleton _ _, ?_⟩, h.take.bound, ?_⟩
  · intro a ha b hb hsame
    have hgiven : b.sequence = state.schedulerSequence := by rw [List.mem_singleton.1 hb]; rfl
    rcases h.below a ha with hlt | heq
    · omega
    · omega
  · intro spawn hmem
    rcases List.mem_append.1 hmem with hmem | hmem
    · exact h.take.below spawn hmem
    · have hgiven : spawn.sequence = state.schedulerSequence := by
        rw [List.mem_singleton.1 hmem]; rfl
      rw [saturatingAdd]
      omega

namespace Progress

variable {progress : Progress F} {earlier : List (ScheduledSpawn F)}

/-- What was queued before the advance and in it has the numbers that were given. -/
def Counts (earlier : List (ScheduledSpawn F)) (progress : Progress F) : Prop :=
  Numbered (earlier ++ progress.scheduled) progress.state.schedulerSequence

theorem Counts.request (h : progress.Counts earlier) (r : Request F) :
    (progress.request r).Counts earlier := by
  cases r with
  | scheduleFrames frames delayTicks =>
    have hgive := Numbered.give frames delayTicks h
    rw [List.append_assoc] at hgive
    exact hgive
  | walk => exact Numbered.take h

theorem Counts.requests (h : progress.Counts earlier) (requests : List (Request F)) :
    (progress.requests requests).Counts earlier := by
  induction requests generalizing progress with
  | nil => exact h
  | cons r requests ih => exact ih (h.request r)

theorem dispatch_counts (run : Nat → Option (Slice F)) (turn : Nat) (progress : Progress F)
    (h : progress.Counts earlier) : (dispatch run turn progress).Counts earlier := by
  have hturned : ∀ (progress : Progress F) hne requests, progress.Counts earlier →
      (progress.turned hne requests).Counts earlier :=
    fun progress _ requests h => Counts.requests (show (progress.pop.ran _).Counts earlier from h)
      requests
  refine dispatch_rule (P := fun _ progress last => progress.Counts earlier → last.Counts earlier)
    ?_ ?_ ?_ ?_ turn progress h
  · exact fun _ _ _ h => h
  · exact fun _ _ _ h => h
  · exact fun _ progress hne requests _ h => hturned progress hne requests h
  · exact fun _ progress hne requests _ ih h => ih (hturned progress hne requests h)

end Progress

/-! ## Runs -/

/-- What the host and the running code do. -/
inductive SchedulerOp (F : Type) where
  | request (r : Request F)
  | advance (ticks : Nat) (run : Nat → Option (Slice F))

/-- The scheduler, and all that was queued and run so far. -/
structure SchedulerHistory (F : Type) where
  state : Scheduler F
  scheduled : List (ScheduledSpawn F)
  dispatched : List (ScheduledSpawn F)

namespace SchedulerHistory

def initial : SchedulerHistory F := ⟨Scheduler.initial, [], []⟩

def after (history : SchedulerHistory F) (progress : Progress F) : SchedulerHistory F :=
  { state := progress.state
    scheduled := history.scheduled ++ progress.scheduled
    dispatched := history.dispatched ++ progress.dispatched }

variable (sort : List (ScheduledSpawn F) → List (ScheduledSpawn F))

def step (history : SchedulerHistory F) : SchedulerOp F → SchedulerHistory F
  | .request r => history.after ((Progress.start history.state).request r)
  | .advance ticks run => history.after (history.state.advance sort ticks run)

def run (ops : List (SchedulerOp F)) : SchedulerHistory F := ops.foldl (step sort) initial

end SchedulerHistory

/-- Between two calls: nothing is in flight, what was queued is run or queued still, as often as it
was queued, and the numbers are those that were given. -/
structure SchedulerHistory.Accounted (history : SchedulerHistory F) : Prop where
  idle : history.state.schedulerInflight = []
  once : (history.dispatched ++ history.state.scheduledSpawns).Perm history.scheduled
  numbered : Numbered history.scheduled history.state.schedulerSequence

/-- An advance from a state: the due continuations are run or left, in their order, and the queue
holds the others, what was queued meanwhile, and what is left. -/
structure Scheduler.Advanced (state : Scheduler F) (ticks : Nat) (result : Progress F) : Prop where
  due : (result.dispatched ++ result.left).Perm
    (state.scheduledSpawns.filter (state.advanceTick ticks).isDue)
  order : (result.dispatched ++ result.left).Pairwise Before
  queue : result.state.scheduledSpawns =
    (state.scheduledSpawns.filter fun spawn => !(state.advanceTick ticks).isDue spawn) ++
      result.scheduled ++ result.left
  tick : result.state.schedulerTick = saturatingAdd state.schedulerTick ticks

/-- Numbers that are all different make the order strict. -/
theorem pairwise_before {spawns : List (ScheduledSpawn F)}
    (hsorted : spawns.Pairwise fun a b => a.key ≤ b.key)
    (hdistinct : spawns.Pairwise fun a b => a.sequence = b.sequence → a.sequence = maxTick) :
    spawns.Pairwise Before := by
  refine (List.pairwise_and_iff.2 ⟨hsorted, hdistinct⟩).imp ?_
  intro a b hab
  obtain ⟨hle, hsame⟩ := hab
  rcases hle.lt_or_eq with hlt | heq
  · exact Or.inl hlt
  · have hpair : (a.dueTick, a.sequence) = (b.dueTick, b.sequence) := toLex.injective heq
    have hmax := hsame (Prod.mk.inj hpair).2
    exact Or.inr ⟨(Prod.mk.inj hpair).1, hmax, (Prod.mk.inj hpair).2 ▸ hmax⟩

namespace Scheduler

variable {sort : List (ScheduledSpawn F) → List (ScheduledSpawn F)} {state : Scheduler F}

theorem advance_finished (sort : List (ScheduledSpawn F) → List (ScheduledSpawn F)) (ticks : Nat)
    (run : Nat → Option (Slice F)) (state : Scheduler F) :
    Progress.Finished (Progress.start ((state.advanceTick ticks).takeDue sort))
      (state.advance sort ticks run) :=
  Progress.dispatch_finished run 0 _ rfl

theorem advance_advanced (hsort : LawfulSort sort)
    (hdistinct : state.scheduledSpawns.Pairwise fun a b => a.sequence = b.sequence → a.sequence = maxTick)
    (ticks : Nat) (run : Nat → Option (Slice F)) :
    state.Advanced ticks (state.advance sort ticks run) := by
  have hfinished := advance_finished sort ticks run state
  have horder : (state.advance sort ticks run).dispatched ++ (state.advance sort ticks run).left =
      sort (state.scheduledSpawns.filter (state.advanceTick ticks).isDue) := by
    rw [hfinished.order]
    exact List.reverse_reverse _
  obtain ⟨meanwhile, hscheduled, hqueue⟩ := hfinished.queue
  have hmeanwhile : (state.advance sort ticks run).scheduled = meanwhile := hscheduled
  have hperm := hsort.perm (state.scheduledSpawns.filter (state.advanceTick ticks).isDue)
  refine ⟨horder ▸ hperm, ?_, ?_, hfinished.tick⟩
  · rw [horder]
    refine pairwise_before (hsort.sorted _) ?_
    have hdue := hdistinct.filter (state.advanceTick ticks).isDue
    exact hperm.symm.pairwise hdue fun {a b} hab hsame => hsame ▸ hab hsame.symm
  · rw [hmeanwhile]
    exact hqueue

end Scheduler

namespace SchedulerHistory

variable {sort : List (ScheduledSpawn F) → List (ScheduledSpawn F)}

theorem Accounted.distinct {history : SchedulerHistory F} (h : history.Accounted) :
    history.state.scheduledSpawns.Pairwise fun a b => a.sequence = b.sequence → a.sequence = maxTick := by
  have hall := h.once.symm.pairwise h.numbered.distinct fun {a b} hab hsame => hsame ▸ hab hsame.symm
  exact (List.pairwise_append.1 hall).2.1

theorem initial_accounted : (initial : SchedulerHistory F).Accounted :=
  ⟨rfl, List.Perm.refl _, List.Pairwise.nil, Nat.zero_le _, fun _ hmem => nomatch hmem⟩

/-- A call accounts for what it finds in the queue and for what it queues. -/
theorem Accounted.after {history : SchedulerHistory F} (h : history.Accounted) {progress : Progress F}
    (hidle : progress.state.schedulerInflight = [])
    (honce : (progress.dispatched ++ progress.state.scheduledSpawns).Perm
      (history.state.scheduledSpawns ++ progress.scheduled))
    (hcounts : progress.Counts history.scheduled) : (history.after progress).Accounted := by
  refine ⟨hidle, ?_, hcounts⟩
  calc history.dispatched ++ progress.dispatched ++ progress.state.scheduledSpawns
      = history.dispatched ++ (progress.dispatched ++ progress.state.scheduledSpawns) :=
        List.append_assoc ..
    _ |>.Perm (history.dispatched ++ (history.state.scheduledSpawns ++ progress.scheduled)) :=
        honce.append_left _
    _ = history.dispatched ++ history.state.scheduledSpawns ++ progress.scheduled :=
        (List.append_assoc ..).symm
    _ |>.Perm (history.scheduled ++ progress.scheduled) := h.once.append_right _

theorem Accounted.counts {history : SchedulerHistory F} (h : history.Accounted) :
    (Progress.start history.state).Counts history.scheduled := by
  show Numbered (history.scheduled ++ []) _
  rw [List.append_nil]
  exact h.numbered

theorem step_accounted (hsort : LawfulSort sort) {history : SchedulerHistory F}
    (h : history.Accounted) (op : SchedulerOp F) : (history.step sort op).Accounted := by
  cases op with
  | request r =>
    have hrequested := Progress.requested_request (Progress.start history.state) r
    obtain ⟨meanwhile, hscheduled, hqueue⟩ := hrequested.queue
    refine h.after (hrequested.inflight.trans h.idle) ?_ (h.counts.request r)
    rw [hrequested.dispatched, hscheduled, hqueue]
    exact List.Perm.refl _
  | advance ticks run =>
    have hadvanced := Scheduler.advance_advanced hsort h.distinct ticks run
    refine h.after (Scheduler.advance_finished sort ticks run history.state).inflight ?_
      (Progress.dispatch_counts run 0 _ h.counts)
    have hsplit := List.filter_append_perm (history.state.advanceTick ticks).isDue
      history.state.scheduledSpawns
    refine List.Perm.trans ?_ (hsplit.append_right _)
    rw [hadvanced.queue]
    refine (List.perm_append_comm.append_left _).trans ?_
    rw [← List.append_assoc, List.append_assoc (List.filter _ _)]
    exact hadvanced.due.append_right _

theorem run_accounted (hsort : LawfulSort sort) (ops : List (SchedulerOp F)) :
    (run sort ops).Accounted := by
  suffices hall : ∀ history : SchedulerHistory F, history.Accounted →
      (ops.foldl (step sort) history).Accounted from hall _ initial_accounted
  intro history h
  induction ops generalizing history with
  | nil => exact h
  | cons op ops ih => exact ih _ (step_accounted hsort h op)

end SchedulerHistory

/-! ## The order of what is left -/

namespace Scheduler

variable {sort : List (ScheduledSpawn F) → List (ScheduledSpawn F)} {state : Scheduler F}

/-- A continuation that has a number of its own. -/
def ownNumber (spawn : ScheduledSpawn F) : Bool := decide (spawn.sequence < maxTick)

theorem pairwise_ownNumber {spawns : List (ScheduledSpawn F)} (h : spawns.Pairwise Before) :
    (spawns.filter ownNumber).Pairwise fun a b => a.key < b.key := by
  refine (List.pairwise_filter.2 (h.imp ?_))
  intro a b hab hown _
  have hlt : a.sequence < maxTick := of_decide_eq_true hown
  rcases hab with hkey | hmax
  · exact hkey
  · omega

/-- What is put back is due at the next advance, in the same order. -/
theorem Advanced.left_sublist {ticks nextTicks : Nat} {result next : Progress F}
    (h : state.Advanced ticks result) (hnext : result.state.Advanced nextTicks next) :
    (result.left.filter ownNumber).Sublist (next.dispatched ++ next.left) := by
  have hmem : ∀ spawn ∈ result.left.filter ownNumber,
      spawn ∈ (next.dispatched ++ next.left).filter ownNumber := by
    intro spawn hleft
    obtain ⟨hleft, hown⟩ := List.mem_filter.1 hleft
    have hdue := (List.mem_filter.1 (h.due.mem_iff.1 (List.mem_append_right _ hleft))).2
    have htick : spawn.dueTick ≤ saturatingAdd state.schedulerTick ticks := of_decide_eq_true hdue
    refine List.mem_filter.2 ⟨hnext.due.mem_iff.2 (List.mem_filter.2 ⟨?_, ?_⟩), hown⟩
    · rw [h.queue]
      exact List.mem_append_right _ hleft
    · refine decide_eq_true ?_
      show spawn.dueTick ≤ saturatingAdd result.state.schedulerTick nextTicks
      have hcap : saturatingAdd state.schedulerTick ticks ≤ maxTick := Nat.min_le_right _ _
      rw [h.tick]
      exact le_min (htick.trans (Nat.le_add_right _ _)) (htick.trans hcap)
  have hstrict := pairwise_ownNumber (List.pairwise_append.1 h.order).2.1
  exact (Sorting.sublist_of_subset ScheduledSpawn.key hstrict (pairwise_ownNumber hnext.order)
    hmem).trans List.filter_sublist

end Scheduler

/-- Every run accounts for all that is queued, each advance runs the due continuations in the order
of their keys and none that is queued meanwhile, and what an early exit leaves stays in its order;
an advance of which no turn breaks off leaves nothing. -/
theorem scheduler_accounts (sort : List (ScheduledSpawn F) → List (ScheduledSpawn F))
    (hsort : LawfulSort sort) (ops : List (SchedulerOp F)) :
    (SchedulerHistory.run sort ops).Accounted ∧
      ∀ ticks run, ∀ nextTicks nextRun,
        let result := (SchedulerHistory.run sort ops).state.advance sort ticks run
        let next := result.state.advance sort nextTicks nextRun
        (SchedulerHistory.run sort ops).state.Advanced ticks result ∧
          (result.left.filter Scheduler.ownNumber).Sublist (next.dispatched ++ next.left) ∧
          ((∀ turn, ¬ Progress.BreaksOff run turn) → result.left = []) := by
  have haccounted := SchedulerHistory.run_accounted hsort ops
  refine ⟨haccounted, fun ticks run nextTicks nextRun => ?_⟩
  have hadvanced := Scheduler.advance_advanced hsort haccounted.distinct ticks run
  have hafter := SchedulerHistory.step_accounted hsort haccounted (.advance ticks run)
  exact ⟨hadvanced,
    hadvanced.left_sublist (Scheduler.advance_advanced hsort hafter.distinct nextTicks nextRun),
    fun hnot => Progress.dispatch_left run 0 _ rfl fun turn _ => hnot turn⟩

/-- Sorting by insertion keeps to the keys. -/
def sortByKey (spawns : List (ScheduledSpawn F)) : List (ScheduledSpawn F) :=
  spawns.insertionSort fun a b => a.key ≤ b.key

theorem sortByKey_lawful : LawfulSort (sortByKey (F := F)) := by
  refine ⟨fun spawns => List.perm_insertionSort _ _, fun spawns => ?_⟩
  have htotal : Std.Total fun a b : ScheduledSpawn F => a.key ≤ b.key := ⟨fun a b => le_total _ _⟩
  have htrans : IsTrans (ScheduledSpawn F) fun a b => a.key ≤ b.key := ⟨fun a b c => le_trans⟩
  exact List.pairwise_insertionSort _ spawns

/-- Two continuations for the next tick. -/
def twoDue : List (SchedulerOp String) :=
  [.request (.scheduleFrames "first" 1), .request (.scheduleFrames "second" 1)]

/-- The first turn queues a third one, and the second has no time. -/
def firstOnly (turn : Nat) : Option (Slice String) :=
  if turn = 0 then some ⟨[.scheduleFrames "third" 0], .complete⟩ else none

def brokenAdvance : Progress String :=
  (SchedulerHistory.run sortByKey twoDue).state.advance sortByKey 1 firstOnly

theorem brokenAdvance_eq : brokenAdvance =
    ⟨⟨1, 3, [⟨1, 2, "third"⟩, ⟨1, 1, "second"⟩], []⟩, [⟨1, 0, "first"⟩], [⟨1, 2, "third"⟩],
      [⟨1, 1, "second"⟩], false⟩ := by
  have hstart : Progress.start ((Scheduler.advanceTick (SchedulerHistory.run sortByKey twoDue).state
      1).takeDue sortByKey) =
        ⟨⟨1, 2, [], [⟨1, 1, "second"⟩, ⟨1, 0, "first"⟩]⟩, [], [], [], false⟩ := by decide +kernel
  rw [brokenAdvance, Scheduler.advance, hstart]
  simp [Progress.dispatch, firstOnly, Progress.pop, Progress.ran, Progress.requests,
    Progress.request, Progress.putBack, Scheduler.putBack, Scheduler.scheduleFrames,
    Scheduler.takeSequence, Scheduler.spawn, saturatingAdd, maxTick]

/-- The second continuation waits for the next advance. -/
theorem brokenAdvance_accounts :
    (SchedulerHistory.run sortByKey twoDue).Accounted ∧
      (SchedulerHistory.run sortByKey twoDue).state.Advanced 1 brokenAdvance ∧
      brokenAdvance.left = [⟨1, 1, "second"⟩] ∧
      ∀ ticks run, let next := brokenAdvance.state.advance sortByKey ticks run
        [⟨1, 1, "second"⟩].Sublist (next.dispatched ++ next.left) := by
  obtain ⟨haccounted, hadvance⟩ := scheduler_accounts sortByKey sortByKey_lawful twoDue
  have hleft : brokenAdvance.left = [⟨1, 1, "second"⟩] := congrArg Progress.left brokenAdvance_eq
  refine ⟨haccounted, (hadvance 1 firstOnly 1 firstOnly).1, hleft, fun ticks run => ?_⟩
  have hnext : (brokenAdvance.left.filter Scheduler.ownNumber).Sublist _ :=
    (hadvance 1 firstOnly ticks run).2.1
  rw [hleft] at hnext
  exact hnext

end Dream64
