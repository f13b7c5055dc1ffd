import Dream64.Lifecycle.DrainRounds

/-!
# Runs of the drain

A drain returns unless a round begins with prompts only, or with a walk that
goes on for ever at the last tick. It counts what completes and what fails
unless a round ends with an error that is not counted, or behind tasks that
have completed. All other parts of its account hold in any case.
`drain_accounts` puts this together.
-/

namespace Dream64.Lifecycle

open Fallible (bind_eq_value map_eq_value)

variable {F : Type} {sort : List (ScheduledSpawn F) → List (ScheduledSpawn F)}
  {limits : SchedulerDrainLimits} {tickLimit fuel : Nat} {behaviour : Nat → RoundBehaviour F}
  {draining next : Draining F} {after : ServerProgress F} {error : TaskError}

namespace Draining

/-! ## Turns -/

section

variable (sort limits tickLimit behaviour)

/-- There is another round from here, and this is what it comes to. -/
structure Round (draining : Draining F) (after : ServerProgress F) : Prop where
  pending : draining.server.scheduledTaskCount ≠ 0
  rounds : draining.drain.rounds < limits.maxRounds
  advance : ∃ nextTick fuel, draining.server.nextScheduledTick = some nextTick ∧
    nextTick ≤ tickLimit ∧ draining.server.advance sort fuel (nextTick - draining.server.tick)
      (behaviour draining.drain.rounds) = .value after

/-- Why there is no other round. -/
inductive Stops (draining : Draining F) : SchedulerDrainTermination → Prop
  | stableIdle : draining.server.scheduledTaskCount = 0 → Stops draining .stableIdle
  | roundLimit : draining.server.scheduledTaskCount ≠ 0 →
    limits.maxRounds ≤ draining.drain.rounds → Stops draining .roundLimit
  | tickLimit (nextTick : Nat) : draining.server.scheduledTaskCount ≠ 0 →
    draining.drain.rounds < limits.maxRounds → draining.server.nextScheduledTick = some nextTick →
    tickLimit < nextTick → Stops draining .tickLimit

/-- The ticks by which the clock is advanced from here, in a round or behind the last. -/
def ticks (draining : Draining F) : Option Nat :=
  let rest := if draining.server.tick < tickLimit then some (tickLimit - draining.server.tick)
    else none
  if draining.server.scheduledTaskCount = 0 then rest
  else if limits.maxRounds ≤ draining.drain.rounds then none
  else draining.server.nextScheduledTick.bind fun nextTick =>
    if tickLimit < nextTick then rest else some (nextTick - draining.server.tick)

end

/-- A turn is a round, or the drain stops there. -/
theorem turn_eq_value {outcome : Advance.Turn (Draining F) (Draining F × Option TaskError)}
    (h : draining.turn sort limits tickLimit behaviour fuel = .value outcome) :
    (∃ after, draining.Round sort limits tickLimit behaviour after ∧
      outcome = draining.report after) ∨
    ∃ termination, draining.Stops limits tickLimit termination ∧
      (outcome = .last (draining.terminate termination, none) ∨
        termination = .stableIdle ∧ outcome = .last (draining, none)) := by
  rw [turn] at h
  split_ifs at h with hcount hrounds
  · cases h
    exact .inr ⟨_, .stableIdle hcount, .inr ⟨rfl, rfl⟩⟩
  · cases h
    exact .inr ⟨_, .roundLimit hcount hrounds, .inl rfl⟩
  · cases hnext : draining.server.nextScheduledTick with
    | none =>
      simp only [hnext] at h
      cases h
    | some nextTick =>
      simp only [hnext] at h
      split_ifs at h with hlimit
      · cases h
        exact .inr ⟨_, .tickLimit nextTick hcount (by omega) hnext hlimit, .inl rfl⟩
      · obtain ⟨after, hafter, hreport⟩ := map_eq_value.1 h
        exact .inl ⟨after, ⟨hcount, by omega, nextTick, fuel, hnext, by omega, hafter⟩,
          hreport.symm⟩

theorem turn_of_round (h : draining.Round sort limits tickLimit behaviour after) :
    ∃ fuel, draining.turn sort limits tickLimit behaviour fuel =
      .value (draining.report after) := by
  obtain ⟨nextTick, fuel, hnext, hle, hafter⟩ := h.advance
  refine ⟨fuel, ?_⟩
  have hrounds := h.rounds
  rw [turn, if_neg h.pending, if_neg (by omega)]
  simp only [hnext]
  rw [if_neg (by omega), hafter]
  rfl

theorem steady_turn : Advance.Steady (turn sort limits tickLimit behaviour) := by
  intro m n draining outcome hle h
  rw [turn] at h ⊢
  split_ifs at h ⊢ with hcount hrounds
  · exact h
  · exact h
  · cases hnext : draining.server.nextScheduledTick with
    | none =>
      simp only [hnext] at h
      cases h
    | some nextTick =>
      simp only [hnext] at h ⊢
      split_ifs at h ⊢ with hlimit
      · exact h
      · obtain ⟨after, hafter, hreport⟩ := map_eq_value.1 h
        exact map_eq_value.2 ⟨after, advance_of_le hafter hle, hreport⟩

/-- A round that goes on, with what it counts: all that it noted, or less. -/
theorem report_eq_next (h : draining.report after = .next next) :
    (after.error = none ∧ next = (draining.after after).count after.completed 0) ∨
    ∃ error, after.error = some error ∧ error.fatal = false ∧
      (error.budgetExhausted = true ∧ next = (draining.after after).count 0 0 ∨
        error.budgetExhausted = false ∧ next = (draining.after after).count 0 1) := by
  rw [report] at h
  cases herror : after.error with
  | none =>
    simp only [herror] at h
    cases h
    exact .inl ⟨rfl, rfl⟩
  | some error =>
    simp only [herror] at h
    split_ifs at h with hbudget hmaster
    · cases h
      refine .inr ⟨error, rfl, ?_, .inl ⟨hbudget, rfl⟩⟩
      rw [TaskError.fatal, hbudget]
      rfl
    · cases h
      refine .inr ⟨error, rfl, ?_, .inr ⟨by simpa using hbudget, rfl⟩⟩
      rw [TaskError.fatal, Bool.and_eq_false_iff]
      exact .inr (by simpa using hmaster)

theorem report_eq_last {stopped : Draining F × Option TaskError}
    (h : draining.report after = .last stopped) : ∃ error, after.error = some error ∧
      error.fatal = true ∧ stopped = (draining.after after, some error) := by
  rw [report] at h
  cases herror : after.error with
  | none =>
    simp only [herror] at h
    cases h
  | some error =>
    simp only [herror] at h
    split_ifs at h with hbudget hmaster
    · cases h
      refine ⟨error, rfl, ?_, rfl⟩
      rw [TaskError.fatal, hmaster, Bool.not_eq_true] at *
      rw [hbudget]
      rfl

/-- An error that is not fatal lets the drain go on. -/
theorem report_of_error (herror : after.error = some error) (hfatal : error.fatal = false) :
    ∃ next, draining.report after = .next next := by
  cases hreport : draining.report after with
  | next next => exact ⟨next, rfl⟩
  | last stopped =>
    obtain ⟨other, hother, hotherFatal, -⟩ := report_eq_last hreport
    rw [herror] at hother
    cases hother
    rw [hfatal] at hotherFatal
    cases hotherFatal

/-! ## When a turn comes to something -/

theorem nextScheduledTick_eq_none {server : ServerState F} :
    server.nextScheduledTick = none ↔ server.queue = [] ∧ server.nativeWalks = [] := by
  rw [ServerState.nextScheduledTick, List.min?_eq_none_iff, List.append_eq_nil_iff,
    List.map_eq_nil_iff, List.map_eq_nil_iff]

theorem exists_turn (hprompts : draining.drain.rounds < limits.maxRounds →
      draining.server.queue = [] → draining.server.nativeWalks = [] →
        draining.server.pendingPrompts = [])
    (hwalks : ∀ ticks, draining.ticks limits tickLimit = some ticks →
      WalksStop (saturatingAdd draining.server.tick ticks)
        (behaviour draining.drain.rounds).walkStep draining.server.nativeWalks) :
    ∃ fuel outcome, draining.turn sort limits tickLimit behaviour fuel = .value outcome := by
  by_cases hcount : draining.server.scheduledTaskCount = 0
  · exact ⟨0, _, if_pos hcount⟩
  by_cases hrounds : limits.maxRounds ≤ draining.drain.rounds
  · exact ⟨0, _, by rw [turn, if_neg hcount, if_pos hrounds]⟩
  cases hnext : draining.server.nextScheduledTick with
  | none =>
    obtain ⟨hqueue, hnone⟩ := nextScheduledTick_eq_none.1 hnext
    refine absurd ?_ hcount
    rw [ServerState.scheduledTaskCount, hqueue, hprompts (by omega) hqueue hnone]
    rfl
  | some nextTick =>
    by_cases hlimit : tickLimit < nextTick
    · refine ⟨0, .last (draining.terminate .tickLimit, none), ?_⟩
      rw [turn, if_neg hcount, if_neg hrounds]
      simp only [hnext, if_pos hlimit]
    · have hticks : draining.ticks limits tickLimit =
          some (nextTick - draining.server.tick) := by
        rw [ticks, if_neg hcount, if_neg hrounds, hnext, Option.bind_some, if_neg hlimit]
      obtain ⟨fuel, after, hafter⟩ := exists_advance_iff.2 (hwalks _ hticks)
      have hround : draining.Round sort limits tickLimit behaviour after :=
        ⟨hcount, by omega, nextTick, fuel, hnext, by omega, hafter⟩
      obtain ⟨fuel, hturn⟩ := turn_of_round hround
      exact ⟨fuel, _, hturn⟩

theorem prompts_of_turn {outcome : Advance.Turn (Draining F) (Draining F × Option TaskError)}
    (h : draining.turn sort limits tickLimit behaviour fuel = .value outcome)
    (hrounds : draining.drain.rounds < limits.maxRounds) (hqueue : draining.server.queue = [])
    (hwalks : draining.server.nativeWalks = []) : draining.server.pendingPrompts = [] := by
  have hnext := nextScheduledTick_eq_none.2 ⟨hqueue, hwalks⟩
  by_contra hprompts
  have hcount : draining.server.scheduledTaskCount ≠ 0 := by
    have := List.length_pos_iff.2 hprompts
    rw [ServerState.scheduledTaskCount]
    omega
  rw [turn, if_neg hcount, if_neg (by omega)] at h
  simp only [hnext] at h
  cases h

theorem idle_of_le {fuel' : Nat} (h : draining.idle sort tickLimit behaviour fuel = .value next)
    (hle : fuel ≤ fuel') : draining.idle sort tickLimit behaviour fuel' = .value next := by
  rw [idle] at h ⊢
  split_ifs at h ⊢ with hidle
  · obtain ⟨after, hafter, hnext⟩ := bind_eq_value.1 h
    exact bind_eq_value.2 ⟨after, advance_of_le hafter hle, hnext⟩
  · exact h

end Draining

/-! ## What holds on the way -/

/-- What a drain has accounted for when it comes to a round. -/
structure Draining.Sound (limits : SchedulerDrainLimits) (server : ServerState F)
    (draining : Draining F) : Prop where
  clock : draining.server.tick ≤ saturatingAdd server.tick limits.maxTicks
  rounds : draining.drain.rounds ≤ limits.maxRounds
  finalTick : draining.drain.finalTick = draining.server.tick
  queue : (draining.dispatched ++ draining.server.queue).Perm (server.queue ++ draining.scheduled)
  outcomes : draining.outcomes.length = draining.dispatched.length
  completed : draining.drain.completedTasks ≤ draining.outcomes.countP (·.completed)
  failed : draining.drain.failedTasks ≤ draining.outcomes.countP (·.failed)
  termination : draining.drain.termination = .stableIdle

/-- How many tasks have completed or failed and are not counted. -/
def Draining.missing (draining : Draining F) : Nat :=
  (draining.outcomes.countP (·.completed) - draining.drain.completedTasks) +
    (draining.outcomes.countP (·.failed) - draining.drain.failedTasks)

/-- A round that ends with an error counts it, and comes to it before a task completes. -/
def Counted (after : ServerProgress F) : Prop :=
  ∀ error, after.error = some error → error.fatal = false →
    error.budgetExhausted = false ∧ after.outcomes.countP (·.completed) = 0

section

variable {server : ServerState F}

theorem Draining.sound_start (hserver : server.tick ≤ maxTick) :
    (Draining.start server).Sound limits server := by
  refine ⟨?_, Nat.zero_le _, rfl, ?_, rfl, Nat.le_refl 0, Nat.le_refl 0, rfl⟩
  · show server.tick ≤ min (server.tick + limits.maxTicks) maxTick
    omega
  · show server.queue.Perm (server.queue ++ [])
    rw [List.append_nil]

/-- The clock of an advance to a tick. -/
theorem saturatingAdd_sub {tick next : Nat} (htick : tick ≤ maxTick) (hnext : next ≤ maxTick) :
    saturatingAdd tick (next - tick) = max tick next := by
  rw [saturatingAdd]
  omega

theorem queue_after (hqueue : (draining.dispatched ++ draining.server.queue).Perm
      (server.queue ++ draining.scheduled)) {ticks : Nat}
    (h : Advanced draining.server ticks after) :
    ((draining.after after).dispatched ++ (draining.after after).server.queue).Perm
      (server.queue ++ (draining.after after).scheduled) := by
  show (draining.dispatched ++ after.progress.dispatched ++
    after.progress.state.scheduledSpawns).Perm
      (server.queue ++ (draining.scheduled ++ after.progress.scheduled))
  rw [List.append_assoc, ← List.append_assoc server.queue]
  refine (h.queue.append_left draining.dispatched).trans ?_
  rw [← List.append_assoc]
  exact hqueue.append_right _

theorem Draining.Sound.round (hsort : LawfulSort sort) (h : draining.Sound limits server)
    (hround : draining.Round sort limits (saturatingAdd server.tick limits.maxTicks) behaviour
      after) (hreport : draining.report after = .next next) :
    next.Sound limits server ∧ next.drain.rounds = draining.drain.rounds + 1 ∧
      draining.missing ≤ next.missing ∧ (next.missing = draining.missing ↔ Counted after) := by
  obtain ⟨nextTick, fuel, -, hle, hafter⟩ := hround.advance
  have hadvanced := advance_advanced hsort hafter
  have hlimit : saturatingAdd server.tick limits.maxTicks ≤ maxTick := Nat.min_le_right _ _
  have hclock := h.clock
  have htick := hadvanced.tick
  rw [saturatingAdd_sub (by omega) (by omega)] at htick
  have hrounds := hround.rounds
  have hcompleted := h.completed
  have hfailed := h.failed
  have hnoted := hadvanced.completed
  have hfails := hadvanced.failed
  have hsum : (draining.after after).outcomes.countP (·.completed) =
      draining.outcomes.countP (·.completed) + after.outcomes.countP (·.completed) :=
    List.countP_append
  have hsumFailed : (draining.after after).outcomes.countP (·.failed) =
      draining.outcomes.countP (·.failed) + after.outcomes.countP (·.failed) :=
    List.countP_append
  have hsound (completed failed : Nat) (hc : completed ≤ after.outcomes.countP (·.completed))
      (hf : failed ≤ after.outcomes.countP (·.failed)) :
      ((draining.after after).count completed failed).Sound limits server := by
    refine ⟨?_, hrounds, rfl, queue_after h.queue hadvanced, ?_, ?_, ?_, h.termination⟩
    · show after.progress.state.schedulerTick ≤ _
      rw [htick]
      omega
    · show (draining.outcomes ++ after.outcomes).length =
        (draining.dispatched ++ after.progress.dispatched).length
      rw [List.length_append, List.length_append, h.outcomes, hadvanced.outcomes]
    · show draining.drain.completedTasks + completed ≤ (draining.after after).outcomes.countP _
      omega
    · show draining.drain.failedTasks + failed ≤ (draining.after after).outcomes.countP _
      omega
  have hmissing (completed failed : Nat) : ((draining.after after).count completed failed).missing =
      ((draining.after after).outcomes.countP (·.completed) -
        (draining.drain.completedTasks + completed)) +
      ((draining.after after).outcomes.countP (·.failed) -
        (draining.drain.failedTasks + failed)) := rfl
  have hbefore : draining.missing = (draining.outcomes.countP (·.completed) -
      draining.drain.completedTasks) + (draining.outcomes.countP (·.failed) -
        draining.drain.failedTasks) := rfl
  rcases Draining.report_eq_next hreport with ⟨hnone, rfl⟩ | ⟨error, hsome, hfatal, hcases⟩
  · rw [hnone] at hfails
    have hzero : after.outcomes.countP (·.failed) = 0 := hfails
    refine ⟨hsound _ _ (by omega) (by omega), rfl, ?_, ?_⟩
    · rw [hmissing, hbefore]
      omega
    · rw [hmissing, hbefore]
      refine ⟨fun _ error herror => ?_, fun _ => by omega⟩
      rw [hnone] at herror
      cases herror
  · rw [hsome] at hfails
    have hone : after.outcomes.countP (·.failed) = 1 := hfails
    have hcounted : Counted after ↔ error.budgetExhausted = false ∧
        after.outcomes.countP (·.completed) = 0 := by
      constructor
      · exact fun hall => hall error hsome hfatal
      · intro hall other hother _
        rw [hsome] at hother
        cases hother
        exact hall
    rw [hcounted]
    rcases hcases with ⟨hbudget, rfl⟩ | ⟨hbudget, rfl⟩
    · refine ⟨hsound _ _ (Nat.zero_le _) (Nat.zero_le _), rfl, ?_, ?_⟩
      · rw [hmissing, hbefore]
        omega
      · rw [hmissing, hbefore, hbudget]
        refine ⟨fun heq => by omega, fun hfalse => by cases hfalse.1⟩
    · refine ⟨hsound _ _ (Nat.zero_le _) (by omega), rfl, ?_, ?_⟩
      · rw [hmissing, hbefore]
        omega
      · rw [hmissing, hbefore, hbudget]
        refine ⟨fun heq => ⟨rfl, by omega⟩, fun hzero => by omega⟩

end

/-! ## Whole drains -/

section

variable (sort : List (ScheduledSpawn F) → List (ScheduledSpawn F)) (limits : SchedulerDrainLimits)
  (behaviour : Nat → RoundBehaviour F) (server : ServerState F)

/-- The drain comes to the head of its loop with this. -/
def Reached (draining : Draining F) : Prop :=
  Relation.ReflTransGen (Advance.Leads
    (Draining.turn sort limits (saturatingAdd server.tick limits.maxTicks) behaviour))
    (Draining.start server) draining

/-- There is a round from here, and it comes to this. -/
def Rounds (draining : Draining F) (after : ServerProgress F) : Prop :=
  Reached sort limits behaviour server draining ∧
    draining.Round sort limits (saturatingAdd server.tick limits.maxTicks) behaviour after

/-- When a drain accounts for everything: no round begins with prompts and nothing else, the walks
of each advance stop, and a round that ends with an error counts it, and comes to it before a task
completes, unless the drain comes to a fatal error. -/
structure Fair : Prop where
  prompts : ∀ draining, Reached sort limits behaviour server draining →
    draining.drain.rounds < limits.maxRounds → draining.server.queue = [] →
      draining.server.nativeWalks = [] → draining.server.pendingPrompts = []
  walks : ∀ draining, Reached sort limits behaviour server draining →
    ∀ ticks, draining.ticks limits (saturatingAdd server.tick limits.maxTicks) = some ticks →
      WalksStop (saturatingAdd draining.server.tick ticks)
        (behaviour draining.drain.rounds).walkStep draining.server.nativeWalks
  counts : (∃ draining after error, Rounds sort limits behaviour server draining after ∧
      after.error = some error ∧ error.fatal = true) ∨
    ∀ draining after, Rounds sort limits behaviour server draining after → Counted after

/-- What a drain promises of what it returns. -/
structure Accounts (result : Draining F × Option TaskError) : Prop where
  rounds : result.1.drain.rounds ≤ limits.maxRounds + 1
  clock : result.1.server.tick ≤ server.tick + limits.maxTicks
  due : result.2 = none → result.1.drain.termination ≠ .roundLimit →
    ∀ spawn ∈ result.1.server.queue, result.1.server.tick < spawn.dueTick
  queue : (result.1.dispatched ++ result.1.server.queue).Perm
    (server.queue ++ result.1.scheduled)
  outcomes : result.1.outcomes.length = result.1.dispatched.length
  counts : result.2 = none → result.1.drain.finalTick = result.1.server.tick ∧
    result.1.drain.completedTasks = result.1.outcomes.countP (·.completed) ∧
    result.1.drain.failedTasks = result.1.outcomes.countP (·.failed) ∧
    result.1.drain.pendingTasks =
      result.1.server.queue.length + result.1.server.pendingPrompts.length

end

section

variable {server : ServerState F} {result : Draining F × Option TaskError}

theorem leads_round {draining next : Draining F}
    (h : Advance.Leads (Draining.turn sort limits tickLimit behaviour) draining next) :
    ∃ after, draining.Round sort limits tickLimit behaviour after ∧
      draining.report after = .next next := by
  obtain ⟨fuel, hturn⟩ := h
  rcases Draining.turn_eq_value hturn with ⟨after, hround, hreport⟩ | ⟨_, -, hlast | ⟨-, hlast⟩⟩
  · exact ⟨after, hround, hreport.symm⟩
  · cases hlast
  · cases hlast

theorem Reached.sound (hsort : LawfulSort sort) (hserver : server.tick ≤ maxTick)
    (h : Reached sort limits behaviour server draining) : draining.Sound limits server := by
  induction h with
  | refl => exact Draining.sound_start hserver
  | tail _ hleads ih =>
    obtain ⟨after, hround, hreport⟩ := leads_round hleads
    exact (ih.round hsort hround hreport).1

/-- What is not counted stays so. -/
theorem missing_mono (hsort : LawfulSort sort) (hserver : server.tick ≤ maxTick)
    (h : Reached sort limits behaviour server draining) (hnext : Relation.ReflTransGen
      (Advance.Leads (Draining.turn sort limits (saturatingAdd server.tick limits.maxTicks)
        behaviour)) draining next) : draining.missing ≤ next.missing := by
  induction hnext with
  | refl => exact Nat.le_refl _
  | tail hreach hleads ih =>
    obtain ⟨after, hround, hreport⟩ := leads_round hleads
    have hsound := Reached.sound hsort hserver (h.trans hreach)
    exact Nat.le_trans ih (hsound.round hsort hround hreport).2.2.1

theorem missing_eq_zero (hsort : LawfulSort sort) (hserver : server.tick ≤ maxTick)
    (hcounted : ∀ draining after, Rounds sort limits behaviour server draining after →
      Counted after) (h : Reached sort limits behaviour server draining) :
    draining.missing = 0 := by
  induction h with
  | refl => rfl
  | tail hreach hleads ih =>
    obtain ⟨after, hround, hreport⟩ := leads_round hleads
    have hstep := (Reached.sound hsort hserver hreach).round hsort hround hreport
    rw [hstep.2.2.2.2 (hcounted _ _ ⟨hreach, hround⟩), ih]

/-- How the loop of a drain ends. -/
theorem stopped_cases {stopped : Draining F × Option TaskError}
    (hsound : draining.Sound limits server) (h : draining.turn sort limits tickLimit behaviour fuel = .value (.last stopped)) :
    (∃ after error, draining.Round sort limits tickLimit behaviour after ∧
      after.error = some error ∧ error.fatal = true ∧
        stopped = (draining.after after, some error)) ∨
    ∃ termination, draining.Stops limits tickLimit termination ∧
      stopped = (draining.terminate termination, none) := by
  rcases Draining.turn_eq_value h with ⟨after, hround, hreport⟩ | ⟨termination, hstops, hlast⟩
  · obtain ⟨error, herror, hfatal, heq⟩ := Draining.report_eq_last hreport.symm
    exact .inl ⟨after, error, hround, herror, hfatal, heq⟩
  · refine .inr ⟨termination, hstops, ?_⟩
    rcases hlast with hlast | ⟨rfl, hlast⟩
    · cases hlast
      rfl
    · cases hlast
      rw [Draining.terminate, ← hsound.termination]

namespace Draining

theorem ticks_of_round (h : draining.Round sort limits tickLimit behaviour after) :
    ∃ ticks fuel, draining.ticks limits tickLimit = some ticks ∧
      draining.server.advance sort fuel ticks (behaviour draining.drain.rounds) = .value after := by
  obtain ⟨nextTick, fuel, hnext, hle, hafter⟩ := h.advance
  have hrounds := h.rounds
  refine ⟨_, fuel, ?_, hafter⟩
  rw [ticks, if_neg h.pending, if_neg (by omega), hnext, Option.bind_some, if_neg (by omega)]

variable {termination : SchedulerDrainTermination}

theorem ticks_of_stops (h : draining.Stops limits tickLimit termination) :
    draining.ticks limits tickLimit =
      if termination ≠ .roundLimit ∧ draining.server.tick < tickLimit then
        some (tickLimit - draining.server.tick) else none := by
  cases h with
  | stableIdle hcount =>
    rw [ticks, if_pos hcount]
    split_ifs with hlt h h
    · rfl
    · exact absurd ⟨by decide, hlt⟩ h
    · exact absurd h.2 hlt
    · rfl
  | roundLimit hcount hrounds =>
    rw [ticks, if_neg hcount, if_pos hrounds, if_neg fun h => h.1 rfl]
  | tickLimit nextTick hcount hrounds hnext hlimit =>
    rw [ticks, if_neg hcount, if_neg (by omega), hnext, Option.bind_some, if_pos hlimit]
    split_ifs with hlt h h
    · rfl
    · exact absurd ⟨by decide, hlt⟩ h
    · exact absurd h.2 hlt
    · rfl

/-- Nothing is due before the end of the slice when the drain stops, unless at its round limit. -/
theorem Stops.due (h : draining.Stops limits tickLimit termination)
    (hne : termination ≠ .roundLimit) :
    ∀ spawn ∈ draining.server.queue, tickLimit < spawn.dueTick := by
  intro spawn hspawn
  cases h with
  | stableIdle hcount =>
    rw [ServerState.scheduledTaskCount] at hcount
    have := List.length_pos_of_mem hspawn
    omega
  | roundLimit hcount hrounds => exact absurd rfl hne
  | tickLimit nextTick hcount hrounds hnext hlimit =>
    have hle := (List.min?_eq_some_iff.1 hnext).2 spawn.dueTick
      (List.mem_append_left _ (List.mem_map_of_mem hspawn))
    omega

/-- What a drain that is not ended by an error returns. -/
structure Concluded (draining concluded : Draining F) (tickLimit : Nat) : Prop where
  queue : concluded.server.queue = draining.server.queue
  dispatched : concluded.dispatched = draining.dispatched
  scheduled : concluded.scheduled = draining.scheduled
  outcomes : concluded.outcomes = draining.outcomes
  completed : concluded.drain.completedTasks = draining.drain.completedTasks
  failed : concluded.drain.failedTasks = draining.drain.failedTasks
  rounds : concluded.drain.rounds ≤ draining.drain.rounds + 1
  finalTick : concluded.drain.finalTick = concluded.server.tick
  clock : concluded.server.tick ≤ tickLimit
  pending : concluded.drain.pendingTasks = concluded.server.scheduledTaskCount
  due : concluded.drain.termination ≠ .roundLimit →
    ∀ spawn ∈ concluded.server.queue, concluded.server.tick < spawn.dueTick

theorem termination_conclude (draining : Draining F) (hne : draining.conclude.drain.termination ≠
    .roundLimit) : draining.server.queue = [] ∨ draining.drain.termination ≠ .roundLimit := by
  by_cases hcount : draining.server.scheduledTaskCount = 0
  · left
    rw [ServerState.scheduledTaskCount] at hcount
    exact List.eq_nil_of_length_eq_zero (by omega)
  · right
    intro hround
    apply hne
    show (if draining.server.scheduledTaskCount = 0 then _ else _) = _
    rw [if_neg hcount, if_neg (by simpa using hround), hround]

theorem idle_concluded (hsort : LawfulSort sort) {concluded : Draining F}
    (hlimit : tickLimit ≤ maxTick) (hclock : draining.server.tick ≤ tickLimit)
    (hfinal : draining.drain.finalTick = draining.server.tick)
    (hstops : draining.Stops limits tickLimit termination)
    (h : (draining.terminate termination).idle sort tickLimit behaviour fuel =
      .value concluded) :
    Concluded draining concluded tickLimit := by
  rw [idle] at h
  split_ifs at h with hidle
  · obtain ⟨after, hafter, hconclude⟩ := bind_eq_value.1 h
    have hadvanced := advance_advanced hsort hafter
    have htick : saturatingAdd draining.server.tick (tickLimit - draining.server.tick) =
        tickLimit := by
      rw [saturatingAdd_sub (by omega) hlimit]
      omega
    have hdue := hstops.due hidle.1
    obtain ⟨hnone, houtcomes, hdispatched, hscheduled, hqueue, -⟩ := hadvanced.idle (by
      show ∀ spawn ∈ draining.server.queue,
        saturatingAdd draining.server.tick (tickLimit - draining.server.tick) < spawn.dueTick
      rw [htick]
      exact hdue)
    have hcompleted := hadvanced.completed
    rw [houtcomes] at hcompleted
    simp only [hnone] at hconclude
    cases hconclude
    have hclock' : after.progress.state.schedulerTick = tickLimit :=
      hadvanced.tick.trans htick
    refine ⟨hqueue, ?_, ?_, ?_, ?_, rfl, Nat.le_refl _, rfl, ?_, rfl, fun _ spawn hspawn => ?_⟩
    · show draining.dispatched ++ after.progress.dispatched = _
      rw [hdispatched, List.append_nil]
    · show draining.scheduled ++ after.progress.scheduled = _
      rw [hscheduled, List.append_nil]
    · show draining.outcomes ++ after.outcomes = _
      rw [houtcomes, List.append_nil]
    · show draining.drain.completedTasks + after.completed = _
      rw [hcompleted]
      rfl
    · exact Nat.le_of_eq hclock'
    · have hmem : spawn ∈ after.progress.state.scheduledSpawns := hspawn
      rw [hqueue] at hmem
      show after.progress.state.schedulerTick < _
      rw [hclock']
      exact hdue spawn hmem
  · cases h
    refine ⟨rfl, rfl, rfl, rfl, rfl, rfl, Nat.le_succ _, hfinal, hclock, rfl,
      fun hne spawn hspawn => ?_⟩
    have hmem : spawn ∈ draining.server.queue := hspawn
    rcases termination_conclude _ hne with hnil | htermination
    · have hempty : draining.server.queue = [] := hnil
      rw [hempty] at hmem
      cases hmem
    · have hle : ¬ draining.server.tick < tickLimit := fun hlt => hidle ⟨htermination, hlt⟩
      have := hstops.due htermination spawn hmem
      show draining.server.tick < _
      omega

theorem exists_idle_iff (hsort : LawfulSort sort) (hlimit : tickLimit ≤ maxTick)
    (hstops : draining.Stops limits tickLimit termination) :
    (∃ fuel concluded, (draining.terminate termination).idle sort tickLimit behaviour fuel =
      .value concluded) ↔ ∀ ticks, draining.ticks limits tickLimit = some ticks →
        WalksStop (saturatingAdd draining.server.tick ticks)
          (behaviour draining.drain.rounds).walkStep draining.server.nativeWalks := by
  have hticks := ticks_of_stops hstops
  by_cases hidle : termination ≠ .roundLimit ∧ draining.server.tick < tickLimit
  · have hterminated : (draining.terminate termination).drain.termination ≠ .roundLimit ∧
        (draining.terminate termination).server.tick < tickLimit := hidle
    rw [if_pos hidle] at hticks
    rw [hticks]
    constructor
    · rintro ⟨fuel, concluded, h⟩ ticks ⟨⟩
      rw [idle, if_pos hterminated] at h
      obtain ⟨after, hafter, -⟩ := bind_eq_value.1 h
      exact exists_advance_iff.1 ⟨fuel, after, hafter⟩
    · intro hwalks
      have hadvance : ∃ fuel after, draining.server.advance sort fuel
          (tickLimit - draining.server.tick) (behaviour draining.drain.rounds) = .value after :=
        exists_advance_iff.2 (hwalks _ rfl)
      obtain ⟨fuel, after, hafter⟩ := hadvance
      have htick : saturatingAdd draining.server.tick (tickLimit - draining.server.tick) =
          tickLimit := by
        rw [saturatingAdd_sub (by omega) hlimit]
        omega
      obtain ⟨hnone, -⟩ := (advance_advanced hsort hafter).idle (by
        rw [htick]
        exact hstops.due hidle.1)
      refine ⟨fuel, (((draining.terminate termination).after after).count after.completed
        0).conclude, ?_⟩
      rw [idle, if_pos hterminated]
      refine bind_eq_value.2 ⟨after, hafter, ?_⟩
      simp only [hnone]
  · rw [if_neg hidle] at hticks
    rw [hticks]
    constructor
    · rintro - ticks ⟨⟩
    · exact fun _ => ⟨0, _, if_neg hidle⟩

end Draining

/-- A drain that stops accounts for everything unless something was not counted. -/
theorem accounts_concluded {concluded : Draining F} (hsound : draining.Sound limits server)
    (h : Draining.Concluded draining concluded (saturatingAdd server.tick limits.maxTicks)) :
    Accounts limits server (concluded, none) ↔ draining.missing = 0 := by
  have hcompleted := hsound.completed
  have hfailed := hsound.failed
  have hmissing : draining.missing = (draining.outcomes.countP (·.completed) -
      draining.drain.completedTasks) + (draining.outcomes.countP (·.failed) -
        draining.drain.failedTasks) := rfl
  have hclock := h.clock
  have hlimit : saturatingAdd server.tick limits.maxTicks ≤ server.tick + limits.maxTicks :=
    Nat.min_le_left _ _
  have hrounds := hsound.rounds
  have hmore := h.rounds
  constructor
  · intro haccounts
    obtain ⟨-, hcounted, hfails, -⟩ := haccounts.counts rfl
    have hcounted' : concluded.drain.completedTasks = concluded.outcomes.countP (·.completed) :=
      hcounted
    have hfails' : concluded.drain.failedTasks = concluded.outcomes.countP (·.failed) := hfails
    rw [h.completed, h.outcomes] at hcounted'
    rw [h.failed, h.outcomes] at hfails'
    omega
  · intro hzero
    refine ⟨?_, ?_, fun _ => h.due, ?_, ?_, fun _ => ⟨h.finalTick, ?_, ?_, h.pending⟩⟩
    · show concluded.drain.rounds ≤ _
      omega
    · show concluded.server.tick ≤ _
      omega
    · show (concluded.dispatched ++ concluded.server.queue).Perm (_ ++ concluded.scheduled)
      rw [h.dispatched, h.queue, h.scheduled]
      exact hsound.queue
    · show concluded.outcomes.length = concluded.dispatched.length
      rw [h.outcomes, h.dispatched]
      exact hsound.outcomes
    · show concluded.drain.completedTasks = concluded.outcomes.countP _
      rw [h.completed, h.outcomes]
      omega
    · show concluded.drain.failedTasks = concluded.outcomes.countP _
      rw [h.failed, h.outcomes]
      omega

/-- So does a drain that comes to a fatal error. -/
theorem accounts_fatal (hsort : LawfulSort sort) (hsound : draining.Sound limits server)
    (hround : draining.Round sort limits (saturatingAdd server.tick limits.maxTicks) behaviour
      after) (error : TaskError) : Accounts limits server (draining.after after, some error) := by
  obtain ⟨nextTick, fuel, -, hle, hafter⟩ := hround.advance
  have hadvanced := advance_advanced hsort hafter
  have hlimit : saturatingAdd server.tick limits.maxTicks ≤ server.tick + limits.maxTicks :=
    Nat.min_le_left _ _
  have hmax : saturatingAdd server.tick limits.maxTicks ≤ maxTick := Nat.min_le_right _ _
  have hclock := hsound.clock
  have htick := hadvanced.tick
  rw [saturatingAdd_sub (by omega) (by omega)] at htick
  have hrounds := hround.rounds
  refine ⟨?_, ?_, fun h => absurd h (by simp), queue_after hsound.queue hadvanced, ?_,
    fun h => absurd h (by simp)⟩
  · show draining.drain.rounds + 1 ≤ _
    omega
  · show after.progress.state.schedulerTick ≤ _
    omega
  · show (draining.outcomes ++ after.outcomes).length =
      (draining.dispatched ++ after.progress.dispatched).length
    rw [List.length_append, List.length_append, hsound.outcomes, hadvanced.outcomes]

/-- What a drain that comes to something has come to in its loop. -/
theorem drain_eq_value (h : drainPersistentScheduler sort limits behaviour fuel server =
    .value result) : ∃ stopped : Draining F × Option TaskError,
      Advance.run (Draining.turn sort limits (saturatingAdd server.tick limits.maxTicks) behaviour
        fuel) (limits.maxRounds + 2) (Draining.start server) = .value stopped ∧
      ((∃ error, stopped.2 = some error ∧ result = (stopped.1, some error)) ∨
        stopped.2 = none ∧ ∃ concluded, stopped.1.idle sort
          (saturatingAdd server.tick limits.maxTicks) behaviour fuel = .value concluded ∧
          result = (concluded, none)) := by
  obtain ⟨stopped, hrun, hrest⟩ := bind_eq_value.1 h
  refine ⟨stopped, hrun, ?_⟩
  cases herror : stopped.2 with
  | some error =>
    simp only [herror] at hrest
    cases hrest
    exact .inl ⟨error, rfl, rfl⟩
  | none =>
    simp only [herror] at hrest
    obtain ⟨concluded, hidle, rfl⟩ := map_eq_value.1 hrest
    refine .inr ⟨rfl, concluded, ?_, rfl⟩
    cases hvalue : stopped.1.idle sort (saturatingAdd server.tick limits.maxTicks) behaviour fuel with
    | value other =>
      rw [hvalue] at hidle
      cases hidle
      rfl
    | error e =>
      rw [hvalue] at hidle
      cases hidle
    | panic =>
      rw [hvalue] at hidle
      cases hidle

theorem drain_of_run {stopped : Draining F × Option TaskError} (hrun : Advance.run
      (Draining.turn sort limits (saturatingAdd server.tick limits.maxTicks) behaviour fuel)
      (limits.maxRounds + 2) (Draining.start server) = .value stopped)
    (hrest : (∃ error, stopped.2 = some error ∧ result = (stopped.1, some error)) ∨
        stopped.2 = none ∧ ∃ concluded, stopped.1.idle sort
          (saturatingAdd server.tick limits.maxTicks) behaviour fuel = .value concluded ∧
          result = (concluded, none)) :
    drainPersistentScheduler sort limits behaviour fuel server = .value result := by
  refine bind_eq_value.2 ⟨stopped, hrun, ?_⟩
  rcases hrest with ⟨error, herror, rfl⟩ | ⟨herror, concluded, hidle, rfl⟩
  · simp only [herror]
  · simp only [herror, hidle]
    rfl

/-- A drain that returns with its account has met the condition. -/
theorem fair_of_accounts (hsort : LawfulSort sort) (hserver : server.tick ≤ maxTick)
    (h : drainPersistentScheduler sort limits behaviour fuel server = .value result)
    (haccounts : Accounts limits server result) : Fair sort limits behaviour server := by
  obtain ⟨stopped, hrun, hrest⟩ := drain_eq_value h
  have hmax : saturatingAdd server.tick limits.maxTicks ≤ maxTick := Nat.min_le_right _ _
  have hturn (draining : Draining F) (hreach : Reached sort limits behaviour server draining) :
      ∃ outcome, draining.turn sort limits (saturatingAdd server.tick limits.maxTicks) behaviour
        fuel = .value outcome := by
    obtain ⟨k, hk⟩ := Draining.steady_turn.run_of_leads hreach hrun
    exact Advance.turn_of_run hk
  refine ⟨fun draining hreach hrounds hqueue hwalks => ?_, fun draining hreach ticks hticks => ?_, ?_⟩
  · obtain ⟨outcome, houtcome⟩ := hturn draining hreach
    exact Draining.prompts_of_turn houtcome hrounds hqueue hwalks
  · obtain ⟨outcome, houtcome⟩ := hturn draining hreach
    have hsound := hreach.sound hsort hserver
    rcases Draining.turn_eq_value houtcome with ⟨after, hround, -⟩ | ⟨_, hstops, hlast⟩
    · obtain ⟨other, fuel', hother, hafter⟩ := Draining.ticks_of_round hround
      rw [hticks] at hother
      cases hother
      exact exists_advance_iff.1 ⟨fuel', after, hafter⟩
    · -- the loop stops here, so that the rest of the slice is what the drain does next
      have hstopped : outcome = .last stopped := by
        obtain ⟨k, hk⟩ := Draining.steady_turn.run_of_leads hreach hrun
        cases k with
        | zero => cases hk
        | succ k =>
          rw [Advance.run] at hk
          rcases hlast with rfl | ⟨-, rfl⟩
          · simp only [houtcome] at hk
            cases hk
            rfl
          · simp only [houtcome] at hk
            cases hk
            rfl
      rw [hstopped] at houtcome
      rcases stopped_cases hsound houtcome with ⟨after, _, hround, -⟩ | ⟨termination, hstops, rfl⟩
      · obtain ⟨other, fuel', hother, hafter⟩ := Draining.ticks_of_round hround
        rw [hticks] at hother
        cases hother
        exact exists_advance_iff.1 ⟨fuel', after, hafter⟩
      · rcases hrest with ⟨_, herror, -⟩ | ⟨-, concluded, hidle, -⟩
        · cases herror
        · exact (Draining.exists_idle_iff hsort hmax hstops).1 ⟨fuel, concluded, hidle⟩
            ticks hticks
  · obtain ⟨last, hlast, hstopped⟩ := Advance.last_of_run hrun
    have hsound := Reached.sound hsort hserver hlast
    rcases stopped_cases hsound hstopped with
      ⟨after, error, hround, herror, hfatal, -⟩ | ⟨termination, hstops, rfl⟩
    · exact .inl ⟨last, after, error, ⟨hlast, hround⟩, herror, hfatal⟩
    · right
      rcases hrest with ⟨_, herror, -⟩ | ⟨-, concluded, hidle, rfl⟩
      · cases herror
      have hconcluded := Draining.idle_concluded hsort hmax hsound.clock hsound.finalTick hstops hidle
      have hzero := (accounts_concluded hsound hconcluded).1 haccounts
      rintro draining after ⟨hreach, hround⟩ error herror hfatal
      have hreport : ∃ next, draining.report after = .next next :=
        Draining.report_of_error herror hfatal
      obtain ⟨next, hnext⟩ := hreport
      have hstep := (hreach.sound hsort hserver).round hsort hround hnext
      obtain ⟨fuel', hfuel⟩ := Draining.turn_of_round hround
      rw [hnext] at hfuel
      have hreach' : Reached sort limits behaviour server next := hreach.tail ⟨fuel', hfuel⟩
      obtain ⟨k, hk⟩ := Draining.steady_turn.run_of_leads hreach' hrun
      obtain ⟨last', hlast', hstopped'⟩ := Advance.last_of_run hk
      have hmono := missing_mono hsort hserver hreach' hlast'
      have hzero' : last'.missing = 0 := by
        have hsound' := Reached.sound hsort hserver (hreach'.trans hlast')
        rcases stopped_cases hsound' hstopped' with
          ⟨_, _, -, -, -, heq⟩ | ⟨termination', hstops', heq⟩
        · cases (Prod.mk.inj heq).2
        · rw [Prod.mk.injEq] at heq
          rw [heq.1] at hidle
          have hconcluded' := Draining.idle_concluded hsort hmax hsound'.clock hsound'.finalTick
            hstops' hidle
          exact (accounts_concluded hsound' hconcluded').1 haccounts
      exact hstep.2.2.2.1 (by omega) error herror hfatal

/-- A drain that meets the condition returns with its account. -/
theorem accounts_of_fair (hsort : LawfulSort sort) (hserver : server.tick ≤ maxTick)
    (h : Fair sort limits behaviour server) : ∃ fuel result,
      drainPersistentScheduler sort limits behaviour fuel server = .value result ∧
        Accounts limits server result := by
  have hmax : saturatingAdd server.tick limits.maxTicks ≤ maxTick := Nat.min_le_right _ _
  obtain ⟨fuel, stopped, hrun⟩ := Draining.steady_turn.comes
    (μ := fun draining : Draining F => limits.maxRounds - draining.drain.rounds)
    (fun draining hreach => Draining.exists_turn (h.prompts draining hreach)
      (h.walks draining hreach))
    (fun draining next hreach hleads => by
      obtain ⟨after, hround, hreport⟩ := leads_round hleads
      have hstep := (Reached.sound hsort hserver hreach).round hsort hround hreport
      have := hround.rounds
      omega)
  have hrun := Advance.run_of_le hrun (show _ ≤ limits.maxRounds + 2 by omega)
  obtain ⟨last, hlast, hstopped⟩ := Advance.last_of_run hrun
  have hsound := Reached.sound hsort hserver hlast
  rcases stopped_cases hsound hstopped with
    ⟨after, error, hround, herror, hfatal, rfl⟩ | ⟨termination, hstops, rfl⟩
  · exact ⟨fuel, _, drain_of_run hrun (.inl ⟨error, rfl, rfl⟩),
      accounts_fatal hsort hsound hround error⟩
  · obtain ⟨fuel', concluded, hidle⟩ := (Draining.exists_idle_iff hsort hmax hstops).2
      (h.walks last hlast)
    have hconcluded := Draining.idle_concluded hsort hmax hsound.clock hsound.finalTick hstops hidle
    refine ⟨max fuel fuel', (concluded, none), drain_of_run
      (Draining.steady_turn.run (Nat.le_max_left _ _) hrun)
      (.inr ⟨rfl, concluded, Draining.idle_of_le hidle (Nat.le_max_right _ _), rfl⟩),
      (accounts_concluded hsound hconcluded).2 ?_⟩
    rcases h.counts with ⟨draining, after, error, ⟨hreach, hround⟩, herror, hfatal⟩ | hcounted
    · -- the fatal round would have ended the loop
      obtain ⟨k, hk⟩ := Draining.steady_turn.run_of_leads hreach hrun
      obtain ⟨outcome, houtcome⟩ := Advance.turn_of_run hk
      obtain ⟨n, hn⟩ := Draining.turn_of_round hround
      have hreport : draining.report after = .last (draining.after after, some error) := by
        rw [TaskError.fatal, Bool.and_eq_true, Bool.not_eq_true'] at hfatal
        rw [Draining.report, herror]
        simp only [hfatal.1, hfatal.2, if_true, Bool.false_eq_true, if_false]
      rw [hreport] at hn
      rw [Draining.steady_turn.agree houtcome hn] at houtcome
      cases k with
      | zero => cases hk
      | succ k =>
        rw [Advance.run_of_last houtcome, Fallible.value.injEq, Prod.mk.injEq] at hk
        cases hk.2
    · exact missing_eq_zero hsort hserver hcounted hlast

end

/-- A drain returns within its rounds and its ticks, runs what is due, keeps all other tasks queued
as they are, and counts what became of them, exactly if it meets the condition. -/
theorem drain_accounts (sort : List (ScheduledSpawn F) → List (ScheduledSpawn F))
    (hsort : LawfulSort sort) (limits : SchedulerDrainLimits)
    (behaviour : Nat → RoundBehaviour F) (server : ServerState F)
    (hserver : server.tick ≤ maxTick) :
    (∃ fuel result, drainPersistentScheduler sort limits behaviour fuel server = .value result ∧
      Accounts limits server result) ↔ Fair sort limits behaviour server :=
  ⟨fun ⟨_, _, h, haccounts⟩ => fair_of_accounts hsort hserver h haccounts,
    accounts_of_fair hsort hserver⟩

/-! ## Prompts only -/

/-- Nothing is queued, and one task awaits an answer. -/
def promptedServer : ServerState String := ⟨⟨0, 1, [], []⟩, [], [1]⟩

def oneRound : SchedulerDrainLimits := ⟨1, 1⟩

def noTurns : RoundBehaviour String := ⟨fun _ => none, fun _ _ => false⟩

theorem drain_accounts_prompted :
    (∃ fuel result, drainPersistentScheduler sortByKey oneRound (fun _ => noTurns) fuel
        promptedServer = .value result ∧ Accounts oneRound promptedServer result) ↔
      Fair sortByKey oneRound (fun _ => noTurns) promptedServer :=
  drain_accounts sortByKey sortByKey_lawful oneRound (fun _ => noTurns) promptedServer
    (by decide)

/-- A scheduler with a task that awaits an answer has no earliest tick. -/
theorem prompted_not_drained : ¬ ∃ fuel result, drainPersistentScheduler sortByKey oneRound
    (fun _ => noTurns) fuel promptedServer = .value result ∧
      Accounts oneRound promptedServer result := by
  rintro ⟨fuel, result, hdrain, haccounts⟩
  have hfair := fair_of_accounts sortByKey_lawful (by decide) hdrain haccounts
  have hprompts := hfair.prompts (Draining.start promptedServer) .refl (by decide) rfl rfl
  cases hprompts

end Dream64.Lifecycle
