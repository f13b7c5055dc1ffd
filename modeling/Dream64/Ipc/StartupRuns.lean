import Dream64.Ipc.UiDelivery

/-!
# The startup gate over runs

In a run that hands out fewer than `2 ^ 61` generations the word of the gate is
the generation of the endpoint with a phase (`Armed`), generations only grow,
and within one generation the phase only grows (`Advances`). A call with the
token of another generation does nothing at all. A phase other than the first
was committed with the token of the current generation (`Committed`), so that
pointers and commands are refused until the interactive phase is.
-/

namespace Dream64.Ipc

variable {World : Type}

namespace Command

def isPointerOrCommand : Command → Bool
  | .screenPointer .. => true
  | .mapPointer .. => true
  | .clientCommand .. => true
  | _ => false

/-- The commands that run world code or change the state of the world. -/
def changesWorld : Command → Bool
  | .move .. => true
  | .screenPointer .. => true
  | .mapPointer .. => true
  | .browserTopic .. => true
  | .clientCommand .. => true
  | .promptResponse .. => true
  | _ => false

end Command

namespace System

variable {s : System World} {host : Host World}

/-- The published word. -/
def word (s : System World) : BitVec 64 := (s.ipc.startupGate.map StartupGate.state).getD 0

def publishedGeneration (s : System World) : BitVec 64 := StartupGate.generationOf s.word

def publishedPhase (s : System World) : BitVec 64 := StartupGate.readinessOf s.word

/-- The token of the caller, for the calls that have one. -/
def token : Action World → Option (BitVec 64)
  | .commitBootPhase generation _ _ => some generation
  | .acceptStartupClients generation => some generation
  | .showStartupLobby generation => some generation
  | _ => none

/-- The generations that an action takes from the counter of the process. -/
def takenGenerations : Action World → Nat
  | .rearmStartup _ => 1
  | .bindElsewhere => 1
  | _ => 0

def generations (history : List (Action World)) : Nat := (history.map takenGenerations).sum

theorem generations_append (before after : List (Action World)) :
    generations (before ++ after) = generations before + generations after := by
  rw [generations, List.map_append, List.sum_append]
  rfl

/-- What a call of the gate commits, if the gate accepts it. -/
def commits (s : System World) : Action World → Option (BitVec 64 × BootPhase)
  | .commitBootPhase generation phase description =>
    (s.ipc.commitBootPhase generation phase description).toOption.map fun _ => (generation, phase)
  | .acceptStartupClients generation =>
    (s.ipc.acceptStartupClients generation).toOption.map fun _ => (generation, .interactive)
  | .showStartupLobby generation =>
    (s.ipc.showStartupLobby generation).toOption.map fun _ =>
      (generation, .runtimeStartedReadOnly)
  | _ => none

/-- The phase was committed in the run with the token of the generation it ends with. -/
def Committed (host : Host World) (s : System World) (history : List (Action World))
    (phase : BootPhase) : Prop :=
  ∃ before action after, history = before ++ action :: after ∧
    (s.run host before).commits action = some ((s.run host history).publishedGeneration, phase)

/-! ## The gate of a reachable system -/

/-- The gate has the generation of the endpoint, and there are few generations. -/
structure Armed (s : System World) (phase : BootPhase) (limit : Nat) : Prop where
  gate : s.ipc.startupGate.map StartupGate.state =
    some (StartupGate.packed s.ipc.startupGeneration phase)
  older : s.ipc.startupGeneration.toNat < s.nextStartupGeneration.toNat
  few : s.nextStartupGeneration.toNat ≤ limit

variable {phase : BootPhase} {limit : Nat}

section

variable (h : s.Armed phase limit)

include h

theorem Armed.small (hlimit : limit < 2 ^ 61) : s.ipc.startupGeneration.toNat < 2 ^ 61 := by
  have := h.older
  have := h.few
  omega

theorem Armed.word_eq : s.word = StartupGate.packed s.ipc.startupGeneration phase := by
  rw [word, h.gate, Option.getD_some]

theorem Armed.publishedGeneration_eq (hlimit : limit < 2 ^ 61) :
    s.publishedGeneration = s.ipc.startupGeneration := by
  rw [publishedGeneration, h.word_eq, StartupGate.generationOf_packed (h.small hlimit)]

theorem Armed.publishedPhase_eq (hlimit : limit < 2 ^ 61) :
    s.publishedPhase.toNat = phase.toNat := by
  rw [publishedPhase, h.word_eq, StartupGate.readinessOf_packed (h.small hlimit)]

theorem Armed.gate_cases : ∃ gate, s.ipc.startupGate = some gate ∧
      gate.state = StartupGate.packed s.ipc.startupGeneration phase := by
  obtain ⟨gate, hgate, hstate⟩ := Option.map_eq_some_iff.1 h.gate
  exact ⟨gate, hgate, hstate⟩

theorem Armed.startupInteractive (hlimit : limit < 2 ^ 61) :
    s.ipc.startupInteractive = decide (phase = .interactive) := by
  obtain ⟨gate, hgate, hstate⟩ := h.gate_cases
  rw [LoopbackIpc.startupInteractive, hgate]
  show gate.atLeast .interactive = _
  rw [StartupGate.atLeast_eq hstate (h.small hlimit), decide_eq_decide]
  constructor
  · intro hle
    exact BootPhase.toNat_inj (Nat.le_antisymm phase.toNat_le_interactive hle)
  · intro hphase
    rw [hphase]

/-- A call of the gate with a token. -/
theorem Armed.advanceGate (hlimit : limit < 2 ^ 61) (generation : BitVec 64) (target : BootPhase) :
    (∃ error, s.ipc.advanceGate generation target = .error error) ∨
      generation = s.ipc.startupGeneration ∧ phase.toNat ≤ target.toNat ∧
        ∃ gate, gate.state = StartupGate.packed s.ipc.startupGeneration target ∧
          s.ipc.advanceGate generation target = .ok { s.ipc with startupGate := some gate } := by
  obtain ⟨gate, hgate, hstate⟩ := h.gate_cases
  rw [LoopbackIpc.advanceGate, hgate]
  dsimp only
  rw [StartupGate.advance_eq hstate (h.small hlimit)]
  by_cases htoken : generation = s.ipc.startupGeneration
  · by_cases hphase : target.toNat < phase.toNat
    · rw [if_neg (by simpa using htoken), if_pos hphase]
      exact .inl ⟨_, rfl⟩
    · rw [if_neg (by simpa using htoken), if_neg hphase, htoken]
      exact .inr ⟨rfl, by omega, _, rfl, rfl⟩
  · rw [if_pos (by simpa using htoken)]
    exact .inl ⟨_, rfl⟩

end

variable {action : Action World} {generation : BitVec 64}

/-- A call with the token of another generation changes nothing. -/
theorem Armed.step_of_stale (h : s.Armed phase limit) (hlimit : limit < 2 ^ 61)
    (htoken : token action = some generation) (hstale : generation ≠ s.ipc.startupGeneration) :
    s.step host action = s := by
  have hadvance : ∀ target, ∃ error, s.ipc.advanceGate generation target = .error error := by
    intro target
    rcases h.advanceGate hlimit generation target with herror | ⟨hsame, -⟩
    · exact herror
    · exact absurd hsame hstale
  cases action with
  | commitBootPhase token phase description =>
    cases htoken
    obtain ⟨error, herror⟩ := hadvance phase
    rw [step, LoopbackIpc.commitBootPhase, herror]
    rfl
  | acceptStartupClients token =>
    cases htoken
    obtain ⟨error, herror⟩ := hadvance .interactive
    rw [step, LoopbackIpc.acceptStartupClients, herror]
    rfl
  | showStartupLobby token =>
    cases htoken
    obtain ⟨error, herror⟩ := hadvance .runtimeStartedReadOnly
    rw [step, LoopbackIpc.showStartupLobby, herror]
    rfl
  | _ => cases htoken

/-- What a step does to the gate. -/
inductive GateStep (s s' : System World) (phase : BootPhase) (action : Action World) :
    BootPhase → Prop where
  | same (generation : s'.ipc.startupGeneration = s.ipc.startupGeneration) :
      GateStep s s' phase action phase
  | committed (target : BootPhase)
      (generation : s'.ipc.startupGeneration = s.ipc.startupGeneration)
      (advances : phase.toNat ≤ target.toNat)
      (commits : s.commits action = some (s.ipc.startupGeneration, target)) :
      GateStep s s' phase action target
  | rearmed (generation : s.ipc.startupGeneration.toNat < s'.ipc.startupGeneration.toNat) :
      GateStep s s' phase action .artifactValidation

variable {s' : System World}

/-- The gate, the generation and the counter are the same. -/
theorem Armed.same (h : s.Armed phase limit) (hgate : s'.ipc.startupGate = s.ipc.startupGate)
    (hgeneration : s'.ipc.startupGeneration = s.ipc.startupGeneration)
    (hnext : s'.nextStartupGeneration = s.nextStartupGeneration) (action : Action World) :
    ∃ phase', s'.Armed phase' (limit + takenGenerations action) ∧
      GateStep s s' phase action phase' := by
  refine ⟨phase, ⟨?_, ?_, ?_⟩, .same hgeneration⟩
  · rw [hgate, hgeneration]
    exact h.gate
  · rw [hgeneration, hnext]
    exact h.older
  · rw [hnext]
    exact Nat.le_add_right_of_le h.few

theorem toNat_succ {n : BitVec 64} (hle : n.toNat ≤ limit) (hlimit : limit < 2 ^ 61) :
    (n + 1).toNat = n.toNat + 1 := by
  rw [BitVec.toNat_add]
  show (n.toNat + 1) % 2 ^ 64 = _
  omega

/-- A call of the gate that commits `target`, with or without a new description. -/
theorem Armed.advance {target : BootPhase} (h : s.Armed phase limit) (hlimit : limit < 2 ^ 61)
    {result : Except String LoopbackIpc} (describe : LoopbackIpc → LoopbackIpc)
    (hdescribe : ∀ ipc, (describe ipc).startupGate.map StartupGate.state =
      ipc.startupGate.map StartupGate.state ∧
      (describe ipc).startupGeneration = ipc.startupGeneration)
    (hresult : result = (s.ipc.advanceGate generation target).map describe)
    (hcommits : s.commits action = result.toOption.map fun _ => (generation, target)) :
    ∃ phase', (s.committed result).Armed phase' (limit + takenGenerations action) ∧
      GateStep s (s.committed result) phase action phase' := by
  rcases h.advanceGate hlimit generation target with ⟨error, herror⟩ | ⟨hsame, hle, gate, hstate, hok⟩
  · rw [hresult, herror]
    exact h.same rfl rfl rfl action
  · rw [hresult, hok] at hcommits ⊢
    obtain ⟨hgate, hgeneration⟩ := hdescribe { s.ipc with startupGate := some gate }
    refine ⟨target, ⟨?_, ?_, Nat.le_add_right_of_le h.few⟩, .committed target hgeneration hle ?_⟩
    · show (describe _).startupGate.map StartupGate.state = _
      rw [hgate]
      show some gate.state = some (StartupGate.packed (describe _).startupGeneration target)
      rw [hgeneration, hstate]
    · show (describe _).startupGeneration.toNat < _
      rw [hgeneration]
      exact h.older
    · rw [hcommits, ← hsame]
      rfl

theorem Armed.step (h : s.Armed phase limit) (hlimit : limit < 2 ^ 61) (host : Host World)
    (action : Action World) :
    ∃ phase', (s.step host action).Armed phase' (limit + takenGenerations action) ∧
      GateStep s (s.step host action) phase action phase' := by
  cases action with
  | commitBootPhase generation target description =>
    refine h.advance hlimit (fun ipc => ipc.setStartupDescription description) (fun ipc => ?_) ?_ rfl
    · refine ⟨?_, rfl⟩
      show (ipc.startupGate.map fun gate => { gate with phase := description }).map _ = _
      rw [Option.map_map]
      rfl
    · rw [LoopbackIpc.commitBootPhase]
      cases s.ipc.advanceGate generation target with
      | ok _ | error _ => rfl
  | acceptStartupClients generation =>
    refine h.advance hlimit id (fun ipc => ⟨rfl, rfl⟩) ?_ rfl
    rw [LoopbackIpc.acceptStartupClients]
    cases s.ipc.advanceGate generation .interactive with
    | ok _ | error _ => rfl
  | showStartupLobby generation =>
    refine h.advance hlimit id (fun ipc => ⟨rfl, rfl⟩) ?_ rfl
    rw [LoopbackIpc.showStartupLobby]
    cases s.ipc.advanceGate generation .runtimeStartedReadOnly with
    | ok _ | error _ => rfl
  | rearmStartup description =>
    obtain ⟨gate, hgate, hstate⟩ := h.gate_cases
    have hnext := toNat_succ h.few hlimit
    have hsome : s.ipc.startupGate.isNone = false := by rw [hgate]; rfl
    rw [System.step, if_neg (by rw [hsome]; decide), LoopbackIpc.rearmStartup, hgate]
    dsimp only
    rw [StartupGate.rearm_eq hstate (h.small hlimit), if_neg (fun hne => hne rfl)]
    refine ⟨.artifactValidation, ⟨rfl, ?_, ?_⟩, .rearmed h.older⟩
    · show s.nextStartupGeneration.toNat < (s.nextStartupGeneration + 1).toNat
      omega
    · show (s.nextStartupGeneration + 1).toNat ≤ limit + 1
      have := h.few
      omega
  | bindElsewhere =>
    have hnext := toNat_succ h.few hlimit
    refine ⟨phase, ⟨h.gate, ?_, ?_⟩, .same rfl⟩
    · show s.ipc.startupGeneration.toNat < (s.nextStartupGeneration + 1).toNat
      have := h.older
      omega
    · show (s.nextStartupGeneration + 1).toNat ≤ limit + 1
      have := h.few
      omega
  | serve command =>
    have hserve : (s.serve command).ipc.startupGate = s.ipc.startupGate ∧
        (s.serve command).ipc.startupGeneration = s.ipc.startupGeneration ∧
        (s.serve command).nextStartupGeneration = s.nextStartupGeneration := by
      cases command with
      | attach =>
        rw [System.serve]
        split
        · exact ⟨rfl, rfl, rfl⟩
        · exact ⟨rfl, rfl, rfl⟩
      | _ => exact ⟨rfl, rfl, rfl⟩
    exact h.same hserve.1 hserve.2.1 hserve.2.2 _
  | handle boundary =>
    cases hnext : s.next host boundary with
    | none =>
      rw [System.step, hnext]
      exact h.same rfl rfl rfl _
    | some handled =>
      obtain ⟨-, hgate, hgeneration⟩ := next_kept hnext
      rw [System.step, hnext]
      refine h.same ?_ ?_ ?_ _
      · exact hgate
      · exact hgeneration
      · rfl
  | enableSessionInteraction | advanceWorld _ =>
    refine h.same ?_ ?_ ?_ _
    all_goals rfl

/-! ## Runs -/

theorem Committed.concat {history : List (Action World)} {phase : BootPhase}
    (h : s.Committed host history phase) {action : Action World}
    (hgeneration : (s.run host (history ++ [action])).publishedGeneration =
      (s.run host history).publishedGeneration) : s.Committed host (history ++ [action]) phase := by
  obtain ⟨before, committing, after, rfl, hcommits⟩ := h
  exact ⟨before, committing, after ++ [action], by simp, by rw [hgeneration, hcommits]⟩

/-- What a run of few generations says about the gate that it ends with. -/
structure Reached (host : Host World) (s : System World) (history : List (Action World))
    (phase : BootPhase) (limit : Nat) : Prop where
  armed : (s.run host history).Armed phase limit
  committed : phase = .artifactValidation ∨ s.Committed host history phase

/-- Generations only grow, and phases do within a generation. -/
def Advances (s s' : System World) : Prop :=
  s.publishedGeneration.toNat < s'.publishedGeneration.toNat ∨
    s.publishedGeneration = s'.publishedGeneration ∧
      s.publishedPhase.toNat ≤ s'.publishedPhase.toNat

theorem Advances.refl (s : System World) : Advances s s := .inr ⟨rfl, Nat.le_refl _⟩

theorem Advances.trans {s'' : System World} (h : Advances s s') (h' : Advances s' s'') :
    Advances s s'' := by
  rcases h with hlt | ⟨hsame, hle⟩
  · rcases h' with hlt' | ⟨hsame', -⟩
    · exact .inl (Nat.lt_trans hlt hlt')
    · exact .inl (by rwa [← hsame'])
  · rcases h' with hlt' | ⟨hsame', hle'⟩
    · exact .inl (by rwa [hsame])
    · exact .inr ⟨hsame.trans hsame', Nat.le_trans hle hle'⟩

theorem GateStep.advances {phase' : BootPhase} {limit' : Nat}
    (h : GateStep s s' phase action phase') (harmed : s.Armed phase limit)
    (harmed' : s'.Armed phase' limit') (hlimit : limit < 2 ^ 61) (hlimit' : limit' < 2 ^ 61) :
    Advances s s' := by
  rw [Advances, harmed.publishedGeneration_eq hlimit, harmed.publishedPhase_eq hlimit,
    harmed'.publishedGeneration_eq hlimit', harmed'.publishedPhase_eq hlimit']
  cases h with
  | same hgeneration => exact .inr ⟨hgeneration.symm, Nat.le_refl _⟩
  | committed _ hgeneration hle => exact .inr ⟨hgeneration.symm, hle⟩
  | rearmed hlt => exact .inl hlt

theorem Reached.step {history : List (Action World)} (h : s.Reached host history phase limit)
    (hlimit : limit + takenGenerations action < 2 ^ 61) :
    (∃ phase', s.Reached host (history ++ [action]) phase' (limit + takenGenerations action)) ∧
      Advances (s.run host history) (s.run host (history ++ [action])) := by
  obtain ⟨phase', harmed', hstep⟩ := h.armed.step (by omega) host action
  rw [← run_concat] at harmed' hstep
  refine ⟨⟨phase', harmed', ?_⟩, hstep.advances h.armed harmed' (by omega) hlimit⟩
  have hpublished := h.armed.publishedGeneration_eq (by omega)
  have hpublished' := harmed'.publishedGeneration_eq hlimit
  cases hstep with
  | same hgeneration =>
    rcases h.committed with hfirst | hcommitted
    · exact .inl hfirst
    · exact .inr (hcommitted.concat (by rw [hpublished', hgeneration, hpublished]))
  | committed _ hgeneration hle hcommits =>
    exact .inr ⟨history, action, [], rfl, by rw [hcommits, hpublished', hgeneration]⟩
  | rearmed => exact .inl rfl

theorem reached_initial (hgeneration : generation.toNat < 2 ^ 61) (phase : String) (world : World) :
    (initial generation phase world).Reached host [] .artifactValidation
      (generation.toNat + 1) := by
  have hnext := toNat_succ (Nat.le_refl generation.toNat) hgeneration
  have hstart : (initial generation phase world).ipc.startupGeneration = generation :=
    StartupGate.generationOf_packed hgeneration _
  refine ⟨⟨?_, ?_, ?_⟩, .inl rfl⟩
  · show some _ = some (StartupGate.packed
      (initial generation phase world).ipc.startupGeneration _)
    rw [hstart]
  · show (initial generation phase world).ipc.startupGeneration.toNat < (generation + 1).toNat
    rw [hstart]
    omega
  · show (generation + 1).toNat ≤ _
    omega

theorem reached (host : Host World) (generation : BitVec 64) (phase : String) (world : World)
    (history : List (Action World))
    (hfew : generation.toNat + 1 + generations history < 2 ^ 61) :
    ∃ reachedPhase, (initial generation phase world).Reached host history reachedPhase
      (generation.toNat + 1 + generations history) := by
  induction history using List.reverseRecOn with
  | nil =>
    rw [generations, List.map_nil, List.sum_nil] at hfew ⊢
    exact ⟨_, reached_initial (by omega) phase world⟩
  | append_singleton history action ih =>
    have hone : generations [action] = takenGenerations action := List.sum_singleton
    rw [generations_append, hone, ← Nat.add_assoc] at hfew ⊢
    obtain ⟨reachedPhase, h⟩ := ih (by omega)
    exact (h.step hfew).1

theorem advances_run (host : Host World) (generation : BitVec 64) (phase : String) (world : World)
    (before after : List (Action World))
    (hfew : generation.toNat + 1 + generations (before ++ after) < 2 ^ 61) :
    Advances ((initial generation phase world).run host before)
      ((initial generation phase world).run host (before ++ after)) := by
  induction after using List.reverseRecOn with
  | nil =>
    rw [List.append_nil]
    exact .refl _
  | append_singleton after action ih =>
    have hone : generations [action] = takenGenerations action := List.sum_singleton
    rw [← List.append_assoc] at hfew ⊢
    rw [generations_append, hone, ← Nat.add_assoc] at hfew
    obtain ⟨reachedPhase, h⟩ := reached host generation phase world (before ++ after) (by omega)
    exact (ih (by omega)).trans (h.step hfew).2

/-! ## Requests before the interactive phase -/

theorem gated_eq {ipc : LoopbackIpc} (h : ipc.startupInteractive = false)
    (state : ExecutionState World) (outcome : Outcome World) :
    ipc.gated state outcome = ⟨ipc, state, .error "server-starting-read-only", []⟩ := by
  rw [LoopbackIpc.gated, if_neg (by rw [h]; decide)]

/-- Pointers and commands are refused at both boundaries that know the gate. -/
theorem apply_refused (ipc : LoopbackIpc) (h : ipc.startupInteractive = false)
    {boundary : Boundary} (hboundary : boundary ≠ .lifecycle) {command : Command}
    (hcommand : command.isPointerOrCommand = true) (host : Host World)
    (state : ExecutionState World) :
    ∃ error, boundary.apply host ipc command state = ⟨ipc, state, .error error, []⟩ := by
  cases boundary with
  | lifecycle => exact absurd rfl hboundary
  | tick =>
    cases command with
    | screenPointer | mapPointer | clientCommand => exact ⟨_, rfl⟩
    | _ => cases hcommand
  | executable =>
    cases command with
    | screenPointer | mapPointer | clientCommand => exact ⟨_, gated_eq h _ _⟩
    | _ => cases hcommand

/-- What the startup gate of a run guarantees. -/
structure GateSound (host : Host World) (s : System World) (history : List (Action World)) :
    Prop where
  /-- The published phase does not decrease within a generation. -/
  monotone : ∀ before middle after, history = before ++ middle ++ after →
    (s.run host before).publishedGeneration = (s.run host (before ++ middle)).publishedGeneration →
    (s.run host before).publishedPhase.toNat ≤
      (s.run host (before ++ middle)).publishedPhase.toNat
  /-- A call with another token changes neither the phase nor the description. -/
  stale : ∀ before action after generation, history = before ++ action :: after →
    token action = some generation → generation ≠ (s.run host before).publishedGeneration →
    (s.run host (before ++ [action])).ipc.startupGate = (s.run host before).ipc.startupGate
  /-- Before the interactive phase is committed, a pointer or a command is an error. -/
  refused : ∀ before boundary after command outcome,
    history = before ++ .handle boundary :: after → boundary ≠ .lifecycle →
    (s.run host before).next host boundary = some (command, outcome) →
    command.isPointerOrCommand = true → ¬ s.Committed host before .interactive →
    outcome.state = (s.run host before).state ∧ outcome.operations = [] ∧
      (∃ error, outcome.response = .error error) ∧
      outcome.ipc = { (s.run host before).ipc with requests := outcome.ipc.requests }

end System

/-- The gate of a listener that is bound while the server starts, in every run that hands out no
more generations than the word has room for. -/
theorem startup_gate_sound (host : Host World) (generation : BitVec 64) (phase : String)
    (world : World) (history : List (Action World))
    (hfew : generation.toNat + 1 + System.generations history < 2 ^ 61) :
    System.GateSound host (System.initial generation phase world) history where
  monotone before middle after hsplit hgeneration := by
    rw [hsplit, System.generations_append] at hfew
    rcases System.advances_run host generation phase world before middle (by omega) with
      hlt | ⟨-, hle⟩
    · rw [hgeneration] at hlt
      exact absurd hlt (Nat.lt_irrefl _)
    · exact hle
  stale before action after token hsplit htoken hstale := by
    rw [hsplit, System.generations_append] at hfew
    obtain ⟨reachedPhase, h⟩ :=
      System.reached host generation phase world before (by omega)
    rw [h.armed.publishedGeneration_eq (by omega)] at hstale
    rw [System.run_concat, h.armed.step_of_stale (by omega) htoken hstale]
  refused before boundary after command outcome hsplit hboundary hnext hcommand hnot := by
    rw [hsplit, System.generations_append] at hfew
    obtain ⟨reachedPhase, h⟩ :=
      System.reached host generation phase world before (by omega)
    have hphase : reachedPhase ≠ .interactive := by
      intro hphase
      subst hphase
      rcases h.committed with hfirst | hcommitted
      · cases hfirst
      · exact hnot hcommitted
    have hinteractive := h.armed.startupInteractive (by omega)
    rw [decide_eq_false hphase] at hinteractive
    obtain ⟨rest, -, rfl⟩ := System.next_eq_some hnext
    obtain ⟨error, herror⟩ := System.apply_refused
      { (System.run host (System.initial generation phase world) before).ipc with requests := rest }
      hinteractive hboundary hcommand host
      (System.run host (System.initial generation phase world) before).state
    rw [herror]
    exact ⟨rfl, rfl, ⟨error, rfl⟩, rfl⟩

/-! ## A browser topic in the lobby -/

/-- The world counts the topics that it has run. -/
def topicWorld : Host Nat where
  createAttachedLocalClient s := ⟨s.world, [], .error "cannot attach a local client"⟩
  connectLocalGuest s :=
    ⟨s.world, [.installSession ⟨1, 0⟩], .ok ⟨⟨1, 0⟩, ⟨2, 0⟩, 1, 1, 1⟩⟩
  queueLocalMovement s _ _ := ⟨s.world, [], .ok ()⟩
  applyLocalClientCommands s := ⟨s.world, [], .ok []⟩
  queueLocalScreenPointer s _ _ _ _ _ _ := ⟨s.world, [], .ok ()⟩
  queueLocalMapPointer s _ _ _ _ _ _ _ _ := ⟨s.world, [], .ok ()⟩
  queueLocalBrowserTopic s _ _ := ⟨s.world + 1, [], .ok ()⟩
  queueLocalClientCommand s _ _ := ⟨s.world, [], .ok ()⟩
  submitLocalPromptResponse s _ _ _ := ⟨s.world, [], .error "unknown local prompt"⟩
  localClientViewCoordinates _ _ := .ok (1, 1, 1)
  localClientMapSnapshotFor _ _ z := ⟨1, 1, z, [], []⟩
  schedulerTick _ := 0
  readProjectResource _ _ := .error "project root is unavailable"
  readProjectResourceChunk _ _ _ _ := .error "project root is unavailable"

/-- A client of the read-only lobby sends the topic of its media player. -/
def lobbyTopic : List (Action Nat) :=
  [.showStartupLobby 1, .serve .attach, .handle .executable,
    .serve (.browserTopic (sessionName 1) "ready")]

/-- Without a call that commits the interactive phase it is not committed. -/
theorem not_committed {s : System Nat} {history : List (Action Nat)}
    (h : ∀ action ∈ history, ∀ (s : System Nat) generation,
      s.commits action ≠ some (generation, .interactive)) :
    ¬ s.Committed topicWorld history .interactive := by
  rintro ⟨before, action, after, rfl, hcommits⟩
  exact h action (List.mem_append_right _ List.mem_cons_self) _ _ hcommits

theorem lobby_commits (generation : BitVec 64) (s : System Nat) (committed : BitVec 64) :
    s.commits (.showStartupLobby generation) ≠ some (committed, .interactive) := by
  intro h
  obtain ⟨ipc, -, hphase⟩ := Option.map_eq_some_iff.1 h
  cases hphase

/-- After its topic the client sends a command, too early. -/
def lobbyCommand : List (Action Nat) :=
  lobbyTopic ++ [.handle .executable, .serve (.clientCommand (sessionName 1) "say")]

/-- In the run the command is answered with an error. -/
theorem startup_gate_sound_lobbyTopic :
    System.GateSound topicWorld (System.initial 1 "" 0) (lobbyCommand ++ [.handle .executable]) ∧
      ∃ outcome, ((System.initial 1 "" 0).run topicWorld lobbyCommand).next topicWorld .executable =
          some (.clientCommand (sessionName 1) "say", outcome) ∧
        ∃ error, outcome.response = .error error := by
  have hsound := startup_gate_sound topicWorld 1 "" 0 (lobbyCommand ++ [.handle .executable])
    (by decide)
  have hnot : ¬ (System.initial 1 "" 0).Committed topicWorld lobbyCommand .interactive := by
    refine not_committed fun action hmem => ?_
    simp only [lobbyCommand, lobbyTopic, List.cons_append, List.nil_append, List.mem_cons,
      List.not_mem_nil, or_false] at hmem
    rcases hmem with rfl | rfl | rfl | rfl | rfl | rfl
    · exact lobby_commits 1
    all_goals exact nofun
  refine ⟨hsound, _, rfl, ?_⟩
  exact (hsound.refused lobbyCommand .executable [] _ _ rfl nofun rfl rfl hnot).2.2.1

/-- No command changes the world before the interactive phase is committed. -/
def WorldWaits (host : Host World) (s : System World) (history : List (Action World)) : Prop :=
  ∀ before boundary after command outcome, history = before ++ .handle boundary :: after →
    (s.run host before).next host boundary = some (command, outcome) →
    command.changesWorld = true → ¬ s.Committed host before .interactive →
    outcome.state = (s.run host before).state

theorem not_committed_lobbyTopic :
    ¬ (System.initial 1 "" 0).Committed topicWorld lobbyTopic .interactive := by
  refine not_committed fun action hmem => ?_
  simp only [lobbyTopic, List.mem_cons, List.not_mem_nil, or_false] at hmem
  rcases hmem with rfl | rfl | rfl | rfl
  · exact lobby_commits 1
  all_goals exact nofun

theorem lobby_runs_topics :
    ¬ ∀ history : List (Action Nat), WorldWaits topicWorld (System.initial 1 "" 0) history := by
  intro h
  have hstate := h (lobbyTopic ++ [.handle .executable]) lobbyTopic .executable [] _ _ rfl rfl rfl
    not_committed_lobbyTopic
  have hworld := congrArg ExecutionState.world hstate
  exact absurd hworld (by decide)

end Dream64.Ipc
