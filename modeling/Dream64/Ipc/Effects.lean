import Dream64.Ipc.Loopback
import Dream64.Library.Window

/-!
# What a request does

The events of the clients, the gate and the requests that wait are touched by
few of the commands. `Boundary.effect` says this once for every command at
every boundary: a request runs the runtime, opens a session, polls or
acknowledges. None of them touches the gate (`Effect.kept`).
-/

namespace Dream64.Ipc

variable {World : Type}

/-- The commands that need the linked module. -/
def Command.runsLinkedCode : Command → Bool
  | .attach => true
  | .screenPointer .. => true
  | .mapPointer .. => true
  | .browserTopic .. => true
  | .clientCommand .. => true
  | _ => false

/-- What a reply says about the events of a session. -/
def replied (session : String) : Response → List (Window.Exchange LocalClientUiEvent)
  | .uiEvents other events => if other = session then [.polled events] else []
  | .uiAck other sequence => if other = session then [.acknowledged sequence.toNat] else []
  | _ => []

/-- The gate and the waiting requests are the same. -/
structure Kept (ipc ipc' : LoopbackIpc) : Prop where
  requests : ipc'.requests = ipc.requests
  startupGate : ipc'.startupGate = ipc.startupGate
  startupGeneration : ipc'.startupGeneration = ipc.startupGeneration

/-- The sessions and their events are the same. -/
structure SameSessions (ipc ipc' : LoopbackIpc) : Prop where
  sessions : ipc'.sessions = ipc.sessions
  nextSession : ipc'.nextSession = ipc.nextSession
  uiSequences : ipc'.uiSequences = ipc.uiSequences
  retainedUi : ipc'.retainedUi = ipc.retainedUi

theorem SameSessions.refl (ipc : LoopbackIpc) : SameSessions ipc ipc := ⟨rfl, rfl, rfl, rfl⟩

inductive Effect (ipc : LoopbackIpc) (state : ExecutionState World) :
    Command → Outcome World → Prop where
  | runtime (command : Command) (outcome : Outcome World) (kept : Kept ipc outcome.ipc)
      (same : SameSessions ipc outcome.ipc)
      (client : outcome.state.client = state.client.performAll outcome.operations)
      (quiet : ∀ session, replied session outcome.response = []) : Effect ipc state command outcome
  | opened (command : Command) (outcome : Outcome World) (owner : DatumId)
      (session : outcome.ipc = (ipc.insertSession owner).2)
      (client : outcome.state.client = state.client.performAll outcome.operations)
      (quiet : ∀ session, replied session outcome.response = []) : Effect ipc state command outcome
  | polled (session : String) (client : DatumId) (known : ipc.client? session = some client) :
      Effect ipc state (.uiEvents session) (ipc.pollUiEvents session state)
  | acknowledged (session : String) (sequence : BitVec 64) (client : DatumId)
      (known : ipc.client? session = some client) :
      Effect ipc state (.uiAck session sequence) (ipc.acknowledgeUi session sequence state)

namespace LoopbackIpc

variable {host : Host World} {ipc : LoopbackIpc} {state : ExecutionState World} {command : Command}

/-- A reply without a call into the runtime. -/
theorem effect_answer {response : Response} (hquiet : ∀ session, replied session response = []) :
    Effect ipc state command ⟨ipc, state, response, []⟩ :=
  .runtime _ _ ⟨rfl, rfl, rfl⟩ (.refl ipc) rfl hquiet

theorem effect_callFor {session reply : String} {call : DatumId → Turn World Unit} :
    Effect ipc state command (ipc.callFor state session call reply) := by
  rw [callFor]
  split
  · exact effect_answer fun _ => rfl
  · dsimp only
    split
    · exact .runtime _ _ ⟨rfl, rfl, rfl⟩ (.refl ipc) rfl fun _ => rfl
    · exact .runtime _ _ ⟨rfl, rfl, rfl⟩ (.refl ipc) rfl fun _ => rfl

theorem client_after_after {α β : Type} (first : Turn World α) (second : Turn World β) :
    ((state.after first).after second).client =
      state.client.performAll (first.operations ++ second.operations) :=
  (ClientState.performAll_append _ _ _).symm

theorem effect_attachClient {connected : Turn World LocalClientState} :
    Effect ipc state command (ipc.attachClient host state connected) := by
  rw [attachClient]
  dsimp only
  split
  · exact .runtime _ _ ⟨rfl, rfl, rfl⟩ (.refl ipc) rfl fun _ => rfl
  · split
    · exact .runtime _ _ ⟨rfl, rfl, rfl⟩ (.refl ipc) (client_after_after _ _) fun _ => rfl
    · exact .opened _ _ _ rfl (client_after_after _ _) fun _ => rfl

theorem effect_attachLifecycle : Effect ipc state command (ipc.attachLifecycle host state) := by
  rw [attachLifecycle]
  dsimp only
  split
  · exact .runtime _ _ ⟨rfl, rfl, rfl⟩ (.refl ipc) rfl fun _ => rfl
  · split
    · exact .opened _ _ _ rfl (client_after_after _ _) fun _ => rfl
    · exact .opened _ _ _ rfl (client_after_after _ _) fun _ => rfl

theorem effect_moveClient {session : String} {direction : LocalMovementDirection} :
    Effect ipc state command (ipc.moveClient host session direction state) := by
  rw [moveClient]
  split
  · exact effect_answer fun _ => rfl
  · dsimp only
    split
    · exact .runtime _ _ ⟨rfl, rfl, rfl⟩ (.refl ipc) rfl fun _ => rfl
    · refine .runtime _ _ ⟨rfl, rfl, rfl⟩ (.refl ipc) (client_after_after _ _) fun _ => ?_
      dsimp only
      split
      · rfl
      · split
        · rfl
        · rfl

theorem effect_advanceReadiness {session phaseName : String} {phase : ReadinessPhase} :
    Effect ipc state command (ipc.advanceReadiness session phase phaseName state) := by
  rw [advanceReadiness]
  split
  · exact effect_answer fun _ => rfl
  · dsimp only
    split
    · exact .runtime _ _ ⟨rfl, rfl, rfl⟩ ⟨rfl, rfl, rfl, rfl⟩ rfl fun _ => rfl
    · split
      · split
        · exact .runtime _ _ ⟨rfl, rfl, rfl⟩ ⟨rfl, rfl, rfl, rfl⟩ rfl fun _ => rfl
        · exact .runtime _ _ ⟨rfl, rfl, rfl⟩ ⟨rfl, rfl, rfl, rfl⟩ rfl fun _ => rfl
      · exact .runtime _ _ ⟨rfl, rfl, rfl⟩ ⟨rfl, rfl, rfl, rfl⟩ rfl fun _ => rfl

theorem effect_pollUiEvents {session : String} :
    Effect ipc state (.uiEvents session) (ipc.pollUiEvents session state) := by
  cases hknown : ipc.client? session with
  | some client => exact .polled session client hknown
  | none =>
    rw [pollUiEvents, hknown]
    exact effect_answer fun _ => rfl

theorem effect_acknowledgeUi {session : String} {sequence : BitVec 64} :
    Effect ipc state (.uiAck session sequence) (ipc.acknowledgeUi session sequence state) := by
  cases hknown : ipc.client? session with
  | some client => exact .acknowledged session sequence client hknown
  | none =>
    rw [acknowledgeUi, hknown]
    exact effect_answer fun _ => rfl

theorem effect_gated {outcome : Outcome World}
    (h : Effect ipc state command outcome) :
    Effect ipc state command (ipc.gated state outcome) := by
  rw [gated]
  split
  · exact h
  · exact effect_answer fun _ => rfl

theorem effect_apply (command : Command) : Effect ipc state command (ipc.apply host command state) := by
  cases command with
  | ping => exact effect_answer fun _ => rfl
  | attach => exact effect_attachClient
  | move session direction => exact effect_moveClient
  | uiEvents session => exact effect_pollUiEvents
  | uiAck session sequence => exact effect_acknowledgeUi
  | skinReady _ | resourcesReady _ | inputReady _ =>
    rw [apply]
    exact effect_advanceReadiness
  | screenPointer | mapPointer | browserTopic | clientCommand => exact effect_answer fun _ => rfl
  | promptResponse session id response => exact effect_callFor
  | screenSnapshot session =>
    rw [apply]
    split
    · exact effect_answer fun _ => rfl
    · exact effect_answer fun _ => rfl
  | mapSnapshot _ | resource _ _ | resourceChunk _ _ _ _ =>
    rw [apply]
    split
    · exact effect_answer fun _ => rfl
    · split
      · exact effect_answer fun _ => rfl
      · exact effect_answer fun _ => rfl

theorem applyExecutable_of_common {command : Command} (h : command.runsLinkedCode = false) :
    ipc.applyExecutable host command state = ipc.apply host command state := by
  cases command with
  | attach | screenPointer | mapPointer | browserTopic | clientCommand => cases h
  | _ => rfl

theorem applyLifecycle_of_common {command : Command} (h : command.runsLinkedCode = false) :
    ipc.applyLifecycle host command state = ipc.apply host command state := by
  cases command with
  | attach | screenPointer | mapPointer | browserTopic | clientCommand => cases h
  | _ => rfl

theorem effect_applyExecutable (command : Command) :
    Effect ipc state command (ipc.applyExecutable host command state) := by
  cases command with
  | attach => exact effect_attachClient
  | screenPointer | mapPointer => exact effect_gated effect_callFor
  | browserTopic => exact effect_callFor
  | clientCommand => exact effect_gated effect_callFor
  | _ =>
    rw [applyExecutable_of_common rfl]
    exact effect_apply _

theorem effect_applyLifecycle (command : Command) :
    Effect ipc state command (ipc.applyLifecycle host command state) := by
  cases command with
  | attach => exact effect_attachLifecycle
  | screenPointer | mapPointer | browserTopic | clientCommand => exact effect_callFor
  | _ =>
    rw [applyLifecycle_of_common rfl]
    exact effect_apply _

end LoopbackIpc

theorem Boundary.effect (boundary : Boundary) (host : Host World) (ipc : LoopbackIpc)
    (command : Command) (state : ExecutionState World) :
    Effect ipc state command (boundary.apply host ipc command state) := by
  cases boundary with
  | tick => exact LoopbackIpc.effect_apply command
  | executable => exact LoopbackIpc.effect_applyExecutable command
  | lifecycle => exact LoopbackIpc.effect_applyLifecycle command

theorem LoopbackIpc.pollUiEvents_known {ipc : LoopbackIpc} {session : String} {client : DatumId}
    (hknown : ipc.client? session = some client) (state : ExecutionState World) :
    ipc.pollUiEvents session state =
      let retained := (ipc.retainedUi session).getD []
      let taken := state.takeLocalClientOutboundEvents client
      let polled := if retained.isEmpty then taken else ([], state)
      let assigned := assignSequences ((ipc.uiSequences session).getD 1) polled.1
      ⟨{ ipc with
          uiSequences := Function.update ipc.uiSequences session (some assigned.2)
          retainedUi := Function.update ipc.retainedUi session (some (retained ++ assigned.1)) },
        polled.2, .uiEvents session (retained ++ assigned.1), []⟩ := by
  rw [pollUiEvents, hknown]

theorem LoopbackIpc.acknowledgeUi_known {ipc : LoopbackIpc} {session : String} {client : DatumId}
    (hknown : ipc.client? session = some client) (sequence : BitVec 64)
    (state : ExecutionState World) :
    ipc.acknowledgeUi session sequence state =
      ⟨{ ipc with
          retainedUi := Function.update ipc.retainedUi session
            (some (((ipc.retainedUi session).getD []).filter fun entry =>
              decide (sequence.toNat < entry.1))) },
        state, .uiAck session sequence, []⟩ := by
  rw [acknowledgeUi, hknown]

theorem Effect.kept {ipc : LoopbackIpc} {state : ExecutionState World} {command : Command}
    {outcome : Outcome World} (h : Effect ipc state command outcome) : Kept ipc outcome.ipc := by
  cases h with
  | runtime _ _ kept => exact kept
  | opened _ _ owner session =>
    rw [session]
    exact ⟨rfl, rfl, rfl⟩
  | polled session client known =>
    rw [LoopbackIpc.pollUiEvents_known known]
    exact ⟨rfl, rfl, rfl⟩
  | acknowledged session sequence client known =>
    rw [LoopbackIpc.acknowledgeUi_known known]
    exact ⟨rfl, rfl, rfl⟩

/-!
# Runs of the endpoint

The endpoint beside the world that it serves. The owner thread commits boot
phases, applies requests at one of the boundaries and lets world code run; the
serving thread answers a request itself or sends it to the owner thread. The
owner's functions are called one after the other, since the endpoint cannot be
shared between threads, and the serving thread only reads the gate, so a run
is a sequence of `Action`s. A boundary is a loop over the requests there are
(`boundary`); a request that arrives during the loop is handled by its next
iteration, as it is by a next boundary.
-/

structure System (World : Type) where
  ipc : LoopbackIpc
  state : ExecutionState World
  /-- The process-wide counter of startup generations. -/
  nextStartupGeneration : BitVec 64

inductive Action (World : Type) where
  | commitBootPhase (generation : BitVec 64) (phase : BootPhase) (description : String)
  | acceptStartupClients (generation : BitVec 64)
  | showStartupLobby (generation : BitVec 64)
  | rearmStartup (phase : String)
  /-- Another listener of the process takes a generation. -/
  | bindElsewhere
  /-- The serving thread has parsed a frame. -/
  | serve (command : Command)
  /-- One iteration of the loop of a boundary. -/
  | handle (boundary : Boundary)
  | enableSessionInteraction
  /-- World code runs. -/
  | advanceWorld (turn : Turn World Unit)

namespace System

def initial (generation : BitVec 64) (phase : String) (world : World) : System World where
  ipc := LoopbackIpc.bindStarting generation phase
  state := ⟨ClientState.new, world⟩
  nextStartupGeneration := generation + 1

/-- A failed call of the gate leaves the endpoint as it is. -/
def committed (s : System World) (result : Except String LoopbackIpc) : System World :=
  match result with
  | .ok ipc => { s with ipc := ipc }
  | .error _ => s

def lobbyOpen (s : System World) : Bool :=
  match s.ipc.startupGate with
  | some gate => gate.atLeast .runtimeStartedReadOnly
  | none => true

/-- The serving thread answers `ping` itself, and `attach` as long as there is no lobby. -/
def serve (s : System World) (command : Command) : System World :=
  match command with
  | .ping => s
  | .attach =>
    if s.lobbyOpen then { s with ipc := { s.ipc with requests := s.ipc.requests ++ [.attach] } } else s
  | command => { s with ipc := { s.ipc with requests := s.ipc.requests ++ [command] } }

/-- The request that the next iteration of a boundary handles, and what comes of it. -/
def next (host : Host World) (s : System World) (boundary : Boundary) :
    Option (Command × Outcome World) :=
  match s.ipc.requests with
  | [] => none
  | command :: rest =>
    some (command, boundary.apply host { s.ipc with requests := rest } command s.state)

/-- The clients of the sessions that are ready, for which the call does not fail. -/
def interactionOf (s : System World) : List ClientOperation :=
  (s.ipc.sessions.filter fun entry =>
    (s.ipc.readiness entry.1).any SessionReadiness.interactive &&
      s.state.client.hasSession entry.2).map fun entry => .setInteractive entry.2 true

def step (host : Host World) (s : System World) : Action World → System World
  | .commitBootPhase generation phase description =>
    s.committed (s.ipc.commitBootPhase generation phase description)
  | .acceptStartupClients generation => s.committed (s.ipc.acceptStartupClients generation)
  | .showStartupLobby generation => s.committed (s.ipc.showStartupLobby generation)
  | .rearmStartup phase =>
    if s.ipc.startupGate.isNone then s
    else
      { s.committed (s.ipc.rearmStartup phase s.nextStartupGeneration) with
        nextStartupGeneration := s.nextStartupGeneration + 1 }
  | .bindElsewhere => { s with nextStartupGeneration := s.nextStartupGeneration + 1 }
  | .serve command => s.serve command
  | .handle boundary =>
    match s.next host boundary with
    | none => s
    | some (_, outcome) => { s with ipc := outcome.ipc, state := outcome.state }
  | .enableSessionInteraction =>
    { s with state := { s.state with client := s.state.client.performAll s.interactionOf } }
  | .advanceWorld turn => { s with state := s.state.after turn }

def run (host : Host World) (s : System World) (history : List (Action World)) : System World :=
  history.foldl (step host) s

theorem run_concat (host : Host World) (s : System World) (history : List (Action World))
    (action : Action World) : run host s (history ++ [action]) = step host (run host s history) action := by
  rw [run, List.foldl_append]
  rfl

section

variable {host : Host World} {s : System World} {boundary : Boundary} {command : Command}
  {outcome : Outcome World} (h : s.next host boundary = some (command, outcome))

include h

theorem next_eq_some : ∃ rest, s.ipc.requests = command :: rest ∧
      outcome = boundary.apply host { s.ipc with requests := rest } command s.state := by
  rw [next] at h
  split at h
  · cases h
  · rename_i first rest hrequests
    cases h
    exact ⟨rest, hrequests, rfl⟩

theorem next_kept : s.ipc.requests = command :: outcome.ipc.requests ∧
      outcome.ipc.startupGate = s.ipc.startupGate ∧
      outcome.ipc.startupGeneration = s.ipc.startupGeneration := by
  obtain ⟨rest, hrequests, rfl⟩ := next_eq_some h
  have hkept := (boundary.effect host { s.ipc with requests := rest } command s.state).kept
  exact ⟨by rw [hkept.requests, hrequests], hkept.startupGate, hkept.startupGeneration⟩

end

end System

end Dream64.Ipc
