import Dream64.Ipc.Client

/-!
# The startup gate

One 64-bit word has the generation of the startup in its upper bits and the
boot phase in the lowest three; the description that clients see is beside it.
A caller advances the phase with the generation that it was given. While the
generation fits into the 61 bits that the word has for it, the word is the
pair of a generation and a phase again (`generationOf_state`,
`readinessOf_state`), and `advance` and `rearm` are comparisons of these.
-/

namespace Dream64.Ipc

/-- The milestones of a boot, in their order. -/
inductive BootPhase where
  | artifactValidation
  | structuralLoad
  | worldPlan
  | worldAllocation
  | lifecycle
  | runtimeStartedReadOnly
  | interactive
deriving DecidableEq, Repr

namespace BootPhase

def toNat : BootPhase → Nat
  | .artifactValidation => 0
  | .structuralLoad => 1
  | .worldPlan => 2
  | .worldAllocation => 3
  | .lifecycle => 4
  | .runtimeStartedReadOnly => 5
  | .interactive => 6

theorem toNat_lt (phase : BootPhase) : phase.toNat < 8 := by
  cases phase <;> decide

theorem toNat_inj {phase other : BootPhase} (h : phase.toNat = other.toNat) : phase = other := by
  cases phase <;> cases other <;> first | rfl | exact absurd h (by decide)

theorem toNat_le_interactive (phase : BootPhase) : phase.toNat ≤ interactive.toNat := by
  cases phase <;> decide

end BootPhase

structure StartupGate where
  state : BitVec 64
  phase : String
deriving DecidableEq, Repr

namespace StartupGate

def phaseBits : Nat := 3

def packed (generation : BitVec 64) (readiness : BootPhase) : BitVec 64 :=
  (generation <<< phaseBits) ||| BitVec.ofNat 64 readiness.toNat

def generationOf (state : BitVec 64) : BitVec 64 := state >>> phaseBits

def readinessOf (state : BitVec 64) : BitVec 64 := state &&& ((1#64 <<< phaseBits) - 1#64)

def advance (gate : StartupGate) (generation : BitVec 64) (target : BootPhase) :
    Except String StartupGate :=
  if generation ≠ generationOf gate.state then .error "stale-startup-generation"
  else if target.toNat < (readinessOf gate.state).toNat then .error "startup-readiness-regression"
  else if target.toNat = (readinessOf gate.state).toNat then .ok gate
  else .ok { gate with state := packed generation target }

def atLeast (gate : StartupGate) (readiness : BootPhase) : Bool :=
  readiness.toNat ≤ (readinessOf gate.state).toNat

def rearm (gate : StartupGate) (generation next : BitVec 64) : Except String StartupGate :=
  if generation ≠ generationOf gate.state then .error "stale-startup-generation"
  else .ok { gate with state := packed next .artifactValidation }

/-! ## The word as a pair -/

section

variable {generation : BitVec 64} (hsmall : generation.toNat < 2 ^ 61) (readiness : BootPhase)

include hsmall readiness

theorem toNat_packed :
    (packed generation readiness).toNat = generation.toNat * 8 + readiness.toNat := by
  have hphase := readiness.toNat_lt
  have hfits : generation.toNat * 2 ^ 3 < 2 ^ 64 := by omega
  have hcode : readiness.toNat % 2 ^ 64 = readiness.toNat :=
    Nat.mod_eq_of_lt (Nat.lt_trans hphase (by decide))
  rw [packed, phaseBits, BitVec.toNat_or, BitVec.toNat_shiftLeft, BitVec.toNat_ofNat, hcode,
    Nat.shiftLeft_eq, Nat.mod_eq_of_lt hfits, ← Nat.shiftLeft_eq,
    ← Nat.shiftLeft_add_eq_or_of_lt (by simpa using hphase), Nat.shiftLeft_eq]

theorem generationOf_packed : generationOf (packed generation readiness) = generation := by
  have hphase := readiness.toNat_lt
  apply BitVec.eq_of_toNat_eq
  rw [generationOf, phaseBits, BitVec.toNat_ushiftRight, toNat_packed hsmall,
    Nat.shiftRight_eq_div_pow]
  omega

theorem readinessOf_packed :
    (readinessOf (packed generation readiness)).toNat = readiness.toNat := by
  have hphase := readiness.toNat_lt
  have hmask : ((1#64 <<< phaseBits) - 1#64).toNat = 2 ^ 3 - 1 := by decide
  rw [readinessOf, BitVec.toNat_and, hmask, toNat_packed hsmall, Nat.and_two_pow_sub_one_eq_mod]
  omega

end

variable {gate : StartupGate} {generation : BitVec 64} {readiness : BootPhase}

section

variable (hstate : gate.state = packed generation readiness) (hsmall : generation.toNat < 2 ^ 61)

include hstate hsmall

theorem advance_eq (token : BitVec 64) (target : BootPhase) : gate.advance token target =
      if token ≠ generation then .error "stale-startup-generation"
      else if target.toNat < readiness.toNat then .error "startup-readiness-regression"
      else .ok { gate with state := packed generation target } := by
  rw [advance, hstate, generationOf_packed hsmall, readinessOf_packed hsmall]
  by_cases htoken : token = generation
  · subst htoken
    by_cases hsame : target.toNat = readiness.toNat
    · have hphase : target = readiness := BootPhase.toNat_inj hsame
      subst hphase
      simp [← hstate]
    · simp [hsame]
  · simp [htoken]

theorem atLeast_eq (target : BootPhase) :
    gate.atLeast target = decide (target.toNat ≤ readiness.toNat) := by
  rw [atLeast, hstate, readinessOf_packed hsmall]

theorem rearm_eq (token next : BitVec 64) : gate.rearm token next =
      if token ≠ generation then .error "stale-startup-generation"
      else .ok { gate with state := packed next .artifactValidation } := by
  rw [rearm, hstate, generationOf_packed hsmall]

end

end StartupGate

/-!
# The loopback endpoint

The endpoint that applies the commands of the clients on the scheduler thread.
A client has a session, which is the name of a client datum; the UI events of
a session are handed out in batches with sequences and retained until they are
acknowledged. The runtime behind the endpoint is a parameter: a call into it
is a `Turn`, which has the world after the call, what it did to the clients
and its result. There are three boundaries at which requests are applied. They
differ in what they do with `attach` and with the commands that run code of
the linked module; everything else goes to `apply`.
-/

inductive Command where
  | ping
  | attach
  | mapSnapshot (session : String)
  | screenSnapshot (session : String)
  | move (session : String) (direction : LocalMovementDirection)
  | resource (session path : String)
  | resourceChunk (session path : String) (offset : BitVec 64) (length : BitVec 32)
  | uiEvents (session : String)
  | uiAck (session : String) (sequence : BitVec 64)
  | skinReady (session : String)
  | resourcesReady (session : String)
  | inputReady (session : String)
  | screenPointer (session : String) (index generation : BitVec 32)
      (event : LocalScreenPointerEvent) (location params : String)
  | mapPointer (session : String) (index generation : BitVec 32) (x y z : BitVec 32)
      (control params : String)
  | browserTopic (session topic : String)
  | clientCommand (session command : String)
  | promptResponse (session : String) (id : BitVec 64) (response : LocalClientPromptResponse)
deriving DecidableEq, Repr

structure ResourceChunk where
  bytes : List UInt8
  total : Nat
  eof : Bool
deriving DecidableEq, Repr

/-- A reply before it is written as text. -/
inductive Response where
  | ok (text : String)
  | error (text : String)
  | state (kind session : String) (attached : LocalClientState) (tick : Nat)
  | snapshot (session : String) (tick : Nat) (center : BitVec 32 × BitVec 32 × BitVec 32)
      (snapshot : LocalClientMapSnapshot)
  | resource (path : String) (bytes : List UInt8)
  | resourceChunk (path : String) (offset : BitVec 64) (chunk : ResourceChunk)
  | uiEvents (session : String) (events : List (Nat × LocalClientUiEvent))
  | uiAck (session : String) (sequence : BitVec 64)

/-! ## The runtime -/

structure ExecutionState (World : Type) where
  client : ClientState
  world : World

/-- What a call into the runtime leaves. -/
structure Turn (World α : Type) where
  world : World
  operations : List ClientOperation
  result : Except String α

namespace ExecutionState

variable {World α : Type}

def after (s : ExecutionState World) (turn : Turn World α) : ExecutionState World :=
  ⟨s.client.performAll turn.operations, turn.world⟩

def setLocalClientInteractive (s : ExecutionState World) (client : DatumId) (interactive : Bool) :
    Turn World Unit :=
  if s.client.hasSession client then ⟨s.world, [.setInteractive client interactive], .ok ()⟩
  else ⟨s.world, [], .error "local client has no installed UI session"⟩

/-- The queued events of the client; those of the other clients are taken as well. -/
def takeLocalClientOutboundEvents (s : ExecutionState World) (client : DatumId) :
    List LocalClientUiEvent × ExecutionState World :=
  let (taken, rest) := s.client.takeOutboundEvents
  (taken client, { s with client := rest })

end ExecutionState

/-- The functions of the runtime that the endpoint calls, with the linked module in them. -/
structure Host (World : Type) where
  createAttachedLocalClient : ExecutionState World → Turn World LocalClientState
  connectLocalGuest : ExecutionState World → Turn World LocalClientState
  queueLocalMovement : ExecutionState World → DatumId → LocalMovementDirection → Turn World Unit
  applyLocalClientCommands : ExecutionState World → Turn World (List LocalClientState)
  queueLocalScreenPointer : ExecutionState World → DatumId → BitVec 32 → BitVec 32 →
    LocalScreenPointerEvent → String → String → Turn World Unit
  queueLocalMapPointer : ExecutionState World → DatumId → BitVec 32 → BitVec 32 → BitVec 32 →
    BitVec 32 → BitVec 32 → String → String → Turn World Unit
  queueLocalBrowserTopic : ExecutionState World → DatumId → String → Turn World Unit
  queueLocalClientCommand : ExecutionState World → DatumId → String → Turn World Unit
  submitLocalPromptResponse : ExecutionState World → DatumId → BitVec 64 →
    LocalClientPromptResponse → Turn World Unit
  localClientViewCoordinates : ExecutionState World → DatumId →
    Except String (BitVec 32 × BitVec 32 × BitVec 32)
  localClientMapSnapshotFor : ExecutionState World → Option DatumId → BitVec 32 →
    LocalClientMapSnapshot
  schedulerTick : World → Nat
  readProjectResource : World → String → Except String (List UInt8)
  readProjectResourceChunk : World → String → BitVec 64 → BitVec 32 → Except String ResourceChunk

/-! ## The endpoint -/

structure SessionReadiness where
  skin : Bool
  resources : Bool
  input : Bool
deriving DecidableEq, Repr

inductive ReadinessPhase where
  | skin
  | resources
  | input
deriving DecidableEq, Repr

namespace SessionReadiness

def default : SessionReadiness := ⟨false, false, false⟩

def interactive (readiness : SessionReadiness) : Bool :=
  readiness.skin && readiness.resources && readiness.input

def advance (readiness : SessionReadiness) : ReadinessPhase → Except String SessionReadiness
  | .skin => .ok { readiness with skin := true }
  | .resources =>
    if readiness.skin then .ok { readiness with resources := true } else .error "skin-not-ready"
  | .input =>
    if readiness.skin && readiness.resources then .ok { readiness with input := true }
    else .error "resources-not-ready"

end SessionReadiness

def u64Max : Nat := 2 ^ 64 - 1

/-- The endpoint. `requests` are the commands that the serving thread has sent. -/
structure LoopbackIpc where
  requests : List Command
  /-- Sessions and their clients, in some order. -/
  sessions : List (String × DatumId)
  nextSession : Nat
  uiSequences : String → Option Nat
  retainedUi : String → Option (List (Nat × LocalClientUiEvent))
  readiness : String → Option SessionReadiness
  startupGate : Option StartupGate
  startupGeneration : BitVec 64

structure Outcome (World : Type) where
  ipc : LoopbackIpc
  state : ExecutionState World
  response : Response
  /-- What the calls into the runtime did to the clients. -/
  operations : List ClientOperation

/-- Numbers events from a sequence on. -/
def assignSequences (sequence : Nat) :
    List LocalClientUiEvent → List (Nat × LocalClientUiEvent) × Nat
  | [] => ([], sequence)
  | event :: rest =>
    let (assigned, next) := assignSequences (min (sequence + 1) u64Max) rest
    ((sequence, event) :: assigned, next)

namespace LoopbackIpc

variable {World : Type}

def bindWithStartupGate (startupGate : Option StartupGate) : LoopbackIpc where
  requests := []
  sessions := []
  nextSession := 1
  uiSequences _ := none
  retainedUi _ := none
  readiness _ := none
  startupGate := startupGate
  startupGeneration :=
    match startupGate with
    | some gate => StartupGate.generationOf gate.state
    | none => 0

def bindStarting (generation : BitVec 64) (phase : String) : LoopbackIpc :=
  bindWithStartupGate (some ⟨StartupGate.packed generation .artifactValidation, phase⟩)

def startupInteractive (ipc : LoopbackIpc) : Bool :=
  match ipc.startupGate with
  | some gate => gate.atLeast .interactive
  | none => true

def setStartupDescription (ipc : LoopbackIpc) (phase : String) : LoopbackIpc :=
  { ipc with startupGate := ipc.startupGate.map fun gate => { gate with phase := phase } }

def advanceGate (ipc : LoopbackIpc) (generation : BitVec 64) (target : BootPhase) :
    Except String LoopbackIpc :=
  match ipc.startupGate with
  | none => .ok ipc
  | some gate =>
    match gate.advance generation target with
    | .ok gate => .ok { ipc with startupGate := some gate }
    | .error error => .error error

def acceptStartupClients (ipc : LoopbackIpc) (generation : BitVec 64) :
    Except String LoopbackIpc :=
  ipc.advanceGate generation .interactive

def showStartupLobby (ipc : LoopbackIpc) (generation : BitVec 64) : Except String LoopbackIpc :=
  ipc.advanceGate generation .runtimeStartedReadOnly

def commitBootPhase (ipc : LoopbackIpc) (generation : BitVec 64) (phase : BootPhase)
    (description : String) : Except String LoopbackIpc :=
  match ipc.advanceGate generation phase with
  | .ok ipc => .ok (ipc.setStartupDescription description)
  | .error error => .error error

/-- `next` is a generation that no listener has got. -/
def rearmStartup (ipc : LoopbackIpc) (phase : String) (next : BitVec 64) :
    Except String LoopbackIpc :=
  match ipc.startupGate with
  | none => .ok ipc
  | some gate =>
    match gate.rearm ipc.startupGeneration next with
    | .ok gate =>
      .ok ({ ipc with startupGate := some gate, startupGeneration := next }.setStartupDescription
        phase)
    | .error error => .error error

def client? (ipc : LoopbackIpc) (session : String) : Option DatumId := ipc.sessions.lookup session

/-- A new session of a client, with its name. -/
def insertSession (ipc : LoopbackIpc) (client : DatumId) : String × LoopbackIpc :=
  let session := "s" ++ toString ipc.nextSession
  (session, { ipc with
    nextSession := (ipc.nextSession + 1) % 2 ^ 64
    sessions := (session, client) :: ipc.sessions.filter fun entry => entry.1 != session
    uiSequences := Function.update ipc.uiSequences session (some 1)
    retainedUi := Function.update ipc.retainedUi session (some [])
    readiness := Function.update ipc.readiness session (some SessionReadiness.default) })

def advanceReadiness (ipc : LoopbackIpc) (session : String) (phase : ReadinessPhase)
    (phaseName : String) (state : ExecutionState World) : Outcome World :=
  match ipc.client? session with
  | none => ⟨ipc, state, .error "unknown-session", []⟩
  | some client =>
    let readiness := (ipc.readiness session).getD SessionReadiness.default
    -- The entry of the session is there also when the phase comes too early.
    let entered := { ipc with readiness := Function.update ipc.readiness session (some readiness) }
    match readiness.advance phase with
    | .error error => ⟨entered, state, .error error, []⟩
    | .ok readiness =>
      let ipc := { ipc with
        readiness := Function.update ipc.readiness session (some readiness) }
      if readiness.interactive && ipc.startupInteractive then
        let turn := state.setLocalClientInteractive client true
        match turn.result with
        | .error error => ⟨ipc, state.after turn, .error error, turn.operations⟩
        | .ok () => ⟨ipc, state.after turn,
            .ok (phaseName ++ " protocol=7 session=" ++ session), turn.operations⟩
      else ⟨ipc, state, .ok (phaseName ++ " protocol=7 session=" ++ session), []⟩

/-- Makes the new client non-interactive before it gets its session. -/
def attachClient (host : Host World) (ipc : LoopbackIpc) (state : ExecutionState World)
    (connected : Turn World LocalClientState) : Outcome World :=
  let state := state.after connected
  match connected.result with
  | .error error => ⟨ipc, state, .error error, connected.operations⟩
  | .ok attached =>
    let turn := state.setLocalClientInteractive attached.client false
    let operations := connected.operations ++ turn.operations
    match turn.result with
    | .error error => ⟨ipc, state.after turn, .error error, operations⟩
    | .ok () =>
      let opened := ipc.insertSession attached.client
      ⟨opened.2, state.after turn,
        .state "attach" opened.1 attached (host.schedulerTick turn.world), operations⟩

/-- A call into the runtime for the client of a session. -/
def callFor (ipc : LoopbackIpc) (state : ExecutionState World) (session : String)
    (call : DatumId → Turn World Unit) (reply : String) : Outcome World :=
  match ipc.client? session with
  | none => ⟨ipc, state, .error "unknown-session", []⟩
  | some client =>
    let turn := call client
    match turn.result with
    | .ok () => ⟨ipc, state.after turn, .ok reply, turn.operations⟩
    | .error error => ⟨ipc, state.after turn, .error error, turn.operations⟩

def moveClient (host : Host World) (ipc : LoopbackIpc) (session : String)
    (direction : LocalMovementDirection) (state : ExecutionState World) : Outcome World :=
  match ipc.client? session with
  | none => ⟨ipc, state, .error "unknown-session", []⟩
  | some client =>
    let queued := host.queueLocalMovement state client direction
    let state := state.after queued
    match queued.result with
    | .error error => ⟨ipc, state, .error error, queued.operations⟩
    | .ok () =>
      let applied := host.applyLocalClientCommands state
      let operations := queued.operations ++ applied.operations
      let response := match applied.result with
        | .error error => .error error
        | .ok moved =>
          match moved.getLast? with
          | none => .error "movement was not committed"
          | some attached => .state "move" session attached (host.schedulerTick applied.world)
      ⟨ipc, state.after applied, response, operations⟩

def pollUiEvents (ipc : LoopbackIpc) (session : String) (state : ExecutionState World) :
    Outcome World :=
  match ipc.client? session with
  | none => ⟨ipc, state, .error "unknown-session", []⟩
  | some client =>
    let retained := (ipc.retainedUi session).getD []
    let (events, state) :=
      if retained.isEmpty then state.takeLocalClientOutboundEvents client else ([], state)
    let (assigned, next) := assignSequences ((ipc.uiSequences session).getD 1) events
    let retained := retained ++ assigned
    ⟨{ ipc with
        uiSequences := Function.update ipc.uiSequences session (some next)
        retainedUi := Function.update ipc.retainedUi session (some retained) },
      state, .uiEvents session retained, []⟩

def acknowledgeUi (ipc : LoopbackIpc) (session : String) (sequence : BitVec 64)
    (state : ExecutionState World) : Outcome World :=
  match ipc.client? session with
  | none => ⟨ipc, state, .error "unknown-session", []⟩
  | some _ =>
    let retained := ((ipc.retainedUi session).getD []).filter fun entry =>
      decide (sequence.toNat < entry.1)
    ⟨{ ipc with retainedUi := Function.update ipc.retainedUi session (some retained) }, state,
      .uiAck session sequence, []⟩

def apply (host : Host World) (ipc : LoopbackIpc) (command : Command)
    (state : ExecutionState World) : Outcome World :=
  match command with
  | .ping => ⟨ipc, state, .ok "ping protocol=1", []⟩
  | .attach => ipc.attachClient host state (host.createAttachedLocalClient state)
  | .mapSnapshot session =>
    match ipc.client? session with
    | none => ⟨ipc, state, .error "unknown-session", []⟩
    | some client =>
      match host.localClientViewCoordinates state client with
      | .error _ => ⟨ipc, state, .error "stale-session", []⟩
      | .ok center =>
        ⟨ipc, state, .snapshot session (host.schedulerTick state.world) center
          (host.localClientMapSnapshotFor state (some client) center.2.2), []⟩
  | .screenSnapshot session =>
    match ipc.client? session with
    | none => ⟨ipc, state, .error "unknown-session", []⟩
    | some client =>
      let center := match host.localClientViewCoordinates state client with
        | .ok center => center
        | .error _ => (1, 1, 1)
      -- No turf has the least level, so the tiles stay empty.
      ⟨ipc, state, .snapshot session (host.schedulerTick state.world) center
        (host.localClientMapSnapshotFor state (some client) (BitVec.intMin 32)), []⟩
  | .move session direction => ipc.moveClient host session direction state
  | .resource session path =>
    if (ipc.client? session).isNone then ⟨ipc, state, .error "unknown-session", []⟩
    else
      match host.readProjectResource state.world path with
      | .ok bytes => ⟨ipc, state, .resource path bytes, []⟩
      | .error error => ⟨ipc, state, .error error, []⟩
  | .resourceChunk session path offset length =>
    if (ipc.client? session).isNone then ⟨ipc, state, .error "unknown-session", []⟩
    else
      match host.readProjectResourceChunk state.world path offset length with
      | .ok chunk => ⟨ipc, state, .resourceChunk path offset chunk, []⟩
      | .error error => ⟨ipc, state, .error error, []⟩
  | .uiEvents session => ipc.pollUiEvents session state
  | .uiAck session sequence => ipc.acknowledgeUi session sequence state
  | .skinReady session => ipc.advanceReadiness session .skin "skin_ready" state
  | .resourcesReady session => ipc.advanceReadiness session .resources "resources_ready" state
  | .inputReady session => ipc.advanceReadiness session .input "input_ready" state
  | .screenPointer .. => ⟨ipc, state, .error "screen pointer requires linked lifecycle", []⟩
  | .mapPointer .. => ⟨ipc, state, .error "map pointer requires linked lifecycle", []⟩
  | .browserTopic .. => ⟨ipc, state, .error "browser topic requires linked lifecycle", []⟩
  | .clientCommand .. => ⟨ipc, state, .error "client command requires linked lifecycle", []⟩
  | .promptResponse session id response =>
    ipc.callFor state session (fun client => host.submitLocalPromptResponse state client id response)
      ("prompt_response protocol=7 client=" ++ session ++ " id=" ++ toString id.toNat)

/-! ## The boundaries -/

/-- Refuses a command as long as the gate is not interactive. -/
def gated (ipc : LoopbackIpc) (state : ExecutionState World) (outcome : Outcome World) :
    Outcome World :=
  if ipc.startupInteractive then outcome
  else ⟨ipc, state, .error "server-starting-read-only", []⟩

def screenPointer (host : Host World) (ipc : LoopbackIpc) (state : ExecutionState World)
    (session : String) (index generation : BitVec 32) (event : LocalScreenPointerEvent)
    (location params : String) : Outcome World :=
  ipc.callFor state session
    (fun client =>
      host.queueLocalScreenPointer state client index generation event location params)
    ("screen_pointer protocol=3 client=" ++ session)

def mapPointer (host : Host World) (ipc : LoopbackIpc) (state : ExecutionState World)
    (session : String) (index generation x y z : BitVec 32) (control params : String) :
    Outcome World :=
  ipc.callFor state session
    (fun client => host.queueLocalMapPointer state client index generation x y z control params)
    ("map_pointer protocol=6 client=" ++ session)

def browserTopic (host : Host World) (ipc : LoopbackIpc) (state : ExecutionState World)
    (session topic : String) : Outcome World :=
  ipc.callFor state session (fun client => host.queueLocalBrowserTopic state client topic)
    ("browser_topic protocol=4 client=" ++ session)

def clientCommand (host : Host World) (ipc : LoopbackIpc) (state : ExecutionState World)
    (session command : String) : Outcome World :=
  ipc.callFor state session (fun client => host.queueLocalClientCommand state client command)
    ("client_command protocol=5 client=" ++ session)

/-- One request at the boundary of a host with a linked executable. -/
def applyExecutable (host : Host World) (ipc : LoopbackIpc) (command : Command)
    (state : ExecutionState World) : Outcome World :=
  match command with
  | .attach => ipc.attachClient host state (host.connectLocalGuest state)
  | .screenPointer session index generation event location params =>
    ipc.gated state (ipc.screenPointer host state session index generation event location params)
  | .mapPointer session index generation x y z control params =>
    ipc.gated state (ipc.mapPointer host state session index generation x y z control params)
  -- Embedded browsers complete their handshakes while the lobby is read-only.
  | .browserTopic session topic => ipc.browserTopic host state session topic
  | .clientCommand session command =>
    ipc.gated state (ipc.clientCommand host state session command)
  | command => ipc.apply host command state

/-- The session is there before its client is made non-interactive. -/
def attachLifecycle (host : Host World) (ipc : LoopbackIpc) (state : ExecutionState World) :
    Outcome World :=
  let connected := host.connectLocalGuest state
  let state := state.after connected
  match connected.result with
  | .error error => ⟨ipc, state, .error error, connected.operations⟩
  | .ok attached =>
    let opened := ipc.insertSession attached.client
    let turn := state.setLocalClientInteractive attached.client false
    let operations := connected.operations ++ turn.operations
    match turn.result with
    | .error error => ⟨opened.2, state.after turn, .error error, operations⟩
    | .ok () =>
      ⟨opened.2, state.after turn,
        .state "attach" opened.1 attached (host.schedulerTick turn.world), operations⟩

/-- One request at the boundary of a lifecycle whose persistent world is there. -/
def applyLifecycle (host : Host World) (ipc : LoopbackIpc) (command : Command)
    (state : ExecutionState World) : Outcome World :=
  match command with
  | .attach => ipc.attachLifecycle host state
  | .screenPointer session index generation event location params =>
    ipc.screenPointer host state session index generation event location params
  | .mapPointer session index generation x y z control params =>
    ipc.mapPointer host state session index generation x y z control params
  | .browserTopic session topic => ipc.browserTopic host state session topic
  | .clientCommand session command => ipc.clientCommand host state session command
  | command => ipc.apply host command state

end LoopbackIpc

/-- The boundary functions of the endpoint. -/
inductive Boundary where
  | tick
  | executable
  | lifecycle
deriving DecidableEq, Repr

/-- The body of the loop of a boundary. -/
def Boundary.apply {World : Type} (boundary : Boundary) (host : Host World) (ipc : LoopbackIpc)
    (command : Command) (state : ExecutionState World) : Outcome World :=
  match boundary with
  | .tick => ipc.apply host command state
  | .executable => ipc.applyExecutable host command state
  | .lifecycle => ipc.applyLifecycle host command state

end Dream64.Ipc
