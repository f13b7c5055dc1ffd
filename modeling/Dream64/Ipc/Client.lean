import Dream64.Value.Datum

/-!
# Local clients

The data that the runtime and the loopback endpoint exchange about a local
client, and the part of `ClientState` that events pass through. World code
works on that part by `ClientOperation`s only: it installs sessions, emits UI
events and sets the interactive status. An event for a client without a
session is dropped, so `emitted` is what a list of operations adds to the
queue of one client (`outbound_perform`).
-/

namespace Dream64.Ipc

inductive LocalMovementDirection where
  | north
  | south
  | east
  | west
deriving DecidableEq, Repr

inductive LocalScreenPointerEvent where
  | entered
  | exited
  | click
deriving DecidableEq, Repr

/-- Coordinates are 32-bit integers in two's complement. -/
structure LocalClientState where
  client : DatumId
  mob : DatumId
  x : BitVec 32
  y : BitVec 32
  z : BitVec 32
deriving DecidableEq, Repr

inductive LocalClientPromptKind where
  | text
  | message
  | number
  | color
  | file
  | list
  | alert
deriving DecidableEq, Repr

/-- A UI operation that DM code emits for a connected client. -/
inductive LocalClientUiEvent where
  | link (url : String)
  | winset (control parameters : String)
  | output (control message : String)
  | browseResource (name : String) (bytes : List UInt8)
  | browse (window html : String)
  | prompt (id : BitVec 64) (kind : LocalClientPromptKind) (title message default : String)
      (choices : List String) (canCancel : Bool)
  /-- Without a file the channel is stopped. -/
  | sound (file : Option String) (channel : BitVec 32) (repeats : Bool)
      (volume frequency pan : DmNumberBits)
deriving DecidableEq, Repr

inductive LocalClientPromptResponse where
  | null
  | text (text : String)
  | number (bits : DmNumberBits)
  /-- The index of an alert button or of an entry of a list. -/
  | choice (index : BitVec 64)
deriving DecidableEq, Repr

/-! ## Snapshots -/

inductive LocalClientAppearance where
  | mk (datum : DatumId) (typePath : String) (icon iconState : Option String) (dir : BitVec 32)
      (layer plane : DmNumberBits) (appearanceFlags mouseOpacity : BitVec 32)
      (pixelX pixelY pixelW pixelZ : DmNumberBits) (color : Option String) (alpha : DmNumberBits)
      (maptext : Option String) (maptextWidth maptextHeight maptextX maptextY : DmNumberBits)
      (underlays overlays : List LocalClientAppearance)

structure LocalClientMapTile where
  x : BitVec 32
  y : BitVec 32
  typePath : String
  color : Option String
  occupants : List DatumId
  /-- The turf and what it contains, in draw order. -/
  appearances : List LocalClientAppearance

structure LocalClientScreenAppearance where
  mapControl : Option String
  screenLoc : String
  insertion : Nat
  appearance : LocalClientAppearance

structure LocalClientMapSnapshot where
  width : BitVec 32
  height : BitVec 32
  z : BitVec 32
  tiles : List LocalClientMapTile
  screen : List LocalClientScreenAppearance

/-! ## Sessions and events -/

/-- An absent queue of events is an empty one: every reader takes the default. -/
structure ClientState where
  clientSessions : DatumId → Bool
  interactiveLocalClients : DatumId → Bool
  localClientOutboundEvents : DatumId → List LocalClientUiEvent

namespace ClientState

def new : ClientState := ⟨fun _ => false, fun _ => false, fun _ => []⟩

def hasSession (s : ClientState) (client : DatumId) : Bool := s.clientSessions client

def installSession (s : ClientState) (client : DatumId) : ClientState :=
  { s with clientSessions := Function.update s.clientSessions client true }

/-- The events of every client, which leaves all the queues empty. -/
def takeOutboundEvents (s : ClientState) : (DatumId → List LocalClientUiEvent) × ClientState :=
  (s.localClientOutboundEvents, { s with localClientOutboundEvents := fun _ => [] })

def emitUiEvent (s : ClientState) (client : DatumId) (event : LocalClientUiEvent) : ClientState :=
  if s.clientSessions client then
    { s with
      localClientOutboundEvents := Function.update s.localClientOutboundEvents client
        (s.localClientOutboundEvents client ++ [event]) }
  else s

def setInteractive (s : ClientState) (client : DatumId) (interactive : Bool) : ClientState :=
  { s with
    interactiveLocalClients := Function.update s.interactiveLocalClients client interactive }

end ClientState

/-- What world code does to the clients. -/
inductive ClientOperation where
  | installSession (client : DatumId)
  | emitUiEvent (client : DatumId) (event : LocalClientUiEvent)
  | setInteractive (client : DatumId) (interactive : Bool)
deriving DecidableEq, Repr

namespace ClientState

def perform (s : ClientState) : ClientOperation → ClientState
  | .installSession client => s.installSession client
  | .emitUiEvent client event => s.emitUiEvent client event
  | .setInteractive client interactive => s.setInteractive client interactive

def performAll (s : ClientState) (operations : List ClientOperation) : ClientState :=
  operations.foldl perform s

/-- The events that an operation puts into the queue of a client. -/
def accepted (s : ClientState) (client : DatumId) : ClientOperation → List LocalClientUiEvent
  | .emitUiEvent target event => if target = client ∧ s.clientSessions client then [event] else []
  | _ => []

/-- The events that the operations put into the queue of a client, in their order. -/
def emitted (s : ClientState) (client : DatumId) : List ClientOperation → List LocalClientUiEvent
  | [] => []
  | operation :: rest => s.accepted client operation ++ (s.perform operation).emitted client rest

@[simp] theorem performAll_cons (s : ClientState) (operation : ClientOperation)
    (rest : List ClientOperation) :
    s.performAll (operation :: rest) = (s.perform operation).performAll rest := rfl

theorem performAll_append (s : ClientState) (first second : List ClientOperation) :
    s.performAll (first ++ second) = (s.performAll first).performAll second :=
  List.foldl_append

theorem outbound_perform (s : ClientState) (operation : ClientOperation) (client : DatumId) :
    (s.perform operation).localClientOutboundEvents client =
      s.localClientOutboundEvents client ++ s.accepted client operation := by
  cases operation with
  | installSession target => exact (List.append_nil _).symm
  | setInteractive target interactive => exact (List.append_nil _).symm
  | emitUiEvent target event =>
    rw [perform, emitUiEvent, accepted]
    by_cases htarget : target = client
    · subst htarget
      by_cases hsession : s.clientSessions target = true
      · simp [hsession]
      · simp [hsession]
    · have hother : client ≠ target := fun heq => htarget heq.symm
      split
      · simp [htarget, Function.update_of_ne hother]
      · simp [htarget]

/-- Operations append to the queue of a client what they emit for it. -/
theorem outbound_performAll (s : ClientState) (operations : List ClientOperation)
    (client : DatumId) :
    (s.performAll operations).localClientOutboundEvents client =
      s.localClientOutboundEvents client ++ s.emitted client operations := by
  induction operations generalizing s with
  | nil => exact (List.append_nil _).symm
  | cons operation rest ih =>
    rw [performAll_cons, ih, outbound_perform, List.append_assoc]
    rfl

end ClientState

end Dream64.Ipc
