import Dream64.Ipc.Effects

/-!
# The events of a session

The endpoint is a stop-and-wait window (`Window.State`) for every session: the
queue of the client has the produced events that no poll has taken, the
retained batch is that of the window, and the next sequence is one more than
the number of taken events (`Tracks`). One step of the system is a few steps
of the window (`Follows.step`), so every poll of a run is answered as the
window answers it (`ui_events_delivered`). A poll that takes events takes the
queues of all clients, so the result is about sessions whose queue is empty
whenever another session takes events (`Spared`).
-/

namespace Dream64.Ipc

open Window (Exchange)

variable {World : Type}

namespace System

/-- What a step does to the clients through the runtime. -/
def operationsAt (host : Host World) (s : System World) : Action World → List ClientOperation
  | .handle boundary =>
    match s.next host boundary with
    | none => []
    | some (_, outcome) => outcome.operations
  | .enableSessionInteraction => s.interactionOf
  | .advanceWorld turn => turn.operations
  | _ => []

/-- What a step replies to a session about its events. -/
def repliesAt (host : Host World) (session : String) (s : System World) :
    Action World → List (Exchange LocalClientUiEvent)
  | .handle boundary =>
    match s.next host boundary with
    | none => []
    | some (_, outcome) => replied session outcome.response
  | _ => []

/-- The events that a step produces for a client, and what it replies to its session. -/
def exchangesAt (host : Host World) (session : String) (client : DatumId) (s : System World)
    (action : Action World) : List (Exchange LocalClientUiEvent) :=
  (s.state.client.emitted client (s.operationsAt host action)).map .produced ++
    s.repliesAt host session action

def exchanges (host : Host World) (session : String) (client : DatumId) (s : System World) :
    List (Action World) → List (Exchange LocalClientUiEvent)
  | [] => []
  | action :: rest =>
    s.exchangesAt host session client action ++ (s.step host action).exchanges host session client rest

theorem exchanges_concat (host : Host World) (session : String) (client : DatumId)
    (s : System World) (history : List (Action World)) (action : Action World) :
    s.exchanges host session client (history ++ [action]) =
      s.exchanges host session client history ++
        (s.run host history).exchangesAt host session client action := by
  induction history generalizing s with
  | nil => exact List.append_nil _
  | cons first rest ih =>
    show s.exchangesAt host session client first ++
      (s.step host first).exchanges host session client (rest ++ [action]) = (_ ++ _) ++ _
    rw [ih, List.append_assoc]
    rfl

/-- No other session takes events while there are events for the client. -/
def Spared (session : String) (client : DatumId) (s : System World) : Action World → Prop
  | .handle _ =>
    ∀ other, s.ipc.requests.head? = some (.uiEvents other) → other ≠ session →
      (s.ipc.client? other).isSome → (s.ipc.retainedUi other).getD [] = [] →
      s.state.client.localClientOutboundEvents client = []
  | _ => True

end System

/-! ## Sessions -/

theorem lookup_filter_of_ne {sessions : List (String × DatumId)} {name other : String}
    (hne : other ≠ name) :
    (sessions.filter fun entry => entry.1 != name).lookup other = sessions.lookup other := by
  induction sessions with
  | nil => rfl
  | cons entry rest ih =>
    by_cases hentry : entry.1 = name
    · rw [List.filter_cons_of_neg (by simpa using hentry), ih]
      have hother : (other == entry.1) = false := by
        rw [beq_eq_false_iff_ne, hentry]
        exact hne
      rw [show entry :: rest = (entry.1, entry.2) :: rest from rfl, List.lookup_cons, hother]
    · rw [List.filter_cons_of_pos (by simpa using hentry)]
      rw [show entry :: rest = (entry.1, entry.2) :: rest from rfl,
        show entry :: List.filter (fun entry => entry.1 != name) rest =
          (entry.1, entry.2) :: List.filter (fun entry => entry.1 != name) rest from rfl,
        List.lookup_cons, List.lookup_cons, ih]

def sessionName (n : Nat) : String := "s" ++ toString n

theorem sessionName_inj {m n : Nat} (h : sessionName m = sessionName n) : m = n := by
  have htext : toString m = toString n := by
    have hlist := congrArg String.toList h
    simp only [sessionName, String.toList_append] at hlist
    exact String.toList_inj.1 (List.append_cancel_left hlist)
  have hdigits : Nat.toDigits 10 m = Nat.toDigits 10 n := by
    rw [← Nat.toList_repr, ← Nat.toList_repr]
    exact congrArg String.toList htext
  rw [← Nat.ofDigitChars_toDigits (b := 10) (n := m) (by decide) (by decide), hdigits,
    Nat.ofDigitChars_toDigits (by decide) (by decide)]

variable {ipc : LoopbackIpc}

theorem client?_insertSession (client : DatumId) (session : String) :
    (ipc.insertSession client).2.client? session =
      if session = sessionName ipc.nextSession then some client else ipc.client? session := by
  show ((sessionName ipc.nextSession, client) :: _).lookup session = _
  rw [List.lookup_cons]
  by_cases hsession : session = sessionName ipc.nextSession
  · subst hsession
    simp
  · have hne : (session == sessionName ipc.nextSession) = false := by simpa using hsession
    rw [hne, if_neg hsession]
    exact lookup_filter_of_ne hsession

/-- The names of the sessions are those that were given out. -/
def Named (ipc : LoopbackIpc) (sessions : Nat) : Prop :=
  1 ≤ ipc.nextSession ∧ ipc.nextSession ≤ sessions + 1 ∧
    ∀ session, (ipc.client? session).isSome → ∃ n < ipc.nextSession, session = sessionName n

theorem Named.same {sessions : Nat} {ipc' : LoopbackIpc} (h : Named ipc sessions)
    (hsame : ipc'.sessions = ipc.sessions) (hnext : ipc'.nextSession = ipc.nextSession) :
    Named ipc' (sessions + 1) := by
  obtain ⟨hpos, hle, hnames⟩ := h
  refine ⟨by omega, by omega, fun session hknown => ?_⟩
  rw [hnext]
  rw [LoopbackIpc.client?, hsame] at hknown
  exact hnames session hknown

theorem Named.insertSession {sessions : Nat} (h : Named ipc sessions)
    (hfew : sessions + 1 < 2 ^ 64 - 1) (client : DatumId) :
    Named (ipc.insertSession client).2 (sessions + 1) := by
  obtain ⟨hpos, hle, hnames⟩ := h
  have hnext : (ipc.insertSession client).2.nextSession = ipc.nextSession + 1 := by
    show (ipc.nextSession + 1) % 2 ^ 64 = _
    exact Nat.mod_eq_of_lt (by omega)
  refine ⟨by omega, by omega, fun session hknown => ?_⟩
  rw [hnext]
  rw [client?_insertSession] at hknown
  by_cases hsession : session = sessionName ipc.nextSession
  · exact ⟨ipc.nextSession, by omega, hsession⟩
  · rw [if_neg hsession] at hknown
    obtain ⟨n, hlt, hname⟩ := hnames session hknown
    exact ⟨n, by omega, hname⟩

theorem Named.unopened {sessions : Nat} (h : Named ipc sessions) :
    ipc.client? (sessionName ipc.nextSession) = none := by
  obtain ⟨-, -, hnames⟩ := h
  cases hclient : ipc.client? (sessionName ipc.nextSession) with
  | none => rfl
  | some client =>
    obtain ⟨n, hlt, hname⟩ := hnames _ (by rw [hclient]; rfl)
    have := sessionName_inj hname
    omega

/-! ## The window of a session -/

/-- What the endpoint and the queues have of the window of a session. -/
structure Tracks (ipc : LoopbackIpc) (clients : ClientState) (session : String)
    (client : DatumId) (w : Window.State LocalClientUiEvent) : Prop where
  queue : clients.localClientOutboundEvents client = w.produced.drop w.taken
  unopened : ipc.client? session = none → w.taken = 0
  retained : ipc.client? session = some client → ipc.retainedUi session = some w.batch
  sequences : ipc.client? session = some client → ipc.uiSequences session = some (w.taken + 1)

/-- As long as the session has no other client, a window explains the exchange. -/
def Follows (ipc : LoopbackIpc) (clients : ClientState) (session : String) (client : DatumId)
    (exchanges : List (Exchange LocalClientUiEvent)) : Prop :=
  (∀ owner, ipc.client? session = some owner → owner = client) →
    ∃ w, Window.Explains w exchanges ∧ Window.Delivered exchanges ∧
      Tracks ipc clients session client w

variable {ipc ipc' : LoopbackIpc} {clients : ClientState} {state : ExecutionState World}
  {session : String} {client : DatumId} {exchanges : List (Exchange LocalClientUiEvent)}

/-- The runtime emits events; the endpoint has the same sessions. -/
theorem Follows.perform (h : Follows ipc clients session client exchanges)
    (hsessions : ipc'.sessions = ipc.sessions) (hsequences : ipc'.uiSequences = ipc.uiSequences)
    (hretained : ipc'.retainedUi = ipc.retainedUi) (operations : List ClientOperation) :
    Follows ipc' (clients.performAll operations) session client
      (exchanges ++ (clients.emitted client operations).map .produced) := by
  have hclient : ipc'.client? session = ipc.client? session := by
    rw [LoopbackIpc.client?, hsessions]
    rfl
  intro howner
  rw [hclient] at howner
  obtain ⟨w, hexplains, hdelivered, htracks⟩ := h howner
  refine ⟨_, hexplains.produceAll (clients.emitted client operations),
    hdelivered.produceAll hexplains _, ?_, ?_, ?_, ?_⟩
  · rw [ClientState.outbound_performAll, htracks.queue]
    exact (List.drop_append_of_le_length hexplains.taken_le).symm
  · rw [hclient]
    exact htracks.unopened
  · intro hopened
    rw [hclient] at hopened
    rw [hretained, htracks.retained hopened]
    -- What is produced later does not change the batch.
    have hbatch : ∀ more : List LocalClientUiEvent,
        Window.State.batch { w with produced := w.produced ++ more } = w.batch := by
      intro more
      rw [Window.State.batch_eq, Window.State.batch_eq]
      show Window.numberedFrom w.acked (((w.produced ++ more).take w.taken).drop w.acked) = _
      rw [List.take_append_of_le_length hexplains.taken_le]
    rw [hbatch]
  · intro hopened
    rw [hclient] at hopened
    rw [hsequences, htracks.sequences hopened]

theorem assignSequences_eq (start : Nat) (events : List LocalClientUiEvent)
    (hfew : start + events.length < u64Max) :
    assignSequences (start + 1) events =
      (Window.numberedFrom start events, start + events.length + 1) := by
  induction events generalizing start with
  | nil => rfl
  | cons event rest ih =>
    rw [List.length_cons] at hfew
    have hnext : min (start + 1 + 1) u64Max = start + 1 + 1 := by omega
    rw [assignSequences, hnext, ih (start + 1) (by omega), List.length_cons]
    have hsum : start + 1 + rest.length + 1 = start + (rest.length + 1) + 1 := by omega
    rw [hsum]
    rfl

/-- A new session has an empty window. -/
theorem Follows.insertSession {sessions : Nat} (h : Follows ipc clients session client exchanges)
    (hnamed : Named ipc sessions) (owner : DatumId) :
    Follows (ipc.insertSession owner).2 clients session client exchanges := by
  intro howner
  rw [client?_insertSession] at howner
  by_cases hsession : session = sessionName ipc.nextSession
  · have hsame : owner = client := howner owner (if_pos hsession)
    have hnone : ipc.client? session = none := by
      rw [hsession]
      exact hnamed.unopened
    obtain ⟨w, hexplains, hdelivered, htracks⟩ := h (by simp [hnone])
    have htaken := htracks.unopened hnone
    have hacked : w.acked = 0 := by
      have := hexplains.acked_le
      omega
    refine ⟨w, hexplains, hdelivered, htracks.queue, ?_, fun _ => ?_, fun _ => ?_⟩
    · rw [client?_insertSession, if_pos hsession]
      intro hnone
      cases hnone
    · have hempty : w.batch = [] := by
        rw [Window.State.batch_eq_nil hexplains.acked_le hexplains.taken_le]
        omega
      rw [hempty, hsession]
      exact Function.update_self _ _ _
    · rw [htaken, hsession]
      exact Function.update_self _ _ _
  · rw [if_neg hsession] at howner
    obtain ⟨w, hexplains, hdelivered, htracks⟩ := h howner
    refine ⟨w, hexplains, hdelivered, htracks.queue, ?_, ?_, ?_⟩
    · rw [client?_insertSession, if_neg hsession]
      exact htracks.unopened
    · rw [client?_insertSession, if_neg hsession]
      intro hopened
      rw [← htracks.retained hopened]
      exact Function.update_of_ne hsession _ _
    · rw [client?_insertSession, if_neg hsession]
      intro hopened
      rw [← htracks.sequences hopened]
      exact Function.update_of_ne hsession _ _

/-- Another session is acknowledged or polled, which leaves the queue of the client as it is. -/
theorem Follows.other (h : Follows ipc clients session client exchanges)
    {clients' : ClientState} (hsessions : ipc'.sessions = ipc.sessions)
    (hsequences : ipc'.uiSequences session = ipc.uiSequences session)
    (hretained : ipc'.retainedUi session = ipc.retainedUi session)
    (hqueue : clients'.localClientOutboundEvents client = clients.localClientOutboundEvents client) :
    Follows ipc' clients' session client exchanges := by
  have hclient : ipc'.client? session = ipc.client? session := by
    rw [LoopbackIpc.client?, hsessions]
    rfl
  intro howner
  rw [hclient] at howner
  obtain ⟨w, hexplains, hdelivered, htracks⟩ := h howner
  refine ⟨w, hexplains, hdelivered, ?_, ?_, ?_, ?_⟩
  · rw [hqueue]
    exact htracks.queue
  · rw [hclient]
    exact htracks.unopened
  · rw [hclient, hretained]
    exact htracks.retained
  · rw [hclient, hsequences]
    exact htracks.sequences

section

variable {other : String} {owner : DatumId} (h : Follows ipc state.client session client exchanges)
  (hknown : ipc.client? other = some owner)

include h hknown

theorem Follows.acknowledge (sequence : BitVec 64) :
    Follows (ipc.acknowledgeUi other sequence state).ipc
      (ipc.acknowledgeUi other sequence state).state.client session client
      (exchanges ++ replied session (ipc.acknowledgeUi other sequence state).response) := by
  rw [LoopbackIpc.acknowledgeUi_known hknown]
  by_cases hother : other = session
  · subst hother
    rw [replied, if_pos rfl]
    intro howner
    obtain ⟨w, hexplains, hdelivered, htracks⟩ := h howner
    have hclient := howner owner hknown
    subst hclient
    refine ⟨_, hexplains.acknowledge sequence.toNat,
      hdelivered.concat hexplains (show w.Answers (.acknowledged sequence.toNat) from trivial),
      htracks.queue, fun hnone => ?_, fun hopened => ?_, fun hopened => htracks.sequences hopened⟩
    · have hunopened : ipc.client? other = none := hnone
      rw [hknown] at hunopened
      cases hunopened
    · rw [Window.State.batch_acknowledge, ← Option.getD_some (a := w.batch) (b := []),
        ← htracks.retained hopened]
      exact Function.update_self _ _ _
  · rw [replied, if_neg hother, List.append_nil]
    exact h.other rfl rfl (Function.update_of_ne (fun heq => hother heq.symm) _ _) rfl

theorem Follows.poll (hspared : other ≠ session → (ipc.retainedUi other).getD [] = [] →
      state.client.localClientOutboundEvents client = [])
    (hfew : (Window.producedIn exchanges).length < u64Max) :
    Follows (ipc.pollUiEvents other state).ipc (ipc.pollUiEvents other state).state.client session
      client (exchanges ++ replied session (ipc.pollUiEvents other state).response) := by
  rw [LoopbackIpc.pollUiEvents_known hknown]
  dsimp only
  by_cases hother : other = session
  · subst hother
    rw [replied, if_pos rfl]
    intro howner
    obtain ⟨w, hexplains, hdelivered, htracks⟩ := h howner
    have hclient := howner owner hknown
    subst hclient
    have hretained : (ipc.retainedUi other).getD [] = w.batch := by
      rw [htracks.retained hknown, Option.getD_some]
    have hsequences : (ipc.uiSequences other).getD 1 = w.taken + 1 := by
      rw [htracks.sequences hknown, Option.getD_some]
    rw [hretained, hsequences]
    by_cases hall : w.acked = w.taken
    · -- The window takes what there is.
      have hempty : w.batch = [] :=
        (Window.State.batch_eq_nil hexplains.acked_le hexplains.taken_le).2 hall
      have hqueue : (state.takeLocalClientOutboundEvents owner).1 = w.produced.drop w.taken :=
        htracks.queue
      have hlength : w.taken + (w.produced.drop w.taken).length = w.produced.length := by
        have := hexplains.taken_le
        rw [List.length_drop]
        omega
      have hbatch : w.poll.batch = Window.numberedFrom w.taken (w.produced.drop w.taken) := by
        rw [Window.State.batch_poll hall]
        show (Window.numberedFrom 0 _).drop w.taken = _
        rw [Window.drop_numberedFrom, Nat.zero_add]
      have hpoll : w.poll.taken = w.produced.length := by rw [Window.State.poll, if_pos hall]
      have hproduced : w.poll.produced = w.produced := by rw [Window.State.poll, if_pos hall]
      rw [← hexplains.produced, ← hlength] at hfew
      rw [hempty, List.isEmpty_nil, if_pos rfl, hqueue, assignSequences_eq _ _ hfew, ← hbatch,
        hlength, List.nil_append]
      refine ⟨w.poll, hexplains.polled, hdelivered.concat hexplains rfl, ?_, fun hnone => ?_,
        fun _ => Function.update_self _ _ _, fun _ => ?_⟩
      · rw [hpoll, hproduced, List.drop_length]
        rfl
      · have hunopened : ipc.client? other = none := hnone
        rw [hknown] at hunopened
        cases hunopened
      · rw [hpoll]
        exact Function.update_self _ _ _
    · -- The batch is returned again.
      have hnonempty : w.batch ≠ [] := fun hempty =>
        hall ((Window.State.batch_eq_nil hexplains.acked_le hexplains.taken_le).1 hempty)
      have hpoll : w.poll = w := by rw [Window.State.poll, if_neg hall]
      rw [if_neg (by rwa [List.isEmpty_iff]), assignSequences, List.append_nil]
      refine ⟨w, ?_, ?_, htracks.queue, fun hnone => ?_, fun _ => Function.update_self _ _ _,
        fun _ => Function.update_self _ _ _⟩
      · have hpolled := hexplains.polled
        rwa [hpoll] at hpolled
      · refine hdelivered.concat hexplains ?_
        show w.batch = w.poll.batch
        rw [hpoll]
      · have hunopened : ipc.client? other = none := hnone
        rw [hknown] at hunopened
        cases hunopened
  · rw [replied, if_neg hother, List.append_nil]
    have hne : session ≠ other := fun heq => hother heq.symm
    refine h.other rfl (Function.update_of_ne hne _ _) (Function.update_of_ne hne _ _) ?_
    split
    · rename_i hempty
      rw [hspared hother (List.isEmpty_iff.1 hempty)]
      rfl
    · rfl

end

/-- A request, at any boundary. -/
theorem Follows.effect {sessions : Nat} {command : Command} {outcome : Outcome World}
    (h : Follows ipc state.client session client exchanges) (hnamed : Named ipc sessions)
    (heffect : Effect ipc state command outcome)
    (hspared : ∀ other, command = .uiEvents other → other ≠ session →
      (ipc.client? other).isSome → (ipc.retainedUi other).getD [] = [] →
      state.client.localClientOutboundEvents client = [])
    (hfew : (Window.producedIn exchanges).length < u64Max) :
    Follows outcome.ipc outcome.state.client session client
      (exchanges ++ ((state.client.emitted client outcome.operations).map .produced ++
        replied session outcome.response)) := by
  cases heffect with
  | runtime _ _ kept same hclient quiet =>
    rw [quiet, List.append_nil, hclient]
    exact h.perform same.sessions same.uiSequences same.retainedUi _
  | opened _ _ owner hopened hclient quiet =>
    rw [quiet, List.append_nil, hclient, hopened]
    exact (h.perform rfl rfl rfl _).insertSession hnamed owner
  | polled other owner known =>
    have hnone : (ipc.pollUiEvents other state).operations = [] := by
      rw [LoopbackIpc.pollUiEvents_known known]
    rw [hnone]
    exact h.poll known (fun hother => hspared other rfl hother (by rw [known]; rfl)) hfew
  | acknowledged other sequence owner known =>
    have hnone : (ipc.acknowledgeUi other sequence state).operations = [] := by
      rw [LoopbackIpc.acknowledgeUi_known known]
    rw [hnone]
    exact h.acknowledge known sequence

theorem Named.effect {sessions : Nat} {command : Command} {outcome : Outcome World}
    (h : Named ipc sessions) (hfew : sessions + 1 < 2 ^ 64 - 1)
    (heffect : Effect ipc state command outcome) : Named outcome.ipc (sessions + 1) := by
  cases heffect with
  | runtime _ _ kept same => exact h.same same.sessions same.nextSession
  | opened _ _ owner hopened =>
    rw [hopened]
    exact h.insertSession hfew owner
  | polled other owner known =>
    rw [LoopbackIpc.pollUiEvents_known known]
    exact h.same rfl rfl
  | acknowledged other sequence owner known =>
    rw [LoopbackIpc.acknowledgeUi_known known]
    exact h.same rfl rfl

/-! ## Runs -/

theorem LoopbackIpc.sameSessions_advanceGate {generation : BitVec 64} {target : BootPhase}
    (h : ipc.advanceGate generation target = .ok ipc') : SameSessions ipc ipc' := by
  rw [advanceGate] at h
  split at h
  · cases h
    exact .refl _
  · split at h
    · cases h
      exact ⟨rfl, rfl, rfl, rfl⟩
    · cases h

theorem LoopbackIpc.sameSessions_commitBootPhase {generation : BitVec 64} {phase : BootPhase}
    {description : String} (h : ipc.commitBootPhase generation phase description = .ok ipc') :
    SameSessions ipc ipc' := by
  rw [commitBootPhase] at h
  split at h
  · rename_i advanced hadvanced
    cases h
    have hsame := sameSessions_advanceGate hadvanced
    exact ⟨hsame.sessions, hsame.nextSession, hsame.uiSequences, hsame.retainedUi⟩
  · cases h

theorem LoopbackIpc.sameSessions_rearmStartup {phase : String} {next : BitVec 64}
    (h : ipc.rearmStartup phase next = .ok ipc') : SameSessions ipc ipc' := by
  rw [rearmStartup] at h
  split at h
  · cases h
    exact .refl _
  · split at h
    · cases h
      exact ⟨rfl, rfl, rfl, rfl⟩
    · cases h

namespace System

variable {s : System World}

theorem sameSessions_committed {result : Except String LoopbackIpc}
    (h : ∀ ipc, result = .ok ipc → SameSessions s.ipc ipc) :
    SameSessions s.ipc (s.committed result).ipc := by
  cases result with
  | ok ipc => exact h ipc rfl
  | error error => exact .refl _

theorem client_committed (result : Except String LoopbackIpc) :
    (s.committed result).state = s.state := by
  cases result with
  | ok _ | error _ => rfl

/-- A request of the serving thread is at most put into the queue. -/
theorem sameSessions_serve (command : Command) : SameSessions s.ipc (s.serve command).ipc := by
  cases command with
  | ping => exact .refl _
  | attach =>
    rw [serve]
    split
    · exact ⟨rfl, rfl, rfl, rfl⟩
    · exact .refl _
  | _ => exact ⟨rfl, rfl, rfl, rfl⟩

theorem state_serve (command : Command) : (s.serve command).state = s.state := by
  cases command with
  | attach =>
    rw [serve]
    split
    · rfl
    · rfl
  | _ => rfl

/-- Every step other than a request runs the runtime and keeps the sessions. -/
theorem step_of_not_handle (host : Host World) {action : Action World}
    (h : ∀ boundary, action ≠ .handle boundary) :
    SameSessions s.ipc (s.step host action).ipc ∧
      (s.step host action).state.client =
        s.state.client.performAll (s.operationsAt host action) ∧
      ∀ session, s.repliesAt host session action = [] := by
  cases action with
  | handle boundary => exact absurd rfl (h boundary)
  | commitBootPhase generation phase description =>
    refine ⟨sameSessions_committed fun ipc hipc =>
      LoopbackIpc.sameSessions_commitBootPhase hipc, ?_, fun _ => rfl⟩
    exact congrArg ExecutionState.client (client_committed _)
  | acceptStartupClients _ | showStartupLobby _ =>
    refine ⟨sameSessions_committed fun ipc hipc => LoopbackIpc.sameSessions_advanceGate hipc, ?_,
      fun _ => rfl⟩
    exact congrArg ExecutionState.client (client_committed _)
  | rearmStartup phase =>
    rw [step]
    split
    · exact ⟨.refl _, rfl, fun _ => rfl⟩
    · have hsame : SameSessions s.ipc
          (s.committed (s.ipc.rearmStartup phase s.nextStartupGeneration)).ipc :=
        sameSessions_committed fun ipc hipc => LoopbackIpc.sameSessions_rearmStartup hipc
      exact ⟨hsame, congrArg ExecutionState.client (client_committed _), fun _ => rfl⟩
  | bindElsewhere => exact ⟨.refl _, rfl, fun _ => rfl⟩
  | serve command =>
    exact ⟨sameSessions_serve command, congrArg ExecutionState.client (state_serve command),
      fun _ => rfl⟩
  | enableSessionInteraction | advanceWorld _ => exact ⟨.refl _, rfl, fun _ => rfl⟩

/-- What the run has of the window, and of the names of the sessions. -/
structure Delivering (s : System World) (session : String) (client : DatumId) (steps : Nat)
    (exchanges : List (Exchange LocalClientUiEvent)) : Prop where
  follows : Follows s.ipc s.state.client session client exchanges
  named : Named s.ipc steps

theorem Delivering.step {steps : Nat} (h : s.Delivering session client steps exchanges)
    (host : Host World) {action : Action World} (hspared : s.Spared session client action)
    (hsteps : steps + 1 < 2 ^ 64 - 1) (hfew : (Window.producedIn exchanges).length < u64Max) :
    (s.step host action).Delivering session client (steps + 1)
      (exchanges ++ s.exchangesAt host session client action) := by
  obtain ⟨hfollows, hnamed⟩ := h
  by_cases hhandle : ∃ boundary, action = .handle boundary
  · obtain ⟨boundary, rfl⟩ := hhandle
    rw [exchangesAt, operationsAt, repliesAt, System.step, next]
    cases hrequests : s.ipc.requests with
    | nil =>
      obtain ⟨hpos, hle, hnames⟩ := hnamed
      show s.Delivering session client (steps + 1) (exchanges ++ [])
      rw [List.append_nil]
      exact ⟨hfollows, hpos, by omega, hnames⟩
    | cons command rest =>
      have heffect := boundary.effect host { s.ipc with requests := rest } command s.state
      have hnamed : Named { s.ipc with requests := rest } steps := hnamed
      have hfollows : Follows { s.ipc with requests := rest } s.state.client session client
          exchanges := hfollows.other rfl rfl rfl rfl
      refine ⟨?_, hnamed.effect hsteps heffect⟩
      refine hfollows.effect hnamed heffect (fun other hcommand hother => ?_) hfew
      have hhead : s.ipc.requests.head? = some (.uiEvents other) := by
        rw [hrequests, hcommand]
        rfl
      exact hspared other hhead hother
  · have hnot : ∀ boundary, action ≠ .handle boundary :=
      fun boundary hboundary => hhandle ⟨boundary, hboundary⟩
    obtain ⟨hsame, hclient, hquiet⟩ := s.step_of_not_handle host hnot
    rw [exchangesAt, hquiet, List.append_nil]
    constructor
    · rw [hclient]
      exact hfollows.perform hsame.sessions hsame.uiSequences hsame.retainedUi _
    · exact hnamed.same hsame.sessions hsame.nextSession

theorem delivering_initial (generation : BitVec 64) (phase : String) (world : World)
    (session : String) (client : DatumId) :
    (initial generation phase world).Delivering session client 0 [] where
  follows _ := by
    refine ⟨.initial, Window.explains_initial, Window.delivered_nil, rfl, fun _ => rfl, ?_, ?_⟩
    · intro hopened
      cases hopened
    · intro hopened
      cases hopened
  named := by
    refine ⟨Nat.le_refl 1, Nat.le_refl 1, fun session hknown => ?_⟩
    cases hknown

/-- Every step of a run spares the queue of the client. -/
def SparedRun (host : Host World) (session : String) (client : DatumId) (s : System World) :
    List (Action World) → Prop
  | [] => True
  | action :: rest =>
    s.Spared session client action ∧ (s.step host action).SparedRun host session client rest

theorem SparedRun.concat {host : Host World} {history : List (Action World)}
    {action : Action World} (h : s.SparedRun host session client (history ++ [action])) :
    s.SparedRun host session client history ∧
      (s.run host history).Spared session client action := by
  induction history generalizing s with
  | nil => exact ⟨trivial, h.1⟩
  | cons first rest ih => exact ⟨⟨h.1, (ih h.2).1⟩, (ih h.2).2⟩

theorem Delivering.run {host : Host World} {generation : BitVec 64} {phase : String}
    {world : World} (history : List (Action World))
    (hspared : (initial generation phase world).SparedRun host session client history)
    (hsteps : history.length < 2 ^ 64 - 1)
    (hfew : (Window.producedIn ((initial generation phase world).exchanges host session client
      history)).length < u64Max) :
    ((initial generation phase world).run host history).Delivering session client history.length
      ((initial generation phase world).exchanges host session client history) := by
  induction history using List.reverseRecOn with
  | nil => exact delivering_initial generation phase world session client
  | append_singleton history action ih =>
    rw [exchanges_concat, Window.producedIn_append, List.length_append] at hfew
    rw [List.length_append, List.length_singleton] at hsteps
    have hbefore := ih hspared.concat.1 (by omega) (by omega)
    rw [run_concat, exchanges_concat, List.length_append, List.length_singleton]
    exact hbefore.step host hspared.concat.2 hsteps (by omega)

end System

/-- What the polls of a session return, in every run in which no other session takes events
while there are events for its client. -/
theorem ui_events_delivered (host : Host World) (generation : BitVec 64) (phase : String)
    (world : World) (history : List (Action World)) (session : String) (client : DatumId)
    (hopened : ((System.initial generation phase world).run host history).ipc.client? session =
      some client)
    (hspared : (System.initial generation phase world).SparedRun host session client history)
    (hsteps : history.length < 2 ^ 64 - 1)
    (hfew : (Window.producedIn ((System.initial generation phase world).exchanges host session
      client history)).length < 2 ^ 64 - 1) :
    Window.Delivered
      ((System.initial generation phase world).exchanges host session client history) := by
  have hdelivering := System.Delivering.run history hspared hsteps hfew
  obtain ⟨w, -, hdelivered, -⟩ := hdelivering.follows fun owner howner => by
    rw [hopened] at howner
    exact (Option.some.inj howner).symm
  exact hdelivered

/-! ## A client that polls twice -/

def guest : LocalClientState := ⟨⟨1, 0⟩, ⟨2, 0⟩, 1, 1, 1⟩

/-- The runtime of a world with one turf and without code. -/
def emptyWorld : Host Unit where
  createAttachedLocalClient _ := ⟨(), [.installSession guest.client], .ok guest⟩
  connectLocalGuest _ := ⟨(), [.installSession guest.client], .ok guest⟩
  queueLocalMovement _ _ _ := ⟨(), [], .ok ()⟩
  applyLocalClientCommands _ := ⟨(), [], .ok [guest]⟩
  queueLocalScreenPointer _ _ _ _ _ _ _ := ⟨(), [], .ok ()⟩
  queueLocalMapPointer _ _ _ _ _ _ _ _ _ := ⟨(), [], .ok ()⟩
  queueLocalBrowserTopic _ _ _ := ⟨(), [], .ok ()⟩
  queueLocalClientCommand _ _ _ := ⟨(), [], .ok ()⟩
  submitLocalPromptResponse _ _ id _ :=
    ⟨(), [], .error ("unknown local prompt " ++ toString id.toNat)⟩
  localClientViewCoordinates _ _ := .ok (1, 1, 1)
  localClientMapSnapshotFor _ _ z := ⟨1, 1, z, [], []⟩
  schedulerTick _ := 0
  readProjectResource _ _ := .error "project root is unavailable"
  readProjectResourceChunk _ _ _ _ := .error "project root is unavailable"

def outputs (message : String) : LocalClientUiEvent := .output "output" message

/-- The second event is produced while the first is not acknowledged. -/
def pollsTwice : List (Action Unit) :=
  [.showStartupLobby 1, .serve .attach, .handle .tick,
    .advanceWorld ⟨(), [.emitUiEvent guest.client (outputs "first")], .ok ()⟩,
    .serve (.uiEvents (sessionName 1)), .handle .tick,
    .advanceWorld ⟨(), [.emitUiEvent guest.client (outputs "second")], .ok ()⟩,
    .serve (.uiEvents (sessionName 1)), .handle .tick]

theorem exchanges_pollsTwice :
    (System.initial 1 "" ()).exchanges emptyWorld (sessionName 1) guest.client pollsTwice =
      [.produced (outputs "first"), .polled [(1, outputs "first")],
        .produced (outputs "second"), .polled [(1, outputs "first")]] := by
  rfl

/-- The first event is acknowledged, and the next poll gives the second. -/
def pollsAcknowledged : List (Action Unit) :=
  pollsTwice ++ [.serve (.uiAck (sessionName 1) 1), .handle .tick,
    .serve (.uiEvents (sessionName 1)), .handle .tick]

theorem exchanges_pollsAcknowledged :
    (System.initial 1 "" ()).exchanges emptyWorld (sessionName 1) guest.client pollsAcknowledged =
      [.produced (outputs "first"), .polled [(1, outputs "first")],
        .produced (outputs "second"), .polled [(1, outputs "first")], .acknowledged 1,
        .polled [(2, outputs "second")]] := by
  rfl

theorem ui_events_delivered_acknowledged :
    Window.Delivered ((System.initial 1 "" ()).exchanges emptyWorld (sessionName 1) guest.client
      pollsAcknowledged) := by
  have hspared : (System.initial 1 "" ()).SparedRun emptyWorld (sessionName 1) guest.client
      pollsAcknowledged := by
    refine ⟨trivial, trivial, fun other hhead => ?_, trivial, trivial, fun other hhead hother => ?_,
      trivial, trivial, fun other hhead hother => ?_, trivial, fun other hhead => ?_, trivial,
      fun other hhead hother => ?_, trivial⟩
    · cases hhead
    · cases hhead
      exact absurd rfl hother
    · cases hhead
      exact absurd rfl hother
    · cases hhead
    · cases hhead
      exact absurd rfl hother
  exact ui_events_delivered emptyWorld 1 "" () pollsAcknowledged (sessionName 1) guest.client rfl
    hspared (by decide) (by rw [exchanges_pollsAcknowledged]; decide)

/-- Every poll returns every event that is produced and not acknowledged. -/
def ReturnedAtOnce (exchanges : List (Exchange LocalClientUiEvent)) : Prop :=
  ∀ before batch after, exchanges = before ++ .polled batch :: after →
    ∀ (i : Nat) (event : LocalClientUiEvent), (Window.producedIn before)[i]? = some event →
      ¬ Window.Acked before (i + 1) → (i + 1, event) ∈ batch

theorem ui_events_wait :
    ¬ ∀ (history : List (Action Unit)) (session : String) (client : DatumId),
      ((System.initial 1 "" ()).run emptyWorld history).ipc.client? session = some client →
        ReturnedAtOnce
          ((System.initial 1 "" ()).exchanges emptyWorld session client history) := by
  intro h
  have hreturned := h pollsTwice (sessionName 1) guest.client rfl
    [.produced (outputs "first"), .polled [(1, outputs "first")], .produced (outputs "second")]
    [(1, outputs "first")] [] exchanges_pollsTwice 1 (outputs "second") rfl
  have hacked : ¬ Window.Acked
      [.produced (outputs "first"), .polled [(1, outputs "first")],
        .produced (outputs "second")] 2 := by
    rintro ⟨before, after, sequence, hsplit, -⟩
    have hmem : Exchange.acknowledged sequence ∈
        [.produced (outputs "first"), .polled [(1, outputs "first")],
          .produced (outputs "second")] := by
      rw [hsplit]
      simp
    simp at hmem
  exact absurd (hreturned hacked) (by decide)

end Dream64.Ipc
