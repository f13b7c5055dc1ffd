import Dream64.Vm.ProcedureLayout

/-!
# Threads, exception handlers and spawned frames

The frames of the interpreter as far as control flow goes: where each frame
is, its operand stack and locals, and the exception handlers that its
`BeginTry` instructions have pushed. What an instruction computes is a
parameter, `Effects`; which instruction runs next, and what becomes of the
handlers and the frames, is the model. A thread is one call stack with the
innermost frame first. Every interleaving of the threads is a run, those of the
scheduler among them: a `spawn` with a negative delay is the one that lets the
new thread run first.
-/

namespace Dream64.Vm

structure ExceptionHandler where
  start : Nat
  stop : Nat
  catchTarget : Nat
  local? : Option Nat
  stackDepth : Nat
deriving DecidableEq

/-- The top of the operand stack is its head; the last handler is the innermost. -/
structure CallFrame (V : Type) where
  procedure : ProcedureId
  instruction : Nat := 0
  stack : List V := []
  locals : List V
  exceptionHandlers : List ExceptionHandler := []
  callerResultOverride : Option V := none
  /-- The procedure, with its locals, that the engine runs after this frame. -/
  enginePostReturn : Option (ProcedureId × List V) := none
  /-- For the frame of a spawned body the `Spawn` instruction that made it, which the runtime does
  not keep. -/
  spawnedBy : Option Nat := none
deriving DecidableEq

/-- The last index whose element satisfies `p`. -/
def rposition {α : Type} (p : α → Bool) : List α → Option Nat
  | [] => none
  | a :: rest =>
    match rposition p rest with
    | some position => some (position + 1)
    | none => if p a then some 0 else none

section

variable {V : Type}

/-- A new frame for a procedure. -/
def CallFrame.entry (procedure : ProcedureId) (locals : List V) : CallFrame V where
  procedure := procedure
  locals := locals

def CallFrame.activeHandler (frame : CallFrame V) : Option Nat :=
  rposition (fun handler => decide (handler.start ≤ frame.instruction) &&
    decide (frame.instruction ≤ handler.stop)) frame.exceptionHandlers

/-- The innermost frame with a handler in range, and the handler's position in it. -/
def findActiveExceptionHandler : List (CallFrame V) → Option (Nat × Nat)
  | [] => none
  | frame :: callers =>
    match frame.activeHandler with
    | some position => some (0, position)
    | none => (findActiveExceptionHandler callers).map fun found => (found.1 + 1, found.2)

/-- Only the last `depth` entries of a stack are kept. -/
def truncateStack (depth : Nat) (stack : List V) : List V := stack.drop (stack.length - depth)

def deliverToExceptionHandler (frames : List (CallFrame V)) (location : Nat × Nat) (value : V) :
    Except String (List (CallFrame V)) :=
  match frames.drop location.1 with
  | [] => .error "no handler frame"
  | frame :: callers =>
    match frame.exceptionHandlers[location.2]? with
    | none => .error "no handler"
    | some handler => do
      let locals ← (match handler.local? with
        | none => .ok frame.locals
        | some slot =>
          if slot < frame.locals.length then .ok (frame.locals.set slot value)
          else .error s!"invalid catch local {slot}")
      return { frame with
        exceptionHandlers := (frame.exceptionHandlers.eraseIdx location.2).take location.2
        stack := truncateStack handler.stackDepth frame.stack
        locals := locals
        instruction := handler.catchTarget } :: callers

/-- The innermost frame returns; no frame is left when it was the last one. -/
def finishFrame (frames : List (CallFrame V)) (result : V) : List (CallFrame V) :=
  match frames with
  | [] => []
  | finished :: callers =>
    let result := finished.callerResultOverride.getD result
    match finished.enginePostReturn, callers with
    | some (procedure, locals), callers =>
      { CallFrame.entry procedure locals with callerResultOverride := some result } :: callers
    | none, [] => []
    | none, caller :: rest =>
      { caller with stack := result :: caller.stack, instruction := caller.instruction + 1 } :: rest

/-- `unwind_runtime_failure`: no frame is left when the failure ends the whole thread. The
compiler declares the slot of every catch, so a delivery does not fail. -/
def unwindRuntimeFailure (strict recoverable : Bool) (null caught : V)
    (frames : List (CallFrame V)) : List (CallFrame V) :=
  match (if recoverable then findActiveExceptionHandler frames else none) with
  | some location =>
    match deliverToExceptionHandler frames location caught with
    | .ok frames => frames
    | .error _ => []
  | none =>
    if !recoverable || strict || decide (frames.length < 2) then [] else finishFrame frames null

end

/-! ## Steps -/

/-- What one instruction does to the frame it runs in. -/
inductive Outcome (V : Type) where
  /-- It is done; the next instruction follows. -/
  | next (stack locals : List V)
  /-- Its jump is made. -/
  | taken (stack locals : List V)
  /-- It calls a procedure; `post` is what the engine runs when the callee has returned. -/
  | calls (stack : List V) (callee : ProcedureId) (locals : List V)
      (post : Option (ProcedureId × List V))
  | fails (stack locals : List V) (caught : V) (recoverable : Bool)
  /-- It ends its frame: the `CRASH` of the helper that logs a stack, or the index into null of a
  signal's dispatch. -/
  | ends

/-- What the machine takes from the runtime. -/
structure Effects (σ V : Type) where
  executes : Instruction → CallFrame V → σ → Outcome V → σ → Prop
  /-- Whether a spawn delay is a number. -/
  isNumber : V → Bool
  null : V
  /-- `DREAM64_STRICT_RUNTIMES` -/
  strict : Bool

/-- The instructions that run in their frame or call from it. -/
def Instruction.ordinary : Instruction → Bool
  | .beginTry .. | .endTry | .throw | .spawn _ | .ret | .jump _ => false
  | _ => true

/-- How far the next instruction is: a specialised loop header covers seven. -/
def Instruction.width : Instruction → Nat
  | .nextLocalListIteration .. => 7
  | _ => 1

/-- A call stack, the innermost frame first. -/
structure Thread (V : Type) where
  frames : List (CallFrame V)

inductive Event where
  | runs
  | raises (recoverable : Bool)
deriving DecidableEq

section

variable {σ V : Type} (R : Effects σ V) (code : ProcedureId → Code)

/-- One step of a thread, and the threads that are there after it. -/
inductive ThreadStep : Thread V → σ → Event → List (Thread V) → σ → Prop where
  | next {frame : CallFrame V} {callers : List (CallFrame V)} {s s' : σ} {i : Instruction}
      {stack locals : List V} :
      (code frame.procedure)[frame.instruction]? = some i → i.ordinary = true →
      R.executes i frame s (.next stack locals) s' →
      ThreadStep ⟨frame :: callers⟩ s .runs [⟨{ frame with
        stack := stack
        locals := locals
        instruction := frame.instruction + i.width } :: callers⟩] s'
  | taken {frame : CallFrame V} {callers : List (CallFrame V)} {s s' : σ} {i : Instruction}
      {target : Nat} {stack locals : List V} :
      (code frame.procedure)[frame.instruction]? = some i → i.ordinary = true →
      i.target? = some target → R.executes i frame s (.taken stack locals) s' →
      ThreadStep ⟨frame :: callers⟩ s .runs [⟨{ frame with
        stack := stack
        locals := locals
        instruction := target } :: callers⟩] s'
  | jump {frame : CallFrame V} {callers : List (CallFrame V)} {s : σ} {target : Nat} :
      (code frame.procedure)[frame.instruction]? = some (.jump target) →
      ThreadStep ⟨frame :: callers⟩ s .runs
        [⟨{ frame with instruction := target } :: callers⟩] s
  | calls {frame : CallFrame V} {callers : List (CallFrame V)} {s s' : σ} {i : Instruction}
      {stack locals : List V} {callee : ProcedureId}
      {post : Option (ProcedureId × List V)} :
      (code frame.procedure)[frame.instruction]? = some i → i.ordinary = true →
      R.executes i frame s (.calls stack callee locals post) s' →
      ThreadStep ⟨frame :: callers⟩ s .runs
        [⟨{ CallFrame.entry callee locals with enginePostReturn := post } ::
          { frame with stack := stack } :: callers⟩] s'
  | fails {frame : CallFrame V} {callers : List (CallFrame V)} {s s' : σ} {i : Instruction}
      {stack locals : List V} {caught : V} {recoverable : Bool} :
      (code frame.procedure)[frame.instruction]? = some i →
      R.executes i frame s (.fails stack locals caught recoverable) s' →
      ThreadStep ⟨frame :: callers⟩ s (.raises recoverable)
        [⟨unwindRuntimeFailure R.strict recoverable R.null caught
          ({ frame with stack := stack, locals := locals } :: callers)⟩] s'
  | beginTry {frame : CallFrame V} {callers : List (CallFrame V)} {s : σ} {catchTarget stop : Nat}
      {local? : Option Nat} :
      (code frame.procedure)[frame.instruction]? = some (.beginTry catchTarget stop local?) →
      catchTarget < (code frame.procedure).length → stop < (code frame.procedure).length →
      ThreadStep ⟨frame :: callers⟩ s .runs [⟨{ frame with
        exceptionHandlers := frame.exceptionHandlers ++
          [⟨frame.instruction + 1, stop, catchTarget, local?, frame.stack.length⟩]
        instruction := frame.instruction + 1 } :: callers⟩] s
  | endTry {frame : CallFrame V} {callers : List (CallFrame V)} {s : σ} :
      (code frame.procedure)[frame.instruction]? = some .endTry → frame.exceptionHandlers ≠ [] →
      ThreadStep ⟨frame :: callers⟩ s .runs [⟨{ frame with
        exceptionHandlers := frame.exceptionHandlers.dropLast
        instruction := frame.instruction + 1 } :: callers⟩] s
  | throw {frame : CallFrame V} {callers : List (CallFrame V)} {s : σ} {v : V} {rest : List V} :
      (code frame.procedure)[frame.instruction]? = some .throw → frame.stack = v :: rest →
      ThreadStep ⟨frame :: callers⟩ s (.raises true)
        [⟨unwindRuntimeFailure R.strict true R.null v ({ frame with stack := rest } :: callers)⟩] s
  | spawn {frame : CallFrame V} {callers : List (CallFrame V)} {s : σ} {entry : Nat} {v : V}
      {rest : List V} :
      (code frame.procedure)[frame.instruction]? = some (.spawn entry) → frame.stack = v :: rest →
      R.isNumber v = true →
      ThreadStep ⟨frame :: callers⟩ s .runs
        [⟨{ frame with stack := rest, instruction := frame.instruction + 1 } :: callers⟩,
          ⟨[{ frame with
            stack := []
            instruction := entry
            spawnedBy := some frame.instruction }]⟩] s
  | ret {frame : CallFrame V} {callers : List (CallFrame V)} {s : σ} {v : V} {rest : List V} :
      (code frame.procedure)[frame.instruction]? = some .ret → frame.stack = v :: rest →
      ThreadStep ⟨frame :: callers⟩ s .runs
        [⟨finishFrame ({ frame with stack := rest } :: callers) v⟩] s
  | crash {frame : CallFrame V} {callers : List (CallFrame V)} {s s' : σ} :
      (code frame.procedure)[frame.instruction]? = some .crash → R.executes .crash frame s .ends s' →
      ThreadStep ⟨frame :: callers⟩ s .runs [⟨finishFrame (frame :: callers) R.null⟩] s'
  /-- The frame of the signal is dropped, without what the engine runs after it. -/
  | signal {frame caller : CallFrame V} {callers : List (CallFrame V)} {s s' : σ} :
      (code frame.procedure)[frame.instruction]? = some .indexList →
      R.executes .indexList frame s .ends s' →
      ThreadStep ⟨frame :: caller :: callers⟩ s .runs
        [⟨{ caller with
          stack := R.null :: caller.stack
          instruction := caller.instruction + 1 } :: callers⟩] s'
  /-- A sleep in a procedure that does not wait: the callers go on as if it had returned. -/
  | detach {frame caller : CallFrame V} {detached callers : List (CallFrame V)}
      {s s' : σ} {stack locals : List V} {result : V} :
      (code frame.procedure)[frame.instruction]? = some .sleep →
      R.executes .sleep frame s (.next stack locals) s' →
      ThreadStep ⟨frame :: detached ++ caller :: callers⟩ s .runs
        [⟨{ frame with
          stack := stack
          locals := locals
          instruction := frame.instruction + 1 } :: detached⟩,
        ⟨{ caller with
          stack := result :: caller.stack
          instruction := caller.instruction + 1 } :: callers⟩] s'

structure System (σ V : Type) where
  threads : List (Thread V)
  state : σ

/-- One step of one thread, if `ok` lets it, or the start of a procedure by the host. -/
inductive System.Step (ok : Thread V → Event → Prop) : System σ V → System σ V → Prop where
  | thread {before after ts : List (Thread V)} {t : Thread V} {s s' : σ} {e : Event} :
      ThreadStep R code t s e ts s' → ok t e →
      Step ok ⟨before ++ t :: after, s⟩ ⟨before ++ ts ++ after, s'⟩
  | start {threads : List (Thread V)} {s s' : σ} (procedure : ProcedureId) (locals : List V) :
      Step ok ⟨threads, s⟩ ⟨⟨[.entry procedure locals]⟩ :: threads, s'⟩

/-- The states that runs reach whose steps all meet `ok`. -/
def System.Reachable (ok : Thread V → Event → Prop) (system : System σ V) : Prop :=
  ∃ s, Relation.ReflTransGen (System.Step R code ok) ⟨[], s⟩ system

variable {R code}

theorem System.Step.only {ok : Thread V → Event → Prop} {t : Thread V} {ts : List (Thread V)}
    {s s' : σ} {e : Event} (h : ThreadStep R code t s e ts s') (hok : ok t e) :
    System.Step R code ok ⟨[t], s⟩ ⟨ts, s'⟩ := by
  have hstep : System.Step R code ok ⟨[] ++ t :: [], s⟩ ⟨[] ++ ts ++ [], s'⟩ := .thread h hok
  rwa [List.append_nil] at hstep

theorem System.Step.second {ok : Thread V → Event → Prop} {first t : Thread V}
    {ts : List (Thread V)} {s s' : σ} {e : Event} (h : ThreadStep R code t s e ts s')
    (hok : ok t e) : System.Step R code ok ⟨[first, t], s⟩ ⟨first :: ts, s'⟩ := by
  have hstep : System.Step R code ok ⟨[first] ++ t :: [], s⟩ ⟨[first] ++ ts ++ [], s'⟩ :=
    .thread h hok
  rwa [List.append_nil] at hstep

theorem System.Step.mono {ok ok' : Thread V → Event → Prop} {system system' : System σ V}
    (h : System.Step R code ok system system') (hok : ∀ t e, ok t e → ok' t e) :
    System.Step R code ok' system system' := by
  cases h with
  | thread hstep ht => exact .thread hstep (hok _ _ ht)
  | start procedure locals => exact .start procedure locals

end

/-- The procedures of a module, each one compiled from its defaults and its body if it has one. -/
structure CompiledModule where
  source : ProcedureId → Option (Fragment × List Statement)
  code : ProcedureId → Code
  compiled (p : ProcedureId) : (source p).elim (code p = []) fun procedure =>
    compileProcedure procedure.1 procedure.2 = .ok (code p)

/-- Whether the instruction is the jump of a `break` or `continue`. -/
def CompiledModule.exits (M : CompiledModule) (p : ProcedureId) (pc : Nat) : Bool :=
  ((M.source p).bind fun procedure => (procedureDraft procedure.1 procedure.2).toOption).any
    fun draft => draft.exits 0 pc

/-!
# Properties of the frames of a run

Control flow sees of a frame where it is, its exception handlers and the spawn
it comes from. A property of that holds of every frame of every run if it holds
of a new frame and each way in which the machine moves a frame keeps it
(`FrameRule`, `System.Reachable.frames`). The jumps and the catches, which may
lead anywhere, are those of steps that the run lets happen.
-/

/-- What control flow sees of a frame. -/
structure Control where
  procedure : ProcedureId
  instruction : Nat
  handlers : List ExceptionHandler
  spawnedBy : Option Nat

/-- The same frame at another instruction. -/
def Control.goto (c : Control) (instruction : Nat) : Control := { c with instruction := instruction }

section

variable {σ V : Type} {R : Effects σ V} {code : ProcedureId → Code} {ok : Thread V → Event → Prop}
  {P : Control → Prop} {frame frame' : CallFrame V} {frames callers : List (CallFrame V)}

def CallFrame.control (frame : CallFrame V) : Control where
  procedure := frame.procedure
  instruction := frame.instruction
  handlers := frame.exceptionHandlers
  spawnedBy := frame.spawnedBy

/-- A frame that waits for the frame above it is at an instruction that calls. -/
def CallFrame.AtCall (code : ProcedureId → Code) (frame : CallFrame V) : Prop :=
  ∃ i, (code frame.procedure)[frame.instruction]? = some i ∧ i.ordinary = true

structure FrameRule (code : ProcedureId → Code) (ok : Thread V → Event → Prop)
    (P : Control → Prop) : Prop where
  entry (procedure : ProcedureId) : P ⟨procedure, 0, [], none⟩
  next {c : Control} {i : Instruction} : P c → (code c.procedure)[c.instruction]? = some i →
    i.ordinary = true → P (c.goto (c.instruction + i.width))
  /-- A frame that has called goes on behind the call. -/
  resume {c : Control} {i : Instruction} : P c → (code c.procedure)[c.instruction]? = some i →
    i.ordinary = true → P (c.goto (c.instruction + 1))
  taken {c : Control} {i : Instruction} {target : Nat} : P c →
    (code c.procedure)[c.instruction]? = some i → i.ordinary = true → i.target? = some target →
    P (c.goto target)
  beginTry {c : Control} {catchTarget stop depth : Nat} {local? : Option Nat} : P c →
    (code c.procedure)[c.instruction]? = some (.beginTry catchTarget stop local?) →
    P { c.goto (c.instruction + 1) with
      handlers := c.handlers ++ [⟨c.instruction + 1, stop, catchTarget, local?, depth⟩] }
  endTry {c : Control} : P c → (code c.procedure)[c.instruction]? = some .endTry →
    P { c.goto (c.instruction + 1) with handlers := c.handlers.dropLast }
  spawn {c : Control} {entry : Nat} : P c →
    (code c.procedure)[c.instruction]? = some (.spawn entry) →
    P (c.goto (c.instruction + 1)) ∧ P { c.goto entry with spawnedBy := some c.instruction }
  jump {e : Event} {frame : CallFrame V} {callers : List (CallFrame V)} {target : Nat} :
    ok ⟨frame :: callers⟩ e → P frame.control →
    (code frame.procedure)[frame.instruction]? = some (.jump target) → P (frame.control.goto target)
  caught {t : Thread V} {frame : CallFrame V} {handler : ExceptionHandler} {i position : Nat} :
    ok t (.raises true) → (∀ frame ∈ t.frames, P frame.control) →
    findActiveExceptionHandler t.frames = some (i, position) → t.frames[i]? = some frame →
    frame.exceptionHandlers[position]? = some handler →
    P { frame.control.goto handler.catchTarget with
      handlers := frame.exceptionHandlers.take position }

/-- `P` holds of the frames, and those that wait do so at a call. -/
structure FramesHold (code : ProcedureId → Code) (P : Control → Prop)
    (frames : List (CallFrame V)) : Prop where
  holds : ∀ frame ∈ frames, P frame.control
  waiting : ∀ frame ∈ frames.tail, frame.AtCall code

namespace FramesHold

theorem nil : FramesHold code P ([] : List (CallFrame V)) :=
  ⟨fun _ hf => (nomatch hf), fun _ hf => (nomatch hf)⟩

theorem replace (h : FramesHold code P (frame :: callers)) (hframe : P frame'.control) :
    FramesHold code P (frame' :: callers) := by
  refine ⟨fun f hf => ?_, h.waiting⟩
  rcases List.mem_cons.1 hf with rfl | hf
  · exact hframe
  · exact h.holds f (List.mem_cons_of_mem _ hf)

theorem tail (h : FramesHold code P (frame :: callers)) : FramesHold code P callers :=
  ⟨fun f hf => h.holds f (List.mem_cons_of_mem _ hf),
    fun f hf => h.waiting f (List.mem_of_mem_tail hf)⟩

theorem drop (h : FramesHold code P frames) (n : Nat) : FramesHold code P (frames.drop n) := by
  induction n generalizing frames with
  | zero => exact h
  | succ n ih =>
    cases frames with
    | nil => exact h
    | cons frame frames => exact ih h.tail

/-- The frame above returns. -/
theorem resume (rule : FrameRule code ok P) {caller : CallFrame V} {stack : List V}
    (h : FramesHold code P (caller :: callers)) (hcall : caller.AtCall code) :
    FramesHold code P ({ caller with
      stack := stack
      instruction := caller.instruction + 1 } :: callers) := by
  obtain ⟨i, hi, hordinary⟩ := hcall
  exact h.replace (rule.resume (h.holds caller List.mem_cons_self) hi hordinary)

theorem finishFrame {result : V} (rule : FrameRule code ok P) (h : FramesHold code P frames) :
    FramesHold code P (finishFrame frames result) := by
  cases frames with
  | nil => exact h
  | cons finished callers =>
    cases hpost : finished.enginePostReturn with
    | some post =>
      simp only [Vm.finishFrame, hpost]
      exact h.replace (rule.entry post.1)
    | none =>
      cases callers with
      | nil =>
        simp only [Vm.finishFrame, hpost]
        exact nil
      | cons caller rest =>
        simp only [Vm.finishFrame, hpost]
        exact h.tail.resume rule (h.waiting caller List.mem_cons_self)

theorem deliver {t : Thread V} {i position : Nat} {value : V} {delivered : List (CallFrame V)}
    (rule : FrameRule code ok P) (h : FramesHold code P frames)
    (hcontrol : t.frames.map CallFrame.control = frames.map CallFrame.control)
    (hok : ok t (.raises true)) (hfind : findActiveExceptionHandler t.frames = some (i, position))
    (hdeliver : deliverToExceptionHandler frames (i, position) value = .ok delivered) :
    FramesHold code P delivered := by
  have hholds : ∀ f ∈ t.frames, P f.control := by
    intro f hf
    have hmem : f.control ∈ frames.map CallFrame.control := by
      rw [← hcontrol]
      exact List.mem_map_of_mem hf
    obtain ⟨f', hf', hc⟩ := List.mem_map.1 hmem
    rw [← hc]
    exact h.holds f' hf'
  have hrest := h.drop i
  have hget : frames[i]? = (frames.drop i)[0]? := by simp
  unfold deliverToExceptionHandler at hdeliver
  cases hdrop : frames.drop i with
  | nil =>
    simp only [hdrop] at hdeliver
    cases hdeliver
  | cons frame callers =>
    rw [hdrop] at hrest hget
    cases hhandler : frame.exceptionHandlers[position]? with
    | none =>
      simp only [hdrop, hhandler] at hdeliver
      cases hdeliver
    | some handler =>
      simp only [hdrop, hhandler, Except.bind_eq_ok, Except.pure_eq_ok] at hdeliver
      obtain ⟨locals, -, rfl⟩ := hdeliver
      have hsame := congrArg (fun l => l[i]?) hcontrol
      simp only [List.getElem?_map, hget, List.getElem?_cons_zero, Option.map_some,
        Option.map_eq_some_iff] at hsame
      obtain ⟨frame₀, hframe₀, hc⟩ := hsame
      have hhandlers : frame₀.exceptionHandlers = frame.exceptionHandlers :=
        congrArg Control.handlers hc
      rw [← hhandlers] at hhandler
      have hcaught := rule.caught hok hholds hfind hframe₀ hhandler
      rw [hc, hhandlers, ← List.take_eraseIdx_eq_take_of_le _ _ _ le_rfl] at hcaught
      exact hrest.replace hcaught

/-- The instruction that fails may have changed the stack and the locals of its frame. -/
theorem unwind {strict recoverable : Bool} {null value : V} {stack locals : List V}
    (rule : FrameRule code ok P) (h : FramesHold code P (frame :: callers))
    (hok : ok ⟨frame :: callers⟩ (.raises recoverable)) :
    FramesHold code P (unwindRuntimeFailure strict recoverable null value
      ({ frame with
        stack := stack
        locals := locals } :: callers)) := by
  have hfailed : FramesHold code P ({ frame with
      stack := stack
      locals := locals } :: callers) := h.replace (h.holds frame List.mem_cons_self)
  unfold unwindRuntimeFailure
  cases recoverable with
  | false =>
    simp only [Bool.false_eq_true, if_false, Bool.not_false, Bool.true_or, if_true]
    exact nil
  | true =>
    simp only [if_true]
    cases hfind : findActiveExceptionHandler ({ frame with
        stack := stack
        locals := locals } :: callers) with
    | none =>
      simp only
      split
      · exact nil
      · exact hfailed.finishFrame rule
    | some location =>
      simp only
      cases hdeliver : deliverToExceptionHandler ({ frame with
          stack := stack
          locals := locals } :: callers) location value with
      | error e => exact nil
      | ok delivered => exact hfailed.deliver (t := ⟨frame :: callers⟩) rule rfl hok hfind hdeliver

end FramesHold

/-! ## Steps and runs -/

theorem ThreadStep.framesHold {t t' : Thread V} {ts : List (Thread V)} {s s' : σ} {e : Event}
    (rule : FrameRule code ok P) (hstep : ThreadStep R code t s e ts s') (hok : ok t e)
    (h : FramesHold code P t.frames) (ht' : t' ∈ ts) : FramesHold code P t'.frames := by
  cases hstep with
  | @next frame callers s s' i stack locals hi hordinary _ =>
    cases List.mem_singleton.1 ht'
    exact h.replace (rule.next (h.holds frame List.mem_cons_self) hi hordinary)
  | @taken frame callers s s' i target stack locals hi hordinary htarget _ =>
    cases List.mem_singleton.1 ht'
    exact h.replace (rule.taken (h.holds frame List.mem_cons_self) hi hordinary htarget)
  | @jump frame callers s target hi =>
    cases List.mem_singleton.1 ht'
    exact h.replace (rule.jump hok (h.holds frame List.mem_cons_self) hi)
  | @calls frame callers s s' i stack locals callee post hi hordinary _ =>
    cases List.mem_singleton.1 ht'
    refine ⟨fun f hf => ?_, fun f hf => ?_⟩
    · rcases List.mem_cons.1 hf with rfl | hf
      · exact rule.entry callee
      · rcases List.mem_cons.1 hf with rfl | hf
        · exact h.holds frame List.mem_cons_self
        · exact h.holds f (List.mem_cons_of_mem _ hf)
    · rcases List.mem_cons.1 hf with rfl | hf
      · exact ⟨i, hi, hordinary⟩
      · exact h.waiting f hf
  | @fails frame callers s s' i stack locals caught recoverable hi _ =>
    cases List.mem_singleton.1 ht'
    exact h.unwind rule hok
  | @beginTry frame callers s c stop l hi _ _ =>
    cases List.mem_singleton.1 ht'
    exact h.replace (rule.beginTry (h.holds frame List.mem_cons_self) hi)
  | @endTry frame callers s hi _ =>
    cases List.mem_singleton.1 ht'
    exact h.replace (rule.endTry (h.holds frame List.mem_cons_self) hi)
  | @throw frame callers s v rest hi _ =>
    cases List.mem_singleton.1 ht'
    exact h.unwind rule hok
  | @spawn frame callers s entry v rest hi _ _ =>
    obtain ⟨hparent, hspawned⟩ := rule.spawn (h.holds frame List.mem_cons_self) hi
    rcases List.mem_cons.1 ht' with rfl | ht'
    · exact h.replace hparent
    · cases List.mem_singleton.1 ht'
      refine ⟨fun f hf => ?_, fun f hf => (nomatch hf)⟩
      cases List.mem_singleton.1 hf
      exact hspawned
  | @ret frame callers s v rest hi _ =>
    cases List.mem_singleton.1 ht'
    exact (h.replace (h.holds frame List.mem_cons_self)).finishFrame rule
  | @crash frame callers s s' hi _ =>
    cases List.mem_singleton.1 ht'
    exact h.finishFrame rule
  | @signal frame caller callers s s' hi _ =>
    cases List.mem_singleton.1 ht'
    exact h.tail.resume rule (h.waiting caller List.mem_cons_self)
  | @detach frame caller detached callers s s' stack locals result hi _ =>
    have hcaller : FramesHold code P (caller :: callers) := by
      have hdrop := h.drop (frame :: detached).length
      rwa [List.drop_left] at hdrop
    rcases List.mem_cons.1 ht' with rfl | ht'
    · refine ⟨fun f hf => ?_, fun f hf => h.waiting f (List.mem_append_left _ hf)⟩
      rcases List.mem_cons.1 hf with rfl | hf
      · exact rule.next (i := .sleep) (h.holds frame (by simp)) hi rfl
      · exact h.holds f (by simp [hf])
    · cases List.mem_singleton.1 ht'
      exact hcaller.resume rule (h.waiting caller (by simp))

/-- The frames of every thread of a run. -/
theorem System.Reachable.framesHold {system : System σ V} (rule : FrameRule code ok P)
    (h : System.Reachable R code ok system) : ∀ t ∈ system.threads, FramesHold code P t.frames := by
  obtain ⟨s, hrun⟩ := h
  induction hrun with
  | refl => exact fun _ ht => (nomatch ht)
  | tail _ hstep ih =>
    cases hstep with
    | @thread before after ts t s s' e hthread hok =>
      intro t' ht'
      rcases List.mem_append.1 ht' with ht' | ht'
      · rcases List.mem_append.1 ht' with ht' | ht'
        · exact ih t' (by simp [ht'])
        · exact hthread.framesHold rule hok (ih t (by simp)) ht'
      · exact ih t' (by simp [ht'])
    | start procedure locals =>
      intro t' ht'
      rcases List.mem_cons.1 ht' with rfl | ht'
      · refine ⟨fun f hf => ?_, fun f hf => (nomatch hf)⟩
        cases List.mem_singleton.1 hf
        exact rule.entry procedure
      · exact ih t' ht'

end

end Dream64.Vm
