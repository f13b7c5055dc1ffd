import Dream64.Bytecode.RoundTrip
import Dream64.Bytecode.WordcodeFits
import Dream64.Vm.Threads

/-!
# Dispatch through the words

One turn of the run loop, with an attached word image or without one. The fast
instructions of the image do what their rich instructions do; but when one of
them lacks its operand, the failure is given back at once, and the rich dispatch
hands it to a handler or to the caller first.
-/

namespace Dream64.Bytecode

open Vm (ExceptionHandler rposition truncateStack)

/-- One source-mapped procedure in a runtime error's call stack. -/
structure CallTrace where
  procedure : String
  instruction : Nat
  sourceSpan : Option SourceSpan

structure RuntimeError where
  message : String
  instruction : Nat
  sourceSpan : Option SourceSpan
  /-- From the entry point through the failing frame. -/
  callStack : List CallTrace
  recoverable : Bool

/-- The top of the operand stack is its head; the last handler is the innermost. -/
structure CallFrame (V : Type) where
  procedure : ProcedureId
  instruction : Nat
  locals : List V
  stack : List V
  result : V
  src : V
  usr : V
  exceptionHandlers : List ExceptionHandler
  callerResultOverride : Option V
  /-- The frame that the engine runs after this one. -/
  enginePostReturn : Option (CallFrame V)

/-- How a turn of the run loop ends; `ω` is what the run as a whole may end with. -/
inductive Turn (σ V ω : Type) where
  | goesOn (frames : List (CallFrame V)) (state : σ)
  | exits (outcome : ω) (state : σ)
  | fails (error : RuntimeError) (state : σ)

/-- What the loop takes from the runtime. -/
structure Engine (σ V ω : Type) where
  null : V
  /-- `Value::text` -/
  text : String → V
  /-- `canonicalize_value` on the heap of the state -/
  canonicalize : σ → V → V
  /-- `DREAM64_STRICT_RUNTIMES` -/
  strict : Bool
  /-- `FrameRunOutcome::Complete` -/
  complete : V → ω
  /-- The turn of an instruction that no word stands for. -/
  dispatchOther : Instruction → List (CallFrame V) → σ → Turn σ V ω

section

variable {σ V ω : Type} (R : Engine σ V ω) (module : Module)

/-! ## Failures -/

def sourceSpan (procedure : ProcedureId) (pc : Nat) : Option SourceSpan := do
  let program ← module.procedures[procedure.toNat]?
  program.sourceSpans[pc]?

def trace (frame : CallFrame V) : CallTrace where
  procedure := module.paths[frame.procedure.toNat]?.getD "<invalid procedure>"
  instruction := frame.instruction
  sourceSpan := sourceSpan module frame.procedure frame.instruction

/-- The innermost frame is the first. -/
def executionError (frames : List (CallFrame V)) (message : String) : RuntimeError where
  message := message
  instruction := (frames.head?.map CallFrame.instruction).getD 0
  sourceSpan := frames.head?.bind fun frame => sourceSpan module frame.procedure frame.instruction
  callStack := frames.reverse.map (trace module)
  recoverable := true

def CallFrame.activeHandler (frame : CallFrame V) : Option Nat :=
  rposition (fun handler => decide (handler.start ≤ frame.instruction) &&
    decide (frame.instruction ≤ handler.stop)) frame.exceptionHandlers

def findActiveExceptionHandler : List (CallFrame V) → Option (Nat × Nat)
  | [] => none
  | frame :: callers =>
    match frame.activeHandler with
    | some position => some (0, position)
    | none => (findActiveExceptionHandler callers).map fun found => (found.1 + 1, found.2)

/-- `deliver_to_exception_handler`, with the frames as it leaves them. -/
def deliverToExceptionHandler (frames : List (CallFrame V)) (location : Nat × Nat) (value : V) :
    List (CallFrame V) × Except String Unit :=
  match frames.drop location.1 with
  | [] => ([], .error "no handler frame")
  | frame :: callers =>
    match frame.exceptionHandlers[location.2]? with
    | none => (frame :: callers, .error "no handler")
    | some handler =>
      let frame := { frame with
        exceptionHandlers := (frame.exceptionHandlers.eraseIdx location.2).take location.2
        stack := truncateStack handler.stackDepth frame.stack }
      match handler.local? with
      | none => ({ frame with instruction := handler.catchTarget } :: callers, .ok ())
      | some slot =>
        if slot < frame.locals.length then
          ({ frame with
            locals := frame.locals.set slot value
            instruction := handler.catchTarget } :: callers, .ok ())
        else (frame :: callers, .error s!"invalid catch local {slot}")

/-- The innermost frame returns. -/
def finishFrame (frames : List (CallFrame V)) (result : V) (state : σ) : Turn σ V ω :=
  match frames with
  | [] => .goesOn [] state
  | finished :: callers =>
    let result := finished.callerResultOverride.getD result
    match finished.enginePostReturn, callers with
    | some postReturn, callers =>
      .goesOn ({ postReturn with callerResultOverride := some result } :: callers) state
    | none, [] => .exits (R.complete result) state
    | none, caller :: rest =>
      .goesOn ({ caller with
        stack := result :: caller.stack
        instruction := caller.instruction + 1 } :: rest) state

def unwindRuntimeFailure (frames : List (CallFrame V)) (caught : V) (fatal : RuntimeError)
    (state : σ) : Turn σ V ω :=
  match (if fatal.recoverable then findActiveExceptionHandler frames else none) with
  | some location =>
    match deliverToExceptionHandler frames location caught with
    | (frames, .ok _) => .goesOn frames state
    | (frames, .error message) => .fails (executionError module frames message) state
  | none =>
    if !fatal.recoverable || R.strict || decide (frames.length < 2) then .fails fatal state
    else finishFrame R frames R.null state

/-! ## Instructions -/

def stackUnderflow : String := "bytecode stack underflow"

def pop : List V → Except String (V × List V)
  | [] => .error stackUnderflow
  | value :: stack => .ok (value, stack)

def CallFrame.next (frame : CallFrame V) : CallFrame V :=
  { frame with instruction := frame.instruction + 1 }

/-- `execute_compact_fast_instruction` -/
def executeCompactFastInstruction (op : CompactFastInstruction) (frame : CallFrame V) (state : σ) :
    Except String (CallFrame V) :=
  match op with
  | .pushNull => .ok { frame with stack := R.null :: frame.stack }
  | .loadSrc => .ok { frame with stack := R.canonicalize state frame.src :: frame.stack }
  | .storeSrc => do
    let (src, stack) ← pop frame.stack
    return { frame with src := src, stack := stack }
  | .loadUsr => .ok { frame with stack := R.canonicalize state frame.usr :: frame.stack }
  | .storeUsr => do
    let (usr, stack) ← pop frame.stack
    return { frame with usr := usr, stack := stack }
  | .loadResult => .ok { frame with stack := frame.result :: frame.stack }
  | .storeResult => do
    let (result, stack) ← pop frame.stack
    return { frame with result := result, stack := stack }
  | .pop => do
    let (_, stack) ← pop frame.stack
    return { frame with stack := stack }
  | .duplicate =>
    match frame.stack.head? with
    | none => .error stackUnderflow
    | some value => .ok { frame with stack := value :: frame.stack }

/-- The arms of `dispatch_instruction` for the instructions with a fast counterpart; the text of a
failure is the error's message. -/
def dispatchArm (frame : CallFrame V) (state : σ) : Instruction → Option (Except String (CallFrame V))
  | .pushNull => some (.ok { frame with stack := R.null :: frame.stack })
  | .loadSrc =>
    let src := R.canonicalize state frame.src
    some (.ok { frame with stack := src :: frame.stack })
  | .storeSrc =>
    match pop frame.stack with
    | .ok (src, stack) => some (.ok { frame with stack := stack, src := src })
    | .error message => some (.error message)
  | .loadUsr =>
    let usr := R.canonicalize state frame.usr
    some (.ok { frame with stack := usr :: frame.stack })
  | .storeUsr =>
    match pop frame.stack with
    | .ok (value, stack) => some (.ok { frame with stack := stack, usr := value })
    | .error message => some (.error message)
  | .loadResult => some (.ok { frame with stack := frame.result :: frame.stack })
  | .storeResult =>
    match pop frame.stack with
    | .ok (value, stack) => some (.ok { frame with stack := stack, result := value })
    | .error message => some (.error message)
  | .pop =>
    match pop frame.stack with
    | .ok (_, stack) => some (.ok { frame with stack := stack })
    | .error message => some (.error message)
  | .duplicate =>
    match frame.stack with
    | [] => some (.error stackUnderflow)
    | value :: stack => some (.ok { frame with stack := value :: value :: stack })
  | _ => none

/-- The rich dispatch of an instruction: its failure goes through the unwinding. -/
def dispatchRich (i : Instruction) (frame : CallFrame V) (callers : List (CallFrame V)) (state : σ) :
    Turn σ V ω :=
  match dispatchArm R frame state i with
  | none => R.dispatchOther i (frame :: callers) state
  | some (.ok frame) => .goesOn (frame.next :: callers) state
  | some (.error message) =>
    unwindRuntimeFailure R module (frame :: callers) (R.text message)
      (executionError module (frame :: callers) message) state

/-- The fast instruction at the position of a frame. -/
def fastAt (image : Option CompactWordcodeImage) (frame : CallFrame V) :
    Option CompactFastInstruction :=
  image.bind fun image => (image.word frame.procedure frame.instruction).bind fastInstruction

/-- One turn of the loop from the resolution of the instruction on. -/
def turn (image : Option CompactWordcodeImage) (frames : List (CallFrame V)) (state : σ) :
    Turn σ V ω :=
  match frames with
  | [] => .goesOn [] state
  | frame :: callers =>
    match module.instruction frame.procedure frame.instruction with
    | none => .fails (executionError module (frame :: callers) "program ended without Return") state
    | some i =>
      match fastAt image frame with
      | none => dispatchRich R module i frame callers state
      | some op =>
        match executeCompactFastInstruction R op frame state with
        | .ok frame => .goesOn (frame.next :: callers) state
        | .error message => .fails (executionError module (frame :: callers) message) state

/-- So many turns, or fewer when the run ends before. -/
def turns (image : Option CompactWordcodeImage) : Nat → List (CallFrame V) → σ → Turn σ V ω
  | 0, frames, state => .goesOn frames state
  | count + 1, frames, state =>
    match turn R module image frames state with
    | .goesOn frames state => turns image count frames state
    | ended => ended

/-! ## The two dispatches -/

def CompactFastInstruction.takesOperand : CompactFastInstruction → Bool
  | .storeSrc | .storeUsr | .storeResult | .pop | .duplicate => true
  | _ => false

/-- A fast instruction that lacks its operand in a frame whose failure somebody would take: a handler
in range, or a caller where failures are not fatal. -/
def Diverts (image : CompactWordcodeImage) (frames : List (CallFrame V)) : Prop :=
  ∃ frame callers op, frames = frame :: callers ∧
    (module.instruction frame.procedure frame.instruction).isSome = true ∧
    fastAt (some image) frame = some op ∧ op.takesOperand = true ∧ frame.stack = [] ∧
    ((findActiveExceptionHandler frames).isSome = true ∨ (R.strict = false ∧ callers ≠ []))

/-- The arm of the rich instruction does what the fast instruction does. -/
theorem dispatchArm_instruction (op : CompactFastInstruction) (frame : CallFrame V) (state : σ) :
    dispatchArm R frame state op.instruction = some (executeCompactFastInstruction R op frame state) := by
  obtain ⟨procedure, instruction, locals, stack, result, src, usr, handlers, override, post⟩ := frame
  cases op <;> first | rfl | (cases stack <;> rfl)

/-- A fast instruction fails only for want of its operand. -/
theorem executeCompactFastInstruction_eq_error {op : CompactFastInstruction} {frame : CallFrame V}
    {state : σ} {message : String} :
    executeCompactFastInstruction R op frame state = .error message ↔
      (op.takesOperand = true ∧ frame.stack = []) ∧ message = stackUnderflow := by
  obtain ⟨procedure, instruction, locals, stack, result, src, usr, handlers, override, post⟩ := frame
  cases op <;> cases stack <;>
    simp [executeCompactFastInstruction, CompactFastInstruction.takesOperand, pop, bind, Except.bind,
      pure, Except.pure, eq_comm]

/-- No failure of a delivery is about the operand stack. -/
theorem deliverToExceptionHandler_error {frames frames' : List (CallFrame V)} {location : Nat × Nat}
    {value : V} {message : String}
    (h : deliverToExceptionHandler frames location value = (frames', .error message)) :
    message ≠ stackUnderflow := by
  unfold deliverToExceptionHandler at h
  split at h
  · cases h
    decide
  · split at h
    · cases h
      decide
    · dsimp only at h
      split at h
      · cases h
      · split at h
        · cases h
        · cases h
          intro heq
          have hfirst := congrArg (fun text => text.toList.head?) heq
          rw [String.toList_append, List.head?_append] at hfirst
          exact absurd (Option.some.inj hfirst) (by decide)

theorem finishFrame_ne_fails {frames : List (CallFrame V)} {result : V} {state state' : σ}
    {error : RuntimeError} : finishFrame R frames result state ≠ .fails error state' := by
  unfold finishFrame
  split
  · exact nofun
  · split <;> exact nofun

/-- An operand's absence comes out of the unwinding where nobody takes it. -/
theorem unwind_eq_fails_iff (frames : List (CallFrame V)) (caught : V) (state : σ) :
    unwindRuntimeFailure R module frames caught (executionError module frames stackUnderflow) state =
        .fails (executionError module frames stackUnderflow) state ↔
      ¬ ((findActiveExceptionHandler frames).isSome = true ∨
        (R.strict = false ∧ 2 ≤ frames.length)) := by
  have hrecoverable : (executionError module frames stackUnderflow).recoverable = true := rfl
  unfold unwindRuntimeFailure
  rw [if_pos hrecoverable]
  cases hhandler : findActiveExceptionHandler frames with
  | some location =>
    refine iff_of_false ?_ (not_not.2 (Or.inl rfl))
    dsimp only
    split
    · exact nofun
    · rename_i message hdeliver
      intro heq
      have hmessage := congrArg RuntimeError.message (Turn.fails.inj heq).1
      exact deliverToExceptionHandler_error hdeliver hmessage
  | none =>
    rw [hrecoverable, Bool.not_true, Bool.false_or]
    dsimp only
    by_cases htaken : R.strict = false ∧ 2 ≤ frames.length
    · have hneg : ¬ (R.strict || decide (frames.length < 2)) = true := by
        rw [htaken.1, Bool.false_or, decide_eq_true_iff]
        exact Nat.not_lt.2 htaken.2
      rw [if_neg hneg]
      exact iff_of_false (finishFrame_ne_fails R) (not_not.2 (Or.inr htaken))
    · have hpos : (R.strict || decide (frames.length < 2)) = true := by
        rw [Bool.or_eq_true, decide_eq_true_iff]
        cases hstrict : R.strict with
        | true => exact Or.inl rfl
        | false => exact Or.inr (Nat.not_le.1 fun hle => htaken ⟨hstrict, hle⟩)
      rw [if_pos hpos]
      exact iff_of_true rfl (by simpa using htaken)

/-- A turn with the image is the turn without it where no missing operand is diverted. -/
theorem turn_eq_iff {image : CompactWordcodeImage} (h : image.validateAgainst module = .ok ())
    (frames : List (CallFrame V)) (state : σ) :
    turn R module (some image) frames state = turn R module none frames state ↔
      ¬ Diverts R module image frames := by
  cases frames with
  | nil => exact iff_of_true rfl fun ⟨_, _, _, heq, _⟩ => by cases heq
  | cons frame callers =>
    simp only [turn]
    cases hi : module.instruction frame.procedure frame.instruction with
    | none =>
      refine iff_of_true rfl ?_
      rintro ⟨frame', callers', op, heq, hsome, -⟩
      cases heq
      rw [hi] at hsome
      cases hsome
    | some i =>
      have hnone : fastAt none frame = none := rfl
      simp only [hnone]
      cases hop : fastAt (some image) frame with
      | none =>
        refine iff_of_true rfl ?_
        rintro ⟨frame', callers', op, heq, -, hfast, -⟩
        cases heq
        rw [hop] at hfast
        cases hfast
      | some op =>
        have hdenotes := CompactWordcodeImage.instruction_of_fastInstruction h hop
        rw [hi] at hdenotes
        obtain rfl := Option.some.inj hdenotes
        have hdiverts : Diverts R module image (frame :: callers) ↔
            (op.takesOperand = true ∧ frame.stack = []) ∧
              ((findActiveExceptionHandler (frame :: callers)).isSome = true ∨
                (R.strict = false ∧ callers ≠ [])) := by
          constructor
          · rintro ⟨frame', callers', op', heq, -, hfast, htakes, hstack, htaken⟩
            cases heq
            rw [hop] at hfast
            cases hfast
            exact ⟨⟨htakes, hstack⟩, htaken⟩
          · rintro ⟨⟨htakes, hstack⟩, htaken⟩
            exact ⟨frame, callers, op, rfl, by rw [hi]; rfl, hop, htakes, hstack, htaken⟩
        have hlength : callers ≠ [] ↔ 2 ≤ (frame :: callers).length := by
          rw [List.length_cons, ← List.length_pos_iff]
          omega
        rw [dispatchRich, dispatchArm_instruction, hdiverts, hlength]
        dsimp only
        cases hexecute : executeCompactFastInstruction R op frame state with
        | ok next =>
          refine iff_of_true rfl fun hmissing => ?_
          have herror : executeCompactFastInstruction R op frame state = .error stackUnderflow :=
            (executeCompactFastInstruction_eq_error R).2 ⟨hmissing.1, rfl⟩
          rw [hexecute] at herror
          cases herror
        | error message =>
          obtain ⟨hmissing, rfl⟩ := (executeCompactFastInstruction_eq_error R).1 hexecute
          rw [eq_comm, unwind_eq_fails_iff, and_iff_right hmissing]

/-- A run with the image is the run without it where no missing operand is diverted on the way. -/
theorem turns_eq {image : CompactWordcodeImage} (h : image.validateAgainst module = .ok ())
    (count : Nat) (frames : List (CallFrame V)) (state : σ)
    (hruns : ∀ k < count, ∀ frames' state',
      turns R module none k frames state = .goesOn frames' state' →
        ¬ Diverts R module image frames') :
    turns R module (some image) count frames state = turns R module none count frames state := by
  induction count generalizing frames state with
  | zero => rfl
  | succ count ih =>
    have hturn := (turn_eq_iff R module h frames state).2 (hruns 0 (Nat.succ_pos _) frames state rfl)
    rw [turns, turns, hturn]
    cases hnext : turn R module none frames state with
    | exits outcome state' => rfl
    | fails error state' => rfl
    | goesOn next state' =>
      refine ih next state' fun k hk frames' state'' hrun => ?_
      refine hruns (k + 1) (Nat.succ_lt_succ hk) frames' state'' ?_
      rw [turns, hnext]
      exact hrun

/-- The image of a module is a second representation of it, and dispatch through it differs from the
rich one exactly where a missing operand is diverted. -/
theorem wordcode_represents (image : CompactWordcodeImage) :
    (CompactWordcodeImage.build module = .ok image → image.validateAgainst module = .ok ()) ∧
    (module.WordcodeFits → ∃ built, CompactWordcodeImage.build module = .ok built) ∧
    (validateImage image = .ok () → ∃ bytes, image.encode = .ok bytes) ∧
    (∀ bytes, CompactWordcodeImage.decode bytes = .ok image ↔ image.encode = .ok bytes) ∧
    (image.validateAgainst module = .ok () →
      (∀ procedure pc op, (image.word procedure pc).bind fastInstruction = some op →
        module.instruction procedure pc = some op.instruction) ∧
      (∀ (frames : List (CallFrame V)) (state : σ),
        turn R module (some image) frames state = turn R module none frames state ↔
          ¬ Diverts R module image frames) ∧
      (∀ (count : Nat) (frames : List (CallFrame V)) (state : σ),
        (∀ k < count, ∀ frames' state', turns R module none k frames state = .goesOn frames' state' →
          ¬ Diverts R module image frames') →
        turns R module (some image) count frames state =
          turns R module none count frames state)) := by
  refine ⟨validateAgainst_of_build, build_eq_ok_of_fits, fun h => ?_,
    fun bytes => CompactWordcodeImage.decode_eq_ok, fun h => ⟨fun _ _ _ hop => ?_,
      turn_eq_iff R module h, turns_eq R module h⟩⟩
  · exact ⟨image.write, CompactWordcodeImage.encode_eq_ok.2
      ⟨CompactWordcodeImage.validateImage_eq_ok.1 h, rfl⟩⟩
  · exact CompactWordcodeImage.instruction_of_fastInstruction h hop

end

/-- A procedure that calls another one, which pops from an empty stack. -/
def poppingModule : Module :=
  { returnNull with
    procedures := [{ returnNullProgram with instructions := [.call 1 0 [], .ret] },
      { returnNullProgram with instructions := [.pop, .ret] }]
    paths := ["/proc/main", "/proc/helper"] }

def poppingImage : CompactWordcodeImage where
  strings := ["/proc/main", "/proc/helper"]
  procedures := [⟨0, 0, 2, 0, 0, 1⟩, ⟨1, 2, 2, 0, 0, 1⟩]
  words := [pack opCall 1, pack opReturn 0, pack opPop 0, pack opReturn 0]

/-- An engine whose values are all the same. -/
def unitEngine : Engine Unit Unit Unit where
  null := ()
  text := fun _ => ()
  canonicalize := fun _ value => value
  strict := false
  complete := fun value => value
  dispatchOther := fun _ frames state => .goesOn frames state

def frameOf (procedure : ProcedureId) : CallFrame Unit where
  procedure := procedure
  instruction := 0
  locals := []
  stack := []
  result := ()
  src := ()
  usr := ()
  exceptionHandlers := []
  callerResultOverride := none
  enginePostReturn := none

theorem poppingImage_build : CompactWordcodeImage.build poppingModule = .ok poppingImage := by
  decide +kernel

/-- With a value on its stack the helper pops it in both dispatches, as the word says. -/
theorem poppingModule_represented : poppingImage.validateAgainst poppingModule = .ok () ∧
    turn unitEngine poppingModule (some poppingImage) [{ frameOf 1 with stack := [()] }, frameOf 0]
        () = turn unitEngine poppingModule none [{ frameOf 1 with stack := [()] }, frameOf 0] () ∧
    Diverts unitEngine poppingModule poppingImage [frameOf 1, frameOf 0] := by
  have h := wordcode_represents unitEngine poppingModule poppingImage
  have hvalid := h.1 poppingImage_build
  refine ⟨hvalid, ((h.2.2.2.2 hvalid).2.1 _ _).2 ?_, ?_⟩
  · rintro ⟨frame, callers, op, heq, -, -, -, hempty, -⟩
    cases heq
    cases hempty
  · exact ⟨_, _, .pop, rfl, rfl, by decide +kernel, rfl, rfl, .inr ⟨rfl, List.cons_ne_nil _ _⟩⟩

/-- The helper's failure ends the whole run with the image, and only the helper without it. -/
theorem poppingModule_not_represented : ¬ ∀ (module : Module) (image : CompactWordcodeImage),
    image.validateAgainst module = .ok () →
      ∀ (R : Engine Unit Unit Unit) (frames : List (CallFrame Unit)),
        turn R module (some image) frames () = turn R module none frames () := by
  intro h
  have hturn := h poppingModule poppingImage (validateAgainst_of_build poppingImage_build) unitEngine
    [frameOf 1, frameOf 0]
  cases hturn

end Dream64.Bytecode
