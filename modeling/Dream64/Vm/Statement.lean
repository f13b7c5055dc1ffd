import Dream64.Vm.Emit

/-!
# Statement compilation

The statements of a procedure body and the code that `compile_block` appends
for them. What a statement is made of besides control flow (an expression, an
assignment, a declaration, the clauses of a loop header) is a `Fragment`: code
whose jumps stay inside it.

The source pushes a placeholder for a jump whose target is not known yet and
patches it later: `break` and `continue` when their loop ends, the end of a
`switch` case when the switch ends. A draft keeps such a placeholder as what it
waits for, and `patchLoop` and `patchSwitch` are the patching. All the other
targets follow from the lengths of the pieces.
-/

namespace Dream64.Vm

/-- The target of a jump that an instruction can make. -/
def Instruction.target? : Instruction → Option Nat
  | .jump target | .jumpIfFalse target | .jumpIfNull target => some target
  | .jumpIfArgumentSupplied _ target => some target
  | .nextLocalListIteration _ _ _ exit => some exit
  | _ => none

/-- The instructions that are not part of any expression. -/
def Instruction.ofStatement : Instruction → Bool
  | .beginTry .. | .endTry | .throw | .spawn _ | .ret | .nextLocalListIteration .. => true
  | _ => false

/-- The jumps of the code stay between two positions, and it has no instruction of a statement. -/
def Within (lo hi : Nat) (code : Code) : Prop :=
  ∀ i ∈ code, i.ofStatement = false ∧ ∀ target, i.target? = some target → lo ≤ target ∧ target ≤ hi

@[simp] theorem within_nil {lo hi : Nat} : Within lo hi [] := fun _ h => nomatch h

@[simp] theorem within_cons {lo hi : Nat} {i : Instruction} {code : Code} :
    Within lo hi (i :: code) ↔ (i.ofStatement = false ∧
      ∀ target, i.target? = some target → lo ≤ target ∧ target ≤ hi) ∧ Within lo hi code :=
  List.forall_mem_cons

/-- Code without control flow of its own, emitted at a position. -/
structure Fragment where
  emit : Nat → Emit
  within {pos : Nat} {code : Code} : emit pos = .ok code → Within pos (pos + code.length) code

namespace Fragment

def none : Fragment where
  emit _ := .ok []
  within h := by
    cases h
    exact within_nil

/-- Instructions that do not jump. -/
def straight (code : Code) (h : ∀ i ∈ code, i.ofStatement = false ∧ i.target? = Option.none) :
    Fragment where
  emit _ := .ok code
  within hc := by
    cases hc
    intro i hi
    refine ⟨(h i hi).1, fun target ht => ?_⟩
    rw [(h i hi).2] at ht
    cases ht

end Fragment

/-- The loop header of the `for` forms: what runs once, the test of each
iteration, what is fetched and stored before the body runs, the type filter
between the two, and what runs after the body. -/
structure ForHeader where
  initial : Fragment
  condition : Fragment
  fetch : Fragment
  filter : Option Fragment
  store : Fragment
  step : Fragment

inductive Statement where
  /-- A statement that is one piece of straight code: an expression whose value is dropped, an
  assignment, a declaration, an output or input. -/
  | simple (code : Fragment)
  | ifElse (condition : Fragment) (thenBody : List Statement) (elseBody : Option (List Statement))
  | switch (selector : Fragment) (selectorSlot : Nat) (cases : List (Fragment × List Statement))
      (default : Option (List Statement))
  | whileLoop (condition : Fragment) (body : List Statement)
  | doWhile (body : List Statement) (condition : Fragment)
  | forLoop (header : ForHeader) (body : List Statement)
  | tryCatch (body : List Statement) (catchLocal : Option Nat) (catchBody : Option (List Statement))
  | spawn (delay : Option Fragment) (body : List Statement)
  | breakLoop (depth : Nat)
  | continueLoop (depth : Nat)
  | returnValue (value : Option Fragment)
  | crash (message : Fragment)
  | throwValue (value : Fragment)

/-! ## Drafts -/

inductive DraftInstruction where
  | placed (instruction : Instruction)
  /-- The jump of a `break`, with the number of loops between it and its loop. -/
  | breakLoop (depth : Nat)
  | continueLoop (depth : Nat)
  /-- The jump from the end of a case to the end of its switch. -/
  | endSwitch
  /-- The jump of a `break` or `continue` whose loop has ended. -/
  | loopExit (target : Nat)
deriving DecidableEq

abbrev Draft := List DraftInstruction

def Draft.ofCode (code : Code) : Draft := code.map .placed

/-- The patching at the end of a loop; the placeholders of the loops around it move up. -/
def DraftInstruction.patchLoop (continueTarget breakTarget : Nat) :
    DraftInstruction → DraftInstruction
  | .breakLoop 0 => .loopExit breakTarget
  | .continueLoop 0 => .loopExit continueTarget
  | .breakLoop (depth + 1) => .breakLoop depth
  | .continueLoop (depth + 1) => .continueLoop depth
  | instruction => instruction

def DraftInstruction.patchSwitch (endTarget : Nat) : DraftInstruction → DraftInstruction
  | .endSwitch => .placed (.jump endTarget)
  | instruction => instruction

/-- The instruction in the code: a placeholder is a jump to `usize::MAX`. -/
def DraftInstruction.instruction : DraftInstruction → Instruction
  | .placed instruction => instruction
  | .loopExit target => .jump target
  | _ => .jump 18446744073709551615

def DraftInstruction.isExit : DraftInstruction → Bool
  | .loopExit _ => true
  | _ => false

/-- The checks of `break` and `continue`; the parameters are the texts of the
errors outside a loop and for a depth there is no loop for. -/
def loopDepth (loops depth : Nat) (outside tooDeep : CompileError) : Except CompileError Nat :=
  if loops = 0 then .error outside
  else if depth = 0 ∨ loops < depth then .error tooDeep
  else .ok (depth - 1)

/-! ## The compiler -/

mutual

/-- The code of a statement among `loops` loops, and whether it falls through. -/
def compileStatement (loops pos : Nat) : Statement → Except CompileError (Draft × Bool)
  | .simple code => do
    return (.ofCode (← code.emit pos), true)
  | .ifElse condition thenBody elseBody => do
    let test ← condition.emit pos
    let (thenCode, thenFallsThrough) ← compileBlock loops (pos + test.length + 1) thenBody
    let afterThen := pos + test.length + 1 + thenCode.length
    match elseBody with
    | none => return (.ofCode (test ++ [.jumpIfFalse afterThen]) ++ thenCode, true)
    | some elseBody =>
      let elseTarget := afterThen + if thenFallsThrough then 1 else 0
      let (elseCode, elseFallsThrough) ← compileBlock loops elseTarget elseBody
      let endJump : Code :=
        if thenFallsThrough then [.jump (elseTarget + elseCode.length)] else []
      return (.ofCode (test ++ [.jumpIfFalse elseTarget]) ++ thenCode ++ .ofCode endJump ++
        elseCode, thenFallsThrough || elseFallsThrough)
  | .switch selector selectorSlot cases default => do
    let value ← selector.emit pos
    let start := pos + value.length + 1
    let caseCode ← compileCases loops start cases
    let (defaultCode, _) ← (match default with
      | none => .ok ([], true)
      | some body => compileBlock loops (start + caseCode.length) body)
    let stop := start + caseCode.length + defaultCode.length
    return (.ofCode (value ++ [.storeLocal selectorSlot]) ++
      (caseCode ++ defaultCode).map (·.patchSwitch stop), true)
  | .whileLoop condition body => do
    let test ← condition.emit pos
    let (bodyCode, _) ← compileBlock (loops + 1) (pos + test.length + 1) body
    let stop := pos + test.length + 1 + bodyCode.length + 1
    return (.ofCode (test ++ [.jumpIfFalse stop]) ++ bodyCode.map (·.patchLoop pos stop) ++
      .ofCode [.jump pos], true)
  | .doWhile body condition => do
    let (bodyCode, _) ← compileBlock (loops + 1) pos body
    let test ← condition.emit (pos + bodyCode.length)
    let stop := pos + bodyCode.length + test.length + 2
    return (bodyCode.map (·.patchLoop (pos + bodyCode.length) stop) ++
      .ofCode (test ++ [.jumpIfFalse stop, .jump pos]), true)
  | .forLoop header body => do
    let initial ← header.initial.emit pos
    let conditionTarget := pos + initial.length
    let test ← header.condition.emit conditionTarget
    let fetchStart := conditionTarget + test.length + 1
    let fetch ← header.fetch.emit fetchStart
    let filterStart := fetchStart + fetch.length
    let filter ← (match header.filter with
      | none => .ok []
      | some filter => filter.emit filterStart)
    let filterJumps := if header.filter.isSome then 1 else 0
    let storeStart := filterStart + filter.length + filterJumps
    let store ← header.store.emit storeStart
    let bodyStart := storeStart + store.length
    let (bodyCode, _) ← compileBlock (loops + 1) bodyStart body
    let stepTarget := bodyStart + bodyCode.length
    let step ← header.step.emit stepTarget
    let stop := stepTarget + step.length + 1
    let filterJump : Code := if header.filter.isSome then [.jumpIfFalse stepTarget] else []
    return (.ofCode (initial ++ test ++ [.jumpIfFalse stop] ++ fetch ++ filter ++ filterJump ++
        store) ++
      bodyCode.map (·.patchLoop stepTarget stop) ++
      .ofCode (step ++ [.jump conditionTarget]), true)
  | .tryCatch body catchLocal catchBody => do
    let (bodyCode, tryFallsThrough) ← compileBlock loops (pos + 1) body
    let protectedEnd := pos + 1 + bodyCode.length
    let catchTarget := protectedEnd + 1 + if tryFallsThrough then 1 else 0
    -- An empty catch consumes the thrown value and goes on.
    let (catchCode, catchFallsThrough) ← (match catchBody with
      | none => .ok ([], true)
      | some catchBody => compileBlock loops catchTarget catchBody)
    let endJump : Code := if tryFallsThrough then [.jump (catchTarget + catchCode.length)] else []
    return (.ofCode [.beginTry catchTarget protectedEnd catchLocal] ++ bodyCode ++
      .ofCode (.endTry :: endJump) ++ catchCode, tryFallsThrough || catchFallsThrough)
  | .spawn delay body => do
    let delayCode ← (match delay with
      | none => .ok [.pushNumber .zero]
      | some delay => delay.emit pos)
    let spawnedEntry := pos + delayCode.length + 2
    -- The loops around the spawn are the loops of the spawned body.
    let (bodyCode, _) ← compileBlock loops spawnedEntry body
    let afterSpawnedBody := spawnedEntry + bodyCode.length + 2
    return (.ofCode (delayCode ++ [.spawn spawnedEntry, .jump afterSpawnedBody]) ++ bodyCode ++
      .ofCode [.pushNull, .ret], true)
  | .breakLoop depth => do
    let depth ← loopDepth loops depth "break outside a loop" "break does not accept an expression"
    return ([.breakLoop depth], false)
  | .continueLoop depth => do
    let depth ← loopDepth loops depth "continue outside a loop"
      "continue does not accept an expression"
    return ([.continueLoop depth], false)
  | .returnValue value => do
    let code ← (match value with
      | none => .ok [.loadResult]
      | some value => value.emit pos)
    return (.ofCode (code ++ [.ret]), false)
  | .crash message => do
    return (.ofCode ((← message.emit pos) ++ [.crash]), false)
  | .throwValue value => do
    return (.ofCode ((← value.emit pos) ++ [.throw]), false)

def compileBlock (loops pos : Nat) : List Statement → Except CompileError (Draft × Bool)
  | [] => .ok ([], true)
  | statement :: rest => do
    let (code, fallsThrough) ← compileStatement loops pos statement
    let (codes, restFallsThrough) ← compileBlock loops (pos + code.length) rest
    return (code ++ codes, fallsThrough && restFallsThrough)

/-- The cases of a switch, each with its test and the jump to the end. -/
def compileCases (loops pos : Nat) : List (Fragment × List Statement) → Except CompileError Draft
  | [] => .ok []
  | (condition, body) :: rest => do
    let test ← condition.emit pos
    let (bodyCode, _) ← compileBlock loops (pos + test.length + 1) body
    let nextCase := pos + test.length + 1 + bodyCode.length + 1
    let codes ← compileCases loops nextCase rest
    return .ofCode (test ++ [.jumpIfFalse nextCase]) ++ bodyCode ++ .endSwitch :: codes

end

attribute [simp] compileStatement compileBlock compileCases

/-- `NextLocalListIteration` for the header of a for-in loop at the start of the code. -/
def specializedHeader : Code → Option Instruction
  | .loadLocal indexSlot :: .listLengthLocal listSlot :: .lessEqual :: .jumpIfFalse exit ::
      .loadLocal fetchIndex :: .indexLocalList fetchList :: .storeLocal itemSlot :: _ =>
    if indexSlot = fetchIndex ∧ listSlot = fetchList then
      some (.nextLocalListIteration listSlot indexSlot itemSlot exit)
    else none
  | _ => none

/-- The header's first instruction is replaced; the others stay behind it. -/
def specializeLocalListIterationHeaders : Code → Code
  | [] => []
  | instruction :: rest =>
    (specializedHeader (instruction :: rest)).getD instruction ::
      specializeLocalListIterationHeaders rest

/-- The draft of a procedure: `prologue` is the `args` list and the parameter defaults. -/
def procedureDraft (prologue : Fragment) (body : List Statement) : Except CompileError Draft := do
  let start ← prologue.emit 0
  let (bodyCode, fallsThrough) ← compileBlock 0 start.length body
  return .ofCode start ++ bodyCode ++ .ofCode (if fallsThrough then [.loadResult, .ret] else [])

def compileProcedure (prologue : Fragment) (body : List Statement) : Except CompileError Code := do
  let code := (← procedureDraft prologue body).map (·.instruction)
  if code.length ≤ 65535 then
    return specializeLocalListIterationHeaders code
  else .error "procedure exceeds the VM ABI limit of 65535 instructions"

end Dream64.Vm
