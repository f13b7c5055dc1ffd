import Dream64.Vm.Eval

/-!
# Call frames

How the interpreter builds the frame of a callee from the values and the
names of its arguments. A frame keeps the parameter variables, which the
callee may assign, and beside them the `args` list, which has one entry for
every declared parameter and then the extra arguments.
-/

namespace Dream64.Vm

/-- What a call reads of a loaded procedure. The first local slots are the
parameters; an unnamed trailing `...` has a slot and an empty name. -/
structure Program where
  parameterNames : List String
  localCount : Nat
  parameters_fit : parameterNames.length ≤ localCount

namespace Program

variable (program : Program)

def parameterCount : Nat := program.parameterNames.length

/-- `declared_argument_count`: up to the last parameter that has a name. -/
def declaredArgumentCount : Nat := (program.parameterNames.rdropWhile (· == "")).length

theorem declaredArgumentCount_le : program.declaredArgumentCount ≤ program.parameterCount :=
  (List.rdropWhile_prefix (· == "") program.parameterNames).length_le

/-- The parameter that a named argument is for. -/
def namedSlot (name : Option String) : Option Nat :=
  name.bind fun name => program.parameterNames.findIdx? (· == name)

theorem namedSlot_lt {name : Option String} {slot : Nat} (h : program.namedSlot name = some slot) :
    slot < program.parameterCount := by
  obtain ⟨name, -, h⟩ := Option.bind_eq_some_iff.1 h
  exact (List.findIdx?_eq_some_iff_getElem.1 h).1

end Program

/-- The part of a call frame that the arguments decide. -/
structure Frame (V : Type) where
  procedure : Nat
  locals : List V
  arguments : List V
  suppliedParameters : List Bool
deriving DecidableEq

variable {V : Type} (null : V)

/-- `values`, with nulls up to `count`. -/
def padTo (count : Nat) (values : List V) : List V :=
  values ++ List.replicate (count - values.length) null

def makeFrame (procedure : Nat) (program : Program) (arguments : List V) : Frame V where
  procedure := procedure
  locals := padTo null program.localCount
    (arguments.take (min program.parameterCount program.localCount))
  arguments := padTo null program.declaredArgumentCount arguments
  suppliedParameters :=
    (List.range program.parameterCount).map fun index => decide (index < arguments.length)

/-- The loop state of `make_frame_named`. -/
structure Positioned (V : Type) where
  positioned : List V
  extras : List V
  supplied : List Bool
  nextPositional : Nat

/-- One argument: to the parameter of its name, else to the next position;
past the parameters it is an extra argument. -/
def Positioned.bind (program : Program) (b : Positioned V) (value : V) (name : Option String) :
    Positioned V :=
  let slot := (program.namedSlot name).getD b.nextPositional
  let next := if (program.namedSlot name).isSome then b.nextPositional else b.nextPositional + 1
  if slot < b.positioned.length then
    { b with
      positioned := b.positioned.set slot value
      supplied := b.supplied.set slot true
      nextPositional := next }
  else { b with extras := b.extras ++ [value], nextPositional := next }

/-- The loop over the arguments; `names` may be shorter than they are. -/
def Positioned.bindAll (program : Program) (b : Positioned V) : List V → List (Option String) →
    Positioned V
  | [], _ => b
  | value :: values, names =>
    bindAll program (b.bind program value names.head?.join) values names.tail

def makeFrameNamed (procedure : Nat) (program : Program) (arguments : List V)
    (names : List (Option String)) : Frame V :=
  if names.all Option.isNone then makeFrame null procedure program arguments
  else
    let b := Positioned.bindAll program
      ⟨List.replicate program.parameterCount null, [],
        List.replicate program.parameterCount false, 0⟩ arguments names
    { makeFrame null procedure program b.positioned with
      arguments := b.positioned.take program.declaredArgumentCount ++ b.extras
      suppliedParameters := b.supplied }

/-- `..()` and `.()` without arguments pass on the live parameter variables,
and the extra arguments of the frame as they came. -/
def forwardedFrameArguments (frame : Frame V) (program : Program) : List V :=
  (frame.locals.take program.declaredArgumentCount).zipIdx.foldl
    (fun arguments entry => arguments.set entry.2 entry.1) frame.arguments

/-! ## Frames fit their procedure -/

theorem Positioned.bind_length (program : Program) (b : Positioned V) (value : V)
    (name : Option String) :
    (b.bind program value name).positioned.length = b.positioned.length ∧
      (b.bind program value name).supplied.length = b.supplied.length := by
  simp only [Positioned.bind]
  split <;> simp

end Dream64.Vm

/-!
# Calls

What the call instructions do: they expand the `arglist` arguments, find
their target and start a frame for it. `CallRuntime` is what they take from
the rest of the interpreter, which also runs the started frame to its end.
`callSemantics` puts them into the semantics of the machine; its state keeps
every frame that the running frame has started, in order.
-/

namespace Dream64.Vm

/-- What a call distinguishes in a value. The entries of a list, if it is live,
come with the value associated to them, when there is one. -/
inductive ValueKind (V : Type) where
  | null
  | text (text : String)
  | typePath (path : String)
  | datum
  | list (entries : Except String (List (V × Option V)))
  | other

/-- The state of the running frame. -/
structure CallState (σ V : Type) where
  world : σ
  frame : Frame V
  /-- The names that an expansion leaves for the call that follows it. -/
  pendingNames : Option (List (Option String))
  started : List (Frame V)

/-- The rest of the interpreter. Caches of a resolution are not part of it. -/
structure CallRuntime (σ ε V : Type) where
  /-- The instructions that are not calls. -/
  base : Semantics (CallState σ V) ε V
  error : String → ε
  null : V
  kind : V → σ → ValueKind V
  /-- `resolve_procedure` -/
  program : ProcedureId → Except ε Program
  /-- Runs a started frame to its end; fails at the depth limit. -/
  run : Frame V → σ → Except ε (V × σ)
  /-- The override that `src` has of a member procedure; a global procedure
  is its own target. -/
  redispatch : ProcedureId → Frame V → σ → Except ε ProcedureId
  /-- The result of a bytecode-identical builtin that needs no frame. -/
  nativeBuiltin : ProcedureId → List V → σ → Option (V × σ)
  /-- The result of the canonical `type2parent` on a type path. -/
  typeParent : ProcedureId → List V → σ → Option V
  /-- The target of a parent call, `none` where the engine itself is it. -/
  parentTarget : Option ProcedureId → Frame V → σ → Except ε (Option ProcedureId × σ)
  /-- `execute_list_method` -/
  listMethod : String → V → List V → σ → Except ε (V × σ)
  /-- A method that the engine gives a datum: of a savefile, a matrix, a
  vector, a regular expression or an icon. -/
  datumMethod : V → String → List V → σ → Option (Except ε (V × σ))
  /-- The global procedure that a selector names. -/
  resolveGlobal : String → Frame V → σ → Except ε ProcedureId
  /-- The procedure that a selector names on a receiver that is not null. -/
  resolve : V → String → Frame V → σ → Except ε ProcedureId
  /-- The value `new` makes of a type, and the constructor to run on it. -/
  allocate : V → List V → Frame V → σ → Except ε (V × Option ProcedureId × σ)

/-- The values and the names of an expanded argument vector. -/
structure Expanded (V : Type) where
  values : List V
  names : List (Option String)

variable {σ ε V : Type} (R : CallRuntime σ ε V)

/-- The arguments that the entries of a list give: a text key that has a value
is the name of an argument. -/
def expandEntries (w : σ) : List (V × Option V) → Except ε (List (V × Option String))
  | [] => .ok []
  | (value, none) :: rest => do
    return (value, none) :: (← expandEntries w rest)
  | (key, some value) :: rest =>
    match R.kind key w with
    | .text name => do
      return (value, some name) :: (← expandEntries w rest)
    | _ => .error (R.error "arglist contains a non-text named argument")

/-- One argument of the vector, at an index that is expanded or not. -/
def expandArgument (w : σ) (expands : Bool) (value : V) (name : Option String) :
    Except ε (List (V × Option String)) :=
  if expands then
    match R.kind value w with
    | .null => .ok []
    | .list (.ok entries) => expandEntries R w entries
    | .list (.error message) => .error (R.error message)
    | _ => .error (R.error "arglist requires a list value")
  else .ok [(value, name)]

def expandFrom (w : σ) (names : List (Option String)) (expandedIndices : List Nat) (index : Nat) :
    List V → Except ε (List (V × Option String))
  | [] => .ok []
  | value :: rest => do
    let first ← expandArgument R w (expandedIndices.contains index) value names[index]?.join
    return first ++ (← expandFrom w names expandedIndices (index + 1) rest)

/-- `ExpandArgumentLists` -/
def expandArgumentLists (w : σ) (names : List (Option String)) (expandedIndices : List Nat)
    (values : List V) : Except ε (Expanded V) := do
  let expanded ← expandFrom R w names expandedIndices 0 values
  if expanded.length ≤ 65535 then return ⟨expanded.map (·.1), expanded.map (·.2)⟩
  else .error (R.error "expanded call has more than 65535 arguments")

/-- A call whose count is the marker takes the names that were left for it. -/
def takeNames (count : Nat) (s : CallState σ V) : Option (List (Option String)) × CallState σ V :=
  if count = expandedArgumentCount then (s.pendingNames, { s with pendingNames := none })
  else (none, s)

/-- Starts a frame and runs it. -/
def startFrame (procedure : ProcedureId) (arguments : List V) (names : List (Option String))
    (s : CallState σ V) : Except ε (V × CallState σ V) := do
  let program ← R.program procedure
  let frame := makeFrameNamed R.null procedure program arguments names
  let (v, world) ← R.run frame s.world
  return (v, { s with world := world, started := s.started ++ [frame] })

def callStatic (procedure : ProcedureId) (count : Nat) (argumentNames : List (Option String))
    (arguments : List V) (s : CallState σ V) : Except ε (V × CallState σ V) := do
  let (expandedNames, s) := takeNames count s
  let target ← R.redispatch procedure s.frame s.world
  let names := expandedNames.getD argumentNames
  let native := if names.all Option.isNone then R.nativeBuiltin target arguments s.world else none
  match native with
  | some (v, world) => return (v, { s with world := world })
  | none =>
    match R.typeParent target arguments s.world with
    | some v => return (v, s)
    | none => startFrame R target arguments names s

/-- A self or parent call: the instruction has no argument names. -/
def callForwarding (target : ProcedureId) (program : Program) (count : Option Nat)
    (arguments : List V) (s : CallState σ V) : Except ε (V × CallState σ V) :=
  match count with
  | some count =>
    let (expandedNames, s) := takeNames count s
    startFrame R target arguments (expandedNames.getD []) s
  | none => startFrame R target (forwardedFrameArguments s.frame program) [] s

def callCurrent (count : Option Nat) (arguments : List V) (s : CallState σ V) :
    Except ε (V × CallState σ V) := do
  let program ← R.program s.frame.procedure
  callForwarding R s.frame.procedure program count arguments s

def callParent (procedure : Option ProcedureId) (count : Option Nat) (arguments : List V)
    (s : CallState σ V) : Except ε (V × CallState σ V) := do
  let program ← R.program s.frame.procedure
  let (target, world) ← R.parentTarget procedure s.frame s.world
  let s := { s with world := world }
  match target with
  | some target => callForwarding R target program count arguments s
  | none => return (R.null, s)

/-- The text of a selector, `none` for a value that is not text. -/
def selectorText (staticSelector : Option String) (selector : List V) (w : σ) : Option String :=
  match staticSelector, selector with
  | some selector, _ => some selector
  | none, [selector] =>
    match R.kind selector w with
    | .text selector => some selector
    | _ => none
  | none, _ => none

/-- The spelling of a selector that a call without a datum receiver resolves:
text or a type path. -/
def selectorSpelling (staticSelector : Option String) (selector : List V) (w : σ) :
    Except ε String :=
  match staticSelector, selector with
  | some selector, _ => .ok selector
  | none, [selector] =>
    match R.kind selector w with
    | .text selector => .ok selector
    | .typePath selector => .ok selector
    | _ => .error (R.error "call procedure selector must be text or a type path")
  | none, _ => .error (R.error "bytecode stack underflow")

/-- `dynamic_call_target_named` -/
def dynamicCallTarget (receiver : V) (selector : String) (nullReceiverIsGlobal : Bool)
    (s : CallState σ V) : Except ε ProcedureId :=
  match R.kind receiver s.world with
  | .null =>
    if nullReceiverIsGlobal then R.resolveGlobal selector s.frame s.world
    else .error (R.error "cannot call a procedure on null")
  | _ => R.resolve receiver selector s.frame s.world

/-- A call that neither a list nor a datum with a text selector answers: the
frame is made without names. -/
def callResolved (staticSelector : Option String) (nullReceiverIsGlobal : Bool) (receiver : V)
    (selector arguments : List V) (s : CallState σ V) : Except ε (V × CallState σ V) := do
  let spelling ← selectorSpelling R staticSelector selector s.world
  let target ← dynamicCallTarget R receiver spelling nullReceiverIsGlobal s
  startFrame R target arguments [] s

def callDatum (staticSelector : Option String) (method : String) (nullReceiverIsGlobal : Bool)
    (names : List (Option String)) (receiver : V) (selector arguments : List V)
    (s : CallState σ V) : Except ε (V × CallState σ V) :=
  match dynamicCallTarget R receiver method false s with
  | .ok target => startFrame R target arguments names s
  | .error _ =>
    match R.datumMethod receiver method arguments s.world with
    | some result => result.map fun (v, world) => (v, { s with world := world })
    | none => callResolved R staticSelector nullReceiverIsGlobal receiver selector arguments s

def callDynamic (staticSelector : Option String) (count : Nat)
    (argumentNames : List (Option String)) (nullReceiverIsGlobal : Bool) (receiver : V)
    (selector arguments : List V) (s : CallState σ V) : Except ε (V × CallState σ V) :=
  let (expandedNames, s) := takeNames count s
  let names := (expandedNames.or (if argumentNames.isEmpty then none else some argumentNames)).getD []
  match R.kind receiver s.world, selectorText R staticSelector selector s.world with
  | .list _, some method =>
    (R.listMethod method receiver arguments s.world).map fun (v, world) =>
      (v, { s with world := world })
  | .list _, none => .error (R.error "list procedure selector must be text")
  | .datum, some method =>
    callDatum R staticSelector method nullReceiverIsGlobal names receiver selector arguments s
  | _, _ => callResolved R staticSelector nullReceiverIsGlobal receiver selector arguments s

/-- `new`: the allocated value is the result, also when a constructor runs. -/
def allocateDatum (count : Nat) (argumentNames : List (Option String)) (type : V)
    (arguments : List V) (s : CallState σ V) : Except ε (V × CallState σ V) := do
  let (expandedNames, s) := takeNames count s
  let (datum, constructor, world) ← R.allocate type arguments s.frame s.world
  let s := { s with world := world }
  match constructor with
  | none => return (datum, s)
  | some constructor =>
    let (_, s) ← startFrame R constructor arguments (expandedNames.getD argumentNames) s
    return (datum, s)

def callValue (instruction : Instruction) (operands : List V) (s : CallState σ V) :
    Except ε (V × CallState σ V) :=
  match instruction with
  | .call procedure count names => callStatic R procedure count names operands s
  | .callCurrent count => callCurrent R count operands s
  | .callParent procedure count => callParent R procedure count operands s
  | .callDynamic staticSelector count names nullReceiverIsGlobal =>
    let selectors := if staticSelector.isSome then 0 else 1
    match operands with
    | receiver :: rest =>
      callDynamic R staticSelector count names nullReceiverIsGlobal receiver
        (rest.take selectors) (rest.drop selectors) s
    | [] => .error (R.error "bytecode stack underflow")
  | .allocateDatum count names =>
    match operands with
    | type :: arguments => allocateDatum R count names type arguments s
    | [] => .error (R.error "bytecode stack underflow")
  | instruction => R.base.value instruction operands s

theorem expandArgumentLists_length {w : σ} {names : List (Option String)} {indices : List Nat}
    {values : List V} {expanded : Expanded V}
    (h : expandArgumentLists R w names indices values = .ok expanded) :
    expanded.values.length ≤ 65535 := by
  rw [expandArgumentLists] at h
  cases hfrom : expandFrom R w names indices 0 values with
  | error e => rw [hfrom] at h; cases h
  | ok list =>
    rw [hfrom] at h
    by_cases hlen : list.length ≤ 65535
    · simp only [bind, Except.bind, if_pos hlen, pure, Except.pure, Except.ok.injEq] at h
      subst h
      simpa using hlen
    · simp only [bind, Except.bind, if_neg hlen] at h
      cases h

def callExpand (instruction : Instruction) (values : List V) (s : CallState σ V) :
    Except ε ({values : List V // values.length ≤ 65535} × CallState σ V) :=
  match instruction with
  | .expandArgumentLists _ names expandedIndices =>
    match h : expandArgumentLists R s.world names expandedIndices values with
    | .ok expanded =>
      .ok (⟨expanded.values, expandArgumentLists_length R h⟩,
        { s with pendingNames := some expanded.names })
    | .error e => .error e
  | instruction => R.base.expand instruction values s

/-- The machine with the calls of the interpreter. -/
def callSemantics : Semantics (CallState σ V) ε V :=
  { R.base with value := callValue R, expand := callExpand R }

end Dream64.Vm
