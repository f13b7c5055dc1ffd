import Dream64.Vm.Expression

/-!
# Expression emission

`emitExpression L procs pos e` is the code that the emitter appends for `e`
to an instruction stream that already holds `pos` instructions. The source
pushes placeholder jumps and patches them once the target is known; here the
lengths of the pieces give every target, so a jump is built with its final
target. Each piece is emitted at the position the source emits it at, in the
source's order, so that the first error is the same one.

Where the source panics on a count the parser has checked, `countU8` fails.
-/

namespace Dream64.Vm

abbrev Emit := Except CompileError Code

def toLocalIndex (index : Nat) : Except CompileError Nat :=
  if index ≤ 65535 then .ok index else .error "procedure has more than 65536 locals"

def countU16 (count : Nat) (message : CompileError) : Except CompileError Nat :=
  if count ≤ 65535 then .ok count else .error message

/-- A `u8` count whose bound the parser has checked. -/
def countU8 (count : Nat) : Except CompileError Nat :=
  if count ≤ 255 then .ok count else .error "argument count was validated by the parser"

def argumentName : Expression → Option String
  | .namedArgument name _ => some name
  | _ => none

def argumentNames (arguments : List Expression) : List (Option String) :=
  arguments.map argumentName

def compoundOperator? : String → Option CompoundAssignmentOperator
  | "+=" => some .add
  | "-=" => some .subtract
  | "*=" => some .multiply
  | "/=" => some .divide
  | "%=" => some .remainder
  | "%%=" => some .fractionalRemainder
  | "&=" => some .bitAnd
  | "|=" => some .bitOr
  | "^=" => some .bitXor
  | "<<=" => some .shiftLeft
  | ">>=" => some .shiftRight
  | _ => none

def compoundOperator (operator : String) : Except CompileError CompoundAssignmentOperator :=
  match compoundOperator? operator with
  | some op => .ok op
  | none => .error ("unsupported compound operator " ++ operator)

/-- The suffix of an assignment that combines the loaded target with the
value: empty for `=`. -/
def compoundInstruction (operator : String) : Emit :=
  if operator = "=" then .ok []
  else do
    let op ← compoundOperator operator
    return [.compoundAssignment op]

def unaryInstruction : String → Emit
  | "+" => .ok []
  | "-" => .ok [.negate]
  | "!" => .ok [.not]
  | "~" => .ok [.bitNot]
  | "&" => .ok [.makeList 1]
  | "*" => .ok [.pushNumber .one, .indexList]
  | operator => .error ("unsupported unary operator " ++ operator)

def binaryInstruction : String → Except CompileError Instruction
  | "+" => .ok .add
  | "-" => .ok .subtract
  | "*" => .ok .multiply
  | "**" => .ok .power
  | "/" => .ok .divide
  | "%" => .ok .remainder
  | "%%" => .ok .fractionalRemainder
  | "&" => .ok .bitAnd
  | "|" => .ok .bitOr
  | "^" => .ok .bitXor
  | "<<" => .ok .shiftLeft
  | ">>" => .ok .shiftRight
  | "==" => .ok .equal
  | "!=" => .ok .notEqual
  | "<>" => .ok .notEqual
  | "~=" => .ok .equivalent
  | "~!" => .ok .notEquivalent
  | "<=>" => .ok .compare
  | "in" => .ok .contains
  | "<" => .ok .less
  | "<=" => .ok .lessEqual
  | ">" => .ok .greater
  | ">=" => .ok .greaterEqual
  | operator => .error ("unsupported binary operator " ++ operator)

/-- What a bare name reads or writes: a local slot, a field of `src`, or a
global. -/
inductive NameTarget where
  | slot (slot : Nat)
  | srcField (field : FieldName)
  | global (global : FieldName)

def resolveName (L : LocalTable) (name : String) : Except CompileError NameTarget :=
  match L.get name with
  | some slot => .ok (.slot slot)
  | none =>
    match L.srcField name with
    | some field => .ok (.srcField field)
    | none =>
      match L.globalField name with
      | some global => .ok (.global global)
      | none => .error ("unknown local " ++ name)

def emitLocal (L : LocalTable) (name : String) : Emit := do
  match ← resolveName L name with
  | .slot slot => return [.loadLocal slot]
  | .srcField field => return [.loadSrc, .loadField field]
  | .global global => return [.loadGlobal global]

/-- The name of the built-in `world` global. -/
def worldField : FieldName := ⟨"world", by decide⟩

/-- The load of a field whose receiver is on the stack. -/
def loadFieldInstruction (L : LocalTable) (receiver : Expression) (name : FieldName) :
    Instruction :=
  if (expressionStaticType L receiver).isSome then .loadDeclaredField name else .loadField name

/-- The type that a one-argument `istype` tests for. -/
def inferredPredicateType (L : LocalTable) (kind : TypePredicateKind)
    (arguments : List Expression) : Option TypePath :=
  match kind, arguments with
  | .isType, [argument] => expressionStaticType L argument
  | _, _ => none

/-- A selector that is a literal text is kept in the call instruction. -/
def literalSelector : Expression → Option String
  | .text selector => some selector
  | _ => none

/-- A bare identifier to the left of `=` in a list is a text key. -/
def bareKey : Expression → Option String
  | .local name => some name
  | _ => none

/-- `list()`, the only value for which `||=` has superinstructions. -/
def isEmptyList : Expression → Bool
  | .list [] => true
  | _ => false

/-- `pick(arglist(values))`, whose candidates are the members of a list. -/
def pickExpands : List (Option Expression × Expression) → Bool
  | [(none, .argList _)] => true
  | _ => false

/-- The slot of an expression that is a plain local. -/
def localSlot (L : LocalTable) : Expression → Option Nat
  | .local name => L.get name
  | _ => none

/-- A plain local under `&` or `*`, which takes the cell of its slot. -/
inductive CellOperand where
  | address (slot : Nat)
  | dereference (slot : Nat)

def cellOperand (L : LocalTable) (operator : String) (operand : Expression) : Option CellOperand :=
  match operator with
  | "&" => (localSlot L operand).map .address
  | "*" => (localSlot L operand).map .dereference
  | _ => none

/-- The slot of a `Type::name` target, which the parser wraps in `initial`. -/
def scopeStorage (L : LocalTable) : Expression → Option FieldName
  | .field receiver name => L.receiverStatic receiver name
  | _ => none

/-- The store of a combined value into a global slot, keeping the value. -/
def emitGlobalAssignment (pos : Nat) (storage : FieldName) (operator : String)
    (emitValue : Nat → Emit) : Emit := do
  let load : Code := if operator = "=" then [] else [.loadGlobal storage]
  let value ← emitValue (pos + load.length)
  let combine ← compoundInstruction operator
  return load ++ value ++ combine ++ [.duplicate, .storeGlobal storage]

/-- `emit_call_arguments`: the argument vector with the count the call takes,
from the code of the values and the indices of the list expansions in it. -/
def emitCallArguments (arguments : List Expression)
    (values : Except CompileError (Code × List Nat)) : Except CompileError (Code × Nat) := do
  let count ← countU16 arguments.length "call has more than 65535 positional arguments"
  let (codes, expansions) ← values
  if expansions.isEmpty then return (codes, count)
  else
    let expand := .expandArgumentLists count (argumentNames arguments) expansions
    return (codes ++ [expand], expandedArgumentCount)

/-- The code around a receiver that skips `inner` when the receiver is null. -/
def nullGuard (pos : Nat) (receiver inner : Code) : Code :=
  receiver ++ [.duplicate, .jumpIfNull (pos + receiver.length + 2 + inner.length)] ++ inner

mutual

def emitExpression (L : LocalTable) (procs : Procedures) (pos : Nat) : Expression → Emit
  | .namedArgument _ value => emitExpression L procs pos value
  | .null => .ok [.pushNull]
  | .number bits => .ok [.pushNumber bits]
  | .text text => .ok [.pushText text]
  | .file path => .ok [.pushFile path]
  | .typePath path => .ok [.pushTypePath path]
  | .modifiedTypePath base overrides => do
    let values ← emitOverrideValues L procs (pos + 1) overrides
    return .pushTypePath base :: values ++ [.makeModifiedTypePath (overrides.map (·.1))]
  | .new typePath arguments overrides => do
    match typePath with
    | none => .error "inferred new has no statically resolved destination type"
    | some typePath =>
      let type ← emitExpression L procs pos typePath
      let (call, count) ←
        emitCallArguments arguments (emitArgumentValues L procs (pos + type.length) 0 arguments)
      let stores ← emitOverrideStores L procs (pos + type.length + call.length + 1) overrides
      return type ++ call ++ .allocateDatum count (argumentNames arguments) :: stores
  | .regex arguments => do
    let values ← emitAll L procs pos arguments
    return values ++ [.makeRegex (← countU8 arguments.length)]
  | .mutableAppearance arguments => do
    match procs "mutable_appearance" with
    | some procedure =>
      let (call, count) ← emitCallArguments arguments (emitArgumentValues L procs pos 0 arguments)
      return call ++ [.call procedure count (argumentNames arguments)]
    | none =>
      let values ← emitAll L procs pos arguments
      let count ← countU16 arguments.length
        "mutable_appearance has more than 65535 constructor arguments"
      return values ++ [.makeMutableAppearance count]
  | .matrix arguments => do
    let values ← emitAll L procs pos arguments
    return values ++ [.makeMatrix (← countU8 arguments.length)]
  | .vector arguments => do
    let values ← emitAll L procs pos arguments
    return values ++ [.makeVector (← countU8 arguments.length)]
  | .replaceText arguments exact characterIndices => do
    let values ← emitAll L procs pos arguments
    return values ++ [.replaceText (← countU8 arguments.length) exact characterIndices]
  | .copyText arguments characterIndices => do
    let values ← emitAll L procs pos arguments
    return values ++ [.copyText (← countU8 arguments.length) characterIndices]
  | .block arguments => do
    let values ← emitAll L procs pos arguments
    return values ++ [.block (← countU8 arguments.length)]
  | .length value => do
    return (← emitExpression L procs pos value) ++ [.length]
  | .ref value => do
    return (← emitExpression L procs pos value) ++ [.ref]
  | .getStep source direction => do
    let first ← emitExpression L procs pos source
    let second ← emitExpression L procs (pos + first.length) direction
    return first ++ second ++ [.getStep]
  | .getStepTowards source target => do
    let first ← emitExpression L procs pos source
    let second ← emitExpression L procs (pos + first.length) target
    return first ++ second ++ [.getStepTowards]
  | .range arguments => do
    let values ← emitAll L procs pos arguments
    return values ++ [.range (← countU8 arguments.length)]
  | .typesOf arguments => do
    let values ← emitAll L procs pos arguments
    return values ++ [.typesOf (← countU8 arguments.length)]
  | .hasCall receiver selector => do
    let first ← emitExpression L procs pos receiver
    let second ← emitExpression L procs (pos + first.length) selector
    return first ++ second ++ [.hasCall]
  | .rand arguments => do
    let values ← emitAll L procs pos arguments
    return values ++ [.rand (← countU8 arguments.length)]
  | .roll arguments => do
    let values ← emitAll L procs pos arguments
    return values ++ [.roll (← countU8 arguments.length)]
  | .pick entries => do
    let values ← emitPickEntries L procs (pickExpands entries) pos entries
    if pickExpands entries then
      return values ++ [.expandArgumentLists 1 [none] [0], .pickExpandedArguments]
    else return values ++ [.pick (entries.map fun entry => entry.1.isSome)]
  | .prob chance => do
    return (← emitExpression L procs pos chance) ++ [.prob]
  | .round arguments => do
    let values ← emitAll L procs pos arguments
    return values ++ [.round (← countU8 arguments.length)]
  | .typePredicate kind arguments => do
    let values ← emitAll L procs pos arguments
    let inferred : Code := (inferredPredicateType L kind arguments).toList.map .pushTypePath
    let count ← countU8 (arguments.length + inferred.length)
    return values ++ inferred ++ [.typePredicate kind count]
  | .local name => emitLocal L name
  | .src => .ok [.loadSrc]
  | .usr => .ok [.loadUsr]
  | .caller => .ok [.loadCaller]
  | .world => .ok [.loadGlobal worldField]
  | .globalNamespace => .error "global namespace requires a field name"
  | .field receiver name => do
    if name.name = "vars" then
      return (← emitExpression L procs pos receiver) ++ [.loadDatumVars]
    else
      match L.fieldStorage receiver name with
      | some storage => return [.loadGlobal storage]
      | none =>
        return (← emitExpression L procs pos receiver) ++ [loadFieldInstruction L receiver name]
  | .safeField receiver name => do
    let code ← emitExpression L procs pos receiver
    return nullGuard pos code [loadFieldInstruction L receiver name]
  | .globalField name =>
    if name.name = "vars" then .ok [.loadGlobalVars] else .ok [.loadGlobal name]
  | .result => .ok [.loadResult]
  | .argList _ => .error "arglist may only appear in a call or constructor argument list"
  | .standardBuiltin name arguments => do
    let count ← countU16 arguments.length "native builtin has more than 65535 arguments"
    if name = "newlist" ∧ (procs name).isNone then
      let values ← emitNewList L procs pos arguments
      return values ++ [.makeList count]
    else
      let values ← emitBuiltinArguments L procs pos arguments
      match procs name with
      | some procedure => return values ++ [.call procedure count (argumentNames arguments)]
      | none => return values ++ [.standardBuiltin name count (argumentNames arguments)]
  | .nativeSrcMethod name arguments => do
    match procs name with
    | some procedure =>
      let (call, count) ← emitCallArguments arguments (emitArgumentValues L procs pos 0 arguments)
      return call ++ [.call procedure count (arguments.map fun _ => none)]
    | none =>
      let count ← countU16 arguments.length "native method has more than 65535 arguments"
      let values ← emitAll L procs pos arguments
      return values ++ [.nativeSrcMethod name count]
  | .externalCall library function arguments => do
    let first ← emitExpression L procs pos library
    let second ← emitExpression L procs (pos + first.length) function
    let values ← emitAll L procs (pos + first.length + second.length) arguments
    let count ← countU16 arguments.length "external call has more than 65535 arguments"
    return first ++ second ++ values ++ [.externalCall count]
  | .animate arguments => do
    let (values, expanded) ← emitNamedArguments L procs pos 0 arguments
    return values ++ [.animate (arguments.map (·.1)) expanded]
  | .filter arguments => do
    let (values, expanded) ← emitNamedArguments L procs pos 0 arguments
    return values ++ [.makeFilter (arguments.map (·.1)) expanded]
  | .crash message => do
    return (← emitExpression L procs pos message) ++ [.crash, .pushNull]
  | .sleep delay => do
    return (← emitExpression L procs pos delay) ++ [.sleep]
  | .initial reference => do
    match reference with
    | .field receiver name =>
      match L.receiverStatic receiver name with
      | some storage =>
        match receiver with
        | .typePath _ => return [.loadGlobal storage]
        | _ => return [.loadInitialGlobal storage]
      | none => return (← emitExpression L procs pos receiver) ++ [.initialField name]
    | .local name =>
      match L.srcField name with
      | some field => return [.loadSrc, .initialField field]
      | none => .error ("initial target " ++ name ++ " is not an instance field")
    | .safeField receiver name =>
      let code ← emitExpression L procs pos receiver
      return nullGuard pos code [.initialField name]
    | .index (.field receiver name) index =>
      if name.name = "vars" then
        let first ← emitExpression L procs pos receiver
        let second ← emitExpression L procs (pos + first.length) index
        return first ++ second ++ [.initialDynamicField]
      else .error "initial requires a field reference"
    | _ => .error "initial requires a field reference"
  | .call procedure arguments => do
    match procs procedure with
    | none => .error ("unknown procedure " ++ procedure)
    | some target =>
      let (call, count) ← emitCallArguments arguments (emitArgumentValues L procs pos 0 arguments)
      return call ++ [.call target count (argumentNames arguments)]
  | .locate arguments => do
    let count ← countU16 arguments.length "locate has more than 65535 positional arguments"
    let values ← emitAll L procs pos arguments
    return values ++ [.locate count]
  | .locateIn arguments container => do
    let count ← countU16 arguments.length "locate has more than 65535 positional arguments"
    let values ← emitAll L procs pos arguments
    let list ← emitExpression L procs (pos + values.length) container
    return values ++ list ++ [.locateIn count]
  | .currentCall arguments => do
    match arguments with
    | some arguments =>
      let (call, count) ← emitCallArguments arguments (emitArgumentValues L procs pos 0 arguments)
      return call ++ [.callCurrent (some count)]
    | none => return [.callCurrent none]
  | .parentCall arguments => do
    match arguments with
    | some arguments =>
      let (call, count) ← emitCallArguments arguments (emitArgumentValues L procs pos 0 arguments)
      return call ++ [.callParent (procs "..") (some count)]
    | none => return [.callParent (procs "..") none]
  | .dynamicCall target procedure arguments nullReceiverIsGlobal => do
    let receiver ← emitExpression L procs pos target
    let selector ← (match literalSelector procedure with
      | some _ => .ok []
      | none => emitExpression L procs (pos + receiver.length) procedure)
    let (call, count) ← emitCallArguments arguments
      (emitArgumentValues L procs (pos + receiver.length + selector.length) 0 arguments)
    return receiver ++ selector ++ call ++
      [.callDynamic (literalSelector procedure) count (argumentNames arguments)
        nullReceiverIsGlobal]
  | .safeDynamicCall target procedure arguments => do
    let receiver ← emitExpression L procs pos target
    let selector ← (match literalSelector procedure with
      | some _ => .ok []
      | none => emitExpression L procs (pos + receiver.length + 2) procedure)
    let (call, count) ← emitCallArguments arguments
      (emitArgumentValues L procs (pos + receiver.length + 2 + selector.length) 0 arguments)
    return nullGuard pos receiver
      (selector ++ call ++
        [.callDynamic (literalSelector procedure) count (argumentNames arguments) false])
  | .list entries => do
    let (values, kinds) ← emitListEntries L procs pos entries
    return values ++ [.makeListEntries kinds]
  | .associativeList entries => do
    let (values, kinds) ← emitListEntries L procs pos entries
    return values ++ [.makeAssociativeListEntries kinds]
  | .index list index => do
    match list with
    | .field receiver name =>
      if name.name = "vars" then
        let first ← emitExpression L procs pos receiver
        let second ← emitExpression L procs (pos + first.length) index
        return first ++ second ++ [.loadDynamicField]
      else
        let first ← emitExpression L procs pos (.field receiver name)
        let second ← emitExpression L procs (pos + first.length) index
        return first ++ second ++ [.indexList]
    | list =>
      match localSlot L list with
      | some slot => return (← emitExpression L procs pos index) ++ [.indexLocalList slot]
      | none =>
        let first ← emitExpression L procs pos list
        let second ← emitExpression L procs (pos + first.length) index
        return first ++ second ++ [.indexList]
  | .safeIndex list index => do
    let receiver ← emitExpression L procs pos list
    let key ← emitExpression L procs (pos + receiver.length + 2) index
    return nullGuard pos receiver (key ++ [.indexList])
  | .unary operator operand => do
    match cellOperand L operator operand with
    | some (.address slot) => return [.addressLocal slot]
    | some (.dereference slot) => return [.loadLocalRaw slot, .pushNumber .one, .indexList]
    | none =>
      let code ← emitExpression L procs pos operand
      return code ++ (← unaryInstruction operator)
  | .mutation target delta isPrefix => emitMutation L procs pos delta isPrefix target
  | .binary operator left right => do
    if operator = "&&" then
      let first ← emitExpression L procs pos left
      let second ← emitExpression L procs (pos + first.length + 3) right
      let stop := pos + first.length + 3 + second.length
      return first ++ [.duplicate, .jumpIfFalse stop, .pop] ++ second
    else if operator = "||" then
      let first ← emitExpression L procs pos left
      let falseTarget := pos + first.length + 3
      let second ← emitExpression L procs (falseTarget + 1) right
      let stop := falseTarget + 1 + second.length
      return first ++ [.duplicate, .jumpIfFalse falseTarget, .jump stop, .pop] ++ second
    else
      let first ← emitExpression L procs pos left
      let second ← emitExpression L procs (pos + first.length) right
      return first ++ second ++ [← binaryInstruction operator]
  | .conditional condition whenTrue whenFalse => do
    let test ← emitExpression L procs pos condition
    let first ← emitExpression L procs (pos + test.length + 1) whenTrue
    let falseTarget := pos + test.length + 1 + first.length + 1
    let second ← emitExpression L procs falseTarget whenFalse
    let stop := falseTarget + second.length
    return test ++ .jumpIfFalse falseTarget :: first ++ .jump stop :: second
  | .logicalOrAssignment target value => do
    let fused ←
      (if isEmptyList value then emitLogicalOrEmptyList L procs pos target else .ok none)
    match fused with
    | some code => return code
    | none =>
      let test ← emitExpression L procs pos target
      let again ← emitExpression L procs (pos + test.length + 1) target
      let falseTarget := pos + test.length + 1 + again.length + 1
      let store ← emitAssignment L procs falseTarget "="
        (fun p => emitExpression L procs p value) target
      let stop := falseTarget + store.length
      return test ++ .jumpIfFalse falseTarget :: again ++ .jump stop :: store
  | .assignment target operator value =>
    emitAssignment L procs pos operator (fun p => emitExpression L procs p value) target

/-- `for argument in arguments { emit_expression(argument) }` -/
def emitAll (L : LocalTable) (procs : Procedures) (pos : Nat) : List Expression → Emit
  | [] => .ok []
  | argument :: rest => do
    let code ← emitExpression L procs pos argument
    return code ++ (← emitAll L procs (pos + code.length) rest)

/-- The values of a modified type path, in field order. -/
def emitOverrideValues (L : LocalTable) (procs : Procedures) (pos : Nat) :
    List (FieldName × Expression) → Emit
  | [] => .ok []
  | (_, value) :: rest => do
    let code ← emitExpression L procs pos value
    return code ++ (← emitOverrideValues L procs (pos + code.length) rest)

/-- The field stores of a modified `new`, on the datum left on the stack. -/
def emitOverrideStores (L : LocalTable) (procs : Procedures) (pos : Nat) :
    List (FieldName × Expression) → Emit
  | [] => .ok []
  | (name, value) :: rest => do
    let code ← emitExpression L procs (pos + 1) value
    let store : Code := .duplicate :: code ++ [.storeField name]
    return store ++ (← emitOverrideStores L procs (pos + store.length) rest)

/-- The arguments of `newlist`: each one is constructed without arguments. -/
def emitNewList (L : LocalTable) (procs : Procedures) (pos : Nat) : List Expression → Emit
  | [] => .ok []
  | argument :: rest => do
    if (argumentName argument).isSome then .error "newlist does not take named arguments"
    else
      let code ← emitExpression L procs pos argument
      let construct : Code := code ++ [.allocateDatum 0 []]
      return construct ++ (← emitNewList L procs (pos + construct.length) rest)

/-- The arguments of a builtin: a list expansion passes its list. -/
def emitBuiltinArguments (L : LocalTable) (procs : Procedures) (pos : Nat) :
    List Expression → Emit
  | [] => .ok []
  | argument :: rest => do
    let code ← (match argument with
      | .argList values => emitExpression L procs pos values
      | argument => emitExpression L procs pos argument)
    return code ++ (← emitBuiltinArguments L procs (pos + code.length) rest)

/-- The values of a call's arguments, with the indices of its expansions. -/
def emitArgumentValues (L : LocalTable) (procs : Procedures) (pos : Nat) (index : Nat) :
    List Expression → Except CompileError (Code × List Nat)
  | [] => .ok ([], [])
  | argument :: rest => do
    let (code, expansion) ← (match argument with
      | .argList values => do
        let expansion ← toLocalIndex index
        pure (← emitExpression L procs pos values, [expansion])
      | argument => do pure (← emitExpression L procs pos argument, []))
    let (codes, expansions) ← emitArgumentValues L procs (pos + code.length) (index + 1) rest
    return (code ++ codes, expansion ++ expansions)

/-- The arguments of `animate` and `filter`, which keep their names aside. -/
def emitNamedArguments (L : LocalTable) (procs : Procedures) (pos : Nat) (index : Nat) :
    List (Option String × Expression) → Except CompileError (Code × List Nat)
  | [] => .ok ([], [])
  | (_, argument) :: rest => do
    let (code, expansion) ← (match argument with
      | .argList values => do
        let expansion ← toLocalIndex index
        pure (← emitExpression L procs pos values, [expansion])
      | argument => do pure (← emitExpression L procs pos argument, []))
    let (codes, expansions) ← emitNamedArguments L procs (pos + code.length) (index + 1) rest
    return (code ++ codes, expansion ++ expansions)

/-- The weights and candidates of `pick`; `expands` when the one candidate is
a list expansion, whose list is then passed. -/
def emitPickEntries (L : LocalTable) (procs : Procedures) (expands : Bool) (pos : Nat) :
    List (Option Expression × Expression) → Emit
  | [] => .ok []
  | (weight, candidate) :: rest => do
    let first ← (match weight with
      | some weight => emitExpression L procs pos weight
      | none => .ok [])
    let second ← (match expands, candidate with
      | true, .argList values => emitExpression L procs (pos + first.length) values
      | _, candidate => emitExpression L procs (pos + first.length) candidate)
    return first ++ second ++
      (← emitPickEntries L procs expands (pos + first.length + second.length) rest)

def emitListEntries (L : LocalTable) (procs : Procedures) (pos : Nat) :
    List ListExpressionEntry → Except CompileError (Code × List ListEntryKind)
  | [] => .ok ([], [])
  | .positional value :: rest => do
    let code ← emitExpression L procs pos value
    let (codes, kinds) ← emitListEntries L procs (pos + code.length) rest
    return (code ++ codes, .positional :: kinds)
  | .associative key value :: rest => do
    let first ← (match bareKey key with
      | some name => .ok [.pushText name]
      | none => emitExpression L procs pos key)
    let second ← emitExpression L procs (pos + first.length) value
    let (codes, kinds) ← emitListEntries L procs (pos + first.length + second.length) rest
    return (first ++ second ++ codes, .associative :: kinds)

/-- The superinstructions for `target ||= list()`, where the target has one. -/
def emitLogicalOrEmptyList (L : LocalTable) (procs : Procedures) (pos : Nat) :
    Expression → Except CompileError (Option Code)
  | .local name => do
    match ← resolveName L name with
    | .slot slot => return some [.logicalOrEmptyListLocal slot]
    | .srcField field => return some [.loadSrc, .logicalOrEmptyListField field]
    | .global global => return some [.logicalOrEmptyListGlobal global]
  | .globalField name =>
    if name.name = "vars" then .ok none else .ok (some [.logicalOrEmptyListGlobal name])
  | .field receiver name => do
    if name.name = "vars" then return none
    else
      match L.fieldStorage receiver name with
      | some storage => return some [.logicalOrEmptyListGlobal storage]
      | none =>
        return some ((← emitExpression L procs pos receiver) ++ [.logicalOrEmptyListField name])
  | .initial (.field receiver name) =>
    if name.name = "vars" then .ok none
    else
      match L.receiverStatic receiver name with
      | some storage => .ok (some [.logicalOrEmptyListGlobal storage])
      | none => .ok none
  | .index list index => do
    let first ← emitExpression L procs pos list
    let second ← emitExpression L procs (pos + first.length) index
    return some (first ++ second ++ [.logicalOrEmptyListIndex])
  | _ => .ok none

def emitMutation (L : LocalTable) (procs : Procedures) (pos : Nat) (delta : Int)
    (isPrefix : Bool) : Expression → Emit
  | .local name => do
    match ← resolveName L name with
    | .slot slot => return [.mutateLocal slot delta isPrefix]
    | .srcField field => return [.loadSrc, .mutateField field delta isPrefix]
    | .global global => return [.mutateGlobal global delta isPrefix]
  | .globalField name => .ok [.mutateGlobal name delta isPrefix]
  | .field receiver name => do
    match L.receiverStatic receiver name with
    | some storage => return [.mutateGlobal storage delta isPrefix]
    | none => return (← emitExpression L procs pos receiver) ++ [.mutateField name delta isPrefix]
  | .safeField receiver name => do
    match L.receiverStatic receiver name with
    | some storage => return [.mutateGlobal storage delta isPrefix]
    | none =>
      let code ← emitExpression L procs pos receiver
      return nullGuard pos code [.mutateField name delta isPrefix]
  | .initial reference =>
    match scopeStorage L reference with
    | some storage => .ok [.mutateGlobal storage delta isPrefix]
    | none => .error "increment/decrement target is not writable"
  | .index list index => do
    let first ← emitExpression L procs pos list
    let second ← emitExpression L procs (pos + first.length) index
    return first ++ second ++ [.mutateListIndex delta isPrefix]
  | .result => .ok [.mutateResult delta isPrefix]
  | _ => .error "increment/decrement target is not writable"

/-- `emit_assignment_expression`, with the emission of the value at a position. -/
def emitAssignment (L : LocalTable) (procs : Procedures) (pos : Nat) (operator : String)
    (emitValue : Nat → Emit) : Expression → Emit
  | .result => do
    let load : Code := if operator = "=" then [] else [.loadResult]
    let value ← emitValue (pos + load.length)
    return load ++ value ++ (← compoundInstruction operator) ++ [.duplicate, .storeResult]
  | .usr => do
    if operator ≠ "=" then .error "usr only supports direct assignment"
    else return (← emitValue pos) ++ [.duplicate, .storeUsr]
  | .local name => do
    match ← resolveName L name with
    | .slot slot =>
      let load : Code := if operator = "=" then [] else [.loadLocal slot]
      let value ← emitValue (pos + load.length)
      return load ++ value ++ (← compoundInstruction operator) ++ [.duplicate, .storeLocal slot]
    | .srcField field =>
      let load : Code := if operator = "=" then [] else [.duplicate, .loadField field]
      let value ← emitValue (pos + 1 + load.length)
      return .loadSrc :: load ++ value ++ (← compoundInstruction operator) ++
        [.storeFieldKeep field]
    | .global global => emitGlobalAssignment pos global operator emitValue
  | .globalField name => emitGlobalAssignment pos name operator emitValue
  | .src => do
    if operator ≠ "=" then .error "src only supports direct assignment"
    else return (← emitValue pos) ++ [.duplicate, .storeSrc]
  | .field receiver name => do
    match L.receiverStatic receiver name with
    | some storage => emitGlobalAssignment pos storage operator emitValue
    | none =>
      let first ← emitExpression L procs pos receiver
      let load : Code := if operator = "=" then [] else [.duplicate, .loadField name]
      let value ← emitValue (pos + first.length + load.length)
      return first ++ load ++ value ++ (← compoundInstruction operator) ++ [.storeFieldKeep name]
  | .initial reference =>
    match scopeStorage L reference with
    | some storage => emitGlobalAssignment pos storage operator emitValue
    | none => .error "assignment target is not writable"
  | .safeField receiver name => do
    let first ← emitExpression L procs pos receiver
    let load : Code := if operator = "=" then [] else [.duplicate, .loadField name]
    let value ← emitValue (pos + first.length + 2 + load.length)
    return nullGuard pos first
      (load ++ value ++ (← compoundInstruction operator) ++ [.storeFieldKeep name])
  | .index list index => do
    if operator = "=" then
      let value ← emitValue pos
      let first ← emitExpression L procs (pos + value.length) list
      let second ← emitExpression L procs (pos + value.length + first.length) index
      return value ++ first ++ second ++ [.prepareRhsFirstIndexAssignment, .setListIndexKeep]
    else
      let first ← emitExpression L procs pos list
      let second ← emitExpression L procs (pos + first.length) index
      let value ← emitValue (pos + first.length + second.length)
      return first ++ second ++ value ++ [.compoundListIndexKeep (← compoundOperator operator)]
  | .safeIndex list index => do
    if operator ≠ "=" then
      .error "compound null-conditional list assignment is not supported as an expression"
    else
      let first ← emitExpression L procs pos list
      let second ← emitExpression L procs (pos + first.length + 2) index
      let value ← emitValue (pos + first.length + 2 + second.length)
      return nullGuard pos first (second ++ value ++ [.setListIndexKeep])
  | _ => .error "assignment target is not writable"

end

attribute [simp] emitExpression emitAll emitOverrideValues emitOverrideStores emitNewList
  emitBuiltinArguments emitArgumentValues emitNamedArguments emitPickEntries emitListEntries
  emitLogicalOrEmptyList emitMutation emitAssignment

end Dream64.Vm
