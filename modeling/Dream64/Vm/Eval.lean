import Dream64.Vm.Machine

/-!
# Expression evaluation

What an expression means: its operands are evaluated one after the other and
their values are combined by the operation of the runtime that the last
instruction of the form names. The nodes of a tree are numbered in the order
in which their form evaluates them (`n` is the number of the node itself, an
operand takes the next free one), and an evaluation logs the number of every
operand it evaluates.

The order is left to right, except in two forms. A plain assignment to an
index evaluates the value first, then the list and the index. An index into a
procedure local evaluates the index alone, and the local is read by the
indexing itself.
-/

namespace Dream64.Vm

/-- A computation that logs the operands it evaluates. -/
def Eval (σ ε α : Type) := σ → List Nat × Except ε (α × σ)

namespace Eval

variable {σ ε α : Type}

instance : Monad (Eval σ ε) where
  pure a := fun s => ([], .ok (a, s))
  bind x f := fun s =>
    match x s with
    | (log, .error e) => (log, .error e)
    | (log, .ok (a, s')) => (log ++ (f a s').1, (f a s').2)

/-- An operation of the runtime, which evaluates no operand. -/
def lift (x : σ → Except ε (α × σ)) : Eval σ ε α := fun s => ([], x s)

/-- The evaluation of the operand with number `n`. -/
def operand (n : Nat) (x : Eval σ ε α) : Eval σ ε α := fun s => (n :: (x s).1, (x s).2)

end Eval

mutual

/-- The number of nodes of an expression tree. -/
def Expression.size : Expression → Nat
  | .modifiedTypePath _ overrides => sizeOverrides overrides + 1
  | .new typePath arguments overrides =>
    sizeOption typePath + sizeAll arguments + sizeOverrides overrides + 1
  | .regex arguments | .mutableAppearance arguments | .matrix arguments | .vector arguments
  | .replaceText arguments _ _ | .copyText arguments _ | .standardBuiltin _ arguments
  | .nativeSrcMethod _ arguments | .block arguments | .rand arguments | .roll arguments
  | .round arguments | .range arguments | .typesOf arguments | .typePredicate _ arguments
  | .call _ arguments | .locate arguments => sizeAll arguments + 1
  | .externalCall library function arguments =>
    library.size + function.size + sizeAll arguments + 1
  | .animate arguments | .filter arguments => sizeNamed arguments + 1
  | .crash e | .sleep e | .initial e | .prob e | .length e | .ref e | .field e _ | .safeField e _
  | .namedArgument _ e | .argList e | .unary _ e | .mutation e _ _ => e.size + 1
  | .pick entries => sizePick entries + 1
  | .getStep a b | .getStepTowards a b | .hasCall a b | .index a b | .safeIndex a b
  | .binary _ a b | .logicalOrAssignment a b | .assignment a _ b => a.size + b.size + 1
  | .locateIn arguments container => sizeAll arguments + container.size + 1
  | .currentCall arguments | .parentCall arguments => sizeArguments arguments + 1
  | .dynamicCall target procedure arguments _ | .safeDynamicCall target procedure arguments =>
    target.size + procedure.size + sizeAll arguments + 1
  | .list entries | .associativeList entries => sizeEntries entries + 1
  | .conditional a b c => a.size + b.size + c.size + 1
  | .null | .number _ | .text _ | .file _ | .typePath _ | .local _ | .src | .usr | .caller
  | .world | .globalNamespace | .globalField _ | .result => 1

def sizeAll : List Expression → Nat
  | [] => 0
  | e :: rest => e.size + sizeAll rest

def sizeOption : Option Expression → Nat
  | none => 0
  | some e => e.size

def sizeArguments : Option (List Expression) → Nat
  | none => 0
  | some arguments => sizeAll arguments

def sizeOverrides : List (FieldName × Expression) → Nat
  | [] => 0
  | (_, e) :: rest => e.size + sizeOverrides rest

def sizeNamed : List (Option String × Expression) → Nat
  | [] => 0
  | (_, e) :: rest => e.size + sizeNamed rest

def sizePick : List (Option Expression × Expression) → Nat
  | [] => 0
  | (weight, e) :: rest => sizeOption weight + e.size + sizePick rest

def sizeEntries : List ListExpressionEntry → Nat
  | [] => 0
  | .positional value :: rest => value.size + sizeEntries rest
  | .associative key value :: rest => key.size + value.size + sizeEntries rest

end

attribute [simp] Expression.size sizeAll sizeOption sizeArguments sizeOverrides sizeNamed sizePick
  sizeEntries

section Operations

variable {σ ε V : Type} (S : Semantics σ ε V)

def evalValue (instruction : Instruction) (operands : List V) : Eval σ ε V :=
  .lift (S.value instruction operands)

def evalStore (instruction : Instruction) (operands : List V) : Eval σ ε Unit :=
  .lift fun s => (S.store instruction operands s).map ((), ·)

def evalTruthy (v : V) : Eval σ ε Bool := .lift fun s => (S.truthy v s).map (·, s)

/-- `inner`, unless the receiver is null: a null receiver is the result. -/
def unlessNull (receiver : V) (inner : Eval σ ε V) : Eval σ ε V := fun s =>
  if S.isNull receiver s then ([], .ok (receiver, s)) else inner s

def rejected {α : Type} : Eval σ ε α := .lift fun _ => .error S.rejected

/-- The positions of the list expansions in an argument vector. -/
def expandedIndices (index : Nat) : List Expression → List Nat
  | [] => []
  | .argList _ :: rest => index :: expandedIndices (index + 1) rest
  | _ :: rest => expandedIndices (index + 1) rest

def namedExpandedIndices (index : Nat) : List (Option String × Expression) → List Nat
  | [] => []
  | (_, .argList _) :: rest => index :: namedExpandedIndices (index + 1) rest
  | _ :: rest => namedExpandedIndices (index + 1) rest

/-- A call-like instruction on its receivers and the argument vector, whose
list expansions are expanded first. -/
def evalCall (instruction : Nat → Instruction) (receivers : List V) (arguments : List Expression)
    (values : List V) : Eval σ ε V :=
  if (expandedIndices 0 arguments).isEmpty then
    evalValue S (instruction arguments.length) (receivers ++ values)
  else do
    let expanded ← .lift (S.expand (.expandArgumentLists arguments.length (argumentNames arguments)
      (expandedIndices 0 arguments)) values)
    evalValue S (instruction expandedArgumentCount) (receivers ++ expanded.1)

def evalName (L : LocalTable) (name : String) : Eval σ ε V :=
  match resolveName L name with
  | .ok (.slot slot) => evalValue S (.loadLocal slot) []
  | .ok (.srcField field) => do
    let src ← evalValue S .loadSrc []
    evalValue S (.loadField field) [src]
  | .ok (.global global) => evalValue S (.loadGlobal global) []
  | .error _ => rejected S

/-- The value an assignment stores, from the loaded target and the value. -/
def evalCombine (operator : String) (old value : V) : Eval σ ε V :=
  match compoundOperator? operator with
  | some op => evalValue S (.compoundAssignment op) [old, value]
  | none => rejected S

/-- An assignment that keeps its value: `load` reads the target of a compound
assignment before the value is evaluated. -/
def evalStoreOf (operator : String) (load value : Eval σ ε V) (storeIt : V → Eval σ ε V) :
    Eval σ ε V := do
  if operator = "=" then storeIt (← value)
  else
    let old ← load
    let v ← value
    storeIt (← evalCombine S operator old v)

def evalKeep (instruction : Instruction) (v : V) : Eval σ ε V := do
  evalStore S instruction [v]
  return v

def evalGlobalAssignment (storage : FieldName) (operator : String) (value : Eval σ ε V) :
    Eval σ ε V :=
  evalStoreOf S operator (evalValue S (.loadGlobal storage) []) value
    (evalKeep S (.storeGlobal storage))

/-- The store of a value into a field of a receiver, which keeps the value. -/
def evalFieldAssignment (receiver : V) (field : FieldName) (operator : String)
    (value : Eval σ ε V) : Eval σ ε V :=
  evalStoreOf S operator (evalValue S (.loadField field) [receiver]) value
    fun v => evalValue S (.storeFieldKeep field) [receiver, v]

def evalUnary (operator : String) (v : V) : Eval σ ε V :=
  match operator with
  | "+" => pure v
  | "-" => evalValue S .negate [v]
  | "!" => evalValue S .not [v]
  | "~" => evalValue S .bitNot [v]
  | "&" => evalValue S (.makeList 1) [v]
  | "*" => do
    let one ← evalValue S (.pushNumber .one) []
    evalValue S .indexList [v, one]
  | _ => rejected S

def entryKind : ListExpressionEntry → ListEntryKind
  | .positional _ => .positional
  | .associative _ _ => .associative

end Operations

variable {σ ε V : Type} (S : Semantics σ ε V) (L : LocalTable) (procs : Procedures)

mutual

def eval (n : Nat) : Expression → Eval σ ε V
  | .namedArgument _ value => eval n value
  | .null => evalValue S .pushNull []
  | .number bits => evalValue S (.pushNumber bits) []
  | .text text => evalValue S (.pushText text) []
  | .file path => evalValue S (.pushFile path) []
  | .typePath path => evalValue S (.pushTypePath path) []
  | .modifiedTypePath base overrides => do
    let path ← evalValue S (.pushTypePath base) []
    let values ← evalOverrideValues (n + 1) overrides
    evalValue S (.makeModifiedTypePath (overrides.map (·.1))) (path :: values)
  | .new typePath arguments overrides =>
    match typePath with
    | none => rejected S
    | some typePath => do
      let type ← .operand (n + 1) (eval (n + 1) typePath)
      let values ← evalAll (n + 1 + typePath.size) arguments
      let datum ← evalCall S (.allocateDatum · (argumentNames arguments)) [type] arguments values
      evalOverrideStores (n + 1 + typePath.size + sizeAll arguments) datum overrides
      return datum
  | .regex arguments => do
    evalValue S (.makeRegex arguments.length) (← evalAll (n + 1) arguments)
  | .mutableAppearance arguments =>
    match procs "mutable_appearance" with
    | some procedure => do
      let values ← evalAll (n + 1) arguments
      evalCall S (.call procedure · (argumentNames arguments)) [] arguments values
    | none => do
      evalValue S (.makeMutableAppearance arguments.length) (← evalAll (n + 1) arguments)
  | .matrix arguments => do
    evalValue S (.makeMatrix arguments.length) (← evalAll (n + 1) arguments)
  | .vector arguments => do
    evalValue S (.makeVector arguments.length) (← evalAll (n + 1) arguments)
  | .replaceText arguments exact characterIndices => do
    evalValue S (.replaceText arguments.length exact characterIndices)
      (← evalAll (n + 1) arguments)
  | .copyText arguments characterIndices => do
    evalValue S (.copyText arguments.length characterIndices) (← evalAll (n + 1) arguments)
  | .block arguments => do
    evalValue S (.block arguments.length) (← evalAll (n + 1) arguments)
  | .length value => do
    evalValue S .length [← .operand (n + 1) (eval (n + 1) value)]
  | .ref value => do
    evalValue S .ref [← .operand (n + 1) (eval (n + 1) value)]
  | .getStep source direction => do
    let first ← .operand (n + 1) (eval (n + 1) source)
    let second ← .operand (n + 1 + source.size) (eval (n + 1 + source.size) direction)
    evalValue S .getStep [first, second]
  | .getStepTowards source target => do
    let first ← .operand (n + 1) (eval (n + 1) source)
    let second ← .operand (n + 1 + source.size) (eval (n + 1 + source.size) target)
    evalValue S .getStepTowards [first, second]
  | .range arguments => do
    evalValue S (.range arguments.length) (← evalAll (n + 1) arguments)
  | .typesOf arguments => do
    evalValue S (.typesOf arguments.length) (← evalAll (n + 1) arguments)
  | .hasCall receiver selector => do
    let first ← .operand (n + 1) (eval (n + 1) receiver)
    let second ← .operand (n + 1 + receiver.size) (eval (n + 1 + receiver.size) selector)
    evalValue S .hasCall [first, second]
  | .rand arguments => do
    evalValue S (.rand arguments.length) (← evalAll (n + 1) arguments)
  | .roll arguments => do
    evalValue S (.roll arguments.length) (← evalAll (n + 1) arguments)
  | .pick entries => do
    let values ← evalPickEntries (n + 1) entries
    if pickExpands entries then
      let expanded ← .lift (S.expand (.expandArgumentLists 1 [none] [0]) values)
      evalValue S .pickExpandedArguments expanded.1
    else evalValue S (.pick (entries.map fun entry => entry.1.isSome)) values
  | .prob chance => do
    evalValue S .prob [← .operand (n + 1) (eval (n + 1) chance)]
  | .round arguments => do
    evalValue S (.round arguments.length) (← evalAll (n + 1) arguments)
  | .typePredicate kind arguments => do
    let values ← evalAll (n + 1) arguments
    match inferredPredicateType L kind arguments with
    | some path => do
      let type ← evalValue S (.pushTypePath path) []
      evalValue S (.typePredicate kind (arguments.length + 1)) (values ++ [type])
    | none => evalValue S (.typePredicate kind arguments.length) values
  | .local name => evalName S L name
  | .src => evalValue S .loadSrc []
  | .usr => evalValue S .loadUsr []
  | .caller => evalValue S .loadCaller []
  | .world => evalValue S (.loadGlobal worldField) []
  | .globalNamespace => rejected S
  | .field receiver name =>
    if name.name = "vars" then do
      evalValue S .loadDatumVars [← .operand (n + 1) (eval (n + 1) receiver)]
    else
      match L.fieldStorage receiver name with
      | some storage => evalValue S (.loadGlobal storage) []
      | none => do
        evalValue S (loadFieldInstruction L receiver name)
          [← .operand (n + 1) (eval (n + 1) receiver)]
  | .safeField receiver name => do
    let v ← .operand (n + 1) (eval (n + 1) receiver)
    unlessNull S v (evalValue S (loadFieldInstruction L receiver name) [v])
  | .globalField name =>
    if name.name = "vars" then evalValue S .loadGlobalVars [] else evalValue S (.loadGlobal name) []
  | .result => evalValue S .loadResult []
  -- an expansion contributes its list to the enclosing argument vector
  | .argList values => .operand (n + 1) (eval (n + 1) values)
  | .standardBuiltin name arguments =>
    if name = "newlist" ∧ (procs name).isNone then do
      evalValue S (.makeList arguments.length) (← evalNewList (n + 1) arguments)
    else do
      let values ← evalAll (n + 1) arguments
      match procs name with
      | some procedure =>
        evalValue S (.call procedure arguments.length (argumentNames arguments)) values
      | none =>
        evalValue S (.standardBuiltin name arguments.length (argumentNames arguments)) values
  | .nativeSrcMethod name arguments =>
    match procs name with
    | some procedure => do
      let values ← evalAll (n + 1) arguments
      evalCall S (.call procedure · (arguments.map fun _ => none)) [] arguments values
    | none => do
      evalValue S (.nativeSrcMethod name arguments.length) (← evalAll (n + 1) arguments)
  | .externalCall library function arguments => do
    let first ← .operand (n + 1) (eval (n + 1) library)
    let second ← .operand (n + 1 + library.size) (eval (n + 1 + library.size) function)
    let values ← evalAll (n + 1 + library.size + function.size) arguments
    evalValue S (.externalCall arguments.length) (first :: second :: values)
  | .animate arguments => do
    let values ← evalNamedArguments (n + 1) arguments
    evalValue S (.animate (arguments.map (·.1)) (namedExpandedIndices 0 arguments)) values
  | .filter arguments => do
    let values ← evalNamedArguments (n + 1) arguments
    evalValue S (.makeFilter (arguments.map (·.1)) (namedExpandedIndices 0 arguments)) values
  | .crash message => do
    evalStore S .crash [← .operand (n + 1) (eval (n + 1) message)]
    evalValue S .pushNull []
  | .sleep delay => do
    evalValue S .sleep [← .operand (n + 1) (eval (n + 1) delay)]
  | .initial reference =>
    match reference with
    | .field receiver name =>
      match L.receiverStatic receiver name with
      | some storage =>
        match receiver with
        | .typePath _ => evalValue S (.loadGlobal storage) []
        | _ => evalValue S (.loadInitialGlobal storage) []
      | none => do
        evalValue S (.initialField name) [← .operand (n + 2) (eval (n + 2) receiver)]
    | .local name =>
      match L.srcField name with
      | some field => do
        let src ← evalValue S .loadSrc []
        evalValue S (.initialField field) [src]
      | none => rejected S
    | .safeField receiver name => do
      let v ← .operand (n + 2) (eval (n + 2) receiver)
      unlessNull S v (evalValue S (.initialField name) [v])
    | .index (.field receiver name) index =>
      if name.name = "vars" then do
        let first ← .operand (n + 3) (eval (n + 3) receiver)
        let second ← .operand (n + 3 + receiver.size) (eval (n + 3 + receiver.size) index)
        evalValue S .initialDynamicField [first, second]
      else rejected S
    | _ => rejected S
  | .call procedure arguments =>
    match procs procedure with
    | none => rejected S
    | some target => do
      let values ← evalAll (n + 1) arguments
      evalCall S (.call target · (argumentNames arguments)) [] arguments values
  | .locate arguments => do
    evalValue S (.locate arguments.length) (← evalAll (n + 1) arguments)
  | .locateIn arguments container => do
    let values ← evalAll (n + 1) arguments
    let list ← .operand (n + 1 + sizeAll arguments) (eval (n + 1 + sizeAll arguments) container)
    evalValue S (.locateIn arguments.length) (values ++ [list])
  | .currentCall arguments =>
    match arguments with
    | some arguments => do
      let values ← evalAll (n + 1) arguments
      evalCall S (fun count => .callCurrent (some count)) [] arguments values
    | none => evalValue S (.callCurrent none) []
  | .parentCall arguments =>
    match arguments with
    | some arguments => do
      let values ← evalAll (n + 1) arguments
      evalCall S (fun count => .callParent (procs "..") (some count)) [] arguments values
    | none => evalValue S (.callParent (procs "..") none) []
  | .dynamicCall target procedure arguments nullReceiverIsGlobal => do
    let receiver ← .operand (n + 1) (eval (n + 1) target)
    let selector ← (match literalSelector procedure with
      | some _ => pure []
      | none => do
        return [← .operand (n + 1 + target.size) (eval (n + 1 + target.size) procedure)])
    let values ← evalAll (n + 1 + target.size + procedure.size) arguments
    evalCall S
      (.callDynamic (literalSelector procedure) · (argumentNames arguments) nullReceiverIsGlobal)
      (receiver :: selector) arguments values
  | .safeDynamicCall target procedure arguments => do
    let receiver ← .operand (n + 1) (eval (n + 1) target)
    unlessNull S receiver do
      let selector ← (match literalSelector procedure with
        | some _ => pure []
        | none => do
          return [← .operand (n + 1 + target.size) (eval (n + 1 + target.size) procedure)])
      let values ← evalAll (n + 1 + target.size + procedure.size) arguments
      evalCall S (.callDynamic (literalSelector procedure) · (argumentNames arguments) false)
        (receiver :: selector) arguments values
  | .list entries => do
    evalValue S (.makeListEntries (entries.map entryKind)) (← evalEntries (n + 1) entries)
  | .associativeList entries => do
    evalValue S (.makeAssociativeListEntries (entries.map entryKind))
      (← evalEntries (n + 1) entries)
  | .index list index =>
    match list with
    | .field receiver name =>
      if name.name = "vars" then do
        let first ← .operand (n + 2) (eval (n + 2) receiver)
        let second ← .operand (n + 2 + receiver.size) (eval (n + 2 + receiver.size) index)
        evalValue S .loadDynamicField [first, second]
      else do
        let first ← .operand (n + 1) (eval (n + 1) (.field receiver name))
        let second ← .operand (n + 2 + receiver.size) (eval (n + 2 + receiver.size) index)
        evalValue S .indexList [first, second]
    | list =>
      match localSlot L list with
      | some slot => do
        evalValue S (.indexLocalList slot)
          [← .operand (n + 1 + list.size) (eval (n + 1 + list.size) index)]
      | none => do
        let first ← .operand (n + 1) (eval (n + 1) list)
        let second ← .operand (n + 1 + list.size) (eval (n + 1 + list.size) index)
        evalValue S .indexList [first, second]
  | .safeIndex list index => do
    let first ← .operand (n + 1) (eval (n + 1) list)
    unlessNull S first do
      let second ← .operand (n + 1 + list.size) (eval (n + 1 + list.size) index)
      evalValue S .indexList [first, second]
  | .unary operator operand =>
    match cellOperand L operator operand with
    | some (.address slot) => evalValue S (.addressLocal slot) []
    | some (.dereference slot) => do
      let cell ← evalValue S (.loadLocalRaw slot) []
      let one ← evalValue S (.pushNumber .one) []
      evalValue S .indexList [cell, one]
    | none => do
      evalUnary S operator (← .operand (n + 1) (eval (n + 1) operand))
  | .mutation target delta isPrefix => evalMutation n delta isPrefix target
  | .binary operator left right => do
    let first ← .operand (n + 1) (eval (n + 1) left)
    let second := Eval.operand (n + 1 + left.size) (eval (n + 1 + left.size) right)
    if operator = "&&" then
      if ← evalTruthy S first then second else return first
    else if operator = "||" then
      if ← evalTruthy S first then return first else second
    else
      let second ← second
      match binaryInstruction operator with
      | .ok instruction => evalValue S instruction [first, second]
      | .error _ => rejected S
  | .conditional condition whenTrue whenFalse => do
    let test ← .operand (n + 1) (eval (n + 1) condition)
    if ← evalTruthy S test then
      .operand (n + 1 + condition.size) (eval (n + 1 + condition.size) whenTrue)
    else
      .operand (n + 1 + condition.size + whenTrue.size)
        (eval (n + 1 + condition.size + whenTrue.size) whenFalse)
  | .logicalOrAssignment target value => do
    match (if isEmptyList value then evalLogicalOrEmptyList n target else none) with
    | some x => x
    | none =>
      -- the target is evaluated once for the test and again for the result
      let test ← .operand (n + 1) (eval (n + 1) target)
      if ← evalTruthy S test then .operand (n + 1) (eval (n + 1) target)
      else
        evalAssignment n "=" value.size (fun k => .operand k (eval k value)) target
  | .assignment target operator value =>
    evalAssignment n operator value.size (fun k => .operand k (eval k value)) target

def evalAll (n : Nat) : List Expression → Eval σ ε (List V)
  | [] => pure []
  | argument :: rest => do
    let v ← .operand n (eval n argument)
    return v :: (← evalAll (n + argument.size) rest)

def evalOverrideValues (n : Nat) : List (FieldName × Expression) → Eval σ ε (List V)
  | [] => pure []
  | (_, value) :: rest => do
    let v ← .operand n (eval n value)
    return v :: (← evalOverrideValues (n + value.size) rest)

def evalOverrideStores (n : Nat) (datum : V) : List (FieldName × Expression) → Eval σ ε Unit
  | [] => pure ()
  | (name, value) :: rest => do
    let v ← .operand n (eval n value)
    evalStore S (.storeField name) [datum, v]
    evalOverrideStores (n + value.size) datum rest

def evalNewList (n : Nat) : List Expression → Eval σ ε (List V)
  | [] => pure []
  | argument :: rest => do
    let type ← .operand n (eval n argument)
    let datum ← evalValue S (.allocateDatum 0 []) [type]
    return datum :: (← evalNewList (n + argument.size) rest)

def evalNamedArguments (n : Nat) : List (Option String × Expression) → Eval σ ε (List V)
  | [] => pure []
  | (_, argument) :: rest => do
    let v ← .operand n (eval n argument)
    return v :: (← evalNamedArguments (n + argument.size) rest)

def evalPickEntries (n : Nat) : List (Option Expression × Expression) → Eval σ ε (List V)
  | [] => pure []
  | (none, candidate) :: rest => do
    let v ← .operand n (eval n candidate)
    return v :: (← evalPickEntries (n + candidate.size) rest)
  | (some weight, candidate) :: rest => do
    let w ← .operand n (eval n weight)
    let v ← .operand (n + weight.size) (eval (n + weight.size) candidate)
    return w :: v :: (← evalPickEntries (n + weight.size + candidate.size) rest)

def evalEntries (n : Nat) : List ListExpressionEntry → Eval σ ε (List V)
  | [] => pure []
  | .positional value :: rest => do
    let v ← .operand n (eval n value)
    return v :: (← evalEntries (n + value.size) rest)
  | .associative key value :: rest => do
    let first ← (match bareKey key with
      | some name => evalValue S (.pushText name) []
      | none => .operand n (eval n key))
    let second ← .operand (n + key.size) (eval (n + key.size) value)
    return first :: second :: (← evalEntries (n + key.size + value.size) rest)

/-- `target ||= list()` for a target that is read and written at once. -/
def evalLogicalOrEmptyList (n : Nat) : Expression → Option (Eval σ ε V)
  | .local name =>
    match resolveName L name with
    | .ok (.slot slot) => some (evalValue S (.logicalOrEmptyListLocal slot) [])
    | .ok (.srcField field) => some do
      let src ← evalValue S .loadSrc []
      evalValue S (.logicalOrEmptyListField field) [src]
    | .ok (.global global) => some (evalValue S (.logicalOrEmptyListGlobal global) [])
    | .error _ => some (rejected S)
  | .globalField name =>
    if name.name = "vars" then none else some (evalValue S (.logicalOrEmptyListGlobal name) [])
  | .field receiver name =>
    if name.name = "vars" then none
    else
      match L.fieldStorage receiver name with
      | some storage => some (evalValue S (.logicalOrEmptyListGlobal storage) [])
      | none => some do
        evalValue S (.logicalOrEmptyListField name) [← .operand (n + 2) (eval (n + 2) receiver)]
  | .initial (.field receiver name) =>
    if name.name = "vars" then none
    else (L.receiverStatic receiver name).map fun storage =>
      evalValue S (.logicalOrEmptyListGlobal storage) []
  | .index list index => some do
    let first ← .operand (n + 2) (eval (n + 2) list)
    let second ← .operand (n + 2 + list.size) (eval (n + 2 + list.size) index)
    evalValue S .logicalOrEmptyListIndex [first, second]
  | _ => none

def evalMutation (n : Nat) (delta : Int) (isPrefix : Bool) : Expression → Eval σ ε V
  | .local name =>
    match resolveName L name with
    | .ok (.slot slot) => evalValue S (.mutateLocal slot delta isPrefix) []
    | .ok (.srcField field) => do
      let src ← evalValue S .loadSrc []
      evalValue S (.mutateField field delta isPrefix) [src]
    | .ok (.global global) => evalValue S (.mutateGlobal global delta isPrefix) []
    | .error _ => rejected S
  | .globalField name => evalValue S (.mutateGlobal name delta isPrefix) []
  | .field receiver name =>
    match L.receiverStatic receiver name with
    | some storage => evalValue S (.mutateGlobal storage delta isPrefix) []
    | none => do
      evalValue S (.mutateField name delta isPrefix) [← .operand (n + 2) (eval (n + 2) receiver)]
  | .safeField receiver name =>
    match L.receiverStatic receiver name with
    | some storage => evalValue S (.mutateGlobal storage delta isPrefix) []
    | none => do
      let v ← .operand (n + 2) (eval (n + 2) receiver)
      unlessNull S v (evalValue S (.mutateField name delta isPrefix) [v])
  | .initial reference =>
    match scopeStorage L reference with
    | some storage => evalValue S (.mutateGlobal storage delta isPrefix) []
    | none => rejected S
  | .index list index => do
    let first ← .operand (n + 2) (eval (n + 2) list)
    let second ← .operand (n + 2 + list.size) (eval (n + 2 + list.size) index)
    evalValue S (.mutateListIndex delta isPrefix) [first, second]
  | .result => evalValue S (.mutateResult delta isPrefix) []
  | _ => rejected S

/-- An assignment in expression position: `value k` evaluates the value as the
operand with number `k`, and `valueSize` is the number of its nodes. -/
def evalAssignment (n : Nat) (operator : String) (valueSize : Nat) (value : Nat → Eval σ ε V) :
    Expression → Eval σ ε V
  | .result =>
    evalStoreOf S operator (evalValue S .loadResult []) (value (n + 2)) (evalKeep S .storeResult)
  | .usr =>
    if operator ≠ "=" then rejected S
    else do evalKeep S .storeUsr (← value (n + 2))
  | .local name =>
    match resolveName L name with
    | .ok (.slot slot) =>
      evalStoreOf S operator (evalValue S (.loadLocal slot) []) (value (n + 2))
        (evalKeep S (.storeLocal slot))
    | .ok (.srcField field) => do
      let src ← evalValue S .loadSrc []
      evalFieldAssignment S src field operator (value (n + 2))
    | .ok (.global global) => evalGlobalAssignment S global operator (value (n + 2))
    | .error _ => rejected S
  | .globalField name => evalGlobalAssignment S name operator (value (n + 2))
  | .src =>
    if operator ≠ "=" then rejected S
    else do evalKeep S .storeSrc (← value (n + 2))
  | .field receiver name =>
    match L.receiverStatic receiver name with
    | some storage => evalGlobalAssignment S storage operator (value (n + 2 + receiver.size))
    | none => do
      let v ← .operand (n + 2) (eval (n + 2) receiver)
      evalFieldAssignment S v name operator (value (n + 2 + receiver.size))
  | .initial reference =>
    match scopeStorage L reference with
    | some storage => evalGlobalAssignment S storage operator (value (n + 2 + reference.size))
    | none => rejected S
  | .safeField receiver name => do
    let v ← .operand (n + 2) (eval (n + 2) receiver)
    unlessNull S v (evalFieldAssignment S v name operator (value (n + 2 + receiver.size)))
  | .index list index =>
    if operator = "=" then do
      -- the right-hand side comes first
      let v ← value (n + 1)
      let first ← .operand (n + 2 + valueSize) (eval (n + 2 + valueSize) list)
      let second ← .operand (n + 2 + valueSize + list.size)
        (eval (n + 2 + valueSize + list.size) index)
      evalValue S .setListIndexKeep [first, second, v]
    else do
      let first ← .operand (n + 2) (eval (n + 2) list)
      let second ← .operand (n + 2 + list.size) (eval (n + 2 + list.size) index)
      let v ← value (n + 2 + list.size + index.size)
      match compoundOperator? operator with
      | some op => evalValue S (.compoundListIndexKeep op) [first, second, v]
      | none => rejected S
  | .safeIndex list index =>
    if operator ≠ "=" then rejected S
    else do
      let first ← .operand (n + 2) (eval (n + 2) list)
      unlessNull S first do
        let second ← .operand (n + 2 + list.size) (eval (n + 2 + list.size) index)
        let v ← value (n + 2 + list.size + index.size)
        evalValue S .setListIndexKeep [first, second, v]
  | _ => rejected S

end

attribute [simp] eval evalAll evalOverrideValues evalOverrideStores evalNewList evalNamedArguments
  evalPickEntries evalEntries evalLogicalOrEmptyList evalMutation evalAssignment

end Dream64.Vm
