import Dream64.Vm.Emit

/-!
# The operand-stack machine

One frame of the interpreter: a program counter, the operand stack and the
rest of the execution state. `Semantics` is what the machine takes from the
runtime: what each instruction computes from the operands it pops, in the
order they were pushed. A call is one such instruction, which runs its callee
to the end. `step` is the dispatch loop: it pops the operands, asks the
semantics, pushes the result and moves on or jumps.

`Runs hi c c'`: from `c` the machine reaches `c'` by instructions of the range
`[c.pc, hi)` only, each at a larger index than the one before it, so that no
instruction runs twice.
-/

namespace Dream64.Vm

/-- The expansion of an argument vector to nothing. -/
def noValues {V : Type} : {values : List V // values.length ≤ 65535} := ⟨[], by simp⟩

/-- The operations of the runtime on a state `σ` with values `V`, which fail
with an `ε`. -/
structure Semantics (σ ε V : Type) where
  /-- The value an instruction pushes for its operands. -/
  value : Instruction → List V → σ → Except ε (V × σ)
  /-- The effect of an instruction that pushes nothing. -/
  store : Instruction → List V → σ → Except ε σ
  /-- `runtime_truthy` -/
  truthy : V → σ → Except ε Bool
  /-- Whether a value is null, or a reference that is no longer live. -/
  isNull : V → σ → Bool
  /-- The arguments that the list expansions of an argument vector give; their
  names and roots are kept in the state for the call that follows. -/
  expand : Instruction → List V → σ → Except ε ({values : List V // values.length ≤ 65535} × σ)
  /-- The number that tells a call how many arguments were expanded. -/
  count : Nat → V
  readCount : V → Except ε Nat
  readCount_count (n : Nat) : n ≤ 65535 → readCount (count n) = .ok n
  /-- The failure of an expression that the compiler rejects. -/
  rejected : ε

/-- How an instruction that is not control flow uses the operand stack. -/
inductive StackShape where
  /-- It pops so many operands and pushes a value. -/
  | value (operands : Nat)
  /-- It pops so many operands and, below them, an argument vector of the
  given encoded count, and pushes a value. -/
  | call (operands : Nat) (encoded : Nat)
  /-- It pops so many operands and pushes nothing. -/
  | store (operands : Nat)
deriving DecidableEq

def ListEntryKind.operands : ListEntryKind → Nat
  | .positional => 1
  | .associative => 2

def Instruction.shape : Instruction → Option StackShape
  | .pushNull | .pushNumber _ | .pushText _ | .pushFile _ | .pushTypePath _ => some (.value 0)
  | .addressLocal _ | .loadLocalRaw _ | .loadLocal _ => some (.value 0)
  | .makeModifiedTypePath fields => some (.value (fields.length + 1))
  | .allocateDatum count _ => some (.call 1 count)
  | .makeRegex count | .makeMatrix count | .makeVector count => some (.value count)
  | .makeMutableAppearance count => some (.value count)
  | .replaceText count _ _ | .copyText count _ => some (.value count)
  | .standardBuiltin _ count _ | .nativeSrcMethod _ count => some (.value count)
  | .output => some (.store 2)
  | .input => some (.value 1)
  | .externalCall count => some (.value (count + 2))
  | .animate names _ | .makeFilter names _ => some (.value names.length)
  | .initialField _ => some (.value 1)
  | .initialDynamicField => some (.value 2)
  | .block count | .rand count | .roll count | .round count | .range count => some (.value count)
  | .pick weighted => some (.value (weighted.map fun w => if w then 2 else 1).sum)
  | .pickExpandedArguments => some (.call 0 expandedArgumentCount)
  | .prob | .length | .ref | .sleep => some (.value 1)
  | .getStep | .getStepTowards | .hasCall => some (.value 2)
  | .typesOf count | .typePredicate _ count => some (.value count)
  | .typeInstances _ => some (.value 0)
  | .makeList count => some (.value count)
  | .makeListEntries kinds | .makeAssociativeListEntries kinds =>
    some (.value (kinds.map ListEntryKind.operands).sum)
  | .logicalOrEmptyListLocal _ | .logicalOrEmptyListGlobal _ => some (.value 0)
  | .logicalOrEmptyListField _ => some (.value 1)
  | .logicalOrEmptyListIndex | .indexList => some (.value 2)
  | .indexLocalList _ => some (.value 1)
  | .listLengthLocal _ => some (.value 0)
  | .setListIndex | .compoundListIndex _ | .storeDynamicField => some (.store 3)
  | .setListIndexKeep | .compoundListIndexKeep _ => some (.value 3)
  | .prepareIteration | .iterationTypeFilter _ => some (.value 1)
  | .loadSrc | .loadUsr | .loadCaller | .loadGlobal _ | .loadGlobalVars => some (.value 0)
  | .loadInitialGlobal _ | .loadResult => some (.value 0)
  | .storeLocal _ | .storeSrc | .storeUsr | .storeGlobal _ | .storeResult => some (.store 1)
  | .loadField _ | .loadDeclaredField _ | .loadDatumVars => some (.value 1)
  | .loadDynamicField => some (.value 2)
  | .storeField _ => some (.store 2)
  | .storeFieldKeep _ => some (.value 2)
  | .mutateLocal .. | .mutateGlobal .. | .mutateResult .. => some (.value 0)
  | .mutateField .. => some (.value 1)
  | .mutateListIndex .. => some (.value 2)
  | .crash => some (.store 1)
  | .locate count => some (.value count)
  | .locateIn count => some (.value (count + 1))
  | .compoundAssignment _ => some (.value 2)
  | .add | .subtract | .multiply | .power | .divide | .remainder | .fractionalRemainder
  | .bitAnd | .bitOr | .bitXor | .shiftLeft | .shiftRight => some (.value 2)
  | .bitNot | .negate | .not => some (.value 1)
  | .equal | .notEqual | .equivalent | .notEquivalent | .compare | .contains
  | .less | .lessEqual | .greater | .greaterEqual | .and | .or => some (.value 2)
  | .call _ count _ => some (.call 0 count)
  | .callCurrent none | .callParent _ none => some (.value 0)
  | .callCurrent (some count) | .callParent _ (some count) => some (.call 0 count)
  | .callDynamic static count _ _ => some (.call (if static.isSome then 1 else 2) count)
  | .beginTry .. | .endTry | .throw | .ret => none
  | .duplicate | .prepareRhsFirstIndexAssignment | .expandArgumentLists .. => none
  | .pop | .jumpIfNull _ | .jumpIfFalse _ | .jump _ => none
  | .jumpIfArgumentSupplied .. | .nextLocalListIteration .. | .spawn _ => none

/-- One frame: the top of the operand stack is the head of `stack`. -/
structure Config (σ V : Type) where
  pc : Nat
  stack : List V
  state : σ

variable {σ ε V : Type} (S : Semantics σ ε V)

/-- Takes `count` operands off the stack, in the order they were pushed. -/
def popOperands (count : Nat) (stack : List V) : Option (List V × List V) :=
  if count ≤ stack.length then some ((stack.take count).reverse, stack.drop count) else none

/-- An instruction that pushes a value for its operands. -/
def stepValue (instruction : Instruction) (operands : Nat) (c : Config σ V) :
    Option (Except ε (Config σ V)) :=
  (popOperands operands c.stack).map fun (arguments, rest) =>
    (S.value instruction arguments c.state).map fun (v, s) => ⟨c.pc + 1, v :: rest, s⟩

/-- An instruction that only moves values on the stack or jumps. -/
def stepControl (instruction : Instruction) (c : Config σ V) : Option (Except ε (Config σ V)) :=
  match instruction, c.stack with
  | .duplicate, v :: rest => some (.ok ⟨c.pc + 1, v :: v :: rest, c.state⟩)
  | .pop, _ :: rest => some (.ok ⟨c.pc + 1, rest, c.state⟩)
  | .prepareRhsFirstIndexAssignment, index :: list :: value :: rest =>
    some (.ok ⟨c.pc + 1, value :: index :: list :: rest, c.state⟩)
  | .jump target, stack => some (.ok ⟨target, stack, c.state⟩)
  | .jumpIfFalse target, v :: rest =>
    some ((S.truthy v c.state).map fun b => ⟨if b then c.pc + 1 else target, rest, c.state⟩)
  | .jumpIfNull target, v :: rest =>
    some (.ok ⟨if S.isNull v c.state then target else c.pc + 1, rest, c.state⟩)
  | .expandArgumentLists count names expanded, stack =>
    (popOperands count stack).map fun (arguments, rest) =>
      (S.expand (.expandArgumentLists count names expanded) arguments c.state).map
        fun (values, s) => ⟨c.pc + 1, S.count values.1.length :: (values.1.reverse ++ rest), s⟩
  | _, _ => none

/-- An instruction with a stack shape. -/
def stepShaped (instruction : Instruction) (c : Config σ V) :
    StackShape → Option (Except ε (Config σ V))
  | .value operands => stepValue S instruction operands c
  | .call operands encoded =>
    if encoded = expandedArgumentCount then
      match c.stack with
      | v :: rest =>
        match S.readCount v with
        | .error e => some (.error e)
        | .ok count => stepValue S instruction (operands + count) { c with stack := rest }
      | [] => none
    else stepValue S instruction (operands + encoded) c
  | .store operands =>
    (popOperands operands c.stack).map fun (arguments, rest) =>
      (S.store instruction arguments c.state).map fun s => ⟨c.pc + 1, rest, s⟩

/-- One dispatch of the interpreter; `none` past the end of the code and on
stack underflow. -/
def step (code : Code) (c : Config σ V) : Option (Except ε (Config σ V)) :=
  code[c.pc]?.bind fun instruction =>
    match instruction.shape with
    | some shape => stepShaped S instruction c shape
    | none => stepControl S instruction c

inductive Runs (code : Code) (hi : Nat) : Config σ V → Config σ V → Prop where
  | refl (c : Config σ V) : Runs code hi c c
  | step {c c' c'' : Config σ V} : c.pc < hi → step S code c = some (.ok c') → c.pc < c'.pc →
      Runs code hi c' c'' → Runs code hi c c''

/-- The machine fails with `e` at an instruction below `hi`. -/
def Fails (code : Code) (hi : Nat) (c : Config σ V) (e : ε) : Prop :=
  ∃ c', Runs S code hi c c' ∧ c'.pc < hi ∧ step S code c' = some (.error e)

/-- From `c` the machine runs the code up to `hi` and leaves the values of the
result (`push`, the last one first) on top of `base`, or fails below `hi`, as
the result says. -/
def Ends {α : Type} (code : Code) (hi : Nat) (push : α → List V) (c : Config σ V)
    (base : List V) : Except ε (α × σ) → Prop
  | .ok (a, s) => Runs S code hi c ⟨hi, push a ++ base, s⟩
  | .error e => Fails S code hi c e

/-- `fragment` is the part of the code that starts at `pos`. -/
def Placed (code : Code) (pos : Nat) (fragment : Code) : Prop := fragment <+: code.drop pos

end Dream64.Vm
