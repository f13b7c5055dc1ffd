import Dream64.Vm.Bytecode
import Dream64.Vm.TextBuiltins
import Dream64.Vm.ValuesEquivalent

/-!
# Numeric dispatch blocks

The fast path for runs of numeric instructions, which works on the rich values
of a frame, next to the dispatch of one instruction that it stands in for. A
block ends at an instruction that it has no way to run, and hands the frame
back as it is then. What the dispatch does with operands or instructions that no
block runs is a parameter, and the operators of the machine on numbers are one.
-/

namespace Dream64.Vm.Numeric

/-- The operators of the machine on binary32 numbers. -/
structure Binary32 where
  add : DmNumberBits → DmNumberBits → DmNumberBits
  subtract : DmNumberBits → DmNumberBits → DmNumberBits
  multiply : DmNumberBits → DmNumberBits → DmNumberBits
  divide : DmNumberBits → DmNumberBits → DmNumberBits
  negate : DmNumberBits → DmNumberBits
  equal : DmNumberBits → DmNumberBits → Bool
  notEqual : DmNumberBits → DmNumberBits → Bool
  lessThan : DmNumberBits → DmNumberBits → Bool
  lessThanOrEqual : DmNumberBits → DmNumberBits → Bool
  greaterThan : DmNumberBits → DmNumberBits → Bool
  greaterThanOrEqual : DmNumberBits → DmNumberBits → Bool

def select (condition : Bool) : DmNumberBits :=
  if condition then DmNumberBits.one else DmNumberBits.zero

/-- The instructions of `numeric_dispatch_candidate`, and any other. -/
inductive Instruction where
  | pushNull
  | pushNumber (bits : DmNumberBits)
  | pushText (text : String)
  | loadLocal (slot : Nat)
  | storeLocal (slot : Nat)
  | loadResult
  | storeResult
  | duplicate
  | pop
  | listLengthLocal (slot : Nat)
  | add | subtract | multiply | divide
  | less | lessEqual | greater | greaterEqual
  | negate | not | and | or
  | jumpIfFalse (target : Nat)
  | jump (target : Nat)
  | other (instruction : Vm.Instruction)

/-- The part of a call frame that numeric instructions touch; the top of the stack is its head. -/
structure Frame where
  locals : List Value
  stack : List Value
  result : Value
  instruction : Nat
  declaredArgumentCount : Nat
  staticLocals : List Nat

/-- The removals of a list of contents are put off, until someone asks for the list. -/
structure State where
  heap : ValueHeap
  isReference : ListId → Bool
  pendingUncontain : ListId → Option (List Value)

variable (hash : SemanticKey → Nat) (arith : Binary32) (program : List Instruction)

/-! ## Values -/

/-- `quick_numeric_value` -/
def numericValue : Value → Option DmNumberBits
  | .null => some DmNumberBits.zero
  | .number bits => some bits
  | _ => none

/-- The first entry; a list whose storage is corrupt has none. -/
def firstEntry (heap : ValueHeap) (list : ListId) : Option Value :=
  match (heap.list list).bind fun list => list.get 1 with
  | some (.ok value) => some value
  | _ => none

/-- What a local stands for: the target of a reference, or itself. -/
def readLocal (state : State) : Value → Option Value
  | .list list => if state.isReference list then firstEntry state.heap list else some (.list list)
  | value => some value

def partialCompare (left right : DmNumberBits) : Option Ordering :=
  if arith.lessThan left right then some .lt
  else if arith.equal left right then some .eq
  else if arith.greaterThan left right then some .gt
  else none

/-- No result for values that do not compare, and none in it for numbers without an order. -/
def compareValues (left right : Value) : Option (Option Ordering) :=
  match left, right with
  | .text left, .text right => some (some (compare left right))
  | left, right =>
    match numericValue left, numericValue right with
    | some left, some right => some (partialCompare arith left right)
    | _, _ => none

def listLengthNumber (list : DmList) : Value := .number (.ofNat list.len)

def flag (condition : Bool) : Value := .number (select condition)

/-! ## Frames -/

namespace Frame

def advance (frame : Frame) : Frame := { frame with instruction := frame.instruction + 1 }

def push (frame : Frame) (value : Value) : Frame := { frame with stack := value :: frame.stack }

def withStack (frame : Frame) (stack : List Value) : Frame := { frame with stack := stack }

def setLocal (frame : Frame) (slot : Nat) (value : Value) : Frame :=
  { frame with locals := frame.locals.set slot value }

def setResult (frame : Frame) (value : Value) : Frame := { frame with result := value }

def jump (frame : Frame) (target : Nat) : Frame := { frame with instruction := target }

/-- A local that nothing else mirrors. -/
def isPlain (state : State) (frame : Frame) (slot : Nat) (value : Value) : Bool :=
  !(decide (slot < frame.declaredArgumentCount) || frame.staticLocals.elem slot ||
    match value with
    | .list list => state.isReference list
    | _ => false)

end Frame

/-! ## Blocks -/

/-- One turn of a block: it ran an instruction, broke off, or returned without a count. -/
inductive Turn where
  | ran (frame : Frame)
  | stopped (frame : Frame)
  | declined

def ranOr (frame : Frame) (next : Option Frame) : Turn :=
  match next with
  | some next => .ran next
  | none => .stopped frame

def ranOrDeclined (next : Option Frame) : Turn :=
  match next with
  | some next => .ran next
  | none => .declined

/-- Two numbers on the stack give way to one value. -/
def binaryTurn (operation : DmNumberBits → DmNumberBits → Value) (frame : Frame) : Option Frame :=
  match frame.stack with
  | right :: left :: stack =>
    match numericValue left, numericValue right with
    | some left, some right => some (frame.withStack (operation left right :: stack)).advance
    | _, _ => none
  | _ => none

def comparisonTurn (test : Ordering → Bool) (frame : Frame) : Option Frame :=
  match frame.stack with
  | right :: left :: stack =>
    match compareValues arith left right with
    | some (some order) => some (frame.withStack (flag (test order) :: stack)).advance
    | _ => none
  | _ => none

def unaryTurn (operation : DmNumberBits → Value) (frame : Frame) : Option Frame :=
  match frame.stack with
  | top :: stack =>
    match numericValue top with
    | some number => some (frame.withStack (operation number :: stack)).advance
    | none => none
  | [] => none

def listLengthTurn (state : State) (frame : Frame) (value : Value) : Option Frame :=
  match (readLocal state value).map state.heap.canonicalizeValue with
  | some .null => some (frame.push (.number (.ofNat 0))).advance
  | some (.list list) =>
    (state.heap.list list).map fun list => (frame.push (listLengthNumber list)).advance
  | _ => none

def negateNumber (number : DmNumberBits) : Value := .number (arith.negate number)

def turn (state : State) (frame : Frame) : Turn :=
  match program[frame.instruction]? with
  | none => .declined
  | some instruction =>
    match instruction with
    | .pushNull => .ran (frame.push .null).advance
    | .pushNumber number => .ran (frame.push (.number number)).advance
    | .pushText text => .ran (frame.push (.text text)).advance
    | .loadLocal slot =>
      match frame.locals[slot]? with
      | none => .declined
      | some value =>
        ranOr frame ((readLocal state value).map fun value =>
          (frame.push (state.heap.canonicalizeValue value)).advance)
    | .storeLocal slot =>
      match frame.locals[slot]?, frame.stack with
      | some held, value :: stack =>
        if frame.isPlain state slot held then
          .ran ((frame.withStack stack).setLocal slot value).advance
        else .stopped frame
      | _, _ => .stopped frame
    | .loadResult => .ran (frame.push frame.result).advance
    | .storeResult =>
      match frame.stack with
      | value :: stack => .ran ((frame.withStack stack).setResult value).advance
      | [] => .declined
    | .duplicate =>
      match frame.stack with
      | value :: _ => .ran (frame.push value).advance
      | [] => .declined
    | .pop =>
      match frame.stack with
      | _ :: stack => .ran (frame.withStack stack).advance
      | [] => .declined
    | .listLengthLocal slot =>
      match frame.locals[slot]? with
      | none => .declined
      | some value => ranOr frame (listLengthTurn state frame value)
    | .add => ranOr frame (binaryTurn (fun left right => .number (arith.add left right)) frame)
    | .subtract =>
      ranOr frame (binaryTurn (fun left right => .number (arith.subtract left right)) frame)
    | .multiply =>
      ranOr frame (binaryTurn (fun left right => .number (arith.multiply left right)) frame)
    | .divide =>
      ranOr frame (binaryTurn (fun left right => .number (arith.divide left right)) frame)
    | .less => ranOr frame (comparisonTurn arith Ordering.isLT frame)
    | .lessEqual => ranOr frame (comparisonTurn arith Ordering.isLE frame)
    | .greater => ranOr frame (comparisonTurn arith Ordering.isGT frame)
    | .greaterEqual => ranOr frame (comparisonTurn arith Ordering.isGE frame)
    | .negate => ranOrDeclined (unaryTurn (negateNumber arith) frame)
    | .not => ranOrDeclined (unaryTurn (fun number => flag number.isZero) frame)
    | .and => ranOr frame (binaryTurn (fun left right => flag (!left.isZero && !right.isZero)) frame)
    | .or => ranOr frame (binaryTurn (fun left right => flag (!left.isZero || !right.isZero)) frame)
    | .jumpIfFalse target =>
      match frame.stack with
      | condition :: stack =>
        match numericValue condition with
        | none => .stopped frame
        | some number =>
          if number.isZero then
            -- The condition is off the stack before the target is looked at.
            if program.length ≤ target then .stopped (frame.withStack stack)
            else .ran ((frame.withStack stack).jump target)
          else .ran (frame.withStack stack).advance
      | [] => .stopped frame
    | .jump target =>
      if program.length ≤ target then .stopped frame else .ran (frame.jump target)
    | .other _ => .stopped frame

def counted (steps : Nat) : Option Nat := if 0 < steps then some steps else none

/-- The loop, with so many steps left and so many done. -/
def runFrom (state : State) : Nat → Nat → Frame → Option Nat × Frame
  | 0, steps, frame => (counted steps, frame)
  | left + 1, steps, frame =>
    match turn arith program state frame with
    | .ran next => runFrom state left (steps + 1) next
    | .stopped next => (counted steps, next)
    | .declined => (none, frame)

/-- `try_run_rich_numeric_dispatch_block` -/
def runBlock (state : State) (maxSteps : Nat) (frame : Frame) : Option Nat × Frame :=
  if maxSteps = 0 then (none, frame) else runFrom arith program state maxSteps 0 frame

/-! ## Dispatch -/

def runtimeTruthy (state : State) (value : Value) : Bool :=
  truthy (state.heap.canonicalizeValue value)

/-- `execute_scalar_add` -/
def scalarAdd : Value → Value → Option Value
  | .number left, .number right => some (.number (arith.add left right))
  | .null, .number right => some (.number right)
  | .number left, .null => some (.number left)
  | .null, .null => some (.number DmNumberBits.zero)
  | .text left, .text right => some (.text (left ++ right))
  | .null, right => some right
  | left, .null => some left
  | _, _ => none

/-- Removals that were put off happen now; an error of the list is passed over. -/
def flushAreaUncontain (state : State) (list : ListId) : State :=
  match state.pendingUncontain list with
  | none => state
  | some pending =>
    let lists := state.heap.lists.update (list.index, list.generation) fun contents =>
      match contents.subtractEntries hash pending with
      | some (contents, _) => contents
      | none => contents
    { state with
      heap := { state.heap with lists := lists }
      pendingUncontain := fun other => if other = list then none else state.pendingUncontain other }

/-- What is dispatched elsewhere: other instructions, and other operands. -/
abbrev General := Instruction → Frame → State → Option (Frame × State)

variable (general : General)

def isCompound : Value → Bool
  | .list _ => true
  | .datum _ => true
  | _ => false

def dispatchNumeric (operation : DmNumberBits → DmNumberBits → DmNumberBits)
    (instruction : Instruction) (frame : Frame) (state : State) : Option (Frame × State) :=
  match frame.stack with
  | right :: left :: stack =>
    match numericValue left, numericValue right with
    | some left, some right =>
      some ((frame.withStack (.number (operation left right) :: stack)).advance, state)
    | _, _ => general instruction frame state
  | _ => none

def dispatchAdd (frame : Frame) (state : State) : Option (Frame × State) :=
  match frame.stack with
  | right :: left :: stack =>
    if isCompound left then general .add frame state
    else (scalarAdd arith left right).map fun value =>
      ((frame.withStack (value :: stack)).advance, state)
  | _ => none

def dispatchComparison (test : Ordering → Bool) (frame : Frame) (state : State) :
    Option (Frame × State) :=
  match frame.stack with
  | right :: left :: stack =>
    (compareValues arith left right).map fun order =>
      ((frame.withStack (flag (order.any test) :: stack)).advance, state)
  | _ => none

def dispatchLogical (operation : Bool → Bool → Bool) (frame : Frame) (state : State) :
    Option (Frame × State) :=
  match frame.stack with
  | right :: left :: stack =>
    let value := flag (operation (runtimeTruthy state left) (runtimeTruthy state right))
    some ((frame.withStack (value :: stack)).advance, state)
  | _ => none

def dispatchListLength (frame : Frame) (state : State) (value : Value) : Option (Frame × State) :=
  match (readLocal state value).map state.heap.canonicalizeValue with
  | some .null => some ((frame.push (.number (.ofNat 0))).advance, state)
  | some (.list list) =>
    let flushed := flushAreaUncontain hash state list
    (flushed.heap.list list).map fun list => ((frame.push (listLengthNumber list)).advance, flushed)
  | _ => none

/-- `dispatch_instruction` on numeric instructions; none where it raises an error. -/
def dispatch (frame : Frame) (state : State) : Option (Frame × State) :=
  match program[frame.instruction]? with
  | none => none
  | some instruction =>
    match instruction with
    | .pushNull => some ((frame.push .null).advance, state)
    | .pushNumber number => some ((frame.push (.number number)).advance, state)
    | .pushText text => some ((frame.push (.text text)).advance, state)
    | .loadLocal slot =>
      (frame.locals[slot]?.bind (readLocal state)).map fun value =>
        ((frame.push (state.heap.canonicalizeValue value)).advance, state)
    | .storeLocal slot =>
      match frame.locals[slot]?, frame.stack with
      | some held, value :: stack =>
        if frame.isPlain state slot held then
          some (((frame.withStack stack).setLocal slot value).advance, state)
        else general (.storeLocal slot) frame state
      | _, _ => none
    | .loadResult => some ((frame.push frame.result).advance, state)
    | .storeResult =>
      match frame.stack with
      | value :: stack => some (((frame.withStack stack).setResult value).advance, state)
      | [] => none
    | .duplicate =>
      match frame.stack with
      | value :: _ => some ((frame.push value).advance, state)
      | [] => none
    | .pop =>
      match frame.stack with
      | _ :: stack => some ((frame.withStack stack).advance, state)
      | [] => none
    | .listLengthLocal slot => frame.locals[slot]?.bind (dispatchListLength hash frame state)
    | .add => dispatchAdd arith general frame state
    | .subtract => dispatchNumeric general arith.subtract .subtract frame state
    | .multiply => dispatchNumeric general arith.multiply .multiply frame state
    | .divide => dispatchNumeric general arith.divide .divide frame state
    | .less => dispatchComparison arith Ordering.isLT frame state
    | .lessEqual => dispatchComparison arith Ordering.isLE frame state
    | .greater => dispatchComparison arith Ordering.isGT frame state
    | .greaterEqual => dispatchComparison arith Ordering.isGE frame state
    | .negate => (unaryTurn (negateNumber arith) frame).map fun next => (next, state)
    | .not =>
      match frame.stack with
      | value :: stack =>
        some ((frame.withStack (flag (!runtimeTruthy state value) :: stack)).advance, state)
      | [] => none
    | .and => dispatchLogical (· && ·) frame state
    | .or => dispatchLogical (· || ·) frame state
    | .jumpIfFalse target =>
      match frame.stack with
      | condition :: stack =>
        if runtimeTruthy state condition then some ((frame.withStack stack).advance, state)
        else if program.length < target then none
        else some ((frame.withStack stack).jump target, state)
      | [] => none
    | .jump target => if program.length < target then none else some (frame.jump target, state)
    | .other instruction => general (.other instruction) frame state

/-- So many single instructions, one after the other. -/
def dispatches : Nat → Frame → State → Option (Frame × State)
  | 0, frame, state => some (frame, state)
  | n + 1, frame, state =>
    (dispatch hash arith program general frame state).bind fun next =>
      dispatches n next.1 next.2

end Dream64.Vm.Numeric
