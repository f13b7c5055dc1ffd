import Dream64.Vm.Bytecode
import Dream64.Vm.TextBuiltins

/-!
# Numeric operators

The binary operators on numbers: once for an instruction, once for a compound
assignment to an entry of a list, and once for a compound assignment in
general, where the operands are still values. Integer operators truncate their
operands first. The remainder and the shifts of machine integers panic where
the machine has no result; the arithmetic of binary32 numbers never does, and
is a parameter.
-/

namespace Dream64

namespace DmNumberBits

def nan : DmNumberBits := 0x7fc00000#32

/-- `trunc() as i32` -/
def toI32 (bits : DmNumberBits) : Int := min (2 ^ 31 - 1) (max (-2 ^ 31) bits.toI64)

/-- `trunc().max(0.0) as u32` -/
def toU32 (bits : DmNumberBits) : Nat := min (2 ^ 32 - 1) bits.toI64.toNat

/-- `as f32` of an integer. -/
def ofInt (i : Int) : DmNumberBits :=
  if i < 0 then ofNat i.natAbs ||| 0x80000000#32 else ofNat i.natAbs

/-- The place of a number that is not a NaN; both zeros have the same. -/
def rank (bits : DmNumberBits) : Int :=
  if bits.isNegative then -((bits.extractLsb' 0 31).toNat : Int) else (bits.extractLsb' 0 31).toNat

def partialCmp (left right : DmNumberBits) : Option Ordering :=
  if left.isNaN || right.isNaN then none else some (compare left.rank right.rank)

end DmNumberBits

namespace Vm.Operators

/-- The arithmetic of binary32 numbers. -/
structure Arithmetic where
  add : DmNumberBits → DmNumberBits → DmNumberBits
  subtract : DmNumberBits → DmNumberBits → DmNumberBits
  multiply : DmNumberBits → DmNumberBits → DmNumberBits
  divide : DmNumberBits → DmNumberBits → DmNumberBits
  powf : DmNumberBits → DmNumberBits → DmNumberBits
  fract : DmNumberBits → DmNumberBits

abbrev Outcome := Fallible String

/-! ## Machine integers -/

/-- `%` on `i32` -/
def checkedRemainder (left right : Int) : Outcome Int :=
  if right = 0 ∨ left = -2 ^ 31 ∧ right = -1 then .panic else .value (left.tmod right)

/-- `<<` and `>>` on `u32` -/
def checkedShiftLeft (left count : Nat) : Outcome Nat :=
  if 32 ≤ count then .panic else .value (left * 2 ^ count % 2 ^ 32)

def checkedShiftRight (left count : Nat) : Outcome Nat :=
  if 32 ≤ count then .panic else .value (left / 2 ^ count)

def dmU24 (value : DmNumberBits) : Nat := (value.toI64 % 2 ^ 32 % 2 ^ 24).toNat

def bitwiseBinary (left right : DmNumberBits) (operation : Nat → Nat → Nat) : DmNumberBits :=
  .ofNat (operation (dmU24 left) (dmU24 right) % 2 ^ 24)

def bitwiseShift (left right : DmNumberBits) (operation : Nat → Nat → Outcome Nat) :
    Outcome DmNumberBits :=
  if 24 ≤ right.toU32 then .value .zero
  else (operation (dmU24 left) right.toU32).map fun value => .ofNat (value % 2 ^ 24)

def integerRemainder (left right : DmNumberBits) : Outcome DmNumberBits :=
  if right.toI32 = 0 then .value .nan
  else (checkedRemainder left.toI32 right.toI32).map DmNumberBits.ofInt

variable (arith : Arithmetic)

def fractionalRemainder (left right : DmNumberBits) : DmNumberBits :=
  if right.isZero then .nan else arith.multiply right (arith.fract (arith.divide left right))

/-! ## Operators on numbers -/

def flag (condition : Bool) : DmNumberBits := if condition then .one else .zero

/-- The comparison of two numbers; without an order it fails. -/
def holds (test : Ordering → Bool) (left right : DmNumberBits) : Bool :=
  (left.partialCmp right).any test

/-- `execute_numeric_binary`, which other instructions do not reach. -/
def executeNumericBinary (instruction : Instruction) (left right : DmNumberBits) :
    Outcome DmNumberBits :=
  match instruction with
  | .add => .value (arith.add left right)
  | .subtract => .value (arith.subtract left right)
  | .multiply => .value (arith.multiply left right)
  | .power => .value (arith.powf left right)
  | .divide => .value (arith.divide left right)
  | .remainder => integerRemainder left right
  | .fractionalRemainder => .value (fractionalRemainder arith left right)
  | .bitAnd => .value (bitwiseBinary left right (· &&& ·))
  | .bitOr => .value (bitwiseBinary left right (· ||| ·))
  | .bitXor => .value (bitwiseBinary left right (· ^^^ ·))
  | .shiftLeft => bitwiseShift left right checkedShiftLeft
  | .shiftRight => bitwiseShift left right checkedShiftRight
  | .less => .value (flag (holds Ordering.isLT left right))
  | .lessEqual => .value (flag (holds Ordering.isLE left right))
  | .greater => .value (flag (holds Ordering.isGT left right))
  | .greaterEqual => .value (flag (holds Ordering.isGE left right))
  | _ => .panic

def executeCompoundListIndexOperation (operator : CompoundListIndexOperator)
    (left right : DmNumberBits) : Outcome DmNumberBits :=
  match operator with
  | .add => .value (arith.add left right)
  | .subtract => .value (arith.subtract left right)
  | .multiply => .value (arith.multiply left right)
  | .divide => .value (arith.divide left right)
  | .remainder => integerRemainder left right
  | .fractionalRemainder => .value (fractionalRemainder arith left right)
  | .bitAnd => .value (bitwiseBinary left right (· &&& ·))
  | .bitOr => .value (bitwiseBinary left right (· ||| ·))
  | .bitXor => .value (bitwiseBinary left right (· ^^^ ·))
  | .shiftLeft => bitwiseShift left right checkedShiftLeft
  | .shiftRight => bitwiseShift left right checkedShiftRight

/-! ## Operators on values -/

/-- The texts of values in errors are left to the caller. -/
def scalarNumberString (display : Value → String) : Value → Outcome DmNumberBits
  | .null => .value .zero
  | .number bits => .value bits
  | value => .error ("numeric operation received " ++ display value)

def compareValues (display : Value → String) : Value → Value → Outcome (Option Ordering)
  | .text left, .text right => .value (some (compare left right))
  | .null, .null => .value (DmNumberBits.partialCmp .zero .zero)
  | .null, .number right => .value (DmNumberBits.partialCmp .zero right)
  | .number left, .null => .value (left.partialCmp .zero)
  | .number left, .number right => .value (left.partialCmp right)
  | left, right => .error ("comparison requires two numbers or two text values, received " ++
      display left ++ " and " ++ display right)

def executeScalarAdd (display : Value → String) : Value → Value → Outcome Value
  | .number left, .number right => .value (.number (arith.add left right))
  | .null, .number right => .value (.number right)
  | .number left, .null => .value (.number left)
  | .null, .null => .value (.number .zero)
  | .text left, .text right => .value (.text (left ++ right))
  | .null, right => .value right
  | left, .null => .value left
  | left, right => .error ("addition requires compatible DM values, received " ++ display left ++
      " and " ++ display right)

/-- Additions that are no addition of two numbers. -/
def addsOther : Value → Value → Bool
  | .null, _ => true
  | _, .null => true
  | .text _, .text _ => true
  | _, _ => false

def compoundOnNumbers (operator : CompoundAssignmentOperator) (left right : DmNumberBits) :
    Outcome DmNumberBits :=
  match operator with
  | .add => .value (arith.add left right)
  | .subtract => .value (arith.subtract left right)
  | .multiply => .value (arith.multiply left right)
  | .divide => .value (arith.divide left right)
  | .remainder => integerRemainder left right
  | .fractionalRemainder => .value (fractionalRemainder arith left right)
  | .bitAnd => .value (bitwiseBinary left right (· &&& ·))
  | .bitOr => .value (bitwiseBinary left right (· ||| ·))
  | .bitXor => .value (bitwiseBinary left right (· ^^^ ·))
  | .shiftLeft => bitwiseShift left right checkedShiftLeft
  | .shiftRight => bitwiseShift left right checkedShiftRight

def executeScalarCompoundAssignment (display : Value → String)
    (operator : CompoundAssignmentOperator) (left right : Value) : Outcome Value :=
  if operator = .add ∧ addsOther left right = true then executeScalarAdd arith display left right
  else
    (scalarNumberString display left).bind fun left =>
    (scalarNumberString display right).bind fun right =>
    (compoundOnNumbers arith operator left right).map Value.number

/-- The instructions for comparisons. -/
def executeComparison (display : Value → String) (test : Ordering → Bool) (left right : Value) :
    Outcome Value :=
  (compareValues display left right).map fun order => .number (flag (order.any test))

/-- The instruction for powers. -/
def executePower (display : Value → String) (left right : Value) : Outcome Value :=
  (scalarNumberString display left).bind fun left =>
  (scalarNumberString display right).bind fun right =>
  (executeNumericBinary arith .power left right).map Value.number

/-! ## Numeric operands -/

inductive NumericOperator where
  | arithmetic (operator : CompoundAssignmentOperator)
  | power | less | lessEqual | greater | greaterEqual
deriving DecidableEq, Repr

def NumericOperator.instruction : NumericOperator → Instruction
  | .arithmetic .add => .add
  | .arithmetic .subtract => .subtract
  | .arithmetic .multiply => .multiply
  | .arithmetic .divide => .divide
  | .arithmetic .remainder => .remainder
  | .arithmetic .fractionalRemainder => .fractionalRemainder
  | .arithmetic .bitAnd => .bitAnd
  | .arithmetic .bitOr => .bitOr
  | .arithmetic .bitXor => .bitXor
  | .arithmetic .shiftLeft => .shiftLeft
  | .arithmetic .shiftRight => .shiftRight
  | .power => .power
  | .less => .less
  | .lessEqual => .lessEqual
  | .greater => .greater
  | .greaterEqual => .greaterEqual

/-- The operator on values. -/
def execute (display : Value → String) (operator : NumericOperator) (left right : Value) :
    Outcome Value :=
  match operator with
  | .arithmetic operator => executeScalarCompoundAssignment arith display operator left right
  | .power => executePower arith display left right
  | .less => executeComparison display Ordering.isLT left right
  | .lessEqual => executeComparison display Ordering.isLE left right
  | .greater => executeComparison display Ordering.isGT left right
  | .greaterEqual => executeComparison display Ordering.isGE left right

/-- A number, or null. -/
def value : Option DmNumberBits → Value
  | some bits => .number bits
  | none => .null

def bits (operand : Option DmNumberBits) : DmNumberBits := operand.getD .zero

/-- No operand of an addition is null, which an addition of values does not convert. -/
def Converted (operator : NumericOperator) (left right : Option DmNumberBits) : Prop :=
  operator = .arithmetic .add → left.isSome ∧ right.isSome

/-- The operator returns in all its forms, with one result. -/
structure Total (arith : Arithmetic) (display : Value → String) (operator : NumericOperator)
    (left right : Option DmNumberBits) : Prop where
  returns : execute arith display operator (value left) (value right) ≠ .panic
  fastReturns : executeNumericBinary arith operator.instruction (bits left) (bits right) ≠ .panic
  agrees : Converted operator left right →
    (executeNumericBinary arith operator.instruction (bits left) (bits right)).map Value.number =
      execute arith display operator (value left) (value right)
  listAgrees : ∀ compound, operator = .arithmetic compound →
    executeCompoundListIndexOperation arith compound (bits left) (bits right) =
      executeNumericBinary arith operator.instruction (bits left) (bits right)

/-- The remainder of the least integer by minus one. -/
def Overflows (operator : NumericOperator) (left right : DmNumberBits) : Prop :=
  operator = .arithmetic .remainder ∧ left.toI32 = -2 ^ 31 ∧ right.toI32 = -1

variable {arith} {display : Value → String}

theorem map_eq_panic {α β : Type} {f : α → β} {x : Outcome α} : x.map f = .panic ↔ x = .panic := by
  cases x with
  | value a => simp
  | error e => exact ⟨fun h => (by cases h), fun h => (by cases h)⟩
  | panic => exact ⟨fun _ => rfl, fun _ => rfl⟩

theorem integerRemainder_eq_panic {left right : DmNumberBits} :
    integerRemainder left right = .panic ↔ left.toI32 = -2 ^ 31 ∧ right.toI32 = -1 := by
  rw [integerRemainder, checkedRemainder]
  split_ifs with hzero hover
  · refine ⟨fun h => (by cases h), fun h => ?_⟩
    rw [h.2] at hzero
    omega
  · exact ⟨fun _ => hover.resolve_left hzero, fun _ => rfl⟩
  · refine ⟨fun h => (by cases h), fun h => ?_⟩
    exact absurd (.inr h) hover

/-- A shift by less than the width of the numbers is one that the machine can do. -/
theorem bitwiseShift_ne_panic {left right : DmNumberBits} {operation : Nat → Nat → Outcome Nat}
    (hoperation : ∀ value count, count < 32 → operation value count ≠ .panic) :
    bitwiseShift left right operation ≠ .panic := by
  rw [bitwiseShift]
  split_ifs with hcount
  · intro h
    cases h
  · rw [ne_eq, map_eq_panic]
    exact hoperation _ _ (by omega)

theorem checkedShiftLeft_ne_panic (value count : Nat) (h : count < 32) :
    checkedShiftLeft value count ≠ .panic := by
  rw [checkedShiftLeft, if_neg (by omega)]
  intro h
  cases h

theorem checkedShiftRight_ne_panic (value count : Nat) (h : count < 32) :
    checkedShiftRight value count ≠ .panic := by
  rw [checkedShiftRight, if_neg (by omega)]
  intro h
  cases h

theorem executeNumericBinary_eq_panic {operator : NumericOperator} {left right : DmNumberBits} :
    executeNumericBinary arith operator.instruction left right = .panic ↔
      Overflows operator left right := by
  have hleft : bitwiseShift left right checkedShiftLeft ≠ .panic :=
    bitwiseShift_ne_panic checkedShiftLeft_ne_panic
  have hright : bitwiseShift left right checkedShiftRight ≠ .panic :=
    bitwiseShift_ne_panic checkedShiftRight_ne_panic
  rcases operator with compound | _ | _ | _ | _ | _
  · cases compound with
    | remainder =>
      show integerRemainder left right = .panic ↔ _
      rw [integerRemainder_eq_panic]
      exact ⟨fun h => ⟨rfl, h⟩, fun h => h.2⟩
    | shiftLeft => exact ⟨fun h => absurd h hleft, fun h => (by cases h.1)⟩
    | shiftRight => exact ⟨fun h => absurd h hright, fun h => (by cases h.1)⟩
    | _ => exact ⟨fun h => (by cases h), fun h => (by cases h.1)⟩
  all_goals exact ⟨fun h => (by cases h), fun h => (by cases h.1)⟩

theorem executeCompoundListIndexOperation_eq (compound : CompoundAssignmentOperator)
    (left right : DmNumberBits) :
    executeCompoundListIndexOperation arith compound left right =
      executeNumericBinary arith (NumericOperator.arithmetic compound).instruction left right := by
  cases compound <;> rfl

theorem compoundOnNumbers_eq (compound : CompoundAssignmentOperator) (left right : DmNumberBits) :
    compoundOnNumbers arith compound left right =
      executeNumericBinary arith (NumericOperator.arithmetic compound).instruction left right := by
  cases compound <;> rfl

theorem scalarNumberString_value (operand : Option DmNumberBits) :
    scalarNumberString display (value operand) = .value (bits operand) := by
  cases operand <;> rfl

theorem compareValues_value (left right : Option DmNumberBits) :
    compareValues display (value left) (value right) =
      .value ((bits left).partialCmp (bits right)) := by
  cases left <;> cases right <;> rfl

theorem executeScalarAdd_value_ne_panic (left right : Option DmNumberBits) :
    executeScalarAdd arith display (value left) (value right) ≠ .panic := by
  cases left <;> cases right <;> exact fun h => by cases h

/-- Operands that are converted go through the numeric operator. -/
theorem execute_eq {operator : NumericOperator} {left right : Option DmNumberBits}
    (h : Converted operator left right) :
    execute arith display operator (value left) (value right) =
      (executeNumericBinary arith operator.instruction (bits left) (bits right)).map
        Value.number := by
  have hconvert (f : DmNumberBits → DmNumberBits → Outcome Value) :
      ((scalarNumberString display (value left)).bind fun left =>
        (scalarNumberString display (value right)).bind fun right => f left right) =
          f (bits left) (bits right) := by
    rw [scalarNumberString_value, scalarNumberString_value]
    rfl
  have hcompare (test : Ordering → Bool) :
      executeComparison display test (value left) (value right) =
        .value (.number (flag (holds test (bits left) (bits right)))) := by
    rw [executeComparison, compareValues_value]
    rfl
  rcases operator with compound | _ | _ | _ | _ | _
  · have hadds : ¬ (compound = .add ∧ addsOther (value left) (value right) = true) := by
      rintro ⟨rfl, hadds⟩
      obtain ⟨hleft, hright⟩ := h rfl
      obtain ⟨l, rfl⟩ := Option.isSome_iff_exists.1 hleft
      obtain ⟨r, rfl⟩ := Option.isSome_iff_exists.1 hright
      cases hadds
    rw [execute, executeScalarCompoundAssignment, if_neg hadds, hconvert, compoundOnNumbers_eq]
  · exact hconvert _
  all_goals exact hcompare _

/-- An operator returns unless it divides the least integer by minus one; its forms always agree. -/
theorem total_iff (arith : Arithmetic) (display : Value → String) (operator : NumericOperator)
    (left right : Option DmNumberBits) :
    Total arith display operator left right ↔ ¬ Overflows operator (bits left) (bits right) := by
  constructor
  · exact fun h hover => h.fastReturns (executeNumericBinary_eq_panic.2 hover)
  · intro hover
    have hfast : executeNumericBinary arith operator.instruction (bits left) (bits right) ≠ .panic :=
      fun h => hover (executeNumericBinary_eq_panic.1 h)
    refine ⟨?_, hfast, fun h => (execute_eq h).symm, ?_⟩
    · by_cases hconverted : Converted operator left right
      · rw [execute_eq hconverted, ne_eq, map_eq_panic]
        exact hfast
      · -- Only an addition with null is not converted.
        obtain ⟨rfl, hnull⟩ := Classical.not_imp.1 hconverted
        rw [execute, executeScalarCompoundAssignment]
        split_ifs
        · exact executeScalarAdd_value_ne_panic left right
        · rw [scalarNumberString_value, scalarNumberString_value]
          exact fun h => by cases h
    · rintro compound rfl
      exact executeCompoundListIndexOperation_eq compound _ _

/-- `-2147483648 % -1` -/
theorem leastRemainder_not_total :
    ¬ ∀ (arith : Arithmetic) (display : Value → String) (operator : NumericOperator)
      (left right : Option DmNumberBits), Total arith display operator left right := by
  intro h
  have hleft : DmNumberBits.toI32 0xcf000000#32 = -2 ^ 31 := by decide
  have hright : DmNumberBits.toI32 0xbf800000#32 = -1 := by decide
  let first : DmNumberBits → DmNumberBits → DmNumberBits := fun left _ => left
  have htotal := h ⟨first, first, first, first, first, id⟩ (fun _ => "")
    (.arithmetic .remainder) (some 0xcf000000#32) (some 0xbf800000#32)
  exact htotal.fastReturns (integerRemainder_eq_panic.2 ⟨hleft, hright⟩)

end Vm.Operators

end Dream64
