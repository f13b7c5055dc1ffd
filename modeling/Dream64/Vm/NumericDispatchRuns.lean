import Dream64.Vm.NumericDispatch

/-!
# Runs of numeric blocks

A block against the single dispatches that it stands in for. It charges what it
executes and declines without effect exactly if every turn on its way is proper:
it does not return without a count once something ran, does not leave a jump
half done, adds to null what an addition of zero gives, and asks for no list
with removals that are put off.
-/

namespace Dream64.Vm.Numeric

variable {hash : SemanticKey → Nat} {arith : Binary32} {program : List Instruction}
  {general : General} {state : State}

/-! ## One turn -/

theorem runtimeTruthy_of_numeric {value : Value} {number : DmNumberBits}
    (h : numericValue value = some number) : runtimeTruthy state value = !number.isZero := by
  cases value with
  | null | number _ =>
    rw [← Option.some.inj h]
    rfl
  | text _ | file _ | typePath _ | modifiedTypePath _ _ | datum _ | list _ => cases h

variable {frame next : Frame} {x : Option Frame}

theorem ranOr_eq_ran (h : ranOr frame x = .ran next) : x = some next := by
  cases x with
  | none => cases h
  | some other => exact congrArg some (Turn.ran.inj h)

theorem ranOrDeclined_eq_ran (h : ranOrDeclined x = .ran next) : x = some next := by
  cases x with
  | none => cases h
  | some other => exact congrArg some (Turn.ran.inj h)

theorem ranOr_ne_declined (frame : Frame) (x : Option Frame) : ranOr frame x ≠ .declined := by
  cases x with
  | none | some _ => exact Turn.noConfusion

theorem ranOr_eq_stopped (h : ranOr frame x = .stopped next) : next = frame := by
  cases x with
  | none => exact (Turn.stopped.inj h).symm
  | some other => cases h

theorem ranOrDeclined_ne_stopped (x : Option Frame) (next : Frame) :
    ranOrDeclined x ≠ .stopped next := by
  cases x with
  | none | some _ => exact Turn.noConfusion

theorem ranOrDeclined_eq_declined : ranOrDeclined x = .declined ↔ x = none := by
  cases x with
  | none => exact ⟨fun _ => rfl, fun _ => rfl⟩
  | some other =>
    constructor
    · intro h
      cases h
    · intro h
      cases h

theorem unaryTurn_eq_none_iff {operation : DmNumberBits → Value} :
    unaryTurn operation frame = none ↔ frame.stack.head?.bind numericValue = none := by
  rw [unaryTurn]
  cases frame.stack with
  | nil => exact ⟨fun _ => rfl, fun _ => rfl⟩
  | cons top stack =>
    show _ ↔ numericValue top = none
    dsimp only
    cases numericValue top with
    | none => exact ⟨fun _ => rfl, fun _ => rfl⟩
    | some number =>
      constructor
      · intro h
        cases h
      · intro h
        cases h

theorem binaryTurn_eq_some {operation : DmNumberBits → DmNumberBits → Value}
    (h : binaryTurn operation frame = some next) :
    ∃ right left stack l r, frame.stack = right :: left :: stack ∧ numericValue left = some l ∧
      numericValue right = some r ∧ next = (frame.withStack (operation l r :: stack)).advance := by
  rw [binaryTurn] at h
  split at h
  · rename_i right left stack hstack
    split at h
    · rename_i l r hl hr
      exact ⟨right, left, stack, l, r, hstack, hl, hr, (Option.some.inj h).symm⟩
    · cases h
  · cases h

theorem comparisonTurn_eq_some {test : Ordering → Bool}
    (h : comparisonTurn arith test frame = some next) :
    ∃ right left stack order, frame.stack = right :: left :: stack ∧
      compareValues arith left right = some (some order) ∧
      next = (frame.withStack (flag (test order) :: stack)).advance := by
  rw [comparisonTurn] at h
  split at h
  · rename_i right left stack hstack
    split at h
    · rename_i order horder
      exact ⟨right, left, stack, order, hstack, horder, (Option.some.inj h).symm⟩
    · cases h
  · cases h

theorem unaryTurn_eq_some {operation : DmNumberBits → Value}
    (h : unaryTurn operation frame = some next) :
    ∃ top stack number, frame.stack = top :: stack ∧ numericValue top = some number ∧
      next = (frame.withStack (operation number :: stack)).advance := by
  rw [unaryTurn] at h
  split at h
  · rename_i top stack hstack
    split at h
    · rename_i number hnumber
      exact ⟨top, stack, number, hstack, hnumber, (Option.some.inj h).symm⟩
    · cases h
  · cases h

/-- Where a block returns without a count. -/
inductive Declines (frame : Frame) : Option Instruction → Prop where
  | ended : Declines frame none
  | loadLocal {slot : Nat} : frame.locals.length ≤ slot → Declines frame (some (.loadLocal slot))
  | listLengthLocal {slot : Nat} : frame.locals.length ≤ slot →
      Declines frame (some (.listLengthLocal slot))
  | storeResult : frame.stack = [] → Declines frame (some .storeResult)
  | duplicate : frame.stack = [] → Declines frame (some .duplicate)
  | pop : frame.stack = [] → Declines frame (some .pop)
  | negate : frame.stack.head?.bind numericValue = none → Declines frame (some .negate)
  | not : frame.stack.head?.bind numericValue = none → Declines frame (some .not)

/-- A condition that fails and a target behind the last instruction. -/
def Misjumps (program : List Instruction) (frame : Frame) : Prop :=
  ∃ target number, program[frame.instruction]? = some (.jumpIfFalse target) ∧
    program.length ≤ target ∧ frame.stack.head?.bind numericValue = some number ∧
    number.isZero = true

/-- The sum of two numbers, null among them, is the one that the dispatch gives. -/
def AddsAlike (arith : Binary32) (program : List Instruction) (frame : Frame) : Prop :=
  program[frame.instruction]? = some .add → ∀ right left stack l r,
    frame.stack = right :: left :: stack → numericValue left = some l →
    numericValue right = some r → scalarAdd arith left right = some (.number (arith.add l r))

/-- No removals of the list that is asked for its length are put off. -/
def LengthsSettled (program : List Instruction) (state : State) (frame : Frame) : Prop :=
  ∀ slot value list, program[frame.instruction]? = some (.listLengthLocal slot) →
    frame.locals[slot]? = some value →
    (readLocal state value).map state.heap.canonicalizeValue = some (.list list) →
    state.pendingUncontain list = none

theorem dispatchListLength_of_turn {value : Value}
    (h : listLengthTurn state frame value = some next)
    (hsettled : ∀ list, (readLocal state value).map state.heap.canonicalizeValue =
      some (.list list) → state.pendingUncontain list = none) :
    dispatchListLength hash frame state value = some (next, state) := by
  rw [dispatchListLength]
  cases hread : (readLocal state value).map state.heap.canonicalizeValue with
  | none =>
    rw [listLengthTurn, hread] at h
    cases h
  | some receiver =>
    rw [listLengthTurn, hread] at h
    cases receiver with
    | null =>
      cases h
      rfl
    | list list =>
      have hflush : flushAreaUncontain hash state list = state := by
        rw [flushAreaUncontain, hsettled list hread]
      obtain ⟨contents, hcontents, rfl⟩ := Option.map_eq_some_iff.1 h
      show ((flushAreaUncontain hash state list).heap.list list).map _ = _
      rw [hflush, hcontents]
      rfl
    | number _ | text _ | file _ | typePath _ | modifiedTypePath _ _ | datum _ => cases h

theorem dispatchNumeric_of_turn {operation : DmNumberBits → DmNumberBits → DmNumberBits}
    {instruction : Instruction}
    (h : binaryTurn (fun left right => .number (operation left right)) frame = some next) :
    dispatchNumeric general operation instruction frame state = some (next, state) := by
  obtain ⟨right, left, stack, l, r, hstack, hl, hr, rfl⟩ := binaryTurn_eq_some h
  rw [dispatchNumeric, hstack]
  dsimp only
  rw [hl, hr]

theorem dispatchComparison_of_turn {test : Ordering → Bool}
    (h : comparisonTurn arith test frame = some next) :
    dispatchComparison arith test frame state = some (next, state) := by
  obtain ⟨right, left, stack, order, hstack, horder, rfl⟩ := comparisonTurn_eq_some h
  rw [dispatchComparison, hstack]
  dsimp only
  rw [horder]
  rfl

theorem dispatchLogical_of_turn {operation : Bool → Bool → Bool}
    (h : binaryTurn (fun left right => flag (operation (!left.isZero) (!right.isZero))) frame =
      some next) :
    dispatchLogical operation frame state = some (next, state) := by
  obtain ⟨right, left, stack, l, r, hstack, hl, hr, rfl⟩ := binaryTurn_eq_some h
  rw [dispatchLogical, hstack]
  dsimp only
  rw [runtimeTruthy_of_numeric hl, runtimeTruthy_of_numeric hr]

/-- A turn that runs does what the dispatch of its instruction does. -/
theorem dispatch_of_ran (h : turn arith program state frame = .ran next)
    (hadds : AddsAlike arith program frame) (hlengths : LengthsSettled program state frame) :
    dispatch hash arith program general frame state = some (next, state) := by
  cases hfetch : program[frame.instruction]? with
  | none =>
    rw [turn, hfetch] at h
    cases h
  | some instruction =>
    rw [turn, hfetch] at h
    rw [dispatch, hfetch]
    cases instruction with
    | pushNull | pushNumber _ | pushText _ => cases h; rfl
    | loadLocal slot =>
      dsimp only at h ⊢
      cases hlocal : frame.locals[slot]? with
      | none =>
        rw [hlocal] at h
        cases h
      | some value =>
        rw [hlocal] at h
        obtain ⟨read, hread, rfl⟩ := Option.map_eq_some_iff.1 (ranOr_eq_ran h)
        rw [Option.bind_some, hread]
        rfl
    | storeLocal slot =>
      dsimp only at h ⊢
      cases hlocal : frame.locals[slot]? with
      | none =>
        rw [hlocal] at h
        cases h
      | some held =>
        cases hstack : frame.stack with
        | nil =>
          rw [hlocal, hstack] at h
          cases h
        | cons value stack =>
          rw [hlocal, hstack] at h
          dsimp only at h ⊢
          split_ifs at h ⊢ with hplain
          · cases h
            rfl
    | loadResult => cases h; rfl
    | storeResult | duplicate | pop =>
      dsimp only at h ⊢
      cases hstack : frame.stack with
      | nil =>
        rw [hstack] at h
        cases h
      | cons value stack =>
        rw [hstack] at h
        cases h
        rfl
    | listLengthLocal slot =>
      dsimp only at h ⊢
      cases hlocal : frame.locals[slot]? with
      | none =>
        rw [hlocal] at h
        cases h
      | some value =>
        rw [hlocal] at h
        exact dispatchListLength_of_turn (ranOr_eq_ran h) fun list =>
          hlengths slot value list hfetch hlocal
    | add =>
      obtain ⟨right, left, stack, l, r, hstack, hl, hr, rfl⟩ :=
        binaryTurn_eq_some (ranOr_eq_ran h)
      have hsum := hadds hfetch right left stack l r hstack hl hr
      have hscalar : isCompound left = false := by
        cases left with
        | list _ | datum _ => cases hl
        | _ => rfl
      show dispatchAdd arith general frame state = _
      rw [dispatchAdd, hstack]
      dsimp only
      rw [hscalar, hsum]
      rfl
    | subtract | multiply | divide => exact dispatchNumeric_of_turn (ranOr_eq_ran h)
    | less | lessEqual | greater | greaterEqual => exact dispatchComparison_of_turn (ranOr_eq_ran h)
    | negate =>
      show (unaryTurn (negateNumber arith) frame).map _ = _
      rw [ranOrDeclined_eq_ran h]
      rfl
    | not =>
      obtain ⟨top, stack, number, hstack, hnumber, rfl⟩ :=
        unaryTurn_eq_some (ranOrDeclined_eq_ran h)
      dsimp only
      rw [hstack]
      dsimp only
      rw [runtimeTruthy_of_numeric hnumber, Bool.not_not]
    | and | or => exact dispatchLogical_of_turn (ranOr_eq_ran h)
    | jumpIfFalse target =>
      dsimp only at h ⊢
      cases hstack : frame.stack with
      | nil =>
        rw [hstack] at h
        cases h
      | cons condition stack =>
        rw [hstack] at h
        dsimp only at h ⊢
        cases hnumber : numericValue condition with
        | none =>
          rw [hnumber] at h
          cases h
        | some number =>
          rw [hnumber] at h
          rw [runtimeTruthy_of_numeric hnumber]
          dsimp only at h
          cases hzero : number.isZero with
          | false =>
            rw [hzero] at h
            cases h
            rfl
          | true =>
            rw [hzero] at h
            by_cases hle : program.length ≤ target
            · rw [if_pos rfl, if_pos hle] at h
              cases h
            · rw [if_pos rfl, if_neg hle] at h
              cases h
              rw [if_neg (by decide), if_neg (by omega)]
    | jump target =>
      dsimp only at h ⊢
      by_cases hle : program.length ≤ target
      · rw [if_pos hle] at h
        cases h
      · rw [if_neg hle] at h
        cases h
        rw [if_neg (by omega)]
    | other instruction => cases h

/-- A block returns without a count exactly at these instructions. -/
theorem turn_eq_declined_iff : turn arith program state frame = .declined ↔
    Declines frame program[frame.instruction]? := by
  constructor
  · intro h
    cases hfetch : program[frame.instruction]? with
    | none => exact .ended
    | some instruction =>
      rw [turn, hfetch] at h
      cases instruction with
      | loadLocal slot =>
        cases hlocal : frame.locals[slot]? with
        | none => exact .loadLocal (List.getElem?_eq_none_iff.1 hlocal)
        | some value =>
          dsimp only at h
          rw [hlocal] at h
          exact absurd h (ranOr_ne_declined _ _)
      | listLengthLocal slot =>
        cases hlocal : frame.locals[slot]? with
        | none => exact .listLengthLocal (List.getElem?_eq_none_iff.1 hlocal)
        | some value =>
          dsimp only at h
          rw [hlocal] at h
          exact absurd h (ranOr_ne_declined _ _)
      | storeLocal slot =>
        dsimp only at h
        split at h
        · split_ifs at h
        · cases h
      | storeResult =>
        refine .storeResult ?_
        cases hstack : frame.stack with
        | nil => rfl
        | cons value stack =>
          dsimp only at h
          rw [hstack] at h
          cases h
      | duplicate =>
        refine .duplicate ?_
        cases hstack : frame.stack with
        | nil => rfl
        | cons value stack =>
          dsimp only at h
          rw [hstack] at h
          cases h
      | pop =>
        refine .pop ?_
        cases hstack : frame.stack with
        | nil => rfl
        | cons value stack =>
          dsimp only at h
          rw [hstack] at h
          cases h
      | negate => exact .negate (unaryTurn_eq_none_iff.1 (ranOrDeclined_eq_declined.1 h))
      | not => exact .not (unaryTurn_eq_none_iff.1 (ranOrDeclined_eq_declined.1 h))
      | jumpIfFalse target =>
        dsimp only at h
        split at h
        · split at h
          · cases h
          · split_ifs at h
        · cases h
      | jump target =>
        dsimp only at h
        split_ifs at h
      | pushNull | pushNumber _ | pushText _ | loadResult => cases h
      | add | subtract | multiply | divide | less | lessEqual | greater | greaterEqual | and
      | or => exact absurd h (ranOr_ne_declined _ _)
      | other _ => cases h
  · intro h
    rw [turn]
    generalize program[frame.instruction]? = fetched at h
    cases h with
    | ended => rfl
    | loadLocal hslot | listLengthLocal hslot =>
      dsimp only
      rw [List.getElem?_eq_none_iff.2 hslot]
    | storeResult hstack | duplicate hstack | pop hstack =>
      dsimp only
      rw [hstack]
    | negate htop | not htop => exact ranOrDeclined_eq_declined.2 (unaryTurn_eq_none_iff.2 htop)

/-- A block breaks off with the frame as it is, except at a jump that is left half done. -/
theorem turn_eq_stopped (h : turn arith program state frame = .stopped next) :
    next = frame ∨ Misjumps program frame ∧ next.stack.length < frame.stack.length := by
  cases hfetch : program[frame.instruction]? with
  | none =>
    rw [turn, hfetch] at h
    cases h
  | some instruction =>
    rw [turn, hfetch] at h
    cases instruction with
    | jumpIfFalse target =>
      dsimp only at h
      cases hstack : frame.stack with
      | nil =>
        rw [hstack] at h
        exact .inl (Turn.stopped.inj h).symm
      | cons condition stack =>
        rw [hstack] at h
        dsimp only at h
        cases hnumber : numericValue condition with
        | none =>
          rw [hnumber] at h
          exact .inl (Turn.stopped.inj h).symm
        | some number =>
          rw [hnumber] at h
          dsimp only at h
          split_ifs at h with hzero hle
          · right
            refine ⟨⟨target, number, hfetch, hle, ?_, hzero⟩, ?_⟩
            · rw [hstack]
              exact hnumber
            · rw [← Turn.stopped.inj h]
              exact Nat.lt_succ_self _
    | loadLocal _ | listLengthLocal _ =>
      dsimp only at h
      split at h
      · cases h
      · exact .inl (ranOr_eq_stopped h)
    | storeLocal slot =>
      dsimp only at h
      split at h
      · split_ifs at h
        exact .inl (Turn.stopped.inj h).symm
      · exact .inl (Turn.stopped.inj h).symm
    | storeResult | duplicate | pop =>
      dsimp only at h
      split at h
      · cases h
      · cases h
    | negate | not => exact absurd h (ranOrDeclined_ne_stopped _ _)
    | jump target =>
      dsimp only at h
      split_ifs at h
      exact .inl (Turn.stopped.inj h).symm
    | pushNull | pushNumber _ | pushText _ | loadResult => cases h
    | add | subtract | multiply | divide | less | lessEqual | greater | greaterEqual | and | or =>
      exact .inl (ranOr_eq_stopped h)
    | other _ => exact .inl (Turn.stopped.inj h).symm

theorem turn_of_misjumps (h : Misjumps program frame) :
    ∃ next, turn arith program state frame = .stopped next ∧
      next.stack.length < frame.stack.length := by
  obtain ⟨target, number, hfetch, hle, htop, hzero⟩ := h
  cases hstack : frame.stack with
  | nil =>
    rw [hstack] at htop
    cases htop
  | cons condition stack =>
    rw [hstack] at htop
    have hnumber : numericValue condition = some number := htop
    refine ⟨frame.withStack stack, ?_, Nat.lt_succ_self _⟩
    rw [turn, hfetch]
    dsimp only
    rw [hstack]
    dsimp only
    rw [hnumber]
    dsimp only
    rw [if_pos hzero, if_pos hle]

section

variable (h : ∀ next, turn arith program state frame = .ran next → dispatch hash arith program
    general frame state = some (next, state))

include h

/-- What the dispatch would do otherwise tells that the addition is the same. -/
theorem addsAlike_of_dispatch : AddsAlike arith program frame := by
  intro hfetch right left stack l r hstack hl hr
  have hturn : turn arith program state frame =
      .ran (frame.withStack (.number (arith.add l r) :: stack)).advance := by
    rw [turn, hfetch]
    dsimp only
    rw [binaryTurn, hstack]
    dsimp only
    rw [hl, hr]
    rfl
  have hdispatch := h _ hturn
  have hscalar : isCompound left = false := by
    cases left with
    | list _ | datum _ => cases hl
    | _ => rfl
  rw [dispatch, hfetch] at hdispatch
  change dispatchAdd arith general frame state = _ at hdispatch
  rw [dispatchAdd, hstack] at hdispatch
  dsimp only at hdispatch
  rw [hscalar] at hdispatch
  obtain ⟨value, hvalue, heq⟩ := Option.map_eq_some_iff.1 hdispatch
  have hframe := congrArg (fun result => result.1.stack) heq
  have hstacks : value :: stack = .number (arith.add l r) :: stack := hframe
  rw [hvalue, (List.cons.inj hstacks).1]

theorem lengthsSettled_of_dispatch : LengthsSettled program state frame := by
  intro slot value list hfetch hlocal hread
  have hlive : ∃ contents, state.heap.list list = some contents := by
    obtain ⟨receiver, -, hreceiver⟩ := Option.map_eq_some_iff.1 hread
    cases receiver with
    | list other =>
      rw [ValueHeap.canonicalizeValue] at hreceiver
      split_ifs at hreceiver with hsome
      · rw [← Value.list.inj hreceiver]
        exact Option.isSome_iff_exists.1 hsome
    | datum other =>
      rw [ValueHeap.canonicalizeValue] at hreceiver
      split_ifs at hreceiver
    | null | number _ | text _ | file _ | typePath _ | modifiedTypePath _ _ => cases hreceiver
  obtain ⟨contents, hcontents⟩ := hlive
  have hturn : turn arith program state frame =
      .ran (frame.push (listLengthNumber contents)).advance := by
    rw [turn, hfetch]
    dsimp only
    rw [hlocal]
    dsimp only
    rw [listLengthTurn, hread]
    dsimp only
    rw [hcontents]
    rfl
  have hdispatch := h _ hturn
  rw [dispatch, hfetch] at hdispatch
  dsimp only at hdispatch
  rw [hlocal, Option.bind_some, dispatchListLength, hread] at hdispatch
  dsimp only at hdispatch
  obtain ⟨flushed, -, heq⟩ := Option.map_eq_some_iff.1 hdispatch
  have hstate : flushAreaUncontain hash state list = state := congrArg Prod.snd heq
  cases hpending : state.pendingUncontain list with
  | none => rfl
  | some pending =>
    have hgone : (flushAreaUncontain hash state list).pendingUncontain list = none := by
      rw [flushAreaUncontain, hpending]
      exact if_pos rfl
    rw [hstate, hpending] at hgone
    cases hgone

end

/-! ## Runs -/

/-- So many turns that run. -/
def turns (arith : Binary32) (program : List Instruction) (state : State) :
    Nat → Frame → Option Frame
  | 0, frame => some frame
  | n + 1, frame =>
    match turn arith program state frame with
    | .ran next => turns arith program state n next
    | _ => none

theorem turns_ran (h : turn arith program state frame = .ran next) (n : Nat) :
    turns arith program state (n + 1) frame = turns arith program state n next := by
  rw [turns, h]

variable {n : Nat} {last : Frame}

theorem turns_succ_eq_some (h : turns arith program state (n + 1) frame = some last) :
    ∃ second, turn arith program state frame = .ran second ∧
      turns arith program state n second = some last := by
  cases hfirst : turn arith program state frame with
  | ran second =>
    rw [turns_ran hfirst] at h
    exact ⟨second, rfl, h⟩
  | stopped _ | declined =>
    rw [turns, hfirst] at h
    cases h

theorem turns_succ (hturns : turns arith program state n frame = some last)
    (hturn : turn arith program state last = .ran next) :
    turns arith program state (n + 1) frame = some next := by
  induction n generalizing frame with
  | zero =>
    cases hturns
    rw [turns_ran hturn]
    rfl
  | succ n ih =>
    obtain ⟨second, hfirst, hrest⟩ := turns_succ_eq_some hturns
    rw [turns_ran hfirst]
    exact ih hrest

theorem turns_split (hturns : turns arith program state (n + 1) frame = some last) :
    ∃ before, turns arith program state n frame = some before ∧
      turn arith program state before = .ran last := by
  induction n generalizing frame with
  | zero =>
    obtain ⟨second, hfirst, hrest⟩ := turns_succ_eq_some hturns
    cases hrest
    exact ⟨frame, rfl, hfirst⟩
  | succ n ih =>
    obtain ⟨second, hfirst, hrest⟩ := turns_succ_eq_some hturns
    obtain ⟨before, hbefore, hlast⟩ := ih hrest
    exact ⟨before, (turns_ran hfirst n).trans hbefore, hlast⟩

theorem dispatches_succ {state' state'' : State}
    (hruns : dispatches hash arith program general n frame state = some (last, state')) :
    dispatches hash arith program general (n + 1) frame state = some (next, state'') ↔
      dispatch hash arith program general last state' = some (next, state'') := by
  induction n generalizing frame state with
  | zero =>
    cases hruns
    rw [dispatches]
    cases dispatch hash arith program general last state' with
    | none | some _ => exact Iff.rfl
  | succ n ih =>
    rw [dispatches] at hruns
    obtain ⟨first, hfirst, hrest⟩ := Option.bind_eq_some_iff.1 hruns
    rw [dispatches, hfirst]
    exact ih hrest

/-- How a block ends: it is out of steps, broke off, or returned without a count. -/
inductive Ended (arith : Binary32) (program : List Instruction) (state : State) (budget : Nat)
    (frame : Frame) (result : Option Nat × Frame) : Prop where
  | spent {last : Frame} : turns arith program state budget frame = some last →
      result = (counted budget, last) → Ended arith program state budget frame result
  | stopped {n : Nat} {last next : Frame} : n < budget →
      turns arith program state n frame = some last →
      turn arith program state last = .stopped next → result = (counted n, next) →
      Ended arith program state budget frame result
  | declined {n : Nat} {last : Frame} : n < budget →
      turns arith program state n frame = some last →
      turn arith program state last = .declined → result = (none, last) →
      Ended arith program state budget frame result

variable {steps : Nat}

theorem runFrom_ended {budget left : Nat} (hsum : steps + left = budget)
    (hturns : turns arith program state steps frame = some last) :
    Ended arith program state budget frame (runFrom arith program state left steps last) := by
  induction left generalizing steps last with
  | zero =>
    rw [← hsum, Nat.add_zero]
    exact .spent hturns rfl
  | succ left ih =>
    cases hturn : turn arith program state last with
    | ran next =>
      have hrun : runFrom arith program state (left + 1) steps last =
          runFrom arith program state left (steps + 1) next := by
        rw [runFrom, hturn]
      rw [hrun]
      exact ih (by omega) (turns_succ hturns hturn)
    | stopped next =>
      refine .stopped (by omega) hturns hturn ?_
      rw [runFrom, hturn]
    | declined =>
      refine .declined (by omega) hturns hturn ?_
      rw [runFrom, hturn]

theorem runBlock_ended (budget : Nat) (frame : Frame) :
    Ended arith program state budget frame (runBlock arith program state budget frame) := by
  rw [runBlock]
  split_ifs with hzero
  · rw [hzero]
    exact .spent rfl rfl
  · exact runFrom_ended (Nat.zero_add budget) rfl

theorem runFrom_turns {left : Nat} (hturns : turns arith program state n frame = some last) :
    runFrom arith program state (n + left) steps frame =
      runFrom arith program state left (steps + n) last := by
  induction n generalizing frame steps with
  | zero =>
    cases hturns
    rw [Nat.zero_add, Nat.add_zero]
  | succ n ih =>
    obtain ⟨second, hfirst, hrest⟩ := turns_succ_eq_some hturns
    have hrun : runFrom arith program state (n + 1 + left) steps frame =
        runFrom arith program state (n + left) (steps + 1) second := by
      rw [Nat.add_right_comm, runFrom, hfirst]
    rw [hrun, ih hrest, Nat.add_assoc, Nat.add_comm 1 n]

/-- With a budget for one turn more. -/
theorem runBlock_turns_succ (hturns : turns arith program state n frame = some last) :
    runBlock arith program state (n + 1) frame = runFrom arith program state 1 n last := by
  rw [runBlock, if_neg (Nat.succ_ne_zero n), runFrom_turns hturns, Nat.zero_add]

theorem runBlock_turns (hturns : turns arith program state n frame = some last) :
    runBlock arith program state n frame = (counted n, last) := by
  rw [runBlock]
  split_ifs with hzero
  · rw [hzero] at hturns ⊢
    cases hturns
    rfl
  · have hrun : runFrom arith program state (n + 0) 0 frame =
        runFrom arith program state 0 (0 + n) last := runFrom_turns hturns
    rw [Nat.add_zero] at hrun
    rw [hrun, runFrom, Nat.zero_add]

/-! ## Faithful blocks -/

/--
A block with this budget: a count is the number of single dispatches that lead to
its frame and leave the state as it is, and without a count the frame is unchanged.
-/
structure Faithful (hash : SemanticKey → Nat) (arith : Binary32) (program : List Instruction)
    (general : General) (state : State) (frame : Frame) (budget : Nat) : Prop where
  counted : ∀ n next, runBlock arith program state budget frame = (some n, next) →
    n ≤ budget ∧ dispatches hash arith program general n frame state = some (next, state)
  declined : ∀ next, runBlock arith program state budget frame = (none, next) → next = frame

/-- The instruction of a frame after so many others has no effect that is not charged. -/
structure Proper (arith : Binary32) (program : List Instruction) (state : State) (executed : Nat)
    (frame : Frame) : Prop where
  accepted : 0 < executed → ¬ Declines frame program[frame.instruction]?
  jumps : ¬ Misjumps program frame
  adds : AddsAlike arith program frame
  lengths : LengthsSettled program state frame

/-- Every frame on the way of a block is proper. -/
def Smooth (arith : Binary32) (program : List Instruction) (state : State) (frame : Frame) : Prop :=
  ∀ n last, turns arith program state n frame = some last →
    Proper arith program state n last

theorem counted_eq_some (h : counted steps = some n) : n = steps := by
  rw [counted] at h
  split_ifs at h
  exact (Option.some.inj h).symm

theorem counted_eq_none (h : counted steps = none) : steps = 0 := by
  rw [counted] at h
  split_ifs at h with hpos
  omega

theorem Smooth.dispatches (h : Smooth arith program state frame)
    (hturns : turns arith program state n frame = some last) :
    dispatches hash arith program general n frame state = some (last, state) := by
  induction n generalizing last with
  | zero =>
    cases hturns
    rfl
  | succ n ih =>
    obtain ⟨before, hbefore, hturn⟩ := turns_split hturns
    have hproper := h n before hbefore
    exact (dispatches_succ (ih hbefore)).2
      (dispatch_of_ran hturn hproper.adds hproper.lengths)

theorem Smooth.faithful (h : Smooth arith program state frame) (budget : Nat) :
    Faithful hash arith program general state frame budget := by
  have hended : Ended arith program state budget frame
      (runBlock arith program state budget frame) := runBlock_ended budget frame
  constructor
  · intro n next hblock
    rw [hblock] at hended
    cases hended with
    | spent hturns hresult =>
      obtain ⟨hcount, rfl⟩ := Prod.mk.inj hresult
      rw [counted_eq_some hcount.symm]
      exact ⟨le_rfl, h.dispatches hturns⟩
    | stopped hlt hturns hturn hresult =>
      obtain ⟨hcount, rfl⟩ := Prod.mk.inj hresult
      rw [counted_eq_some hcount.symm]
      rcases turn_eq_stopped hturn with rfl | ⟨hmisjumps, -⟩
      · exact ⟨hlt.le, h.dispatches hturns⟩
      · exact absurd hmisjumps (h _ _ hturns).jumps
    | declined _ _ _ hresult => cases hresult
  · intro next hblock
    rw [hblock] at hended
    cases hended with
    | spent hturns hresult =>
      obtain ⟨hcount, rfl⟩ := Prod.mk.inj hresult
      rw [counted_eq_none hcount.symm] at hturns
      exact (Option.some.inj hturns).symm
    | @stopped n _ _ hlt hturns hturn hresult =>
      obtain ⟨hcount, rfl⟩ := Prod.mk.inj hresult
      have hzero := counted_eq_none hcount.symm
      rcases turn_eq_stopped hturn with rfl | ⟨hmisjumps, -⟩
      · rw [hzero] at hturns
        exact (Option.some.inj hturns).symm
      · exact absurd hmisjumps (h _ _ hturns).jumps
    | @declined n last _ hturns hturn hresult =>
      obtain ⟨-, rfl⟩ := Prod.mk.inj hresult
      have hdeclines := turn_eq_declined_iff.1 hturn
      cases n with
      | zero => exact (Option.some.inj hturns).symm
      | succ n => exact absurd hdeclines ((h _ _ hturns).accepted (Nat.succ_pos n))

/-- Without its count, a frame that ran is no frame that returns at once. -/
theorem turns_ne_start (hturns : turns arith program state (n + 1) frame = some frame) :
    turn arith program state frame ≠ .declined := by
  intro hdeclined
  rw [turns, hdeclined] at hturns
  cases hturns

theorem dispatches_of_faithful
    (h : ∀ budget, Faithful hash arith program general state frame budget)
    (hturns : turns arith program state n frame = some last) :
    dispatches hash arith program general n frame state = some (last, state) := by
  cases n with
  | zero =>
    cases hturns
    rfl
  | succ n =>
    have hblock := runBlock_turns hturns
    rw [counted, if_pos (Nat.succ_pos n)] at hblock
    exact ((h (n + 1)).counted _ _ hblock).2

theorem proper_of_faithful (h : ∀ budget, Faithful hash arith program general state frame budget)
    (hturns : turns arith program state n frame = some last) :
    Proper arith program state n last := by
  have hruns := dispatches_of_faithful h hturns
  have hblock := runBlock_turns_succ hturns
  have hdispatch : ∀ next, turn arith program state last = .ran next →
      dispatch hash arith program general last state = some (next, state) := by
    intro next hturn
    exact (dispatches_succ hruns).1 (dispatches_of_faithful h (turns_succ hturns hturn))
  refine ⟨fun hpos hdeclines => ?_, fun hmisjumps => ?_, addsAlike_of_dispatch hdispatch,
    lengthsSettled_of_dispatch hdispatch⟩
  · have hturn : turn arith program state last = .declined := turn_eq_declined_iff.2 hdeclines
    rw [runFrom, hturn] at hblock
    have hsame := (h (n + 1)).declined last hblock
    obtain ⟨m, rfl⟩ : ∃ m, n = m + 1 := ⟨n - 1, by omega⟩
    rw [hsame] at hturns hturn
    exact turns_ne_start hturns hturn
  · obtain ⟨next, hturn, hlt⟩ : ∃ next, turn arith program state last = .stopped next ∧
        next.stack.length < last.stack.length := turn_of_misjumps hmisjumps
    rw [runFrom, hturn] at hblock
    have hsame : next = last := by
      cases n with
      | zero =>
        cases hturns
        exact (h 1).declined next hblock
      | succ n =>
        dsimp only at hblock
        rw [counted, if_pos (Nat.succ_pos n)] at hblock
        have hcounted := ((h (n + 1 + 1)).counted _ _ hblock).2
        rw [hruns] at hcounted
        exact (Prod.mk.inj (Option.some.inj hcounted)).1.symm
    rw [hsame] at hlt
    exact absurd hlt (Nat.lt_irrefl _)

/--
A block charges what it executes and declines without effect, with every budget,
exactly if every frame on its way is proper: behind the first instruction there is
none at which it returns without a count, no jump is left half done, additions to
null are those of the dispatch, and no list with removals put off is measured.
-/
theorem runBlock_faithful_iff (hash : SemanticKey → Nat) (arith : Binary32)
    (program : List Instruction) (general : General) (state : State) (frame : Frame) :
    (∀ budget, Faithful hash arith program general state frame budget) ↔
      Smooth arith program state frame :=
  ⟨fun h _ _ hturns => proper_of_faithful h hturns, fun h budget => h.faithful budget⟩

/-- `. = !name` -/
def negatedLocal : List Instruction := [.loadLocal 0, .not, .storeResult]

def textFrame : Frame := ⟨[.text "name"], [], .null, 0, 0, []⟩

def idleState : State := ⟨⟨Arena.empty, Arena.empty⟩, fun _ => false, fun _ => none⟩

/-- The text is on the stack, and no step is charged for it. -/
theorem negatedLocal_not_faithful :
    ¬ ∀ (hash : SemanticKey → Nat) (arith : Binary32) (program : List Instruction)
      (general : General) (state : State) (frame : Frame) (budget : Nat),
      Faithful hash arith program general state frame budget := by
  intro h
  let arith : Binary32 := ⟨fun left _ => left, fun left _ => left, fun left _ => left,
    fun left _ => left, id, fun _ _ => false, fun _ _ => false, fun _ _ => false,
    fun _ _ => false, fun _ _ => false, fun _ _ => false⟩
  have hblock : runBlock arith negatedLocal idleState 8 textFrame =
      (none, (textFrame.push (.text "name")).advance) := rfl
  have hsame := (h (fun _ => 0) arith negatedLocal (fun _ _ _ => none) idleState textFrame 8).declined
    _ hblock
  have hpc : 0 + 1 = 0 := congrArg Frame.instruction hsame
  exact absurd hpc (Nat.succ_ne_zero 0)

end Dream64.Vm.Numeric
