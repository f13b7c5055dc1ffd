import Dream64.Vm.Runs

/-!
# Fragments with a meaning

`Emits`: a fragment of code computes an evaluation, from any stack and state.
The rules here build the fragment of a form from the fragments of its
operands; the emitter's cases instantiate them.
-/

namespace Dream64.Vm

variable {ε α β : Type}

theorem Except.bind_eq_ok {x : Except ε α} {f : α → Except ε β} {b : β} :
    (x >>= f) = .ok b ↔ ∃ a, x = .ok a ∧ f a = .ok b := by
  cases x with
  | error e => simp [bind, Except.bind]
  | ok a => simp [bind, Except.bind]

theorem Except.pure_eq_ok {a b : α} : (pure a : Except ε α) = .ok b ↔ a = b := by
  simp [pure, Except.pure]

theorem Eval.bind_eq_ok {σ : Type} {x : Eval σ ε α} {f : α → Eval σ ε β} {s s'' : σ} {b : β} :
    ((x >>= f) s).2 = .ok (b, s'') ↔ ∃ a s', (x s).2 = .ok (a, s') ∧ (f a s').2 = .ok (b, s'') := by
  simp only [bind]
  split
  · rename_i h; simp [h]
  · rename_i h; simp [h]

theorem Eval.bind_of_ok {σ : Type} {x : Eval σ ε α} {f : α → Eval σ ε β} {s s' : σ} {a : α}
    (h : (x s).2 = .ok (a, s')) : ((x >>= f) s).2 = (f a s').2 := by
  simp only [bind]
  split
  · rename_i heq
    rw [heq] at h
    cases h
  · rename_i heq
    rw [heq] at h
    cases h
    rfl

theorem Eval.bind_assoc {σ γ : Type} (x : Eval σ ε α) (f : α → Eval σ ε β) (g : β → Eval σ ε γ) :
    (x >>= f) >>= g = x >>= fun a => f a >>= g := by
  funext s
  simp only [bind]
  cases x s with
  | mk log r =>
    cases r with
    | error e => rfl
    | ok p =>
      simp only
      cases f p.1 p.2 with
      | mk log' r' => cases r' <;> simp [List.append_assoc]

variable {n c : Nat}

theorem countU8_eq_ok : countU8 n = .ok c ↔ n ≤ 255 ∧ c = n := by
  simp only [countU8]
  split <;> simp [*, eq_comm]

theorem countU16_eq_ok {m : CompileError} : countU16 n m = .ok c ↔ n ≤ 65535 ∧ c = n := by
  simp only [countU16]
  split <;> simp [*, eq_comm]

theorem toLocalIndex_eq_ok : toLocalIndex n = .ok c ↔ n ≤ 65535 ∧ c = n := by
  simp only [toLocalIndex]
  split <;> simp [*, eq_comm]

variable {σ ε V α : Type} {S : Semantics σ ε V} {L : LocalTable} {procs : Procedures} {code : Code}
  {pos k : Nat} {instruction : Instruction}

variable {fragment : Code}

theorem Placed.length_le (h : Placed code pos fragment) : fragment.length ≤ code.length :=
  Nat.le_trans (List.IsPrefix.length_le h) (by rw [List.length_drop]; exact Nat.sub_le _ _)

/-! ## Fragments with a meaning -/

/-- The fragment at `pos` computes `x`, whatever is on the stack below. -/
def Emits (S : Semantics σ ε V) (code : Code) (pos : Nat) (fragment : Code) (push : α → List V)
    (x : Eval σ ε α) : Prop :=
  ∀ stack, Computes S code pos fragment stack stack push x

/-- A fragment that computes a value is not empty. -/
theorem Emits.length_pos {x : Eval σ ε V} (h : Emits S code pos fragment single x)
    (hc : Placed code pos fragment) (s : σ) : 0 < fragment.length := by
  by_contra hlen
  have he := h [] hc s
  rw [show pos + fragment.length = pos by omega] at he
  cases hx : (x s).2 with
  | error e =>
    rw [hx] at he
    obtain ⟨c, hr, hlt, -⟩ := he
    cases hr with
    | refl => exact absurd hlt (by simp)
    | step hlt' => exact absurd hlt' (by simp)
  | ok p =>
    rw [hx] at he
    cases he with
    | step hlt => exact absurd hlt (by simp)

section Rules

variable {a b fragment : Code} {x y : Eval σ ε V} {n m : Nat}

theorem emits_value (hshape : instruction.shape = some (.value 0)) :
    Emits S code pos [instruction] single (evalValue S instruction []) :=
  fun _ => .value hshape rfl rfl

/-- An instruction on `src`. -/
theorem emits_src1 (hshape : instruction.shape = some (.value 1)) :
    Emits S code pos [.loadSrc, instruction] single (do
      let src ← evalValue S .loadSrc []
      evalValue S instruction [src]) :=
  fun _ => .cons (.value rfl rfl rfl) fun _ => .value hshape rfl rfl

/-- An operand, then an instruction on it. -/
theorem Emits.value1 (ha : Emits S code pos a single x)
    (hshape : instruction.shape = some (.value 1)) :
    Emits S code pos (a ++ [instruction]) single
      (do evalValue S instruction [← .operand n x]) :=
  fun _ => .operand (ha _) fun _ => .value hshape rfl rfl

/-- Two operands, then an instruction on both. -/
theorem Emits.value2 (ha : Emits S code pos a single x)
    (hb : Emits S code (pos + a.length) b single y)
    (hshape : instruction.shape = some (.value 2)) :
    Emits S code pos (a ++ b ++ [instruction]) single (do
      let v ← .operand n x
      let w ← .operand m y
      evalValue S instruction [v, w]) := by
  rw [List.append_assoc]
  exact fun _ => .operand (ha _) fun _ => .operand (hb _) fun _ => .value hshape rfl rfl

/-- An operand list, then an instruction on all of it. -/
theorem Emits.valueAll {x : Eval σ ε (List V)} (ha : Emits S code pos a List.reverse x)
    (hlen : ∀ s vs s', (x s).2 = .ok (vs, s') → vs.length = k)
    (hshape : instruction.shape = some (.value k)) :
    Emits S code pos (a ++ [instruction]) single (do evalValue S instruction (← x)) :=
  fun _ => .bindOk (ha _) fun _ _ _ h => .value hshape (hlen _ _ _ h) rfl

/-- A receiver, and an inner fragment that is skipped when it is null. -/
theorem Emits.guard {y : V → Eval σ ε V} (ha : Emits S code pos a single x)
    (hy : ∀ v stack, Computes S code (pos + a.length + 2) b (v :: stack) stack single (y v)) :
    Emits S code pos (nullGuard pos a b) single (do
      let v ← .operand n x
      unlessNull S v (y v)) := by
  rw [nullGuard, List.append_assoc]
  exact fun stack => .operand (ha _) fun v => .nullGuard rfl (hy v stack)

/-- A receiver, and an instruction on it unless it is null. -/
theorem Emits.guardOne (ha : Emits S code pos a single x)
    (hshape : instruction.shape = some (.value 1)) :
    Emits S code pos (nullGuard pos a [instruction]) single (do
      let v ← .operand n x
      unlessNull S v (evalValue S instruction [v])) :=
  .guard ha fun _ _ => .value hshape rfl rfl

variable {operator : String} {stack base : List V} {value : Eval σ ε V} {valueCode combine : Code}

/-- An assignment whose target operands are on the stack: the load of a compound
assignment, the value, the combination and the store. -/
theorem Computes.storeOf {load : Eval σ ε V} {storeIt : V → Eval σ ε V} {l storeCode : Code}
    (hload : Computes S code pos l stack stack single load)
    (hvalue : Emits S code (pos + (if operator = "=" then [] else l).length) valueCode single value)
    (hcombine : compoundInstruction operator = .ok combine)
    (hstore : ∀ pos v, Computes S code pos storeCode (v :: stack) base single (storeIt v)) :
    Computes S code pos ((if operator = "=" then [] else l) ++ valueCode ++ combine ++ storeCode)
      stack base single (evalStoreOf S operator load value storeIt) := by
  unfold evalStoreOf
  split
  · rename_i heq
    simp only [compoundInstruction, heq, if_true, Except.ok.injEq] at hcombine hvalue
    subst hcombine
    rw [List.nil_append, List.append_nil]
    exact .bind (hvalue _) fun v => hstore _ v
  · rename_i hne
    simp only [compoundInstruction, hne, if_false, Except.bind_eq_ok, compoundOperator,
      Except.pure_eq_ok] at hcombine hvalue
    obtain ⟨op, hop, rfl⟩ := hcombine
    rw [List.append_assoc, List.append_assoc]
    refine .bind hload fun old => .bind (hvalue _) fun v => ?_
    split at hop
    · rename_i op' hop'
      obtain rfl : op' = op := by simpa using hop
      simp only [evalCombine, hop']
      exact .cons (.value rfl rfl rfl) fun w => hstore _ w
    · cases hop

/-- `duplicate` and a store instruction, which keep the stored value. -/
theorem Computes.keep {v : V} (hshape : instruction.shape = some (.store 1)) :
    Computes S code pos [.duplicate, instruction] (v :: stack) stack single
      (evalKeep S instruction v) :=
  .duplicate (.cons (.store hshape rfl rfl) fun _ => .pure rfl)

/-- A value that a store instruction keeps. -/
theorem Emits.keepOf (ha : Emits S code pos a single x)
    (hshape : instruction.shape = some (.store 1)) :
    Emits S code pos (a ++ [.duplicate, instruction]) single
      (do evalKeep S instruction (← x)) :=
  fun _ => .bind (ha _) fun _ => .keep hshape

/-- An assignment that keeps its value by duplicating it. -/
theorem emits_keep {load store : Instruction}
    (hvalue : Emits S code (pos + (if operator = "=" then [] else [load]).length) valueCode single
      value)
    (hcombine : compoundInstruction operator = .ok combine)
    (hload : load.shape = some (.value 0)) (hstore : store.shape = some (.store 1)) :
    Emits S code pos
      ((if operator = "=" then [] else [load]) ++ valueCode ++ combine ++ [.duplicate, store]) single
      (evalStoreOf S operator (evalValue S load []) value (evalKeep S store)) :=
  fun _ => .storeOf (.value hload rfl rfl) hvalue hcombine fun _ _ => .keep hstore

theorem binaryInstruction_shape (h : binaryInstruction operator = .ok instruction) :
    instruction.shape = some (.value 2) := by
  unfold binaryInstruction at h
  split at h <;> cases h <;> rfl

/-- The instructions of a unary operator, with the operand on the stack. -/
theorem unaryInstruction_computes {v : V} (h : unaryInstruction operator = .ok fragment) :
    Computes S code pos fragment (v :: stack) stack single (evalUnary S operator v) := by
  unfold unaryInstruction at h
  split at h
  · cases h
    exact .pure rfl
  · cases h
    exact .value rfl rfl rfl
  · cases h
    exact .value rfl rfl rfl
  · cases h
    exact .value rfl rfl rfl
  · cases h
    exact .value rfl rfl rfl
  · cases h
    exact .cons (.value rfl rfl rfl) fun _ => .value rfl rfl rfl
  · cases h

theorem emitGlobalAssignment_emits {storage : FieldName} {valueAt : Nat → Emit}
    (h : emitGlobalAssignment pos storage operator valueAt = .ok fragment)
    (hv : ∀ p c, valueAt p = .ok c → Emits S code p c single value) :
    Emits S code pos fragment single (evalGlobalAssignment S storage operator value) := by
  simp only [emitGlobalAssignment, Except.bind_eq_ok, Except.pure_eq_ok] at h
  obtain ⟨valueCode, hvalue, combine, hcombine, rfl⟩ := h
  exact emits_keep (hv _ _ hvalue) hcombine rfl rfl

end Rules

/-! ## Operand lists -/

section Lengths

variable {n : Nat} {s s' : σ} {vs : List V}

theorem evalAll_length {arguments : List Expression}
    (h : (evalAll S L procs n arguments s).2 = .ok (vs, s')) : vs.length = arguments.length := by
  induction arguments generalizing n s s' vs with
  | nil => cases h; rfl
  | cons e rest ih =>
    simp only [evalAll, Eval.bind_eq_ok] at h
    obtain ⟨v, s₁, -, vs', s₂, hrest, h⟩ := h
    cases h
    rw [List.length_cons, ih hrest, List.length_cons]

theorem evalOverrideValues_eq {overrides : List (FieldName × Expression)} :
    evalOverrideValues S L procs n overrides = evalAll S L procs n (overrides.map (·.2)) := by
  induction overrides generalizing n with
  | nil => rfl
  | cons p rest ih => simp only [evalOverrideValues, evalAll, List.map_cons, ih]

theorem evalNamedArguments_eq {arguments : List (Option String × Expression)} :
    evalNamedArguments S L procs n arguments = evalAll S L procs n (arguments.map (·.2)) := by
  induction arguments generalizing n with
  | nil => rfl
  | cons p rest ih => simp only [evalNamedArguments, evalAll, List.map_cons, ih]

theorem evalNewList_length {arguments : List Expression}
    (h : (evalNewList S L procs n arguments s).2 = .ok (vs, s')) :
    vs.length = arguments.length := by
  induction arguments generalizing n s s' vs with
  | nil => cases h; rfl
  | cons e rest ih =>
    simp only [evalNewList, Eval.bind_eq_ok] at h
    obtain ⟨_, _, -, _, _, -, vs', s₂, hrest, h⟩ := h
    cases h
    rw [List.length_cons, ih hrest, List.length_cons]

theorem evalPickEntries_length {entries : List (Option Expression × Expression)}
    (h : (evalPickEntries S L procs n entries s).2 = .ok (vs, s')) :
    vs.length = ((entries.map fun e => e.1.isSome).map fun w => if w then 2 else 1).sum := by
  induction entries generalizing n s s' vs with
  | nil => cases h; rfl
  | cons e rest ih =>
    obtain ⟨weight, candidate⟩ := e
    cases weight with
    | none =>
      simp only [evalPickEntries, Eval.bind_eq_ok] at h
      obtain ⟨v, s₁, -, vs', s₂, hrest, h⟩ := h
      cases h
      simp [ih hrest]; omega
    | some weight =>
      simp only [evalPickEntries, Eval.bind_eq_ok] at h
      obtain ⟨w, s₁, -, v, s₂, -, vs', s₃, hrest, h⟩ := h
      cases h
      simp [ih hrest]; omega

theorem evalEntries_length {entries : List ListExpressionEntry}
    (h : (evalEntries S L procs n entries s).2 = .ok (vs, s')) :
    vs.length = ((entries.map entryKind).map ListEntryKind.operands).sum := by
  induction entries generalizing n s s' vs with
  | nil => cases h; rfl
  | cons e rest ih =>
    cases e with
    | positional value =>
      simp only [evalEntries, Eval.bind_eq_ok] at h
      obtain ⟨v, s₁, -, vs', s₂, hrest, h⟩ := h
      cases h
      simp [ih hrest, entryKind, ListEntryKind.operands]; omega
    | associative key value =>
      simp only [evalEntries, Eval.bind_eq_ok] at h
      obtain ⟨v, s₁, -, w, s₂, -, vs', s₃, hrest, h⟩ := h
      cases h
      simp [ih hrest, entryKind, ListEntryKind.operands]; omega

end Lengths

/-- What the code of an argument vector does: the indices of its expansions are
the ones the evaluation expands, it has an instruction for each argument, and
it computes the values. -/
structure EmitsArguments (S : Semantics σ ε V) (code : Code) (pos : Nat) (fragment : Code)
    (count : Nat) (x : Eval σ ε (List V)) : Prop where
  emits : Emits S code pos fragment List.reverse x
  count_le : Nonempty σ → Placed code pos fragment → count ≤ fragment.length

variable {count : Nat}

/-- A count of arguments that have code is never the marker of an expanded vector. -/
theorem EmitsArguments.length_ne {x : Eval σ ε (List V)}
    (h : EmitsArguments S code pos fragment count x) (hcode : code.length ≤ 65535)
    (hc : Placed code pos (fragment ++ [instruction])) (s : σ) : count ≠ expandedArgumentCount := by
  rw [placed_append, placed_cons] at hc
  have hle := h.count_le ⟨s⟩ hc.1
  have hlt : pos + fragment.length < code.length := (List.getElem?_eq_some_iff.1 hc.2.1).1
  simp only [expandedArgumentCount]
  omega

/-- The values come first in the code of an argument vector. -/
theorem emitCallArguments_values {arguments : List Expression} {values call : Code}
    {expansions : List Nat}
    (h : emitCallArguments arguments (.ok (values, expansions)) = .ok (call, count)) :
    ∃ expand, call = values ++ expand := by
  simp only [emitCallArguments, Except.bind_eq_ok, Except.ok.injEq] at h
  obtain ⟨_, -, _, rfl, h⟩ := h
  split at h
  · cases h
    exact ⟨[], (List.append_nil _).symm⟩
  · cases h
    exact ⟨_, rfl⟩

/-- A call-like instruction with its receivers on the stack. -/
theorem Computes.callArguments {arguments : List Expression} {values : Code} {expansions : List Nat}
    {call : Code} {j : Nat} {i : Nat → Instruction} {r base stack : List V}
    (hx : EmitsArguments S code pos values arguments.length (evalAll S L procs n arguments))
    (hexp : expansions = expandedIndices 0 arguments)
    (hcall : emitCallArguments arguments (.ok (values, expansions)) = .ok (call, count))
    (hcode : code.length ≤ 65535) (hshape : ∀ c, (i c).shape = some (.call j c)) (hj : r.length = j)
    (hstack : stack = r.reverse ++ base) :
    Computes S code pos (call ++ [i count]) stack base single (do
      let values ← evalAll S L procs n arguments
      evalCall S i r arguments values) := by
  subst hstack
  simp only [emitCallArguments, Except.bind_eq_ok, Except.ok.injEq, countU16_eq_ok] at hcall
  obtain ⟨_, ⟨hle, rfl⟩, _, rfl, hcall⟩ := hcall
  split at hcall
  · rename_i hempty
    obtain ⟨rfl, rfl⟩ : values = call ∧ arguments.length = count := by
      simpa [Except.pure_eq_ok] using hcall
    refine fun hc s => Computes.bindOk (hx.emits _) (fun vs _ _ hv => ?_) hc s
    have hlen := evalAll_length hv
    simp only [evalCall, ← hexp, hempty, if_true]
    exact .call (hshape _) (hx.length_ne hcode hc s) (by simp [hlen, hj]) (by simp)
  · rename_i hne
    obtain ⟨rfl, rfl⟩ : values ++ [.expandArgumentLists arguments.length (argumentNames arguments)
        expansions] = call ∧ expandedArgumentCount = count := by
      simpa [Except.pure_eq_ok] using hcall
    rw [List.append_assoc]
    refine .bindOk (hx.emits _) fun vs _ _ hv => ?_
    simp only [evalCall, ← hexp, hne]
    exact .cons (.expand (evalAll_length hv) rfl) fun expanded =>
      .expandedCall (hshape _) hj expanded.2 (by simp)

end Dream64.Vm
