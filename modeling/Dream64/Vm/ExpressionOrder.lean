import Dream64.Vm.EmitCorrect
import Dream64.Vm.EvalOrder

/-!
# What running the code of an expression does

The two halves together: the code of an expression runs its instructions in
increasing order, leaves exactly one value, and evaluates every operand at
most once and from left to right, the operands of an assignment target
exactly once.
-/

namespace Dream64.Vm

variable {σ ε V : Type} {S : Semantics σ ε V} {L : LocalTable} {procs : Procedures} {n : Nat}

/-- The log of a sequence that succeeds is the log of both parts. -/
theorem Eval.log_bind {α β : Type} {x : Eval σ ε α} {f : α → Eval σ ε β} {s s'' : σ} {b : β}
    (h : ((x >>= f) s).2 = .ok (b, s'')) :
    ∃ a s', (f a s').2 = .ok (b, s'') ∧ ((x >>= f) s).1 = (x s).1 ++ (f a s').1 := by
  simp only [bind] at h ⊢
  cases hx : x s with
  | mk log r =>
    rw [hx] at h
    cases r with
    | error e => cases h
    | ok p => exact ⟨p.1, p.2, h, rfl⟩

theorem Eval.mem_operand {α : Type} {k : Nat} {x : Eval σ ε α} {s : σ} :
    k ∈ (Eval.operand k x s).1 := List.mem_cons_self

theorem Eval.mem_bind {α β : Type} {x : Eval σ ε α} {f : α → Eval σ ε β} {s : σ} {k : Nat}
    (h : k ∈ (x s).1) : k ∈ ((x >>= f) s).1 := by
  simp only [bind]
  cases hx : x s with
  | mk log r =>
    rw [hx] at h
    cases r with
    | error e => exact h
    | ok p => exact List.mem_append_left _ h

/-- The numbers of the operands that an assignment to a target always evaluates: the
receiver of a field that has no shared slot, the list and the index. -/
def targetOperands (L : LocalTable) (n : Nat) (operator : String) (valueSize : Nat) :
    Expression → List Nat
  | .field receiver name => if (L.receiverStatic receiver name).isSome then [] else [n + 2]
  | .safeField _ _ | .safeIndex _ _ => [n + 2]
  | .index list _ =>
    if operator = "=" then [n + 2 + valueSize, n + 2 + valueSize + list.size]
    else [n + 2, n + 2 + list.size]
  | _ => []

theorem evalAssignment_operands {target : Expression} {operator : String} {valueSize k : Nat}
    {value : Nat → Eval σ ε V} {s s' : σ} {v : V}
    (h : (evalAssignment S L procs n operator valueSize value target s).2 = .ok (v, s'))
    (hk : k ∈ targetOperands L n operator valueSize target) :
    k ∈ (evalAssignment S L procs n operator valueSize value target s).1 := by
  cases target with
  | field receiver name =>
    cases hstorage : L.receiverStatic receiver name with
    | some storage => simp [targetOperands, hstorage] at hk
    | none =>
      obtain rfl : k = n + 2 := by simpa [targetOperands, hstorage] using hk
      rw [evalAssignment, hstorage]
      exact Eval.mem_bind Eval.mem_operand
  | safeField receiver name =>
    obtain rfl : k = n + 2 := by simpa [targetOperands] using hk
    rw [evalAssignment]
    exact Eval.mem_bind Eval.mem_operand
  | safeIndex list index =>
    obtain rfl : k = n + 2 := by simpa [targetOperands] using hk
    rw [evalAssignment] at h ⊢
    split at h
    · cases h
    · rename_i hop
      rw [if_neg hop]
      exact Eval.mem_bind Eval.mem_operand
  | index list index =>
    rw [evalAssignment] at h ⊢
    by_cases hop : operator = "="
    · rw [if_pos hop] at h ⊢
      simp only [targetOperands, if_pos hop, List.mem_cons, List.not_mem_nil, or_false] at hk
      obtain ⟨w, s₁, h, hlog⟩ := Eval.log_bind h
      rw [hlog]
      refine List.mem_append_right _ ?_
      obtain rfl | rfl := hk
      · exact Eval.mem_bind Eval.mem_operand
      · obtain ⟨u, s₂, h, hlog⟩ := Eval.log_bind h
        rw [hlog]
        exact List.mem_append_right _ (Eval.mem_bind Eval.mem_operand)
    · rw [if_neg hop] at h ⊢
      simp only [targetOperands, if_neg hop, List.mem_cons, List.not_mem_nil, or_false] at hk
      obtain rfl | rfl := hk
      · exact Eval.mem_bind Eval.mem_operand
      · obtain ⟨u, s₂, h, hlog⟩ := Eval.log_bind h
        rw [hlog]
        exact List.mem_append_right _ (Eval.mem_bind Eval.mem_operand)
  | _ => cases hk

/-- Every form of the language, run from any state: the instructions of its code
run in increasing order within their range and leave one value, as the evaluation says. Where
every `||=` has a superinstruction, the evaluation takes the operands in their order, each at
most once, and those of an assignment target exactly once. -/
theorem run_expression {code fragment : Code} {pos : Nat} {e : Expression}
    (hcode : code.length ≤ 65535) (h : emitExpression L procs pos e = .ok fragment)
    (hc : Placed code pos fragment) (stack : List V) (s : σ) :
    Ends S code (pos + fragment.length) single ⟨pos, stack, s⟩ stack (eval S L procs n e s).2 ∧
      (singleUse L e = true → (eval S L procs n e s).1.Pairwise (· < ·) ∧
        (∀ k ∈ (eval S L procs n e s).1, n < k ∧ k < n + e.size) ∧
        ∀ target operator value v s', e = .assignment target operator value →
          (eval S L procs n e s).2 = .ok (v, s') →
          ∀ k ∈ targetOperands L n operator value.size target,
            (eval S L procs n e s).1.count k = 1) := by
  refine ⟨emitExpression_emits hcode e pos n fragment h stack hc s, fun huse => ?_⟩
  have hordered : Ordered S L procs e := eval_within e huse
  obtain ⟨m, hsize, hordered⟩ := hordered
  have hwithin := hordered n s
  refine ⟨hwithin.1, fun k hk => ?_, ?_⟩
  · have := hwithin.2 k hk
    omega
  rintro target operator value v s' rfl hok k hk
  rw [eval] at hok hwithin ⊢
  have hmem := evalAssignment_operands hok hk
  exact List.count_eq_one_of_mem (hwithin.1.imp Nat.ne_of_lt) hmem

/-! ## The order of an index assignment -/

/-- Values are numbers, a call returns 1, and the state holds the procedures called so far. -/
def callTrace : Semantics (List ProcedureId) Unit Nat where
  value instruction _ s :=
    match instruction with
    | .call procedure _ _ => .ok (1, s ++ [procedure])
    | _ => .ok (0, s)
  store _ _ s := .ok s
  truthy v _ := .ok (v ≠ 0)
  isNull v _ := v = 0
  expand _ _ s := .ok (noValues, s)
  count n := n
  readCount v := .ok v
  readCount_count _ _ := rfl
  rejected := ()

def threeProcedures : Procedures
  | "first" => some 1
  | "second" => some 2
  | "third" => some 3
  | _ => none

/-- `first()[second()] = third()` -/
def indexAssignment : Expression :=
  .assignment (.index (.call "first" []) (.call "second" [])) "=" (.call "third" [])

def indexAssignmentCode : Code :=
  [.call 3 0 [], .call 1 0 [], .call 2 0 [], .prepareRhsFirstIndexAssignment, .setListIndexKeep]

/-- The value of an index assignment is evaluated before the list and the index
that stand to its left. -/
theorem run_indexAssignment :
    emitExpression {} threeProcedures 0 indexAssignment = .ok indexAssignmentCode ∧
      Runs callTrace indexAssignmentCode 5 ⟨0, [], []⟩ ⟨5, [0], [3, 1, 2]⟩ ∧
      ¬ [3, 1, 2].Pairwise (· < ·) := by
  refine ⟨rfl, ?_, by decide⟩
  exact .step (by decide) rfl (by decide) <| .step (by decide) rfl (by decide) <|
    .step (by decide) rfl (by decide) <| .step (by decide) rfl (by decide) <|
    .step (by decide) rfl (by decide) <| .refl _

/-- `first()[second()] += third()` -/
def compoundIndexAssignment : Expression :=
  .assignment (.index (.call "first" []) (.call "second" [])) "+=" (.call "third" [])

def compoundIndexAssignmentCode : Code :=
  [.call 1 0 [], .call 2 0 [], .call 3 0 [], .compoundListIndexKeep .add]

/-- A compound assignment takes the operands in the order they are written. -/
theorem run_expression_compoundIndexAssignment :
    Ends callTrace compoundIndexAssignmentCode 4 single ⟨0, [], []⟩ []
        (eval callTrace {} threeProcedures 0 compoundIndexAssignment []).2 ∧
      (eval callTrace {} threeProcedures 0 compoundIndexAssignment []).1 = [2, 3, 4] ∧
      (eval callTrace {} threeProcedures 0 compoundIndexAssignment []).1.Pairwise (· < ·) :=
  have hemit : emitExpression {} threeProcedures 0 compoundIndexAssignment =
      .ok compoundIndexAssignmentCode := rfl
  have hrun := run_expression (S := callTrace) (n := 0) (by decide) hemit (List.prefix_refl _) [] []
  ⟨hrun.1, rfl, (hrun.2 (by decide)).1⟩

end Dream64.Vm
