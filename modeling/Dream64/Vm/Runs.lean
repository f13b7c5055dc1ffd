import Dream64.Vm.Eval

/-!
# Rules for code fragments

`Computes`: where it is placed, a fragment takes one operand stack to another
and computes an evaluation. The rules are those of the single instructions, of
a fragment and the one that goes on with its value (`Computes.bind`), and of
the jumps over a fragment.
-/

namespace Dream64.Vm

variable {σ ε V α β : Type} {S : Semantics σ ε V} {code : Code} {hi m pos : Nat}

@[simp] theorem placed_append {a b : Code} :
    Placed code pos (a ++ b) ↔ Placed code pos a ∧ Placed code (pos + a.length) b := by
  simp only [Placed]
  constructor
  · rintro ⟨t, ht⟩
    have hdrop : code.drop (pos + a.length) = b ++ t := by
      rw [← List.drop_drop, ← ht, List.append_assoc, List.drop_left]
    exact ⟨⟨b ++ t, by rw [← ht, List.append_assoc]⟩, ⟨t, hdrop.symm⟩⟩
  · rintro ⟨⟨s, hs⟩, ⟨t, ht⟩⟩
    have hdrop : code.drop (pos + a.length) = s := by
      rw [← List.drop_drop, ← hs, List.drop_left]
    exact ⟨t, by rw [List.append_assoc, ht, hdrop, hs]⟩

@[simp] theorem placed_cons {i : Instruction} {b : Code} :
    Placed code pos (i :: b) ↔ code[pos]? = some i ∧ Placed code (pos + 1) b := by
  rw [show i :: b = [i] ++ b from rfl, placed_append, List.length_singleton, and_congr_left_iff]
  rintro -
  simp only [Placed]
  rw [← List.head?_drop]
  cases hd : code.drop pos with
  | nil => simp
  | cons x xs => simp [eq_comm]

theorem Runs.trans {c c' c'' : Config σ V} (h : Runs S code hi c c') (h' : Runs S code hi c' c'') :
    Runs S code hi c c'' := by
  induction h with
  | refl => exact h'
  | step hlt hs hpc _ ih => exact .step hlt hs hpc (ih h')

theorem Runs.mono {c c' : Config σ V} (h : Runs S code m c c') (hle : m ≤ hi) :
    Runs S code hi c c' := by
  induction h with
  | refl => exact .refl _
  | step hlt hs hpc _ ih => exact .step (Nat.lt_of_lt_of_le hlt hle) hs hpc ih

theorem Fails.mono {c : Config σ V} {e : ε} (h : Fails S code m c e) (hle : m ≤ hi) :
    Fails S code hi c e := by
  obtain ⟨c', hr, hlt, hs⟩ := h
  exact ⟨c', hr.mono hle, Nat.lt_of_lt_of_le hlt hle, hs⟩

theorem Fails.of_runs {c c' : Config σ V} {e : ε} (h : Runs S code hi c c')
    (h' : Fails S code hi c' e) : Fails S code hi c e := by
  obtain ⟨c'', hr, hlt, hs⟩ := h'
  exact ⟨c'', h.trans hr, hlt, hs⟩

namespace Ends

variable {push : α → List V} {push' : β → List V} {c c' : Config σ V} {base b : List V}

theorem of_runs {r : Except ε (α × σ)} (h : Runs S code hi c c')
    (h' : Ends S code hi push c' base r) : Ends S code hi push c base r := by
  cases r with
  | ok p => exact Runs.trans h h'
  | error e => exact Fails.of_runs h h'

/-- One instruction that does not fail. -/
theorem step {r : Except ε (α × σ)} (hlt : c.pc < hi)
    (hs : Vm.step S code c = some (.ok c')) (hpc : c.pc < c'.pc)
    (h : Ends S code hi push c' base r) : Ends S code hi push c base r :=
  of_runs (.step hlt hs hpc (.refl _)) h

/-- A fragment that computes `x`, followed by one that goes on with its value. -/
theorem bind {x : Eval σ ε α} {f : α → Eval σ ε β} {s : σ} (hmid : m ≤ hi)
    (hx : Ends S code m push c b (x s).2)
    (hf : ∀ a s', (x s).2 = .ok (a, s') →
      Ends S code hi push' ⟨m, push a ++ b, s'⟩ base (f a s').2) :
    Ends S code hi push' c base ((x >>= f) s).2 := by
  simp only [Bind.bind]
  split
  · rename_i log e heq
    rw [heq] at hx
    exact Fails.mono hx hmid
  · rename_i log a s' heq
    rw [heq] at hx
    exact of_runs (Runs.mono hx hmid) (hf a s' (by rw [heq]))

theorem pure {a : α} {s : σ} (hpc : c.pc = hi) (hs : c.state = s) (hst : c.stack = push a ++ base) :
    Ends S code hi push c base ((Pure.pure a : Eval σ ε α) s).2 := by
  obtain ⟨pc, stack, state⟩ := c
  obtain rfl := hpc; obtain rfl := hs; obtain rfl := hst
  exact .refl _

end Ends

/-- Reads one value off the stack. -/
abbrev single (v : V) : List V := [v]

abbrev noValue (_ : Unit) : List V := []

theorem popOperands_append (operands base : List V) :
    popOperands operands.length (operands.reverse ++ base) = some (operands, base) := by
  simp [popOperands]

section Steps

variable {instruction : Instruction} {operands base stack : List V} {s : σ} {k : Nat}
  {push : α → List V} {r : Except ε (α × σ)} {v : V}

theorem step_shaped {shape : StackShape} {c : Config σ V} (hcode : code[c.pc]? = some instruction)
    (hshape : instruction.shape = some shape) :
    step S code c = stepShaped S instruction c shape := by
  simp only [step, hcode, Option.bind_some, hshape]

theorem step_control {c : Config σ V} (hcode : code[c.pc]? = some instruction)
    (hshape : instruction.shape = none) : step S code c = stepControl S instruction c := by
  simp only [step, hcode, Option.bind_some, hshape]

theorem stepValue_append (hk : operands.length = k) :
    stepValue S instruction k ⟨pos, operands.reverse ++ base, s⟩ =
      some ((S.value instruction operands s).map fun p => ⟨pos + 1, p.1 :: base, p.2⟩) := by
  subst hk
  simp only [stepValue, popOperands_append, Option.map_some]

/-- A fragment that ends in a jump over the code after it. -/
theorem Ends.jumpAfter {c : Config σ V} (h : Ends S code m push c base r)
    (hcode : code[m]? = some (.jump hi)) (hlt : m < hi) : Ends S code hi push c base r := by
  cases r with
  | ok p =>
    have hjump : Ends S code hi push ⟨m, push p.1 ++ base, p.2⟩ base (.ok p) :=
      .step hlt (by rw [step_control hcode rfl]; rfl) hlt (.refl _)
    exact Runs.trans (Runs.mono h (Nat.le_of_lt hlt)) hjump
  | error e => exact Fails.mono h (Nat.le_of_lt hlt)

/-- A conditional jump, as the test that the evaluation makes. -/
theorem Ends.branch {target : Nat} {f : Bool → Eval σ ε α}
    (hcode : code[pos]? = some (.jumpIfFalse target)) (hlt : pos < hi) (htarget : pos < target)
    (h : ∀ b, Ends S code hi push ⟨if b then pos + 1 else target, stack, s⟩ base (f b s).2) :
    Ends S code hi push ⟨pos, v :: stack, s⟩ base ((evalTruthy S v >>= f) s).2 := by
  have hstep : Vm.step S code ⟨pos, v :: stack, s⟩ =
      some ((S.truthy v s).map fun b => ⟨if b then pos + 1 else target, stack, s⟩) := by
    rw [step_control hcode rfl]; rfl
  simp only [Bind.bind, evalTruthy, Eval.lift]
  cases ht : S.truthy v s with
  | error e => exact ⟨_, .refl _, hlt, by rw [hstep, ht]; rfl⟩
  | ok b =>
    rw [ht] at hstep
    refine .step hlt hstep ?_ (h b)
    cases b
    · exact htarget
    · exact Nat.lt_succ_self _

end Steps

/-- Where it is placed at `pos`, the fragment takes `stack` to the value of `x` over `base`. -/
def Computes (S : Semantics σ ε V) (code : Code) (pos : Nat) (fragment : Code) (stack base : List V)
    (push : α → List V) (x : Eval σ ε α) : Prop :=
  Placed code pos fragment → ∀ s,
    Ends S code (pos + fragment.length) push ⟨pos, stack, s⟩ base (x s).2

namespace Computes

variable {a c : Code} {stack stack' base b operands : List V} {push : α → List V}
  {push' : β → List V} {x : Eval σ ε α} {f : α → Eval σ ε β} {instruction : Instruction}
  {k n target : Nat} {v w u : V}

theorem pure {v : α} (h : stack = push v ++ base) :
    Computes S code pos [] stack base push (Pure.pure v) :=
  fun _ _ => .pure rfl rfl h

/-- A fragment, and one that goes on with its value. -/
theorem bindOk (hx : Computes S code pos a stack b push x)
    (hf : ∀ v s s', (x s).2 = .ok (v, s') →
      Computes S code (pos + a.length) c (push v ++ b) base push' (f v)) :
    Computes S code pos (a ++ c) stack base push' (x >>= f) := by
  intro hc s
  rw [placed_append] at hc
  rw [List.length_append, ← Nat.add_assoc]
  exact .bind (Nat.le_add_right _ _) (hx hc.1 s) fun v s' h => hf v s s' h hc.2 s'

theorem bind (hx : Computes S code pos a stack b push x)
    (hf : ∀ v, Computes S code (pos + a.length) c (push v ++ b) base push' (f v)) :
    Computes S code pos (a ++ c) stack base push' (x >>= f) :=
  hx.bindOk fun v _ _ _ => hf v

theorem operand {x : Eval σ ε V} {f : V → Eval σ ε β} (hx : Computes S code pos a stack b single x)
    (hf : ∀ v, Computes S code (pos + a.length) c (v :: b) base push' (f v)) :
    Computes S code pos (a ++ c) stack base push' (.operand n x >>= f) :=
  bind (x := .operand n x) hx hf

theorem cons (hx : Computes S code pos [instruction] stack b push x)
    (hf : ∀ v, Computes S code (pos + 1) c (push v ++ b) base push' (f v)) :
    Computes S code pos (instruction :: c) stack base push' (x >>= f) :=
  bind hx hf

/-- A fragment of one instruction, from what its step does. -/
theorem of_step (h : code[pos]? = some instruction → ∀ s, Vm.step S code ⟨pos, stack, s⟩ =
      some ((x s).2.map fun p => ⟨pos + 1, push p.1 ++ base, p.2⟩)) :
    Computes S code pos [instruction] stack base push x := by
  intro hc s
  have hstep := h (placed_cons.1 hc).1 s
  cases hx : (x s).2 with
  | ok p =>
    rw [hx] at hstep
    exact Ends.step (Nat.lt_succ_self _) hstep (Nat.lt_succ_self _) (.refl _)
  | error e =>
    rw [hx] at hstep
    exact ⟨_, .refl _, Nat.lt_succ_self _, hstep⟩

/-- An instruction that pushes a value for its operands. -/
theorem value (hshape : instruction.shape = some (.value k)) (hk : operands.length = k)
    (hstack : stack = operands.reverse ++ base) :
    Computes S code pos [instruction] stack base single (evalValue S instruction operands) := by
  subst hstack
  refine of_step fun hcode s => ?_
  rw [step_shaped hcode hshape, stepShaped, stepValue_append hk]
  rfl

/-- An instruction that pushes nothing. -/
theorem store (hshape : instruction.shape = some (.store k)) (hk : operands.length = k)
    (hstack : stack = operands.reverse ++ base) :
    Computes S code pos [instruction] stack base noValue (evalStore S instruction operands) := by
  subst hstack hk
  refine of_step fun hcode s => ?_
  rw [step_shaped hcode hshape]
  simp only [stepShaped, popOperands_append, Option.map_some, evalStore, Eval.lift]
  cases S.store instruction operands s <;> rfl

/-- A call-like instruction whose argument count is static. -/
theorem call {encoded : Nat} (hshape : instruction.shape = some (.call k encoded))
    (hne : encoded ≠ expandedArgumentCount) (hk : operands.length = k + encoded)
    (hstack : stack = operands.reverse ++ base) :
    Computes S code pos [instruction] stack base single (evalValue S instruction operands) := by
  subst hstack
  refine of_step fun hcode s => ?_
  rw [step_shaped hcode hshape, stepShaped, if_neg hne, stepValue_append hk]
  rfl

/-- A call-like instruction on receivers and an expanded argument vector. -/
theorem expandedCall {r values : List V}
    (hshape : instruction.shape = some (.call k expandedArgumentCount))
    (hk : r.length = k) (hlen : values.length ≤ 65535)
    (hstack : stack = S.count values.length :: (values.reverse ++ (r.reverse ++ base))) :
    Computes S code pos [instruction] stack base single
      (evalValue S instruction (r ++ values)) := by
  subst hstack
  refine of_step fun hcode s => ?_
  rw [step_shaped hcode hshape, stepShaped, if_pos rfl]
  simp only [S.readCount_count _ hlen]
  rw [← List.append_assoc, ← List.reverse_append,
    stepValue_append (by rw [List.length_append, hk])]
  rfl

/-- The expansion of the list expansions in an argument vector. -/
theorem expand {names : List (Option String)} {indices : List Nat} (hk : operands.length = k)
    (hstack : stack = operands.reverse ++ base) :
    Computes S code pos [.expandArgumentLists k names indices] stack base
      (fun values => S.count values.1.length :: values.1.reverse)
      (.lift (S.expand (.expandArgumentLists k names indices) operands)) := by
  subst hstack hk
  refine of_step fun hcode s => ?_
  rw [step_control hcode rfl]
  simp only [stepControl, popOperands_append, Option.map_some]
  rfl

/-- An instruction that only rearranges the stack. -/
theorem first (hs : code[pos]? = some instruction → ∀ s,
      Vm.step S code ⟨pos, stack, s⟩ = some (.ok ⟨pos + 1, stack', s⟩))
    (h : Computes S code (pos + 1) c stack' base push x) :
    Computes S code pos (instruction :: c) stack base push x := by
  intro hc s
  rw [placed_cons] at hc
  have hend : pos + (instruction :: c).length = pos + 1 + c.length := by
    rw [List.length_cons]
    omega
  rw [hend]
  exact .step (by simp only; omega) (hs hc.1 s) (Nat.lt_succ_self pos) (h hc.2 s)

theorem duplicate (h : Computes S code (pos + 1) c (v :: v :: stack) base push x) :
    Computes S code pos (.duplicate :: c) (v :: stack) base push x :=
  first (fun hcode s => by rw [step_control hcode rfl]; rfl) h

theorem pop (h : Computes S code (pos + 1) c stack base push x) :
    Computes S code pos (.pop :: c) (v :: stack) base push x :=
  first (fun hcode s => by rw [step_control hcode rfl]; rfl) h

theorem rotate (h : Computes S code (pos + 1) c (v :: u :: w :: stack) base push x) :
    Computes S code pos (.prepareRhsFirstIndexAssignment :: c) (u :: w :: v :: stack) base push x :=
  first (fun hcode s => by rw [step_control hcode rfl]; rfl) h

/-- The arms of a test, the first one with a jump over the second. -/
theorem branch {stop : Nat} {f : Bool → Eval σ ε α} (htarget : target = pos + 1 + a.length + 1)
    (hstop : stop = target + c.length) (htrue : Computes S code (pos + 1) a stack base push (f true))
    (hfalse : Computes S code target c stack base push (f false)) :
    Computes S code pos (.jumpIfFalse target :: (a ++ .jump stop :: c)) (v :: stack) base push
      (evalTruthy S v >>= f) := by
  intro hc s
  simp only [placed_cons, placed_append] at hc
  obtain ⟨hbranch, ha, hjump, hc⟩ := hc
  have hend : pos + (Instruction.jumpIfFalse target :: (a ++ .jump stop :: c)).length = stop := by
    simp only [List.length_cons, List.length_append]
    omega
  rw [hend]
  refine .branch hbranch (by omega) (by omega) fun b => ?_
  cases b with
  | true => exact .jumpAfter (htrue ha s) hjump (by omega)
  | false =>
    have hends := hfalse (htarget ▸ hc) s
    rwa [← hstop] at hends

/-- An arm that is skipped when the test fails. -/
theorem skip {f : Bool → Eval σ ε α} {result : α} (htarget : target = pos + 1 + a.length)
    (htrue : Computes S code (pos + 1) a stack base push (f true))
    (hfalse : f false = Pure.pure result) (hstack : stack = push result ++ base) :
    Computes S code pos (.jumpIfFalse target :: a) (v :: stack) base push
      (evalTruthy S v >>= f) := by
  intro hc s
  rw [placed_cons] at hc
  have hend : pos + (Instruction.jumpIfFalse target :: a).length = target := by
    rw [List.length_cons]
    omega
  rw [hend]
  refine .branch hc.1 (by omega) (by omega) fun b => ?_
  cases b with
  | true =>
    have hends := htrue hc.2 s
    rwa [← htarget] at hends
  | false =>
    rw [hfalse]
    exact .pure rfl rfl hstack

/-- The guard on a null receiver, which stays on the stack as the result. -/
theorem nullGuard {x : Eval σ ε V} (htarget : target = pos + 2 + a.length)
    (h : Computes S code (pos + 2) a (v :: stack) stack single x) :
    Computes S code pos (.duplicate :: .jumpIfNull target :: a) (v :: stack) stack single
      (unlessNull S v x) := by
  refine duplicate fun hc s => ?_
  rw [placed_cons] at hc
  have hend : pos + 1 + (Instruction.jumpIfNull target :: a).length = target := by
    rw [List.length_cons]
    omega
  rw [hend]
  have hstep : Vm.step S code ⟨pos + 1, v :: v :: stack, s⟩ =
      some (.ok ⟨if S.isNull v s then target else pos + 2, v :: stack, s⟩) := by
    rw [step_control hc.1 rfl]; rfl
  have hlt : pos + 1 < target := by omega
  simp only [unlessNull]
  split
  · rename_i hnull
    rw [if_pos hnull] at hstep
    exact .step hlt hstep hlt (.refl _)
  · rename_i hnull
    rw [if_neg hnull] at hstep
    have hends := h hc.2 s
    rw [← htarget] at hends
    exact .step hlt hstep (Nat.lt_succ_self _) hends

end Computes

end Dream64.Vm
