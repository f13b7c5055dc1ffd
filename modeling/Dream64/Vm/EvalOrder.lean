import Dream64.Vm.EmitOperands

/-!
# The order of evaluation

`Eval.Within lo count`: an evaluation logs numbers from the `count` numbers at
`lo`, each one at most once and in increasing order. Operands in sequence take
consecutive ranges (`Within.bind`), so an expression evaluates its operands
from left to right, each at most once (`eval_within`), unless one of its nodes
is a `target ||= value` that evaluates its target again (`singleUse`).
-/

namespace Dream64.Vm

/-- Every log of `x` increases strictly within the `count` numbers from `lo`. -/
def Eval.Within {σ ε α : Type} (lo count : Nat) (x : Eval σ ε α) : Prop :=
  ∀ s, (x s).1.Pairwise (· < ·) ∧ ∀ k ∈ (x s).1, lo ≤ k ∧ k < lo + count

namespace Eval.Within

variable {σ ε α β : Type} {lo lo' m m' n : Nat} {x : Eval σ ε α} {f : α → Eval σ ε β}

theorem mono (h : x.Within lo m) (hlo : lo' ≤ lo) (hhi : lo + m ≤ lo' + m') : x.Within lo' m' :=
  fun s => ⟨(h s).1, fun k hk =>
    ⟨Nat.le_trans hlo ((h s).2 k hk).1, Nat.lt_of_lt_of_le ((h s).2 k hk).2 hhi⟩⟩

theorem lift {f : σ → Except ε (α × σ)} : (Eval.lift f).Within lo m :=
  fun _ => ⟨.nil, fun _ hk => absurd hk (List.not_mem_nil)⟩

theorem pure {a : α} : (Pure.pure a : Eval σ ε α).Within lo m :=
  fun _ => ⟨.nil, fun _ hk => absurd hk (List.not_mem_nil)⟩

/-- A computation, and one whose numbers follow. -/
theorem bind (hx : x.Within lo m) (hf : ∀ a, (f a).Within (lo + m) m') :
    (x >>= f).Within lo (m + m') := by
  intro s
  obtain ⟨hsorted, hrange⟩ := hx s
  simp only [Bind.bind]
  split
  · rename_i log e heq
    rw [heq] at hsorted hrange
    exact ⟨hsorted, fun k hk => ⟨(hrange k hk).1, by have := (hrange k hk).2; omega⟩⟩
  · rename_i log a s' heq
    rw [heq] at hsorted hrange
    obtain ⟨hsorted', hrange'⟩ := hf a s'
    refine ⟨List.pairwise_append.2 ⟨hsorted, hsorted', fun k hk k' hk' => ?_⟩, fun k hk => ?_⟩
    · exact Nat.lt_of_lt_of_le (hrange k hk).2 (hrange' k' hk').1
    · obtain hk | hk := List.mem_append.1 hk
      · exact ⟨(hrange k hk).1, by have := (hrange k hk).2; omega⟩
      · have := hrange' k hk
        omega

/-- Operations of the runtime on the value of a computation. -/
theorem «then» (hx : x.Within lo m) (hf : ∀ a, (f a).Within (lo + m) 0) :
    (x >>= f).Within lo m :=
  .bind hx hf

/-- Operations of the runtime before a computation. -/
theorem after (hx : x.Within lo 0) (hf : ∀ a, (f a).Within lo m) : (x >>= f).Within lo m := by
  have hbind := bind hx hf
  rwa [Nat.zero_add] at hbind

theorem operand (hx : x.Within (n + 1) m) : (Eval.operand n x).Within n (m + 1) := by
  intro s
  obtain ⟨hsorted, hrange⟩ := hx s
  refine ⟨List.pairwise_cons.2 ⟨fun k hk => (hrange k hk).1, hsorted⟩, fun k hk => ?_⟩
  obtain rfl | hk := List.mem_cons.1 hk
  · omega
  · have := hrange k hk
    omega

theorem ite {c : Prop} [Decidable c] {y : Eval σ ε α} (hx : x.Within lo m)
    (hy : y.Within lo m) : (if c then x else y).Within lo m := by
  split
  · exact hx
  · exact hy

end Eval.Within

/-- Whether `target ||= list()` is one operation on the target. -/
def fusesTarget (L : LocalTable) : Expression → Bool
  | .local _ | .index _ _ => true
  | .globalField name | .field _ name => name.name ≠ "vars"
  | .initial (.field receiver name) =>
    name.name ≠ "vars" ∧ (L.receiverStatic receiver name).isSome
  | _ => false

mutual

/-- Whether no node of the tree is a `target ||= value` that evaluates its
target a second time. -/
def singleUse (L : LocalTable) : Expression → Bool
  | .logicalOrAssignment target value =>
    isEmptyList value && fusesTarget L target && singleUse L target && singleUse L value
  | .modifiedTypePath _ overrides => singleUseOverrides L overrides
  | .new typePath arguments overrides =>
    singleUseOption L typePath && singleUseAll L arguments && singleUseOverrides L overrides
  | .regex arguments | .mutableAppearance arguments | .matrix arguments | .vector arguments
  | .replaceText arguments _ _ | .copyText arguments _ | .standardBuiltin _ arguments
  | .nativeSrcMethod _ arguments | .block arguments | .rand arguments | .roll arguments
  | .round arguments | .range arguments | .typesOf arguments | .typePredicate _ arguments
  | .call _ arguments | .locate arguments => singleUseAll L arguments
  | .externalCall library function arguments =>
    singleUse L library && singleUse L function && singleUseAll L arguments
  | .animate arguments | .filter arguments => singleUseNamed L arguments
  | .crash e | .sleep e | .initial e | .prob e | .length e | .ref e | .field e _ | .safeField e _
  | .namedArgument _ e | .argList e | .unary _ e | .mutation e _ _ => singleUse L e
  | .pick entries => singleUsePick L entries
  | .getStep a b | .getStepTowards a b | .hasCall a b | .index a b | .safeIndex a b
  | .binary _ a b | .assignment a _ b => singleUse L a && singleUse L b
  | .locateIn arguments container => singleUseAll L arguments && singleUse L container
  | .currentCall arguments | .parentCall arguments => singleUseArguments L arguments
  | .dynamicCall target procedure arguments _ | .safeDynamicCall target procedure arguments =>
    singleUse L target && singleUse L procedure && singleUseAll L arguments
  | .list entries | .associativeList entries => singleUseEntries L entries
  | .conditional a b c => singleUse L a && singleUse L b && singleUse L c
  | .null | .number _ | .text _ | .file _ | .typePath _ | .local _ | .src | .usr | .caller
  | .world | .globalNamespace | .globalField _ | .result => true

def singleUseAll (L : LocalTable) : List Expression → Bool
  | [] => true
  | e :: rest => singleUse L e && singleUseAll L rest

def singleUseOption (L : LocalTable) : Option Expression → Bool
  | none => true
  | some e => singleUse L e

def singleUseArguments (L : LocalTable) : Option (List Expression) → Bool
  | none => true
  | some arguments => singleUseAll L arguments

def singleUseOverrides (L : LocalTable) : List (FieldName × Expression) → Bool
  | [] => true
  | (_, e) :: rest => singleUse L e && singleUseOverrides L rest

def singleUseNamed (L : LocalTable) : List (Option String × Expression) → Bool
  | [] => true
  | (_, e) :: rest => singleUse L e && singleUseNamed L rest

def singleUsePick (L : LocalTable) : List (Option Expression × Expression) → Bool
  | [] => true
  | (weight, e) :: rest => singleUseOption L weight && singleUse L e && singleUsePick L rest

def singleUseEntries (L : LocalTable) : List ListExpressionEntry → Bool
  | [] => true
  | .positional value :: rest => singleUse L value && singleUseEntries L rest
  | .associative key value :: rest =>
    singleUse L key && singleUse L value && singleUseEntries L rest

end

attribute [simp] singleUse singleUseAll singleUseOption singleUseArguments singleUseOverrides
  singleUseNamed singleUsePick singleUseEntries

variable {σ ε V : Type} {S : Semantics σ ε V} {L : LocalTable} {procs : Procedures} {lo m n : Nat}
  {v : V} {instruction : Instruction} {operator : String} {arguments : List Expression}

theorem evalValue_within {operands : List V} : (evalValue S instruction operands).Within lo m :=
  .lift

theorem evalStore_within {operands : List V} : (evalStore S instruction operands).Within lo m :=
  .lift

theorem rejected_within {α : Type} : (rejected S : Eval σ ε α).Within lo m := .lift

theorem evalTruthy_within : (evalTruthy S v).Within lo m := .lift

theorem unlessNull_within {x : Eval σ ε V} (hx : x.Within lo m) :
    (unlessNull S v x).Within lo m := by
  intro s
  simp only [unlessNull]
  split
  · exact ⟨.nil, fun _ hk => absurd hk List.not_mem_nil⟩
  · exact hx s

theorem evalCall_within {instruction : Nat → Instruction} {receivers values : List V} :
    (evalCall S instruction receivers arguments values).Within lo 0 := by
  unfold evalCall
  split
  · exact evalValue_within
  · exact .then .lift fun _ => evalValue_within

theorem evalName_within {name : String} : (evalName S L name).Within lo 0 := by
  unfold evalName
  split
  · exact evalValue_within
  · exact .then evalValue_within fun _ => evalValue_within
  · exact evalValue_within
  · exact rejected_within

theorem evalCombine_within {old value : V} : (evalCombine S operator old value).Within lo m := by
  unfold evalCombine
  split
  · exact evalValue_within
  · exact rejected_within

variable {value : Eval σ ε V}

theorem evalStoreOf_within {load : Eval σ ε V} {storeIt : V → Eval σ ε V}
    (hload : load.Within lo 0) (hvalue : value.Within lo m)
    (hstore : ∀ v, (storeIt v).Within (lo + m) 0) :
    (evalStoreOf S operator load value storeIt).Within lo m := by
  unfold evalStoreOf
  split
  · exact .then hvalue hstore
  · exact .after hload fun _ => .then hvalue fun _ => .then evalCombine_within hstore

theorem evalKeep_within : (evalKeep S instruction v).Within lo 0 :=
  .then evalStore_within fun _ => .pure

theorem evalGlobalAssignment_within {storage : FieldName} (hvalue : value.Within lo m) :
    (evalGlobalAssignment S storage operator value).Within lo m :=
  evalStoreOf_within evalValue_within hvalue fun _ => evalKeep_within

theorem evalFieldAssignment_within {receiver : V} {field : FieldName} (hvalue : value.Within lo m) :
    (evalFieldAssignment S receiver field operator value).Within lo m :=
  evalStoreOf_within evalValue_within hvalue fun _ => evalValue_within

theorem evalUnary_within : (evalUnary S operator v).Within lo 0 := by
  unfold evalUnary
  split
  · exact .pure
  · exact evalValue_within
  · exact evalValue_within
  · exact evalValue_within
  · exact evalValue_within
  · exact .then evalValue_within fun _ => evalValue_within
  · exact rejected_within

variable (S L procs) in
/-- The operands of `e` are evaluated in order, each at most once. -/
def Ordered (e : Expression) : Prop :=
  ∃ m, e.size = m + 1 ∧ ∀ n, (eval S L procs n e).Within (n + 1) m

theorem Ordered.operand {e : Expression} (h : Ordered S L procs e) (n : Nat) :
    (Eval.operand n (eval S L procs n e)).Within n e.size := by
  obtain ⟨m, hm, h⟩ := h
  rw [hm]
  exact .operand (h n)

/-! ## Operand lists -/

theorem evalAll_within (hall : ∀ e ∈ arguments, Ordered S L procs e) :
    (evalAll S L procs n arguments).Within n (sizeAll arguments) := by
  induction arguments generalizing n with
  | nil => exact .pure
  | cons e rest ih =>
    simp only [List.forall_mem_cons] at hall
    exact .bind (hall.1.operand n) fun v => .then (ih hall.2) fun _ => .pure

variable {overrides : List (FieldName × Expression)}

theorem evalOverrideValues_within (hall : ∀ p ∈ overrides, Ordered S L procs p.2) :
    (evalOverrideValues S L procs n overrides).Within n (sizeOverrides overrides) := by
  induction overrides generalizing n with
  | nil => exact .pure
  | cons p rest ih =>
    simp only [List.forall_mem_cons] at hall
    exact .bind (hall.1.operand n) fun v => .then (ih hall.2) fun _ => .pure

theorem evalOverrideStores_within {datum : V} (hall : ∀ p ∈ overrides, Ordered S L procs p.2) :
    (evalOverrideStores S L procs n datum overrides).Within n (sizeOverrides overrides) := by
  induction overrides generalizing n with
  | nil => exact .pure
  | cons p rest ih =>
    simp only [List.forall_mem_cons] at hall
    exact .bind (hall.1.operand n) fun v => .after evalStore_within fun _ => ih hall.2

theorem evalNewList_within (hall : ∀ e ∈ arguments, Ordered S L procs e) :
    (evalNewList S L procs n arguments).Within n (sizeAll arguments) := by
  induction arguments generalizing n with
  | nil => exact .pure
  | cons e rest ih =>
    simp only [List.forall_mem_cons] at hall
    refine .bind (hall.1.operand n) fun v => .after evalValue_within fun _ => ?_
    exact .then (ih hall.2) fun _ => .pure

theorem evalNamedArguments_within {arguments : List (Option String × Expression)}
    (hall : ∀ p ∈ arguments, Ordered S L procs p.2) :
    (evalNamedArguments S L procs n arguments).Within n (sizeNamed arguments) := by
  induction arguments generalizing n with
  | nil => exact .pure
  | cons p rest ih =>
    simp only [List.forall_mem_cons] at hall
    exact .bind (hall.1.operand n) fun v => .then (ih hall.2) fun _ => .pure

theorem evalPickEntries_within {entries : List (Option Expression × Expression)}
    (hweight : ∀ p ∈ entries, ∀ w, p.1 = some w → Ordered S L procs w)
    (hall : ∀ p ∈ entries, Ordered S L procs p.2) :
    (evalPickEntries S L procs n entries).Within n (sizePick entries) := by
  induction entries generalizing n with
  | nil => exact .pure
  | cons p rest ih =>
    obtain ⟨weight, candidate⟩ := p
    simp only [List.forall_mem_cons] at hall hweight
    cases weight with
    | none =>
      rw [sizePick, sizeOption, Nat.zero_add]
      exact .bind (hall.1.operand n) fun v => .then (ih hweight.2 hall.2) fun _ => .pure
    | some weight =>
      rw [sizePick, sizeOption, Nat.add_assoc]
      refine .bind ((hweight.1 _ rfl).operand n) fun w => .bind (hall.1.operand _) fun v => ?_
      exact .then (ih hweight.2 hall.2) fun _ => .pure

theorem evalEntries_within {entries : List ListExpressionEntry}
    (hall : ∀ entry ∈ entries, ∀ e ∈ entry.operands, Ordered S L procs e) :
    (evalEntries S L procs n entries).Within n (sizeEntries entries) := by
  induction entries generalizing n with
  | nil => exact .pure
  | cons entry rest ih =>
    simp only [List.forall_mem_cons] at hall
    cases entry with
    | positional value =>
      simp only [ListExpressionEntry.operands, List.forall_mem_cons] at hall
      exact .bind (hall.1.1.operand n) fun v => .then (ih hall.2) fun _ => .pure
    | associative key value =>
      simp only [ListExpressionEntry.operands, List.forall_mem_cons] at hall
      rw [evalEntries, sizeEntries, Nat.add_assoc]
      refine .bind (m := key.size) ?_ fun k => ?_
      · split
        · exact evalValue_within
        · exact hall.1.1.operand n
      exact .bind (hall.1.2.1.operand _) fun v => .then (ih hall.2) fun _ => .pure

/-! ## Targets -/

section Targets

variable {target : Expression} {valueSize : Nat} {value : Nat → Eval σ ε V}
  (hsub : ∀ e, sizeOf e < sizeOf target → singleUse L e = true → Ordered S L procs e)
  (huse : singleUse L target = true)

include hsub huse

theorem evalLogicalOrEmptyList_within (hfuses : fusesTarget L target = true) :
    ∃ x, evalLogicalOrEmptyList S L procs n target = some x ∧
      x.Within (n + 1) target.size := by
  cases target with
  | «local» name =>
    rw [evalLogicalOrEmptyList]
    split
    · exact ⟨_, rfl, evalValue_within⟩
    · exact ⟨_, rfl, .then evalValue_within fun _ => evalValue_within⟩
    · exact ⟨_, rfl, evalValue_within⟩
    · exact ⟨_, rfl, rejected_within⟩
  | globalField name =>
    rw [evalLogicalOrEmptyList, if_neg (by simpa [fusesTarget] using hfuses)]
    exact ⟨_, rfl, evalValue_within⟩
  | field receiver name =>
    rw [evalLogicalOrEmptyList, if_neg (by simpa [fusesTarget] using hfuses)]
    split
    · exact ⟨_, rfl, evalValue_within⟩
    · have hreceiver := (hsub receiver (by simp; omega) huse).operand (n + 2)
      exact ⟨_, rfl, .then (hreceiver.mono (by omega) (by simp only [Expression.size]; omega))
        fun _ => evalValue_within⟩
  | initial reference =>
    cases reference with
    | field receiver name =>
      simp only [fusesTarget, decide_eq_true_eq] at hfuses
      rw [evalLogicalOrEmptyList, if_neg hfuses.1]
      obtain ⟨storage, hstorage⟩ := Option.isSome_iff_exists.1 hfuses.2
      rw [hstorage]
      exact ⟨_, rfl, evalValue_within⟩
    | _ => cases hfuses
  | index list index =>
    simp only [singleUse, Bool.and_eq_true] at huse
    have hindex := (hsub index (by simp) huse.2).operand
    exact ⟨_, rfl, .mono (.bind ((hsub list (by simp; omega) huse.1).operand (n + 2)) fun v =>
      .then (hindex _) fun _ => evalValue_within) (by omega) (by simp only [Expression.size]; omega)⟩
  | _ => cases hfuses

theorem evalMutation_within {delta : Int} {isPrefix : Bool} :
    (evalMutation S L procs n delta isPrefix target).Within (n + 1) target.size := by
  have hreceiver : ∀ receiver, sizeOf receiver < sizeOf target → singleUse L receiver = true →
      receiver.size + 1 ≤ target.size →
      (Eval.operand (n + 2) (eval S L procs (n + 2) receiver)).Within (n + 1) target.size :=
    fun receiver hlt huse hsize =>
      .mono ((hsub receiver hlt huse).operand (n + 2)) (by omega) (by omega)
  cases target with
  | «local» name =>
    rw [evalMutation]
    split
    · exact evalValue_within
    · exact .then evalValue_within fun _ => evalValue_within
    · exact evalValue_within
    · exact rejected_within
  | field receiver name =>
    rw [evalMutation]
    split
    · exact evalValue_within
    · exact .then (hreceiver receiver (by simp; omega) huse (Nat.le_refl _))
        fun _ => evalValue_within
  | safeField receiver name =>
    rw [evalMutation]
    split
    · exact evalValue_within
    · exact .then (hreceiver receiver (by simp; omega) huse (Nat.le_refl _))
        fun _ => unlessNull_within evalValue_within
  | initial reference =>
    rw [evalMutation]
    split
    · exact evalValue_within
    · exact rejected_within
  | index list index =>
    simp only [singleUse, Bool.and_eq_true] at huse
    have hindex := (hsub index (by simp) huse.2).operand
    exact .mono (.bind ((hsub list (by simp; omega) huse.1).operand (n + 2)) fun v =>
      .then (hindex _) fun _ => evalValue_within) (by omega) (by simp only [Expression.size]; omega)
  | _ => exact .lift

theorem evalAssignment_within (hv : ∀ k, (value k).Within k valueSize) :
    (evalAssignment S L procs n operator valueSize value target).Within (n + 1)
      (target.size + valueSize) := by
  have hvalue : ∀ k, n + 1 ≤ k → k ≤ n + 1 + target.size →
      (value k).Within (n + 1) (target.size + valueSize) :=
    fun k hlo hhi => (hv k).mono hlo (by omega)
  cases target with
  | result =>
    exact evalStoreOf_within evalValue_within (hvalue _ (by omega) (Nat.le_refl _))
      fun _ => evalKeep_within
  | usr | src =>
    rw [evalAssignment]
    split
    · exact rejected_within
    · exact .then (hvalue _ (by omega) (Nat.le_refl _)) fun _ => evalKeep_within
  | «local» name =>
    have hlocal := hvalue (n + 2) (by omega) (Nat.le_refl _)
    rw [evalAssignment]
    split
    · exact evalStoreOf_within evalValue_within hlocal fun _ => evalKeep_within
    · exact .after evalValue_within fun _ => evalFieldAssignment_within hlocal
    · exact evalGlobalAssignment_within hlocal
    · exact rejected_within
  | globalField name =>
    exact evalGlobalAssignment_within (hvalue _ (by omega) (Nat.le_refl _))
  | field receiver name =>
    rw [evalAssignment]
    split
    · exact evalGlobalAssignment_within
        (hvalue _ (by omega) (by simp only [Expression.size]; omega))
    · exact .mono (.bind ((hsub receiver (by simp; omega) huse).operand (n + 2))
        fun v => evalFieldAssignment_within (hv _)) (by omega) (by simp only [Expression.size]; omega)
  | initial reference =>
    rw [evalAssignment]
    split
    · exact evalGlobalAssignment_within
        (hvalue _ (by omega) (by simp only [Expression.size]; omega))
    · exact rejected_within
  | safeField receiver name =>
    exact .mono (.bind ((hsub receiver (by simp; omega) huse).operand (n + 2))
      fun v => unlessNull_within (evalFieldAssignment_within (hv _)))
      (by omega) (by simp only [Expression.size]; omega)
  | index list index =>
    simp only [singleUse, Bool.and_eq_true] at huse
    have hlist := (hsub list (by simp; omega) huse.1).operand
    have hindex := (hsub index (by simp) huse.2).operand
    rw [evalAssignment]
    split
    · -- the value is evaluated first
      have hrest : ∀ v, Eval.Within (n + 1 + (valueSize + 1)) (list.size + index.size) (do
          let first ← .operand (n + 2 + valueSize) (eval S L procs (n + 2 + valueSize) list)
          let second ← .operand (n + 2 + valueSize + list.size)
            (eval S L procs (n + 2 + valueSize + list.size) index)
          evalValue S .setListIndexKeep [first, second, v]) := fun v => by
        rw [show n + 1 + (valueSize + 1) = n + 2 + valueSize by omega]
        exact .bind (hlist _) fun w => .then (hindex _) fun _ => evalValue_within
      have hfirst : (value (n + 1)).Within (n + 1) (valueSize + 1) :=
        (hv _).mono (Nat.le_refl _) (by omega)
      exact .mono (.bind hfirst hrest) (Nat.le_refl _) (by simp only [Expression.size]; omega)
    · refine .mono (.bind (hlist (n + 2)) fun w => .bind (hindex _) fun u =>
        .then (hv _) fun v => ?_) (by omega) (by simp only [Expression.size]; omega)
      split
      · exact evalValue_within
      · exact rejected_within
  | safeIndex list index =>
    simp only [singleUse, Bool.and_eq_true] at huse
    rw [evalAssignment]
    split
    · exact rejected_within
    · exact .mono (.bind ((hsub list (by simp; omega) huse.1).operand (n + 2)) fun w =>
        unlessNull_within (.bind ((hsub index (by simp) huse.2).operand _) fun u =>
          .then (hv _) fun _ => evalValue_within)) (by omega) (by simp only [Expression.size]; omega)
  | _ => exact .lift

end Targets

/-! ## Forms -/

section Forms

variable {e a b : Expression}

theorem ordered_value (heval : ∀ n, eval S L procs n e = evalValue S instruction [])
    (hsize : e.size = 1) : Ordered S L procs e :=
  ⟨0, hsize, fun n => by rw [heval]; exact evalValue_within⟩

theorem ordered_value1 (ha : Ordered S L procs a) (heval : ∀ n, eval S L procs n e =
      do evalValue S instruction [← .operand (n + 1) (eval S L procs (n + 1) a)])
    (hsize : e.size = a.size + 1) : Ordered S L procs e := by
  refine ⟨_, hsize, fun n => ?_⟩
  rw [heval]
  exact .then (ha.operand _) fun _ => evalValue_within

theorem ordered_value2 (ha : Ordered S L procs a) (hb : Ordered S L procs b)
    (heval : ∀ n, eval S L procs n e = do
      let first ← .operand (n + 1) (eval S L procs (n + 1) a)
      let second ← .operand (n + 1 + a.size) (eval S L procs (n + 1 + a.size) b)
      evalValue S instruction [first, second])
    (hsize : e.size = a.size + b.size + 1) : Ordered S L procs e := by
  refine ⟨_, hsize, fun n => ?_⟩
  rw [heval]
  exact .bind (ha.operand _) fun v => .then (hb.operand _) fun _ => evalValue_within

theorem ordered_all {f : List V → Eval σ ε V} (hall : ∀ a ∈ arguments, Ordered S L procs a)
    (heval : ∀ n, eval S L procs n e = evalAll S L procs (n + 1) arguments >>= f)
    (hf : ∀ values lo, (f values).Within lo 0)
    (hsize : e.size = sizeAll arguments + 1) : Ordered S L procs e := by
  refine ⟨_, hsize, fun n => ?_⟩
  rw [heval]
  exact .then (evalAll_within hall) fun values => hf values _

end Forms

section Smaller

variable {m : Nat} (hsub : ∀ e, sizeOf e < m → singleUse L e = true → Ordered S L procs e)

include hsub

theorem ordered_of_all {l : List Expression} (hlt : sizeOf l < m)
    (huse : singleUseAll L l = true) : ∀ e ∈ l, Ordered S L procs e := by
  induction l with
  | nil => simp
  | cons e rest ih =>
    simp only [singleUseAll, Bool.and_eq_true] at huse
    simp only [List.cons.sizeOf_spec] at hlt
    exact List.forall_mem_cons.2 ⟨hsub e (by omega) huse.1, ih (by omega) huse.2⟩

theorem ordered_of_overrides {overrides : List (FieldName × Expression)}
    (hlt : sizeOf overrides < m) (huse : singleUseOverrides L overrides = true) :
    ∀ p ∈ overrides, Ordered S L procs p.2 := by
  induction overrides with
  | nil => simp
  | cons p rest ih =>
    obtain ⟨name, e⟩ := p
    simp only [singleUseOverrides, Bool.and_eq_true] at huse
    simp only [List.cons.sizeOf_spec, Prod.mk.sizeOf_spec] at hlt
    exact List.forall_mem_cons.2 ⟨hsub e (by omega) huse.1, ih (by omega) huse.2⟩

theorem ordered_of_named {arguments : List (Option String × Expression)}
    (hlt : sizeOf arguments < m) (huse : singleUseNamed L arguments = true) :
    ∀ p ∈ arguments, Ordered S L procs p.2 := by
  induction arguments with
  | nil => simp
  | cons p rest ih =>
    obtain ⟨name, e⟩ := p
    simp only [singleUseNamed, Bool.and_eq_true] at huse
    simp only [List.cons.sizeOf_spec, Prod.mk.sizeOf_spec] at hlt
    exact List.forall_mem_cons.2 ⟨hsub e (by omega) huse.1, ih (by omega) huse.2⟩

theorem ordered_of_pick {l : List (Option Expression × Expression)}
    (hlt : sizeOf l < m) (huse : singleUsePick L l = true) :
    (∀ p ∈ l, ∀ w, p.1 = some w → Ordered S L procs w) ∧
      ∀ p ∈ l, Ordered S L procs p.2 := by
  induction l with
  | nil => simp
  | cons p rest ih =>
    obtain ⟨weight, candidate⟩ := p
    simp only [singleUsePick, Bool.and_eq_true] at huse
    simp only [List.cons.sizeOf_spec, Prod.mk.sizeOf_spec] at hlt
    obtain ⟨hweight, hall⟩ := ih (by omega) huse.2
    refine ⟨List.forall_mem_cons.2 ⟨?_, hweight⟩,
      List.forall_mem_cons.2 ⟨hsub candidate (by omega) huse.1.2, hall⟩⟩
    rintro w rfl
    exact hsub w (by simp at hlt; omega) huse.1.1

theorem ordered_of_entries {entries : List ListExpressionEntry} (hlt : sizeOf entries < m)
    (huse : singleUseEntries L entries = true) :
    ∀ entry ∈ entries, ∀ e ∈ entry.operands, Ordered S L procs e := by
  induction entries with
  | nil => simp
  | cons entry rest ih =>
    cases entry with
    | positional value =>
      simp only [singleUseEntries, Bool.and_eq_true] at huse
      simp only [List.cons.sizeOf_spec, ListExpressionEntry.positional.sizeOf_spec] at hlt
      refine List.forall_mem_cons.2 ⟨?_, ih (by omega) huse.2⟩
      simpa [ListExpressionEntry.operands] using hsub value (by omega) huse.1
    | associative key value =>
      simp only [singleUseEntries, Bool.and_eq_true] at huse
      simp only [List.cons.sizeOf_spec, ListExpressionEntry.associative.sizeOf_spec] at hlt
      refine List.forall_mem_cons.2 ⟨?_, ih (by omega) huse.2⟩
      simpa [ListExpressionEntry.operands] using
        ⟨hsub key (by omega) huse.1.1, hsub value (by omega) huse.1.2⟩

end Smaller

section Cases

variable {procedure index list value reference receiver : Expression} {name : FieldName}

theorem ordered_call {instr : Nat → Instruction} {e : Expression}
    (hall : ∀ a ∈ arguments, Ordered S L procs a)
    (heval : ∀ n, eval S L procs n e = do
      let values ← evalAll S L procs (n + 1) arguments
      evalCall S instr [] arguments values)
    (hsize : e.size = sizeAll arguments + 1) : Ordered S L procs e :=
  ordered_all hall heval (fun _ _ => evalCall_within) hsize

theorem ordered_field (hreceiver : Ordered S L procs receiver) :
    Ordered S L procs (.field receiver name) := by
  refine ⟨receiver.size, rfl, fun n => ?_⟩
  rw [eval]
  split
  · exact .then (hreceiver.operand _) fun _ => evalValue_within
  · split
    · exact evalValue_within
    · exact .then (hreceiver.operand _) fun _ => evalValue_within

theorem ordered_index (hlist : Ordered S L procs list) (hindex : Ordered S L procs index)
    (hreceiver : ∀ receiver name, list = .field receiver name → Ordered S L procs receiver) :
    Ordered S L procs (.index list index) := by
  refine ⟨list.size + index.size, rfl, fun n => ?_⟩
  unfold eval
  split
  · rename_i receiver name
    have hindexAt := hindex.operand (n + 2 + receiver.size)
    split
    · exact .mono (.bind ((hreceiver _ _ rfl).operand (n + 2)) fun v =>
        .then hindexAt fun _ => evalValue_within) (by omega) (by simp only [Expression.size]; omega)
    · refine .bind (hlist.operand (n + 1)) fun v => .then (hindexAt.mono ?_ ?_) fun _ =>
        evalValue_within
      · simp only [Expression.size]; omega
      · simp only [Expression.size]; omega
  · split
    · exact .mono (.then (hindex.operand _) fun _ => evalValue_within) (by omega) (by omega)
    · exact .bind (hlist.operand _) fun v => .then (hindex.operand _) fun _ => evalValue_within

theorem ordered_unary {operand : Expression} (hoperand : Ordered S L procs operand) :
    Ordered S L procs (.unary operator operand) := by
  refine ⟨operand.size, rfl, fun n => ?_⟩
  rw [eval]
  split
  · exact evalValue_within
  · exact .then evalValue_within fun _ => .then evalValue_within fun _ => evalValue_within
  · exact .then (hoperand.operand _) fun _ => evalUnary_within

theorem ordered_binary {left right : Expression} (hleft : Ordered S L procs left)
    (hright : Ordered S L procs right) : Ordered S L procs (.binary operator left right) := by
  refine ⟨left.size + right.size, rfl, fun n => ?_⟩
  rw [eval]
  refine .bind (hleft.operand _) fun v => ?_
  simp only
  split
  · exact .after evalTruthy_within fun _ => .ite (hright.operand _) .pure
  · split
    · exact .after evalTruthy_within fun _ => .ite .pure (hright.operand _)
    · refine .then (hright.operand _) fun w => ?_
      split
      · exact evalValue_within
      · exact rejected_within

theorem ordered_conditional {condition whenTrue whenFalse : Expression}
    (hcondition : Ordered S L procs condition) (htrue : Ordered S L procs whenTrue)
    (hfalse : Ordered S L procs whenFalse) :
    Ordered S L procs (.conditional condition whenTrue whenFalse) := by
  refine ⟨condition.size + (whenTrue.size + whenFalse.size), by simp only [Expression.size]; omega,
    fun n => ?_⟩
  rw [eval]
  refine .bind (hcondition.operand _) fun v => .after evalTruthy_within fun _ => .ite ?_ ?_
  · exact .mono (htrue.operand _) (Nat.le_refl _) (by omega)
  · exact .mono (hfalse.operand _) (by omega) (by omega)

theorem ordered_initial
    (hsub : ∀ e, sizeOf e < sizeOf reference → singleUse L e = true → Ordered S L procs e)
    (huse : singleUse L reference = true) : Ordered S L procs (.initial reference) := by
  refine ⟨reference.size, rfl, fun n => ?_⟩
  cases reference with
  | field receiver name =>
    have hoperand := (hsub receiver (by simp; omega) huse).operand (n + 2)
    unfold eval
    simp only
    split
    · split
      · exact evalValue_within
      · exact evalValue_within
    · exact .then (hoperand.mono (by omega) (by simp only [Expression.size]; omega))
        fun _ => evalValue_within
  | «local» name =>
    rw [eval]
    split
    · exact .then evalValue_within fun _ => evalValue_within
    · exact rejected_within
  | safeField receiver name =>
    have hoperand := (hsub receiver (by simp; omega) huse).operand (n + 2)
    rw [eval]
    exact .then (hoperand.mono (by omega) (by simp only [Expression.size]; omega))
      fun _ => unlessNull_within evalValue_within
  | index list index =>
    cases list with
    | field receiver name =>
      simp only [singleUse, Bool.and_eq_true] at huse
      rw [eval]
      split
      · exact .mono (.bind ((hsub receiver (by simp; omega) huse.1).operand (n + 3)) fun v =>
          .then ((hsub index (by simp) huse.2).operand _) fun _ => evalValue_within)
          (by omega) (by simp only [Expression.size]; omega)
      · exact rejected_within
    | _ => rw [eval] <;> first | exact rejected_within | simp
  | _ => rw [eval] <;> first | exact rejected_within | simp

theorem ordered_dynamic {e target : Expression} {instr : Nat → Instruction}
    {g : V → Eval σ ε V → Eval σ ε V} (htarget : Ordered S L procs target)
    (hprocedure : Ordered S L procs procedure) (hall : ∀ a ∈ arguments, Ordered S L procs a)
    (hguard : ∀ v x lo m, Eval.Within lo m x → (g v x).Within lo m)
    (heval : ∀ n, eval S L procs n e = do
      let receiver ← .operand (n + 1) (eval S L procs (n + 1) target)
      g receiver do
        let selector ← (match literalSelector procedure with
          | some _ => (pure [] : Eval σ ε (List V))
          | none => do
            return [← .operand (n + 1 + target.size)
              (eval S L procs (n + 1 + target.size) procedure)])
        let values ← evalAll S L procs (n + 1 + target.size + procedure.size) arguments
        evalCall S instr (receiver :: selector) arguments values)
    (hsize : e.size = target.size + procedure.size + sizeAll arguments + 1) :
    Ordered S L procs e := by
  rw [Nat.add_assoc target.size] at hsize
  refine ⟨_, hsize, fun n => ?_⟩
  rw [heval]
  refine .bind (htarget.operand _) fun v => hguard _ _ _ _ (.bind ?_ fun selector =>
    .then (evalAll_within hall) fun _ => evalCall_within)
  split
  · exact .pure
  · exact .then (hprocedure.operand _) fun _ => .pure

theorem ordered_logicalOrAssignment {target : Expression}
    (hsub : ∀ e, sizeOf e < sizeOf target → singleUse L e = true → Ordered S L procs e)
    (huse : singleUse L (.logicalOrAssignment target value) = true) :
    Ordered S L procs (.logicalOrAssignment target value) := by
  refine ⟨_, rfl, fun n => ?_⟩
  simp only [singleUse, Bool.and_eq_true] at huse
  obtain ⟨x, hx, hwithin⟩ := evalLogicalOrEmptyList_within (n := n) hsub huse.1.2 huse.1.1.2
  rw [eval, if_pos huse.1.1.1, hx]
  exact hwithin.mono (Nat.le_refl _) (by omega)

end Cases

/-- An expression evaluates its operands in order when every smaller one does. -/
theorem ordered_of_smaller (e : Expression) (huse : singleUse L e = true)
    (hsub : ∀ e', sizeOf e' < sizeOf e → singleUse L e' = true → Ordered S L procs e') :
    Ordered S L procs e := by
  cases e with
  | null | number | text | file | typePath | src | usr | caller | world | result =>
    exact ordered_value (fun _ => rfl) rfl
  | globalNamespace => exact ⟨0, rfl, fun _ => rejected_within⟩
  | «local» name => exact ⟨0, rfl, fun _ => evalName_within⟩
  | globalField name =>
    refine ⟨0, rfl, fun n => ?_⟩
    rw [eval]
    exact .ite evalValue_within evalValue_within
  | argList operand => exact ⟨_, rfl, fun n => (hsub operand (by simp) huse).operand _⟩
  | sleep operand | prob operand | length operand | ref operand =>
    exact ordered_value1 (hsub operand (by simp) huse) (fun _ => rfl) rfl
  | crash message =>
    exact ⟨_, rfl, fun n => .then ((hsub message (by simp) huse).operand _) fun _ =>
      .then evalStore_within fun _ => evalValue_within⟩
  | namedArgument name value =>
    obtain ⟨m, hm, h⟩ := hsub value (by simp) huse
    exact ⟨_, rfl, fun n => (h n).mono (Nat.le_refl _) (by omega)⟩
  | getStep a b | getStepTowards a b | hasCall a b =>
    simp only [singleUse, Bool.and_eq_true] at huse
    exact ordered_value2 (hsub a (by simp; omega) huse.1) (hsub b (by simp) huse.2)
      (fun _ => rfl) rfl
  | regex arguments | matrix arguments | vector arguments | block arguments | rand arguments
  | roll arguments | round arguments | range arguments | typesOf arguments | locate arguments =>
    exact ordered_all (ordered_of_all hsub (by simp) huse) (fun _ => rfl)
      (fun _ _ => evalValue_within) rfl
  | replaceText arguments | copyText arguments =>
    exact ordered_all (ordered_of_all hsub (by simp <;> omega) huse) (fun _ => rfl)
      (fun _ _ => evalValue_within) rfl
  | typePredicate kind arguments =>
    refine ordered_all (ordered_of_all hsub (by simp) huse) (fun _ => rfl)
      (fun _ _ => ?_) rfl
    split
    · exact .then evalValue_within fun _ => evalValue_within
    · exact evalValue_within
  | mutableAppearance arguments | nativeSrcMethod _ arguments =>
    have hall := ordered_of_all hsub (l := arguments) (by simp) huse
    refine ⟨_, rfl, fun n => ?_⟩
    rw [eval]
    split
    · exact .then (evalAll_within hall) fun _ => evalCall_within
    · exact .then (evalAll_within hall) fun _ => evalValue_within
  | standardBuiltin name arguments =>
    have hall := ordered_of_all hsub (l := arguments) (by simp) huse
    refine ⟨_, rfl, fun n => ?_⟩
    rw [eval]
    split
    · exact .then (evalNewList_within hall) fun _ => evalValue_within
    · refine .then (evalAll_within hall) fun _ => ?_
      split
      · exact evalValue_within
      · exact evalValue_within
  | call procedure arguments =>
    have hall := ordered_of_all hsub (l := arguments) (by simp) huse
    refine ⟨_, rfl, fun n => ?_⟩
    rw [eval]
    split
    · exact rejected_within
    · exact .then (evalAll_within hall) fun _ => evalCall_within
  | currentCall arguments | parentCall arguments =>
    cases arguments with
    | none => exact ordered_value (fun _ => rfl) rfl
    | some arguments =>
      exact ordered_call (ordered_of_all hsub (by simp; omega) huse) (fun _ => rfl) rfl
  | modifiedTypePath base overrides =>
    refine ⟨_, rfl, fun n => .after evalValue_within fun _ => ?_⟩
    exact .then (evalOverrideValues_within (ordered_of_overrides hsub (by simp) huse))
      fun _ => evalValue_within
  | new typePath arguments overrides =>
    cases typePath with
    | none => exact ⟨_, rfl, fun _ => rejected_within⟩
    | some typePath =>
      simp only [singleUse, singleUseOption, Bool.and_eq_true] at huse
      refine ⟨typePath.size + (sizeAll arguments + sizeOverrides overrides),
        by simp only [Expression.size, sizeOption]; omega, fun n => ?_⟩
      refine .bind ((hsub typePath (by simp; omega) huse.1.1).operand _) fun type =>
        .bind (evalAll_within (ordered_of_all hsub (by simp; omega) huse.1.2)) fun values =>
          .after evalCall_within fun datum => ?_
      exact .then (evalOverrideStores_within (ordered_of_overrides hsub (by simp) huse.2))
        fun _ => .pure
  | externalCall library function arguments =>
    simp only [singleUse, Bool.and_eq_true] at huse
    refine ⟨library.size + (function.size + sizeAll arguments),
      by simp only [Expression.size]; omega, fun n => ?_⟩
    refine .bind ((hsub library (by simp; omega) huse.1.1).operand _) fun v =>
      .bind ((hsub function (by simp; omega) huse.1.2).operand _) fun w => ?_
    exact .then (evalAll_within (ordered_of_all hsub (by simp) huse.2)) fun _ => evalValue_within
  | animate arguments | filter arguments =>
    exact ⟨_, rfl, fun n => .then (evalNamedArguments_within
      (ordered_of_named hsub (by simp) huse)) fun _ => evalValue_within⟩
  | pick entries =>
    obtain ⟨hweight, hall⟩ := ordered_of_pick (l := entries) hsub (by simp) huse
    refine ⟨_, rfl, fun n => ?_⟩
    rw [eval]
    refine .then (evalPickEntries_within hweight hall) fun _ => .ite ?_ evalValue_within
    exact .then .lift fun _ => evalValue_within
  | list entries | associativeList entries =>
    exact ⟨_, rfl, fun n => .then (evalEntries_within (ordered_of_entries hsub (by simp) huse))
      fun _ => evalValue_within⟩
  | locateIn arguments container =>
    simp only [singleUse, Bool.and_eq_true] at huse
    refine ⟨_, rfl, fun n => ?_⟩
    exact .bind (evalAll_within (ordered_of_all hsub (by simp; omega) huse.1)) fun values =>
      .then ((hsub container (by simp) huse.2).operand _) fun _ => evalValue_within
  | initial reference =>
    exact ordered_initial (fun e he => hsub e (by simp; omega)) huse
  | field receiver name => exact ordered_field (hsub receiver (by simp; omega) huse)
  | safeField receiver name =>
    exact ⟨_, rfl, fun n => .then ((hsub receiver (by simp; omega) huse).operand _)
      fun _ => unlessNull_within evalValue_within⟩
  | index list index =>
    simp only [singleUse, Bool.and_eq_true] at huse
    refine ordered_index (hsub list (by simp; omega) huse.1) (hsub index (by simp) huse.2) ?_
    rintro receiver name rfl
    exact hsub receiver (by simp; omega) huse.1
  | safeIndex list index =>
    simp only [singleUse, Bool.and_eq_true] at huse
    exact ⟨_, rfl, fun n => .bind ((hsub list (by simp; omega) huse.1).operand _) fun v =>
      unlessNull_within (.then ((hsub index (by simp) huse.2).operand _)
        fun _ => evalValue_within)⟩
  | unary operator operand => exact ordered_unary (hsub operand (by simp) huse)
  | mutation target delta isPrefix =>
    rw [singleUse] at huse
    exact ⟨_, rfl, fun n => evalMutation_within (fun e he => hsub e (by simp; omega)) huse⟩
  | binary operator left right =>
    simp only [singleUse, Bool.and_eq_true] at huse
    exact ordered_binary (hsub left (by simp; omega) huse.1) (hsub right (by simp) huse.2)
  | conditional condition whenTrue whenFalse =>
    simp only [singleUse, Bool.and_eq_true] at huse
    exact ordered_conditional (hsub condition (by simp; omega) huse.1.1)
      (hsub whenTrue (by simp; omega) huse.1.2) (hsub whenFalse (by simp) huse.2)
  | dynamicCall target procedure arguments nullReceiverIsGlobal =>
    simp only [singleUse, Bool.and_eq_true] at huse
    exact ordered_dynamic (g := fun _ x => x) (hsub target (by simp; omega) huse.1.1)
      (hsub procedure (by simp; omega) huse.1.2) (ordered_of_all hsub (by simp) huse.2)
      (fun _ _ _ _ hx => hx) (fun _ => rfl) rfl
  | safeDynamicCall target procedure arguments =>
    simp only [singleUse, Bool.and_eq_true] at huse
    exact ordered_dynamic (g := unlessNull S) (hsub target (by simp; omega) huse.1.1)
      (hsub procedure (by simp; omega) huse.1.2) (ordered_of_all hsub (by simp) huse.2)
      (fun _ _ _ _ hx => unlessNull_within hx) (fun _ => rfl) rfl
  | logicalOrAssignment target value =>
    exact ordered_logicalOrAssignment (fun e he => hsub e (by simp; omega)) huse
  | assignment target operator value =>
    simp only [singleUse, Bool.and_eq_true] at huse
    exact ⟨_, rfl, fun n => evalAssignment_within (fun e he => hsub e (by simp; omega)) huse.1
      fun k => (hsub value (by simp) huse.2).operand k⟩

/-- An expression evaluates its operands from left to right, each at most once. -/
theorem eval_within (e : Expression) (huse : singleUse L e = true) : Ordered S L procs e := by
  induction hsize : sizeOf e using Nat.strongRecOn generalizing e with
  | ind size ih =>
    subst hsize
    exact ordered_of_smaller e huse fun e' hlt huse' => ih _ hlt e' huse' rfl

end Dream64.Vm
