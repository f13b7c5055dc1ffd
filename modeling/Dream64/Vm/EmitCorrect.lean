import Dream64.Vm.EmitTargets

/-!
# The emitted code computes the expression

`emitExpression_emits`: the fragment that the emitter appends for an
expression, placed anywhere in a procedure, computes `eval` of it from any
stack and state: it leaves exactly the one value on the stack, or fails as
the evaluation fails, and never leaves its own range before. The induction
follows the emitter, one case for each form.
-/

namespace Dream64.Vm

variable {σ ε V : Type} {S : Semantics σ ε V} {L : LocalTable} {procs : Procedures} {code : Code}
  {pos n : Nat}

/-! ## Calls -/

section

variable {arguments : List Expression} {e procedure target : Expression} {i : Nat → Instruction}
  {call : Code} {count : Nat} (hcode : code.length ≤ 65535)
  (hall : CorrectArguments S L procs code arguments)

include hcode hall

/-- The argument vector of a call and the call, with its receivers on the stack. -/
theorem emitCallArguments_computes {j : Nat} {r stack base : List V}
    (h : emitCallArguments arguments (emitArgumentValues L procs pos 0 arguments) =
      .ok (call, count)) (hshape : ∀ c, (i c).shape = some (.call j c)) (hj : r.length = j)
    (hstack : stack = r.reverse ++ base) :
    Computes S code pos (call ++ [i count]) stack base single (do
      let values ← evalAll S L procs n arguments
      evalCall S i r arguments values) := by
  cases hvalues : emitArgumentValues L procs pos 0 arguments with
  | error e =>
    rw [hvalues] at h
    simp [emitCallArguments, Except.bind_eq_ok] at h
  | ok p =>
    rw [hvalues] at h
    obtain ⟨hexp, hx⟩ := emitArgumentValues_emits (n := n) hall hvalues
    exact .callArguments hx hexp h hcode hshape hj hstack

/-- A call without receivers. -/
theorem correct_call (hemit : ∀ pos, emitExpression L procs pos e = do
      let (call, count) ← emitCallArguments arguments (emitArgumentValues L procs pos 0 arguments)
      return call ++ [i count])
    (heval : ∀ n, eval S L procs n e = do
      let values ← evalAll S L procs (n + 1) arguments
      evalCall S i [] arguments values)
    (hshape : ∀ c, (i c).shape = some (.call 0 c)) : Correct S L procs code e := by
  intro pos n fragment h
  simp only [hemit, Except.bind_eq_ok, Except.pure_eq_ok, Prod.exists] at h
  obtain ⟨call, count, hcall, rfl⟩ := h
  rw [heval]
  exact fun _ => emitCallArguments_computes hcode hall hcall hshape rfl rfl

theorem correct_mutableAppearance : Correct S L procs code (.mutableAppearance arguments) := by
  cases hprocedure : procs "mutable_appearance" with
  | some procedure =>
    refine correct_call (i := (.call procedure · (argumentNames arguments))) hcode hall
      (fun pos => ?_) (fun n => ?_) fun _ => rfl
    · rw [emitExpression, hprocedure]
    · rw [eval, hprocedure]
  | none =>
    intro pos n fragment h
    rw [emitExpression, hprocedure] at h
    simp only [Except.bind_eq_ok, Except.pure_eq_ok, countU16_eq_ok] at h
    obtain ⟨values, hvalues, _, ⟨-, rfl⟩, rfl⟩ := h
    rw [eval, hprocedure]
    exact .valueAll (emitAll_emits (fun e he => (hall e he).1) hvalues)
      (fun _ _ _ => evalAll_length) rfl

theorem correct_nativeSrcMethod {name : String} :
    Correct S L procs code (.nativeSrcMethod name arguments) := by
  cases hprocedure : procs name with
  | some procedure =>
    refine correct_call (i := (.call procedure · (arguments.map fun _ => none))) hcode hall
      (fun pos => ?_) (fun n => ?_) fun _ => rfl
    · rw [emitExpression, hprocedure]
    · rw [eval, hprocedure]
  | none =>
    intro pos n fragment h
    rw [emitExpression, hprocedure] at h
    simp only [Except.bind_eq_ok, Except.pure_eq_ok, countU16_eq_ok] at h
    obtain ⟨_, ⟨-, rfl⟩, values, hvalues, rfl⟩ := h
    rw [eval, hprocedure]
    exact .valueAll (emitAll_emits (fun e he => (hall e he).1) hvalues)
      (fun _ _ _ => evalAll_length) rfl

theorem correct_standardBuiltin {name : String} :
    Correct S L procs code (.standardBuiltin name arguments) := by
  intro pos n fragment h
  simp only [emitExpression, Except.bind_eq_ok, countU16_eq_ok] at h
  obtain ⟨_, ⟨-, rfl⟩, h⟩ := h
  rw [eval]
  split at h
  · rename_i hnew
    simp only [Except.bind_eq_ok, Except.pure_eq_ok] at h
    obtain ⟨values, hvalues, rfl⟩ := h
    rw [if_pos hnew]
    exact .valueAll (emitNewList_emits (fun e he => (hall e he).1) hvalues)
      (fun _ _ _ => evalNewList_length) rfl
  · rename_i hnew
    simp only [Except.bind_eq_ok] at h
    obtain ⟨values, hvalues, h⟩ := h
    have hx := emitBuiltinArguments_emits (n := n + 1) hall hvalues
    rw [if_neg hnew]
    cases hprocedure : procs name with
    | some procedure =>
      rw [hprocedure] at h
      cases h
      refine fun _ hc s => Computes.bindOk (hx.emits _) (fun vs _ _ h => ?_) hc s
      exact .call rfl (hx.length_ne hcode hc s) (by simp [evalAll_length h]) rfl
    | none =>
      rw [hprocedure] at h
      cases h
      exact .valueAll hx.emits (fun _ _ _ => evalAll_length) rfl

theorem correct_callExpression {procedure : String} :
    Correct S L procs code (.call procedure arguments) := by
  cases htarget : procs procedure with
  | none => exact correct_error fun pos => by rw [emitExpression, htarget]
  | some target =>
    refine correct_call (i := (.call target · (argumentNames arguments))) hcode hall
      (fun pos => ?_) (fun n => ?_) fun _ => rfl
    · rw [emitExpression, htarget]
    · rw [eval, htarget]

/-- A dynamic call, with its receiver on the stack. -/
theorem dynamicCall_computes {nullReceiverIsGlobal : Bool} {selector : Code} {k : Nat} {receiver : V}
    {stack : List V} (hprocedure : Correct S L procs code procedure)
    (hselector : (match literalSelector procedure with
      | some _ => (.ok [] : Emit)
      | none => emitExpression L procs pos procedure) = .ok selector)
    (hcall : emitCallArguments arguments
      (emitArgumentValues L procs (pos + selector.length) 0 arguments) = .ok (call, count)) :
    Computes S code pos (selector ++ call ++ [.callDynamic (literalSelector procedure) count
        (argumentNames arguments) nullReceiverIsGlobal]) (receiver :: stack) stack single (do
      let selector ← (match literalSelector procedure with
        | some _ => (pure [] : Eval σ ε (List V))
        | none => do return [← .operand k (eval S L procs k procedure)])
      let values ← evalAll S L procs n arguments
      evalCall S (.callDynamic (literalSelector procedure) · (argumentNames arguments)
        nullReceiverIsGlobal) (receiver :: selector) arguments values) := by
  rw [List.append_assoc]
  cases hliteral : literalSelector procedure with
  | some name =>
    rw [hliteral] at hselector
    cases hselector
    exact emitCallArguments_computes (i := (.callDynamic (some name) · (argumentNames arguments)
      nullReceiverIsGlobal)) (r := [receiver]) hcode hall hcall (fun _ => rfl) rfl rfl
  | none =>
    rw [hliteral] at hselector
    rw [Eval.bind_assoc]
    exact .operand (hprocedure _ _ _ hselector _) fun v =>
      emitCallArguments_computes (i := (.callDynamic none · (argumentNames arguments)
        nullReceiverIsGlobal)) (r := [receiver, v]) hcode hall hcall (fun _ => rfl) rfl rfl

variable (htarget : Correct S L procs code target) (hprocedure : Correct S L procs code procedure)

include htarget hprocedure

theorem correct_dynamicCall {nullReceiverIsGlobal : Bool} :
    Correct S L procs code (.dynamicCall target procedure arguments nullReceiverIsGlobal) := by
  intro pos n fragment h
  simp only [emitExpression, Except.bind_eq_ok, Except.pure_eq_ok, Prod.exists] at h
  obtain ⟨first, hfirst, selector, hselector, call, count, hcall, rfl⟩ := h
  rw [List.append_assoc, List.append_assoc, ← List.append_assoc selector]
  exact fun _ => .operand (htarget _ _ _ hfirst _) fun _ =>
    dynamicCall_computes hcode hall hprocedure hselector hcall

theorem correct_safeDynamicCall :
    Correct S L procs code (.safeDynamicCall target procedure arguments) := by
  intro pos n fragment h
  simp only [emitExpression, Except.bind_eq_ok, Except.pure_eq_ok, Prod.exists] at h
  obtain ⟨first, hfirst, selector, hselector, call, count, hcall, rfl⟩ := h
  exact .guard (htarget _ _ _ hfirst) fun _ _ =>
    dynamicCall_computes hcode hall hprocedure hselector hcall

end

/-! ## Objects, fields and lists -/

variable {arguments : List Expression} {overrides : List (FieldName × Expression)}

theorem correct_new (hcode : code.length ≤ 65535) {typePath : Expression}
    (htype : Correct S L procs code typePath) (hall : CorrectArguments S L procs code arguments)
    (hoverrides : ∀ p ∈ overrides, Correct S L procs code p.2) :
    Correct S L procs code (.new (some typePath) arguments overrides) := by
  intro pos n fragment h
  rw [emitExpression] at h
  simp only [Except.bind_eq_ok, Except.pure_eq_ok, Prod.exists] at h
  obtain ⟨type, htype', call, count, hcall, stores, hstores, rfl⟩ := h
  have hnext : pos + type.length + call.length + 1 = pos + type.length +
      (call ++ [.allocateDatum count (argumentNames arguments)] : Code).length := by simp; omega
  rw [hnext] at hstores
  rw [eval, List.append_assoc, List.append_cons, ← List.append_nil stores]
  refine fun stack => .operand (htype _ _ _ htype' _) fun v => ?_
  have hallocate : Computes S code (pos + type.length) _ (v :: stack) stack single _ :=
    emitCallArguments_computes (n := n + 1 + typePath.size) (r := [v])
      (i := (.allocateDatum · (argumentNames arguments))) hcode hall hcall (fun _ => rfl) rfl rfl
  rw [← Eval.bind_assoc]
  exact hallocate.bind fun datum => .bind (emitOverrideStores_computes hoverrides hstores)
    fun _ => .pure rfl

theorem correct_index {list index : Expression}
    (hsub : ∀ e, sizeOf e < sizeOf (Expression.index list index) → Correct S L procs code e) :
    Correct S L procs code (.index list index) := by
  have hindex := hsub index (by simp)
  by_cases hfield : ∃ receiver name, list = .field receiver name
  · obtain ⟨receiver, name, rfl⟩ := hfield
    by_cases hvars : name.name = "vars"
    · refine correct_value2 (i := .loadDynamicField) (hsub receiver (by simp; omega))
        hindex ?_ ?_ rfl
      · intro pos
        rw [emitExpression, if_pos hvars]
      · intro n
        rw [eval, if_pos hvars]
        exact ⟨_, _, rfl⟩
    · refine correct_value2 (i := .indexList) (hsub (.field receiver name) (by simp; omega))
        hindex ?_ ?_ rfl
      · exact fun pos => if_neg hvars
      · exact fun n => ⟨_, _, if_neg hvars⟩
  · have hne : ∀ receiver name, list = .field receiver name → False := fun r f h => hfield ⟨r, f, h⟩
    cases hslot : localSlot L list with
    | some slot =>
      refine correct_value1 (i := .indexLocalList slot) hindex ?_ ?_ rfl
      · intro pos
        rw [emitExpression]
        · rw [hslot]
        · exact hne
      · intro n
        rw [eval]
        · rw [hslot]
          exact ⟨_, _, rfl⟩
        · exact hne
    | none =>
      refine correct_value2 (i := .indexList) (hsub list (by simp; omega)) hindex ?_ ?_ rfl
      · intro pos
        rw [emitExpression]
        · rw [hslot]
        · exact hne
      · intro n
        rw [eval]
        · rw [hslot]
          exact ⟨_, _, rfl⟩
        · exact hne

theorem correct_local {name : String} : Correct S L procs code (.local name) := by
  intro pos n fragment h
  simp only [emitExpression, emitLocal, Except.bind_eq_ok] at h
  obtain ⟨place, hplace, h⟩ := h
  rw [eval, evalName, hplace]
  cases place with
  | slot slot => cases h; exact emits_value rfl
  | srcField field => cases h; exact emits_src1 rfl
  | global global => cases h; exact emits_value rfl

variable {name : FieldName}

theorem correct_globalField : Correct S L procs code (.globalField name) := by
  by_cases hvars : name.name = "vars"
  · refine correct_value (i := .loadGlobalVars) (fun pos => ?_) (fun n => ?_) rfl
    · rw [emitExpression, if_pos hvars]
    · rw [eval, if_pos hvars]
  · refine correct_value (i := .loadGlobal name) (fun pos => ?_) (fun n => ?_) rfl
    · rw [emitExpression, if_neg hvars]
    · rw [eval, if_neg hvars]

theorem loadFieldInstruction_shape (receiver : Expression) (name : FieldName) :
    (loadFieldInstruction L receiver name).shape = some (.value 1) := by
  unfold loadFieldInstruction
  split <;> rfl

theorem correct_field {receiver : Expression} (hreceiver : Correct S L procs code receiver) :
    Correct S L procs code (.field receiver name) := by
  by_cases hvars : name.name = "vars"
  · refine correct_value1 (i := .loadDatumVars) hreceiver (fun pos => ?_) (fun n => ?_) rfl
    · rw [emitExpression, if_pos hvars]
    · rw [eval, if_pos hvars]
      exact ⟨_, _, rfl⟩
  · cases hstorage : L.fieldStorage receiver name with
    | some storage =>
      refine correct_value (i := .loadGlobal storage) (fun pos => ?_) (fun n => ?_) rfl
      · rw [emitExpression, if_neg hvars, hstorage]; rfl
      · rw [eval, if_neg hvars, hstorage]
    | none =>
      refine correct_value1 hreceiver (fun pos => ?_) (fun n => ?_)
        (loadFieldInstruction_shape (L := L) receiver name)
      · rw [emitExpression, if_neg hvars, hstorage]
      · rw [eval, if_neg hvars, hstorage]
        exact ⟨_, _, rfl⟩

theorem correct_safeField {receiver : Expression} (hreceiver : Correct S L procs code receiver) :
    Correct S L procs code (.safeField receiver name) := by
  intro pos n fragment h
  simp only [emitExpression, Except.bind_eq_ok, Except.pure_eq_ok] at h
  obtain ⟨first, hfirst, rfl⟩ := h
  exact .guardOne (hreceiver _ _ _ hfirst) (loadFieldInstruction_shape receiver name)

theorem correct_safeIndex {list index : Expression} (hlist : Correct S L procs code list)
    (hindex : Correct S L procs code index) : Correct S L procs code (.safeIndex list index) := by
  intro pos n fragment h
  simp only [emitExpression, Except.bind_eq_ok, Except.pure_eq_ok] at h
  obtain ⟨first, hfirst, second, hsecond, rfl⟩ := h
  exact .guard (hlist _ _ _ hfirst) fun _ _ => .operand (hindex _ _ _ hsecond _) fun _ =>
    .value rfl rfl rfl

theorem correct_modifiedTypePath {base : TypePath}
    (hall : ∀ p ∈ overrides, Correct S L procs code p.2) :
    Correct S L procs code (.modifiedTypePath base overrides) := by
  intro pos n fragment h
  simp only [emitExpression, emitOverrideValues_eq, Except.bind_eq_ok, Except.pure_eq_ok] at h
  obtain ⟨values, hvalues, rfl⟩ := h
  rw [eval, evalOverrideValues_eq]
  refine fun _ => .cons (.value rfl rfl rfl) fun path => .bindOk
    (emitAll_emits (List.forall_mem_map.2 hall) hvalues _) fun vs _ _ h => ?_
  exact .value rfl (by simp [evalAll_length h]) (by simp)

variable {entries : List ListExpressionEntry}

/-- A list literal: its entries, then the instruction that makes the list of them. -/
theorem correct_entries {e : Expression} {i : List ListEntryKind → Instruction}
    (hall : ∀ entry ∈ entries, ∀ e ∈ entry.operands, Correct S L procs code e)
    (hemit : ∀ pos, emitExpression L procs pos e = do
      let (values, kinds) ← emitListEntries L procs pos entries
      return values ++ [i kinds])
    (heval : ∀ n, eval S L procs n e = do
      evalValue S (i (entries.map entryKind)) (← evalEntries S L procs (n + 1) entries))
    (hshape : ∀ kinds, (i kinds).shape =
      some (.value ((kinds.map ListEntryKind.operands).sum))) : Correct S L procs code e := by
  intro pos n fragment h
  simp only [hemit, Except.bind_eq_ok, Except.pure_eq_ok, Prod.exists] at h
  obtain ⟨values, kinds, hvalues, rfl⟩ := h
  obtain ⟨rfl, hemits⟩ := emitListEntries_emits (n := n + 1) hall hvalues
  rw [heval]
  exact .valueAll hemits (fun _ _ _ => evalEntries_length) (hshape _)

theorem correct_initial {reference : Expression}
    (hsub : ∀ e, sizeOf e < sizeOf (Expression.initial reference) → Correct S L procs code e) :
    Correct S L procs code (.initial reference) := by
  cases reference with
  | field receiver name =>
    cases hstorage : L.receiverStatic receiver name with
    | some storage =>
      cases receiver with
      | typePath path =>
        refine correct_value (i := .loadGlobal storage) (fun pos => ?_) (fun n => ?_) rfl
        · rw [emitExpression, hstorage]; rfl
        · rw [eval, hstorage]
      | _ =>
        exact correct_value (i := .loadInitialGlobal storage)
          (fun pos => by rw [emitExpression, hstorage]; rfl) (fun n => by rw [eval, hstorage]) rfl
    | none =>
      refine correct_value1 (i := .initialField name) (hsub receiver (by simp; omega))
        (fun pos => ?_) (fun n => ?_) rfl
      · rw [emitExpression, hstorage]
      · rw [eval, hstorage]
        exact ⟨_, _, rfl⟩
  | «local» name =>
    intro pos n fragment h
    rw [emitExpression] at h
    rw [eval]
    cases hfield : L.srcField name with
    | some field =>
      rw [hfield] at h
      cases h
      exact emits_src1 rfl
    | none =>
      rw [hfield] at h
      cases h
  | safeField receiver name =>
    intro pos n fragment h
    simp only [emitExpression, Except.bind_eq_ok, Except.pure_eq_ok] at h
    obtain ⟨first, hfirst, rfl⟩ := h
    rw [eval]
    exact .guardOne (hsub receiver (by simp; omega) _ _ _ hfirst) rfl
  | index list index =>
    cases list with
    | field receiver name =>
      by_cases hvars : name.name = "vars"
      · refine correct_value2 (i := .initialDynamicField)
          (hsub receiver (by simp; omega)) (hsub index (by simp; omega))
          (fun pos => ?_) (fun n => ?_) rfl
        · rw [emitExpression, if_pos hvars]
        · rw [eval, if_pos hvars]
          exact ⟨_, _, rfl⟩
      · exact correct_error fun pos => by rw [emitExpression, if_neg hvars]
    | _ => exact correct_error fun _ => rfl
  | _ => exact correct_error fun _ => rfl

/-! ## Operators -/

theorem correct_conditional {condition whenTrue whenFalse : Expression}
    (hcondition : Correct S L procs code condition) (htrue : Correct S L procs code whenTrue)
    (hfalse : Correct S L procs code whenFalse) :
    Correct S L procs code (.conditional condition whenTrue whenFalse) := by
  intro pos n fragment h
  simp only [emitExpression, Except.bind_eq_ok, Except.pure_eq_ok] at h
  obtain ⟨test, htest, first, hfirst, second, hsecond, rfl⟩ := h
  rw [eval, List.append_assoc]
  exact fun _ => .operand (hcondition _ _ _ htest _) fun v =>
    .branch rfl rfl (htrue _ _ _ hfirst _) (hfalse _ _ _ hsecond _)

theorem correct_binary {operator : String} {left right : Expression}
    (hleft : Correct S L procs code left) (hright : Correct S L procs code right) :
    Correct S L procs code (.binary operator left right) := by
  intro pos n fragment h
  rw [emitExpression] at h
  rw [eval]
  split at h
  · rename_i hand
    simp only [Except.bind_eq_ok, Except.pure_eq_ok] at h
    obtain ⟨first, hfirst, second, hsecond, rfl⟩ := h
    simp only [if_pos hand]
    rw [List.append_assoc]
    exact fun _ => .operand (hleft _ _ _ hfirst _) fun v =>
      .duplicate (.skip (by simp; omega) (.pop (hright _ _ _ hsecond _)) rfl rfl)
  · rename_i hand
    simp only [if_neg hand]
    split at h
    · rename_i hor
      simp only [Except.bind_eq_ok, Except.pure_eq_ok] at h
      obtain ⟨first, hfirst, second, hsecond, rfl⟩ := h
      simp only [if_pos hor]
      rw [List.append_assoc]
      exact fun _ => .operand (hleft _ _ _ hfirst _) fun v =>
        .duplicate (.branch (a := []) rfl (by simp; omega) (.pure rfl)
          (.pop (hright _ _ _ hsecond _)))
    · rename_i hor
      simp only [Except.bind_eq_ok, Except.pure_eq_ok] at h
      obtain ⟨first, hfirst, second, hsecond, instruction, hinstruction, rfl⟩ := h
      simp only [if_neg hor, hinstruction]
      exact .value2 (hleft _ _ _ hfirst) (hright _ _ _ hsecond)
        (binaryInstruction_shape hinstruction)

theorem correct_unary {operator : String} {operand : Expression}
    (hoperand : Correct S L procs code operand) :
    Correct S L procs code (.unary operator operand) := by
  intro pos n fragment h
  rw [emitExpression] at h
  rw [eval]
  cases hcell : cellOperand L operator operand with
  | some cell =>
    rw [hcell] at h
    cases cell with
    | address slot =>
      cases h
      exact emits_value rfl
    | dereference slot =>
      cases h
      exact fun _ => .cons (.value rfl rfl rfl) fun _ => .cons (.value rfl rfl rfl) fun _ =>
        .value rfl rfl rfl
  | none =>
    rw [hcell] at h
    simp only [Except.bind_eq_ok, Except.pure_eq_ok] at h
    obtain ⟨first, hfirst, second, hsecond, rfl⟩ := h
    exact fun _ => .operand (hoperand _ _ _ hfirst _) fun _ => unaryInstruction_computes hsecond

theorem correct_logicalOrAssignment {target value : Expression}
    (hsub : ∀ e, sizeOf e < sizeOf (Expression.logicalOrAssignment target value) →
      Correct S L procs code e) :
    Correct S L procs code (.logicalOrAssignment target value) := by
  intro pos n fragment h
  have htarget := hsub target (by simp; omega)
  rw [emitExpression] at h
  simp only [Except.bind_eq_ok] at h
  obtain ⟨fused, hfused, h⟩ := h
  rw [eval]
  cases fused with
  | some fused =>
    cases h
    split at hfused
    · rename_i hempty
      obtain ⟨x, hx, hemits⟩ := emitLogicalOrEmptyList_some (n := n)
        (fun e he => hsub e (by simp; omega)) hfused
      rw [if_pos hempty, hx]
      exact hemits
    · cases hfused
  | none =>
    have hnone : (if isEmptyList value then evalLogicalOrEmptyList S L procs n target else none) =
        none := by
      split at hfused
      · rename_i hempty
        rw [if_pos hempty]
        exact emitLogicalOrEmptyList_none hfused
      · rename_i hempty
        rw [if_neg hempty]
    rw [hnone]
    simp only [Except.bind_eq_ok, Except.pure_eq_ok] at h
    obtain ⟨test, htest, again, hagain, store, hstore, rfl⟩ := h
    rw [List.append_assoc]
    refine fun _ => .operand (htarget _ _ _ htest _) fun v =>
      .branch rfl rfl (htarget _ _ _ hagain _) ?_
    simp only [Bool.false_eq_true, if_false]
    refine emitAssignment_emits (fun e he => hsub e (by simp; omega)) ?_ hstore _
    exact fun p k c hvalue => hsub value (by simp) p k c hvalue

/-! ## Other forms -/

theorem correct_crash {message : Expression} (hmessage : Correct S L procs code message) :
    Correct S L procs code (.crash message) := by
  intro pos n fragment h
  simp only [emitExpression, Except.bind_eq_ok, Except.pure_eq_ok] at h
  obtain ⟨first, hfirst, rfl⟩ := h
  exact fun _ => .operand (hmessage _ _ _ hfirst _) fun _ => .cons (.store rfl rfl rfl) fun _ =>
    .value rfl rfl rfl

theorem correct_externalCall {library function : Expression}
    (hlibrary : Correct S L procs code library) (hfunction : Correct S L procs code function)
    (hall : ∀ a ∈ arguments, Correct S L procs code a) :
    Correct S L procs code (.externalCall library function arguments) := by
  intro pos n fragment h
  simp only [emitExpression, Except.bind_eq_ok, Except.pure_eq_ok, countU16_eq_ok] at h
  obtain ⟨first, hfirst, second, hsecond, values, hvalues, _, ⟨-, rfl⟩, rfl⟩ := h
  rw [eval, List.append_assoc, List.append_assoc]
  refine fun _ => .operand (hlibrary _ _ _ hfirst _) fun _ => .operand (hfunction _ _ _ hsecond _)
    fun _ => .bindOk (emitAll_emits hall hvalues _) fun vs _ _ h => ?_
  exact .value rfl (by simp [evalAll_length h]) (by simp)

theorem namedExpandedIndices_eq {arguments : List (Option String × Expression)} {index : Nat} :
    namedExpandedIndices index arguments = expandedIndices index (arguments.map (·.2)) := by
  induction arguments generalizing index with
  | nil => rfl
  | cons p rest ih =>
    obtain ⟨name, e⟩ := p
    cases e <;> simp [namedExpandedIndices, expandedIndices, ih]

/-- `animate` and `filter`, whose names stand in the instruction. -/
theorem correct_named {e : Expression} {arguments : List (Option String × Expression)}
    {i : List (Option String) → List Nat → Instruction}
    (hall : CorrectArguments S L procs code (arguments.map (·.2)))
    (hemit : ∀ pos, emitExpression L procs pos e = do
      let (values, expanded) ← emitNamedArguments L procs pos 0 arguments
      return values ++ [i (arguments.map (·.1)) expanded])
    (heval : ∀ n, eval S L procs n e = do
      let values ← evalNamedArguments S L procs (n + 1) arguments
      evalValue S (i (arguments.map (·.1)) (namedExpandedIndices 0 arguments)) values)
    (hshape : ∀ names indices, (i names indices).shape = some (.value names.length)) :
    Correct S L procs code e := by
  intro pos n fragment h
  simp only [hemit, emitNamedArguments_eq, Except.bind_eq_ok, Except.pure_eq_ok, Prod.exists] at h
  obtain ⟨values, expanded, hvalues, rfl⟩ := h
  obtain ⟨rfl, hx⟩ := emitArgumentValues_emits (n := n + 1) hall hvalues
  rw [heval, evalNamedArguments_eq, namedExpandedIndices_eq]
  exact .valueAll hx.emits (fun _ _ _ => evalAll_length) (by simp [hshape])

theorem correct_locate (hall : ∀ a ∈ arguments, Correct S L procs code a) :
    Correct S L procs code (.locate arguments) := by
  intro pos n fragment h
  simp only [emitExpression, Except.bind_eq_ok, Except.pure_eq_ok, countU16_eq_ok] at h
  obtain ⟨_, ⟨-, rfl⟩, values, hvalues, rfl⟩ := h
  exact .valueAll (emitAll_emits hall hvalues) (fun _ _ _ => evalAll_length) rfl

theorem correct_locateIn {container : Expression} (hall : ∀ a ∈ arguments, Correct S L procs code a)
    (hcontainer : Correct S L procs code container) :
    Correct S L procs code (.locateIn arguments container) := by
  intro pos n fragment h
  simp only [emitExpression, Except.bind_eq_ok, Except.pure_eq_ok, countU16_eq_ok] at h
  obtain ⟨_, ⟨-, rfl⟩, values, hvalues, list, hlist, rfl⟩ := h
  rw [eval, List.append_assoc]
  refine fun _ => .bindOk (emitAll_emits hall hvalues _) fun vs _ _ h =>
    .operand (hcontainer _ _ _ hlist _) fun w => ?_
  exact .value rfl (by simp [evalAll_length h]) (by simp)

theorem correct_pick {entries : List (Option Expression × Expression)}
    (hweight : ∀ p ∈ entries, ∀ w, p.1 = some w → Correct S L procs code w)
    (hall : CorrectArguments S L procs code (entries.map (·.2))) :
    Correct S L procs code (.pick entries) := by
  intro pos n fragment h
  simp only [emitExpression, Except.bind_eq_ok] at h
  obtain ⟨values, hvalues, h⟩ := h
  have hemits := emitPickEntries_emits (n := n + 1) hweight hall hvalues
  rw [eval]
  split at h
  · rename_i hexpands
    cases h
    simp only [hexpands, if_true]
    refine fun _ => .bindOk (hemits _) fun vs _ _ h => ?_
    have hlen : vs.length = 1 := by
      rw [evalPickEntries_length h]
      unfold pickExpands at hexpands
      split at hexpands
      · rfl
      · cases hexpands
    exact .cons (.expand hlen rfl) fun expanded =>
      .expandedCall (r := []) rfl rfl expanded.2 (by simp)
  · rename_i hexpands
    cases h
    simp only [hexpands]
    exact .valueAll hemits (fun _ _ _ => evalPickEntries_length) rfl

theorem correct_typePredicate {kind : TypePredicateKind}
    (hall : ∀ a ∈ arguments, Correct S L procs code a) :
    Correct S L procs code (.typePredicate kind arguments) := by
  intro pos n fragment h
  simp only [emitExpression, Except.bind_eq_ok, Except.pure_eq_ok, countU8_eq_ok] at h
  obtain ⟨values, hvalues, _, ⟨-, rfl⟩, rfl⟩ := h
  rw [eval, List.append_assoc]
  refine fun _ => .bindOk (emitAll_emits hall hvalues _) fun vs _ _ h => ?_
  have hlen := evalAll_length h
  cases hpath : inferredPredicateType L kind arguments with
  | none => exact .value rfl (by simpa using hlen) rfl
  | some path => exact .cons (.value rfl rfl rfl) fun type => .value rfl (by simp [hlen]) (by simp)

/-! ## The induction -/

/-- The expressions of a list of pairs are smaller than the list. -/
theorem sizeOf_lt_of_pair {α : Type} [SizeOf α] {l : List (α × Expression)} {m : Nat}
    (h : sizeOf l < m) : ∀ p ∈ l, sizeOf p.2 < m := by
  rintro ⟨a, e⟩ hp
  have hlt := List.sizeOf_lt_of_mem hp
  simp only [Prod.mk.sizeOf_spec] at hlt ⊢
  omega

section

variable {m : Nat} (hsub : ∀ e, sizeOf e < m → Correct S L procs code e)

include hsub

theorem arguments_of_smaller (h : ∀ e ∈ arguments, sizeOf e < m) :
    CorrectArguments S L procs code arguments := by
  intro e he
  have hlt := h e he
  refine ⟨hsub e hlt, ?_⟩
  rintro values rfl
  exact hsub values (by simp at hlt; omega)

theorem arguments_smaller (h : sizeOf arguments < m) :
    CorrectArguments S L procs code arguments :=
  arguments_of_smaller hsub fun e he => by
    have hlt := List.sizeOf_lt_of_mem he
    omega

theorem overrides_smaller (h : sizeOf overrides < m) :
    ∀ p ∈ overrides, Correct S L procs code p.2 :=
  fun p hp => hsub _ (sizeOf_lt_of_pair h p hp)

theorem pairs_smaller {α : Type} [SizeOf α] {l : List (α × Expression)} (h : sizeOf l < m) :
    CorrectArguments S L procs code (l.map (·.2)) :=
  arguments_of_smaller hsub (List.forall_mem_map.2 (sizeOf_lt_of_pair h))

theorem weights_smaller {l : List (Option Expression × Expression)} (h : sizeOf l < m) :
    ∀ p ∈ l, ∀ w, p.1 = some w → Correct S L procs code w := by
  rintro ⟨weight, e⟩ he w rfl
  have hlt := List.sizeOf_lt_of_mem he
  exact hsub w (by simp at hlt; omega)

theorem entries_smaller (h : sizeOf entries < m) :
    ∀ entry ∈ entries, ∀ e ∈ entry.operands, Correct S L procs code e := by
  intro entry hentry e he
  have hlt := List.sizeOf_lt_of_mem hentry
  cases entry with
  | positional value =>
    obtain rfl : e = value := by simpa [ListExpressionEntry.operands] using he
    exact hsub e (by simp at hlt; omega)
  | associative key value =>
    obtain rfl | rfl : e = key ∨ e = value := by simpa [ListExpressionEntry.operands] using he
    · exact hsub e (by simp at hlt; omega)
    · exact hsub e (by simp at hlt; omega)

end

/-- The code of an expression is right when that of every smaller one is. -/
theorem correct_of_smaller (hcode : code.length ≤ 65535) (e : Expression)
    (hsub : ∀ e', sizeOf e' < sizeOf e → Correct S L procs code e') : Correct S L procs code e := by
  cases e with
  | null | number | text | file | typePath | src | usr | caller | world | result =>
    exact correct_value (fun _ => rfl) (fun _ => rfl) rfl
  | globalNamespace | argList => exact correct_error fun _ => rfl
  | «local» name => exact correct_local
  | globalField name => exact correct_globalField
  | regex arguments | matrix arguments | vector arguments | block arguments | rand arguments
  | roll arguments | round arguments | range arguments | typesOf arguments =>
    exact correct_all (all_smaller hsub (by simp)) (fun _ => rfl) (fun _ => rfl) fun _ => rfl
  | replaceText arguments | copyText arguments =>
    exact correct_all (all_smaller hsub (by simp <;> omega)) (fun _ => rfl) (fun _ => rfl) fun _ => rfl
  | sleep operand | prob operand | length operand | ref operand =>
    exact correct_value1 (hsub operand (by simp)) (fun _ => rfl) (fun _ => ⟨_, _, rfl⟩) rfl
  | getStep a b | getStepTowards a b | hasCall a b =>
    exact correct_value2 (hsub a (by simp; omega)) (hsub b (by simp)) (fun _ => rfl)
      (fun _ => ⟨_, _, rfl⟩) rfl
  | crash message => exact correct_crash (hsub message (by simp))
  | namedArgument name value => exact fun pos n => hsub value (by simp) pos n
  | modifiedTypePath base overrides =>
    exact correct_modifiedTypePath (overrides_smaller hsub (by simp))
  | new typePath arguments overrides =>
    cases typePath with
    | none => exact correct_error fun _ => rfl
    | some typePath =>
      exact correct_new hcode (hsub typePath (by simp; omega))
        (arguments_smaller hsub (by simp; omega)) (overrides_smaller hsub (by simp))
  | mutableAppearance arguments =>
    exact correct_mutableAppearance hcode (arguments_smaller hsub (by simp))
  | standardBuiltin name arguments =>
    exact correct_standardBuiltin hcode (arguments_smaller hsub (by simp))
  | nativeSrcMethod name arguments =>
    exact correct_nativeSrcMethod hcode (arguments_smaller hsub (by simp))
  | externalCall library function arguments =>
    exact correct_externalCall (hsub library (by simp; omega)) (hsub function (by simp; omega))
      (all_smaller hsub (by simp))
  | animate arguments | filter arguments =>
    exact correct_named (pairs_smaller hsub (by simp)) (fun _ => rfl) (fun _ => rfl) fun _ _ => rfl
  | initial reference => exact correct_initial hsub
  | pick entries =>
    exact correct_pick (weights_smaller hsub (by simp)) (pairs_smaller hsub (by simp))
  | typePredicate kind arguments =>
    exact correct_typePredicate (all_smaller hsub (by simp))
  | field receiver name => exact correct_field (hsub receiver (by simp; omega))
  | safeField receiver name => exact correct_safeField (hsub receiver (by simp; omega))
  | call procedure arguments =>
    exact correct_callExpression hcode (arguments_smaller hsub (by simp))
  | locate arguments => exact correct_locate (all_smaller hsub (by simp))
  | locateIn arguments container =>
    exact correct_locateIn (all_smaller hsub (by simp; omega)) (hsub container (by simp))
  | currentCall arguments | parentCall arguments =>
    cases arguments with
    | none => exact correct_value (fun _ => rfl) (fun _ => rfl) rfl
    | some arguments =>
      exact correct_call hcode (arguments_smaller hsub (by simp; omega)) (fun _ => rfl)
        (fun _ => rfl) fun _ => rfl
  | dynamicCall target procedure arguments nullReceiverIsGlobal =>
    exact correct_dynamicCall hcode (arguments_smaller hsub (by simp))
      (hsub target (by simp; omega)) (hsub procedure (by simp; omega))
  | safeDynamicCall target procedure arguments =>
    exact correct_safeDynamicCall hcode (arguments_smaller hsub (by simp))
      (hsub target (by simp; omega)) (hsub procedure (by simp; omega))
  | list entries | associativeList entries =>
    exact correct_entries (entries_smaller hsub (by simp)) (fun _ => rfl) (fun _ => rfl) fun _ => rfl
  | index list index => exact correct_index hsub
  | safeIndex list index =>
    exact correct_safeIndex (hsub list (by simp; omega)) (hsub index (by simp))
  | unary operator operand => exact correct_unary (hsub operand (by simp))
  | mutation target delta isPrefix =>
    exact fun pos n fragment => emitMutation_emits fun e he => hsub e (by simp; omega)
  | binary operator left right =>
    exact correct_binary (hsub left (by simp; omega)) (hsub right (by simp))
  | conditional condition whenTrue whenFalse =>
    exact correct_conditional (hsub condition (by simp; omega)) (hsub whenTrue (by simp; omega))
      (hsub whenFalse (by simp))
  | logicalOrAssignment target value => exact correct_logicalOrAssignment hsub
  | assignment target operator value =>
    exact fun pos n fragment => emitAssignment_emits (fun e he => hsub e (by simp; omega))
      fun p k c hvalue => hsub value (by simp) p k c hvalue

/-- The code of an expression computes the expression. A procedure has at most 65535
instructions. -/
theorem emitExpression_emits (hcode : code.length ≤ 65535) (e : Expression) :
    Correct S L procs code e := by
  induction hsize : sizeOf e using Nat.strongRecOn generalizing e with
  | ind size ih =>
    subst hsize
    exact correct_of_smaller hcode e fun e' hlt => ih _ hlt e' rfl

end Dream64.Vm
