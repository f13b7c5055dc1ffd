import Dream64.Vm.EmitOperands

/-!
# The code of assignment targets

A target is lowered by its own function for each of `target ||= list()`,
increments and assignments; their code is right when that of every smaller
expression is.
-/

namespace Dream64.Vm

variable {σ ε V : Type} {S : Semantics σ ε V} {L : LocalTable} {procs : Procedures} {code : Code}
  {pos n : Nat}

variable {target : Expression} {fragment : Code}

theorem emitLogicalOrEmptyList_none
    (h : emitLogicalOrEmptyList L procs pos target = .ok none) :
    evalLogicalOrEmptyList S L procs n target = none := by
  cases target with
  | «local» name =>
    simp only [emitLogicalOrEmptyList, Except.bind_eq_ok] at h
    obtain ⟨place, -, h⟩ := h
    cases place <;> cases h
  | globalField name =>
    simp only [emitLogicalOrEmptyList] at h
    split at h
    · rename_i hvars
      rw [evalLogicalOrEmptyList, if_pos hvars]
    · cases h
  | field receiver name =>
    simp only [emitLogicalOrEmptyList] at h
    split at h
    · rename_i hvars
      rw [evalLogicalOrEmptyList, if_pos hvars]
    · split at h
      · cases h
      · obtain ⟨_, -, h⟩ := Except.bind_eq_ok.1 h
        cases h
  | initial reference =>
    cases reference with
    | field receiver name =>
      simp only [emitLogicalOrEmptyList] at h
      rw [evalLogicalOrEmptyList]
      split at h
      · rename_i hvars
        rw [if_pos hvars]
      · rename_i hvars
        rw [if_neg hvars]
        cases hstorage : L.receiverStatic receiver name with
        | some storage =>
          rw [hstorage] at h
          cases h
        | none => rfl
    | _ => rfl
  | index list index =>
    simp only [emitLogicalOrEmptyList, Except.bind_eq_ok] at h
    obtain ⟨_, -, _, -, h⟩ := h
    cases h
  | _ => rfl

variable (hsub : ∀ e, sizeOf e < sizeOf target → Correct S L procs code e)

include hsub

theorem emitLogicalOrEmptyList_some
    (h : emitLogicalOrEmptyList L procs pos target = .ok (some fragment)) :
    ∃ x, evalLogicalOrEmptyList S L procs n target = some x ∧
      Emits S code pos fragment single x := by
  cases target with
  | «local» name =>
    simp only [emitLogicalOrEmptyList, Except.bind_eq_ok] at h
    obtain ⟨place, hplace, h⟩ := h
    rw [evalLogicalOrEmptyList, hplace]
    cases place with
    | slot slot => cases h; exact ⟨_, rfl, emits_value rfl⟩
    | srcField field => cases h; exact ⟨_, rfl, emits_src1 rfl⟩
    | global global => cases h; exact ⟨_, rfl, emits_value rfl⟩
  | globalField name =>
    simp only [emitLogicalOrEmptyList] at h
    split at h
    · cases h
    · rename_i hvars
      cases h
      rw [evalLogicalOrEmptyList, if_neg hvars]
      exact ⟨_, rfl, emits_value rfl⟩
  | field receiver name =>
    simp only [emitLogicalOrEmptyList] at h
    split at h
    · cases h
    · rename_i hvars
      rw [evalLogicalOrEmptyList, if_neg hvars]
      cases hstorage : L.fieldStorage receiver name with
      | some storage =>
        rw [hstorage] at h
        cases h
        exact ⟨_, rfl, emits_value rfl⟩
      | none =>
        rw [hstorage] at h
        simp only [Except.bind_eq_ok, Except.pure_eq_ok, Option.some.injEq] at h
        obtain ⟨first, hfirst, rfl⟩ := h
        exact ⟨_, rfl, .value1 (hsub receiver (by simp; omega) _ _ _ hfirst) rfl⟩
  | initial reference =>
    cases reference with
    | field receiver name =>
      simp only [emitLogicalOrEmptyList] at h
      rw [evalLogicalOrEmptyList]
      split at h
      · cases h
      · rename_i hvars
        rw [if_neg hvars]
        cases hstorage : L.receiverStatic receiver name with
        | some storage =>
          rw [hstorage] at h
          cases h
          exact ⟨_, rfl, emits_value rfl⟩
        | none =>
          rw [hstorage] at h
          cases h
    | _ => cases h
  | index list index =>
    simp only [emitLogicalOrEmptyList, Except.bind_eq_ok, Except.pure_eq_ok, Option.some.injEq] at h
    obtain ⟨first, hfirst, second, hsecond, rfl⟩ := h
    exact ⟨_, rfl, .value2 (hsub list (by simp; omega) _ _ _ hfirst)
      (hsub index (by simp) _ _ _ hsecond) rfl⟩
  | _ => cases h

theorem emitMutation_emits {delta : Int} {isPrefix : Bool}
    (h : emitMutation L procs pos delta isPrefix target = .ok fragment) :
    Emits S code pos fragment single (evalMutation S L procs n delta isPrefix target) := by
  cases target with
  | «local» name =>
    simp only [emitMutation, Except.bind_eq_ok] at h
    obtain ⟨place, hplace, h⟩ := h
    rw [evalMutation, hplace]
    cases place with
    | slot slot => cases h; exact emits_value rfl
    | srcField field => cases h; exact emits_src1 rfl
    | global global => cases h; exact emits_value rfl
  | globalField name => cases h; exact emits_value rfl
  | field receiver name | safeField receiver name =>
    simp only [emitMutation] at h
    rw [evalMutation]
    cases hstorage : L.receiverStatic receiver name with
    | some storage =>
      rw [hstorage] at h
      cases h
      exact emits_value rfl
    | none =>
      rw [hstorage] at h
      simp only [Except.bind_eq_ok, Except.pure_eq_ok] at h
      obtain ⟨first, hfirst, rfl⟩ := h
      have hreceiver := hsub receiver (by simp; omega) _ (n + 2) _ hfirst
      first | exact .value1 hreceiver rfl | exact .guardOne hreceiver rfl
  | initial reference =>
    simp only [emitMutation] at h
    rw [evalMutation]
    cases hstorage : scopeStorage L reference with
    | some storage =>
      rw [hstorage] at h
      cases h
      exact emits_value rfl
    | none =>
      rw [hstorage] at h
      cases h
  | index list index =>
    simp only [emitMutation, Except.bind_eq_ok, Except.pure_eq_ok] at h
    obtain ⟨first, hfirst, second, hsecond, rfl⟩ := h
    exact .value2 (hsub list (by simp; omega) _ _ _ hfirst) (hsub index (by simp) _ _ _ hsecond) rfl
  | result => cases h; exact emits_value rfl
  | _ => cases h

variable {operator : String} {valueAt : Nat → Emit}

omit hsub in
/-- An assignment to a field whose receiver is on the stack. -/
theorem Computes.fieldAssignment {v : V} {name : FieldName} {valueCode combine : Code}
    {stack : List V} {value : Eval σ ε V}
    (hvalue : Emits S code (pos + (if operator = "=" then []
      else [.duplicate, .loadField name] : Code).length) valueCode single value)
    (hcombine : compoundInstruction operator = .ok combine) :
    Computes S code pos
      ((if operator = "=" then [] else [.duplicate, .loadField name]) ++ valueCode ++ combine ++
        [.storeFieldKeep name]) (v :: stack) stack single
      (evalFieldAssignment S v name operator value) :=
  .storeOf (.duplicate (.value rfl rfl rfl)) hvalue hcombine fun _ _ => .value rfl rfl rfl

theorem emitAssignment_emits {valueSize : Nat} {value : Nat → Eval σ ε V}
    (hv : ∀ p k c, valueAt p = .ok c → Emits S code p c single (value k))
    (h : emitAssignment L procs pos operator valueAt target = .ok fragment) :
    Emits S code pos fragment single
      (evalAssignment S L procs n operator valueSize value target) := by
  have hglobal {storage : FieldName} {k : Nat}
      (h : emitGlobalAssignment pos storage operator valueAt = .ok fragment) :
      Emits S code pos fragment single (evalGlobalAssignment S storage operator (value k)) :=
    emitGlobalAssignment_emits h fun p c => hv p k c
  cases target with
  | result =>
    simp only [emitAssignment, Except.bind_eq_ok, Except.pure_eq_ok] at h
    obtain ⟨valueCode, hvalue, combine, hcombine, rfl⟩ := h
    exact emits_keep (hv _ _ _ hvalue) hcombine rfl rfl
  | usr | src =>
    simp only [emitAssignment] at h
    split at h
    · cases h
    · rename_i hop
      simp only [Except.bind_eq_ok, Except.pure_eq_ok] at h
      obtain ⟨valueCode, hvalue, rfl⟩ := h
      rw [evalAssignment, if_neg hop]
      exact .keepOf (hv _ _ _ hvalue) rfl
  | «local» name =>
    simp only [emitAssignment, Except.bind_eq_ok] at h
    obtain ⟨place, hplace, h⟩ := h
    rw [evalAssignment, hplace]
    cases place with
    | slot slot =>
      simp only [Except.bind_eq_ok, Except.pure_eq_ok] at h
      obtain ⟨valueCode, hvalue, combine, hcombine, rfl⟩ := h
      exact emits_keep (hv _ _ _ hvalue) hcombine rfl rfl
    | srcField field =>
      simp only [Except.bind_eq_ok, Except.pure_eq_ok] at h
      obtain ⟨valueCode, hvalue, combine, hcombine, rfl⟩ := h
      exact fun _ => .cons (.value rfl rfl rfl) fun _ => .fieldAssignment (hv _ _ _ hvalue) hcombine
    | global global => exact hglobal h
  | globalField name => exact hglobal h
  | field receiver name =>
    simp only [emitAssignment] at h
    rw [evalAssignment]
    cases hstorage : L.receiverStatic receiver name with
    | some storage =>
      rw [hstorage] at h
      exact hglobal h
    | none =>
      rw [hstorage] at h
      simp only [Except.bind_eq_ok, Except.pure_eq_ok] at h
      obtain ⟨first, hfirst, valueCode, hvalue, combine, hcombine, rfl⟩ := h
      rw [List.append_assoc first, List.append_assoc first, List.append_assoc first]
      exact fun _ => .operand (hsub receiver (by simp; omega) _ _ _ hfirst _) fun _ =>
        .fieldAssignment (hv _ _ _ hvalue) hcombine
  | initial reference =>
    simp only [emitAssignment] at h
    rw [evalAssignment]
    cases hstorage : scopeStorage L reference with
    | some storage =>
      rw [hstorage] at h
      exact hglobal h
    | none =>
      rw [hstorage] at h
      cases h
  | safeField receiver name =>
    simp only [emitAssignment, Except.bind_eq_ok, Except.pure_eq_ok] at h
    obtain ⟨first, hfirst, valueCode, hvalue, combine, hcombine, rfl⟩ := h
    exact .guard (hsub receiver (by simp; omega) _ _ _ hfirst) fun _ _ =>
      .fieldAssignment (hv _ _ _ hvalue) hcombine
  | index list index =>
    have hlist := hsub list (by simp; omega)
    have hindex := hsub index (by simp)
    simp only [emitAssignment] at h
    rw [evalAssignment]
    split at h
    · rename_i hop
      simp only [Except.bind_eq_ok, Except.pure_eq_ok] at h
      obtain ⟨valueCode, hvalue, first, hfirst, second, hsecond, rfl⟩ := h
      rw [if_pos hop, List.append_assoc, List.append_assoc]
      exact fun _ => .bind (hv _ _ _ hvalue _) fun v => .operand (hlist _ _ _ hfirst _) fun w =>
        .operand (hindex _ _ _ hsecond _) fun u => .rotate (.value rfl rfl rfl)
    · rename_i hop
      simp only [Except.bind_eq_ok, Except.pure_eq_ok] at h
      obtain ⟨first, hfirst, second, hsecond, valueCode, hvalue, op, hop', rfl⟩ := h
      have hcompound : compoundOperator? operator = some op := by
        unfold compoundOperator at hop'
        split at hop'
        · cases hop'; assumption
        · cases hop'
      rw [if_neg hop, hcompound, List.append_assoc, List.append_assoc]
      exact fun _ => .operand (hlist _ _ _ hfirst _) fun w =>
        .operand (hindex _ _ _ hsecond _) fun u => .bind (hv _ _ _ hvalue _) fun v =>
          .value rfl rfl rfl
  | safeIndex list index =>
    simp only [emitAssignment] at h
    rw [evalAssignment]
    split at h
    · cases h
    · rename_i hop
      simp only [Except.bind_eq_ok, Except.pure_eq_ok] at h
      obtain ⟨first, hfirst, second, hsecond, valueCode, hvalue, rfl⟩ := h
      rw [if_neg hop, List.append_assoc]
      exact .guard (hsub list (by simp; omega) _ _ _ hfirst) fun _ _ =>
        .operand (hsub index (by simp) _ _ _ hsecond _) fun u => .bind (hv _ _ _ hvalue _) fun v =>
          .value rfl rfl rfl
  | _ => cases h

end Dream64.Vm
