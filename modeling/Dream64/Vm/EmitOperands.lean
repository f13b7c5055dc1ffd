import Dream64.Vm.Fragment

/-!
# The code of operands

`Correct`: the code that the emitter appends for an expression computes the
expression. From it, what the loops over operand lists and argument vectors
emit, and the forms that are their operands and one instruction.
-/

namespace Dream64.Vm

variable {σ ε V : Type} {S : Semantics σ ε V} {L : LocalTable} {procs : Procedures} {code : Code}
  {pos n : Nat}

variable (S L procs code) in
/-- The code of `e`, wherever it is placed, computes `e`. -/
def Correct (e : Expression) : Prop :=
  ∀ pos n fragment, emitExpression L procs pos e = .ok fragment →
    Emits S code pos fragment single (eval S L procs n e)

/-! ## Operand lists -/

theorem emits_nil : Emits S code pos [] List.reverse (pure [] : Eval σ ε (List V)) :=
  fun _ => .pure rfl

/-- An operand, and the operands after it. -/
theorem Emits.cons {a b : Code} {x : Eval σ ε V} {y : Eval σ ε (List V)}
    (ha : Emits S code pos a single x) (hb : Emits S code (pos + a.length) b List.reverse y) :
    Emits S code pos (a ++ b) List.reverse (do
      let v ← .operand n x
      return v :: (← y)) := by
  rw [← List.append_nil b]
  exact fun _ => .operand (ha _) fun v => .bind (hb _) fun vs => .pure (by simp)

/-- Two operands, and the operands after them. -/
theorem Emits.cons2 {a b c : Code} {x y : Eval σ ε V} {z : Eval σ ε (List V)}
    (ha : Emits S code pos a single x) (hb : Emits S code (pos + a.length) b single y)
    (hc : Emits S code (pos + a.length + b.length) c List.reverse z) :
    Emits S code pos (a ++ b ++ c) List.reverse (do
      let v ← x
      let w ← .operand n y
      return v :: w :: (← z)) := by
  rw [List.append_assoc, ← List.append_nil c]
  exact fun _ => .bind (ha _) fun v => .operand (hb _) fun w => .bind (hc _) fun vs =>
    .pure (by simp)

variable {arguments : List Expression} {fragment : Code}

theorem emitAll_emits (hall : ∀ e ∈ arguments, Correct S L procs code e)
    (h : emitAll L procs pos arguments = .ok fragment) :
    Emits S code pos fragment List.reverse (evalAll S L procs n arguments) := by
  induction arguments generalizing pos n fragment with
  | nil => cases h; exact emits_nil
  | cons e rest ih =>
    simp only [emitAll, Except.bind_eq_ok, Except.pure_eq_ok] at h
    obtain ⟨first, hfirst, others, hothers, rfl⟩ := h
    simp only [List.forall_mem_cons] at hall
    exact .cons (hall.1 _ _ _ hfirst) (ih hall.2 hothers)

variable {overrides : List (FieldName × Expression)}

theorem emitOverrideValues_eq :
    emitOverrideValues L procs pos overrides = emitAll L procs pos (overrides.map (·.2)) := by
  induction overrides generalizing pos with
  | nil => rfl
  | cons p rest ih => simp only [emitOverrideValues, emitAll, List.map_cons, ih]

/-- The stores of a modified `new` leave the datum where it is. -/
theorem emitOverrideStores_computes {datum : V} {stack : List V}
    (hall : ∀ p ∈ overrides, Correct S L procs code p.2)
    (h : emitOverrideStores L procs pos overrides = .ok fragment) :
    Computes S code pos fragment (datum :: stack) (datum :: stack) noValue
      (evalOverrideStores S L procs n datum overrides) := by
  induction overrides generalizing pos n fragment with
  | nil => cases h; exact .pure rfl
  | cons e rest ih =>
    simp only [emitOverrideStores, Except.bind_eq_ok, Except.pure_eq_ok] at h
    obtain ⟨first, hfirst, others, hothers, rfl⟩ := h
    simp only [List.forall_mem_cons] at hall
    rw [List.append_assoc]
    refine .duplicate (.operand (hall.1 _ _ _ hfirst _) fun v => .cons (.store rfl rfl rfl) fun _ => ?_)
    have hnext : pos + (.duplicate :: first ++ [.storeField e.1] : Code).length =
        pos + 1 + first.length + 1 := by simp; omega
    rw [hnext] at hothers
    exact ih hall.2 hothers

/-- `newlist` constructs a datum for each argument. -/
theorem emitNewList_emits (hall : ∀ e ∈ arguments, Correct S L procs code e)
    (h : emitNewList L procs pos arguments = .ok fragment) :
    Emits S code pos fragment List.reverse (evalNewList S L procs n arguments) := by
  induction arguments generalizing pos n fragment with
  | nil => cases h; exact emits_nil
  | cons e rest ih =>
    simp only [emitNewList] at h
    split at h
    · cases h
    · simp only [Except.bind_eq_ok, Except.pure_eq_ok] at h
      obtain ⟨first, hfirst, others, hothers, rfl⟩ := h
      simp only [List.forall_mem_cons] at hall
      rw [List.length_append, ← Nat.add_assoc] at hothers
      rw [List.append_assoc, List.singleton_append, ← List.append_nil others]
      exact fun _ => .operand (hall.1 _ _ _ hfirst _) fun v =>
        .cons (.call rfl (by decide) rfl rfl) fun datum => .bind (ih hall.2 hothers _) fun vs =>
          .pure (by simp)

/-! ## Argument vectors -/

/-- Emitted arguments: each is emitted, or is the expansion of an emitted list. -/
def CorrectArguments (S : Semantics σ ε V) (L : LocalTable) (procs : Procedures) (code : Code)
    (arguments : List Expression) : Prop :=
  ∀ e ∈ arguments, Correct S L procs code e ∧
    ∀ values, e = .argList values → Correct S L procs code values

theorem argList_cases (e : Expression) :
    (∃ values, e = .argList values) ∨ ∀ values, e = .argList values → False := by
  cases e <;> simp

/-- An argument, and the arguments after it. -/
theorem EmitsArguments.cons {a b : Code} {x : Eval σ ε V} {y : Eval σ ε (List V)} {count : Nat}
    (ha : Emits S code pos a single x) (hb : EmitsArguments S code (pos + a.length) b count y) :
    EmitsArguments S code pos (a ++ b) (count + 1) (do
      let v ← .operand n x
      return v :: (← y)) := by
  refine ⟨.cons ha hb.emits, fun hσ hc => ?_⟩
  rw [placed_append] at hc
  have hpos := ha.length_pos hc.1 hσ.some
  have hle := hb.count_le hσ hc.2
  rw [List.length_append]
  omega

theorem emitBuiltinArguments_emits (hall : CorrectArguments S L procs code arguments)
    (h : emitBuiltinArguments L procs pos arguments = .ok fragment) :
    EmitsArguments S code pos fragment arguments.length (evalAll S L procs n arguments) := by
  induction arguments generalizing pos n fragment with
  | nil => cases h; exact ⟨emits_nil, fun _ _ => Nat.le_refl _⟩
  | cons e rest ih =>
    simp only [CorrectArguments, List.forall_mem_cons] at hall
    obtain ⟨values, rfl⟩ | hne := argList_cases e
    · rw [emitBuiltinArguments.eq_2] at h
      simp only [Except.bind_eq_ok, Except.pure_eq_ok] at h
      obtain ⟨first, hfirst, others, hothers, rfl⟩ := h
      exact .cons (hall.1.2 _ rfl _ _ _ hfirst) (ih hall.2 hothers)
    · rw [emitBuiltinArguments.eq_3 _ _ _ _ _ hne] at h
      simp only [Except.bind_eq_ok, Except.pure_eq_ok] at h
      obtain ⟨first, hfirst, others, hothers, rfl⟩ := h
      exact .cons (hall.1.1 _ _ _ hfirst) (ih hall.2 hothers)

variable {values : Code} {expansions : List Nat} {index : Nat}

theorem emitArgumentValues_cons {e : Expression} {rest : List Expression}
    (h : emitArgumentValues L procs pos index (e :: rest) = .ok (values, expansions)) :
    ∃ operand first others expansions', (e = operand ∨ e = .argList operand) ∧
      emitExpression L procs pos operand = .ok first ∧
      emitArgumentValues L procs (pos + first.length) (index + 1) rest = .ok (others, expansions') ∧
      values = first ++ others ∧
      (expansions' = expandedIndices (index + 1) rest →
        expansions = expandedIndices index (e :: rest)) := by
  obtain ⟨operand, rfl⟩ | hne := argList_cases e
  · rw [emitArgumentValues.eq_2] at h
    simp only [Except.bind_eq_ok, Except.pure_eq_ok, toLocalIndex_eq_ok, Prod.exists] at h
    obtain ⟨first, _, ⟨_, ⟨-, rfl⟩, _, hfirst, heq⟩, others, expansions', hothers, h⟩ := h
    cases heq; cases h
    exact ⟨operand, first, others, expansions', .inr rfl, hfirst, hothers, rfl, by rintro rfl; rfl⟩
  · rw [emitArgumentValues.eq_3 _ _ _ _ _ _ hne] at h
    simp only [Except.bind_eq_ok, Except.pure_eq_ok, Prod.exists] at h
    obtain ⟨first, _, ⟨_, hfirst, heq⟩, others, expansions', hothers, h⟩ := h
    cases heq; cases h
    refine ⟨e, first, others, expansions', .inl rfl, hfirst, hothers, rfl, ?_⟩
    rintro rfl
    rw [expandedIndices.eq_3 _ _ _ hne, List.nil_append]

theorem emitArgumentValues_emits (hall : CorrectArguments S L procs code arguments)
    (h : emitArgumentValues L procs pos index arguments = .ok (values, expansions)) :
    expansions = expandedIndices index arguments ∧
      EmitsArguments S code pos values arguments.length (evalAll S L procs n arguments) := by
  induction arguments generalizing pos n index values expansions with
  | nil => cases h; exact ⟨rfl, emits_nil, fun _ _ => Nat.le_refl _⟩
  | cons e rest ih =>
    obtain ⟨operand, first, others, expansions', he, hfirst, hothers, rfl, hexp⟩ :=
      emitArgumentValues_cons h
    simp only [CorrectArguments, List.forall_mem_cons] at hall
    have hemits : Emits S code pos first single (eval S L procs n e) := by
      obtain rfl | rfl := he
      · exact hall.1.1 _ _ _ hfirst
      · exact hall.1.2 _ rfl _ _ _ hfirst
    obtain ⟨hexp', hrest⟩ := ih (n := n + e.size) hall.2 hothers
    exact ⟨hexp hexp', .cons hemits hrest⟩

section Named

variable {arguments : List (Option String × Expression)}

theorem emitNamedArguments_eq : emitNamedArguments L procs pos index arguments =
    emitArgumentValues L procs pos index (arguments.map (·.2)) := by
  induction arguments generalizing pos index with
  | nil => rfl
  | cons p rest ih =>
    rw [List.map_cons]
    unfold emitNamedArguments emitArgumentValues
    exact congrArg (bind _) (funext fun first =>
      congrArg (· >>= fun others => pure (first.1 ++ others.1, first.2 ++ others.2)) ih)

end Named

theorem emitPickEntries_cons {expands : Bool} {weight : Option Expression} {candidate : Expression}
    {rest : List (Option Expression × Expression)}
    (h : emitPickEntries L procs expands pos ((weight, candidate) :: rest) = .ok fragment) :
    ∃ operand first second others, (candidate = operand ∨ candidate = .argList operand) ∧
      (∀ w, weight = some w → emitExpression L procs pos w = .ok first) ∧
      (weight = none → first = []) ∧
      emitExpression L procs (pos + first.length) operand = .ok second ∧
      emitPickEntries L procs expands (pos + first.length + second.length) rest = .ok others ∧
      fragment = first ++ second ++ others := by
  cases weight with
  | none =>
    rw [emitPickEntries.eq_3] at h
    simp only [Except.bind_eq_ok, Except.pure_eq_ok, Except.ok.injEq, exists_eq_left'] at h
    obtain ⟨second, hsecond, others, hothers, rfl⟩ := h
    split at hsecond
    · exact ⟨_, [], second, others, .inr rfl, by simp, by simp, hsecond, hothers, rfl⟩
    · exact ⟨_, [], second, others, .inl rfl, by simp, by simp, hsecond, hothers, rfl⟩
  | some weight =>
    rw [emitPickEntries.eq_2] at h
    simp only [Except.bind_eq_ok, Except.pure_eq_ok] at h
    obtain ⟨first, hfirst, second, hsecond, others, hothers, rfl⟩ := h
    split at hsecond
    · exact ⟨_, first, second, others, .inr rfl, by simpa using hfirst, by simp, hsecond, hothers,
        rfl⟩
    · exact ⟨_, first, second, others, .inl rfl, by simpa using hfirst, by simp, hsecond, hothers,
        rfl⟩

theorem emitPickEntries_emits {expands : Bool} {entries : List (Option Expression × Expression)}
    (hweight : ∀ p ∈ entries, ∀ w, p.1 = some w → Correct S L procs code w)
    (hall : CorrectArguments S L procs code (entries.map (·.2)))
    (h : emitPickEntries L procs expands pos entries = .ok fragment) :
    Emits S code pos fragment List.reverse (evalPickEntries S L procs n entries) := by
  induction entries generalizing pos n fragment with
  | nil => cases h; exact emits_nil
  | cons p rest ih =>
    obtain ⟨weight, candidate⟩ := p
    simp only [CorrectArguments, List.map_cons, List.forall_mem_cons] at hall
    simp only [List.forall_mem_cons] at hweight
    obtain ⟨operand, first, second, others, he, hfirst, hnone, hsecond, hothers, rfl⟩ :=
      emitPickEntries_cons h
    have hcandidate : ∀ n, Emits S code (pos + first.length) second single
        (eval S L procs n candidate) := by
      intro n
      obtain rfl | rfl := he
      · exact hall.1.1 _ _ _ hsecond
      · exact hall.1.2 _ rfl _ _ _ hsecond
    cases weight with
    | none =>
      obtain rfl := hnone rfl
      exact .cons (hcandidate n) (ih hweight.2 hall.2 hothers)
    | some weight =>
      exact .cons2 (hweight.1 _ rfl _ _ _ (hfirst _ rfl)) (hcandidate _)
        (ih hweight.2 hall.2 hothers)

/-- The operands of one entry of a list literal. -/
def ListExpressionEntry.operands : ListExpressionEntry → List Expression
  | .positional value => [value]
  | .associative key value => [key, value]

theorem emitListEntries_emits {entries : List ListExpressionEntry} {kinds : List ListEntryKind}
    (hall : ∀ entry ∈ entries, ∀ e ∈ entry.operands, Correct S L procs code e)
    (h : emitListEntries L procs pos entries = .ok (values, kinds)) :
    kinds = entries.map entryKind ∧
      Emits S code pos values List.reverse (evalEntries S L procs n entries) := by
  induction entries generalizing pos n values kinds with
  | nil => cases h; exact ⟨rfl, emits_nil⟩
  | cons entry rest ih =>
    simp only [List.forall_mem_cons] at hall
    cases entry with
    | positional value =>
      simp only [emitListEntries, Except.bind_eq_ok, Except.pure_eq_ok, Prod.exists] at h
      obtain ⟨first, hfirst, others, kinds', hothers, h⟩ := h
      cases h
      obtain ⟨rfl, hrest⟩ := ih (n := n + value.size) hall.2 hothers
      exact ⟨rfl, .cons (hall.1 _ (by simp [ListExpressionEntry.operands]) _ _ _ hfirst) hrest⟩
    | associative key value =>
      simp only [emitListEntries, Except.bind_eq_ok, Except.pure_eq_ok, Prod.exists] at h
      obtain ⟨first, hfirst, second, hsecond, others, kinds', hothers, h⟩ := h
      cases h
      obtain ⟨rfl, hrest⟩ := ih (n := n + key.size + value.size) hall.2 hothers
      simp only [ListExpressionEntry.operands, List.forall_mem_cons] at hall
      rw [evalEntries]
      refine ⟨rfl, .cons2 ?_ (hall.1.2.1 _ _ _ hsecond) hrest⟩
      cases hkey : bareKey key with
      | some name =>
        rw [hkey] at hfirst
        cases hfirst
        exact emits_value rfl
      | none =>
        rw [hkey] at hfirst
        exact hall.1.1 _ _ _ hfirst

/-! ## Forms whose code is their operands and one instruction -/

section Forms

variable {e a b : Expression} {arguments : List Expression} {i : Instruction}

theorem correct_value (hemit : ∀ pos, emitExpression L procs pos e = .ok [i])
    (heval : ∀ n, eval S L procs n e = evalValue S i [])
    (hshape : i.shape = some (.value 0)) : Correct S L procs code e := by
  intro pos n fragment h
  rw [hemit] at h
  cases h
  rw [heval]
  exact emits_value hshape

theorem correct_error {message : CompileError}
    (hemit : ∀ pos, emitExpression L procs pos e = .error message) : Correct S L procs code e := by
  intro pos n fragment h
  rw [hemit] at h
  cases h

theorem correct_value1 (ha : Correct S L procs code a)
    (hemit : ∀ pos, emitExpression L procs pos e =
      do return (← emitExpression L procs pos a) ++ [i])
    (heval : ∀ n, ∃ m k, eval S L procs n e =
      do evalValue S i [← .operand m (eval S L procs k a)])
    (hshape : i.shape = some (.value 1)) : Correct S L procs code e := by
  intro pos n fragment h
  simp only [hemit, Except.bind_eq_ok, Except.pure_eq_ok] at h
  obtain ⟨first, hfirst, rfl⟩ := h
  obtain ⟨m, k, heval⟩ := heval n
  rw [heval]
  exact .value1 (ha _ _ _ hfirst) hshape

theorem correct_value2 (ha : Correct S L procs code a) (hb : Correct S L procs code b)
    (hemit : ∀ pos, emitExpression L procs pos e = do
      let first ← emitExpression L procs pos a
      let second ← emitExpression L procs (pos + first.length) b
      return first ++ second ++ [i])
    (heval : ∀ n, ∃ m k, eval S L procs n e = do
      let first ← .operand m (eval S L procs m a)
      let second ← .operand k (eval S L procs k b)
      evalValue S i [first, second])
    (hshape : i.shape = some (.value 2)) : Correct S L procs code e := by
  intro pos n fragment h
  simp only [hemit, Except.bind_eq_ok, Except.pure_eq_ok] at h
  obtain ⟨first, hfirst, second, hsecond, rfl⟩ := h
  obtain ⟨m, k, heval⟩ := heval n
  rw [heval]
  exact .value2 (ha _ _ _ hfirst) (hb _ _ _ hsecond) hshape

theorem correct_all {i : Nat → Instruction}
    (hall : ∀ a ∈ arguments, Correct S L procs code a)
    (hemit : ∀ pos, emitExpression L procs pos e = do
      let values ← emitAll L procs pos arguments
      return values ++ [i (← countU8 arguments.length)])
    (heval : ∀ n, eval S L procs n e = do
      evalValue S (i arguments.length) (← evalAll S L procs (n + 1) arguments))
    (hshape : ∀ c, (i c).shape = some (.value c)) : Correct S L procs code e := by
  intro pos n fragment h
  simp only [hemit, Except.bind_eq_ok, Except.pure_eq_ok, countU8_eq_ok] at h
  obtain ⟨values, hvalues, c, ⟨-, rfl⟩, rfl⟩ := h
  rw [heval]
  exact .valueAll (emitAll_emits hall hvalues) (fun _ _ _ => evalAll_length) (hshape _)

end Forms

theorem all_smaller {m : Nat} (hsub : ∀ e, sizeOf e < m → Correct S L procs code e)
    (h : sizeOf arguments < m) : ∀ e ∈ arguments, Correct S L procs code e := by
  intro e he
  have hlt := List.sizeOf_lt_of_mem he
  exact hsub e (by omega)

end Dream64.Vm
