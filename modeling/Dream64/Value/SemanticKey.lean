import Dream64.Value.Datum

/-!
# Equality of values

The equality of DM values, and the keys that stand for it in hash maps. A value
without a key is one that is not equal to itself, or a modified type path.
-/

namespace Dream64

/-! ## Numbers -/

def DmNumberBits.isNaN (bits : DmNumberBits) : Bool :=
  bits.extractLsb' 23 8 == 255#8 && bits.extractLsb' 0 23 != 0#23

def DmNumberBits.isZero (bits : DmNumberBits) : Bool := bits.extractLsb' 0 31 == 0#31

/-- `partial_cmp` of two binary32 numbers is `Equal`. -/
def DmNumberBits.numericEq (left right : DmNumberBits) : Bool :=
  !left.isNaN && !right.isNaN && (left == right || left.isZero && right.isZero)

/-! ## Values -/

mutual

def Value.semanticEq : Value → Value → Bool
  | .null, .null => true
  | .number left, .number right => left.numericEq right
  | .text left, .text right => left == right
  | .file left, .file right => left == right
  | .typePath left, .typePath right => decide (left = right)
  | .modifiedTypePath base overrides, .modifiedTypePath base' overrides' =>
    decide (base = base') && overridesEq overrides overrides'
  | .datum left, .datum right => decide (left = right)
  | .list left, .list right => decide (left = right)
  | _, _ => false

def overridesEq : List (FieldName × Value) → List (FieldName × Value) → Bool
  | [], [] => true
  | left :: lefts, right :: rights => overrideEq left right && overridesEq lefts rights
  | _, _ => false

def overrideEq : FieldName × Value → FieldName × Value → Bool
  | (name, value), (name', value') => decide (name = name') && value.semanticEq value'

end

attribute [simp] Value.semanticEq overridesEq overrideEq

theorem DmNumberBits.numericEq_symm {left right : DmNumberBits}
    (h : left.numericEq right = true) : right.numericEq left = true := by
  simp only [numericEq, Bool.and_eq_true, Bool.or_eq_true, Bool.not_eq_true', beq_iff_eq] at h ⊢
  obtain ⟨⟨hleft, hright⟩, heq | ⟨hl, hr⟩⟩ := h
  · exact ⟨⟨hright, hleft⟩, Or.inl heq.symm⟩
  · exact ⟨⟨hright, hleft⟩, Or.inr ⟨hr, hl⟩⟩

theorem DmNumberBits.numericEq_trans {a b c : DmNumberBits} (hab : a.numericEq b = true)
    (hbc : b.numericEq c = true) : a.numericEq c = true := by
  simp only [numericEq, Bool.and_eq_true, Bool.or_eq_true, Bool.not_eq_true', beq_iff_eq] at hab hbc ⊢
  obtain ⟨⟨ha, -⟩, hab⟩ := hab
  obtain ⟨⟨-, hc⟩, hbc⟩ := hbc
  refine ⟨⟨ha, hc⟩, ?_⟩
  rcases hab with rfl | ⟨haz, hbz⟩
  · exact hbc
  · rcases hbc with rfl | ⟨-, hcz⟩
    · exact Or.inr ⟨haz, hbz⟩
    · exact Or.inr ⟨haz, hcz⟩

mutual

theorem Value.semanticEq_symm : ∀ (a b : Value), a.semanticEq b = true → b.semanticEq a = true
  | .modifiedTypePath base overrides, b, h => by
    cases b with
    | modifiedTypePath base' overrides' =>
      simp only [Value.semanticEq, Bool.and_eq_true, decide_eq_true_eq] at h ⊢
      exact ⟨h.1.symm, overridesEq_symm overrides overrides' h.2⟩
    | _ => simp at h
  | .number bits, b, h => by
    cases b with
    | number bits' => exact DmNumberBits.numericEq_symm (by simpa using h)
    | _ => simp at h
  | .null, b, h => by
    cases b with
    | null => rfl
    | _ => simp at h
  | .text left, b, h => by
    cases b with
    | text right =>
      rw [Value.semanticEq, beq_iff_eq] at h ⊢
      exact h.symm
    | _ => simp at h
  | .file left, b, h => by
    cases b with
    | file right =>
      rw [Value.semanticEq, beq_iff_eq] at h ⊢
      exact h.symm
    | _ => simp at h
  | .typePath left, b, h => by
    cases b with
    | typePath right =>
      rw [Value.semanticEq, decide_eq_true_eq] at h ⊢
      exact h.symm
    | _ => simp at h
  | .datum left, b, h => by
    cases b with
    | datum right =>
      rw [Value.semanticEq, decide_eq_true_eq] at h ⊢
      exact h.symm
    | _ => simp at h
  | .list left, b, h => by
    cases b with
    | list right =>
      rw [Value.semanticEq, decide_eq_true_eq] at h ⊢
      exact h.symm
    | _ => simp at h

theorem overridesEq_symm : ∀ (a b : List (FieldName × Value)), overridesEq a b = true →
    overridesEq b a = true
  | [], b, h => by
    cases b with
    | nil => rfl
    | cons => simp at h
  | left :: lefts, b, h => by
    cases b with
    | nil => simp at h
    | cons right rights =>
      simp only [overridesEq, Bool.and_eq_true] at h ⊢
      exact ⟨overrideEq_symm left right h.1, overridesEq_symm lefts rights h.2⟩

theorem overrideEq_symm : ∀ (a b : FieldName × Value), overrideEq a b = true →
    overrideEq b a = true
  | (name, value), (name', value'), h => by
    simp only [overrideEq, Bool.and_eq_true, decide_eq_true_eq] at h ⊢
    exact ⟨h.1.symm, Value.semanticEq_symm value value' h.2⟩

end

mutual

theorem Value.semanticEq_trans : ∀ (a b c : Value), a.semanticEq b = true →
    b.semanticEq c = true → a.semanticEq c = true
  | .modifiedTypePath base overrides, b, c, hab, hbc => by
    cases b with
    | modifiedTypePath base' overrides' =>
      cases c with
      | modifiedTypePath base'' overrides'' =>
        simp only [Value.semanticEq, Bool.and_eq_true, decide_eq_true_eq] at hab hbc ⊢
        exact ⟨hab.1.trans hbc.1, overridesEq_trans overrides overrides' overrides'' hab.2 hbc.2⟩
      | _ => simp at hbc
    | _ => simp at hab
  | .number bits, b, c, hab, hbc => by
    cases b with
    | number bits' =>
      cases c with
      | number bits'' =>
        simp only [Value.semanticEq] at hab hbc ⊢
        exact DmNumberBits.numericEq_trans hab hbc
      | _ => simp at hbc
    | _ => simp at hab
  | .null, b, c, hab, hbc => by
    cases b with
    | null => exact hbc
    | _ => simp at hab
  | .text left, b, c, hab, hbc => by
    cases b with
    | text right =>
      rw [Value.semanticEq, beq_iff_eq] at hab
      rwa [hab]
    | _ => simp at hab
  | .file left, b, c, hab, hbc => by
    cases b with
    | file right =>
      rw [Value.semanticEq, beq_iff_eq] at hab
      rwa [hab]
    | _ => simp at hab
  | .typePath left, b, c, hab, hbc => by
    cases b with
    | typePath right =>
      rw [Value.semanticEq, decide_eq_true_eq] at hab
      rwa [hab]
    | _ => simp at hab
  | .datum left, b, c, hab, hbc => by
    cases b with
    | datum right =>
      rw [Value.semanticEq, decide_eq_true_eq] at hab
      rwa [hab]
    | _ => simp at hab
  | .list left, b, c, hab, hbc => by
    cases b with
    | list right =>
      rw [Value.semanticEq, decide_eq_true_eq] at hab
      rwa [hab]
    | _ => simp at hab

theorem overridesEq_trans : ∀ (a b c : List (FieldName × Value)), overridesEq a b = true →
    overridesEq b c = true → overridesEq a c = true
  | [], b, c, hab, hbc => by
    cases b with
    | nil => exact hbc
    | cons => simp at hab
  | left :: lefts, b, c, hab, hbc => by
    cases b with
    | nil => simp at hab
    | cons middle middles =>
      cases c with
      | nil => simp at hbc
      | cons right rights =>
        simp only [overridesEq, Bool.and_eq_true] at hab hbc ⊢
        exact ⟨overrideEq_trans left middle right hab.1 hbc.1,
          overridesEq_trans lefts middles rights hab.2 hbc.2⟩

theorem overrideEq_trans : ∀ (a b c : FieldName × Value), overrideEq a b = true →
    overrideEq b c = true → overrideEq a c = true
  | (name, value), (name', value'), (name'', value''), hab, hbc => by
    simp only [overrideEq, Bool.and_eq_true, decide_eq_true_eq] at hab hbc ⊢
    exact ⟨hab.1.trans hbc.1, Value.semanticEq_trans value value' value'' hab.2 hbc.2⟩

end

/-! ## Keys -/

inductive SemanticKey where
  | null
  | number (bits : DmNumberBits)
  | text (text : String)
  | file (path : String)
  | typePath (path : TypePath)
  | datum (id : DatumId)
  | list (id : ListId)
deriving DecidableEq

def semanticKey : Value → Option SemanticKey
  | .null => some .null
  | .number bits =>
    if bits.isNaN then none else some (.number (if bits.isZero then 0 else bits))
  | .text text => some (.text text)
  | .file path => some (.file path)
  | .typePath path => some (.typePath path)
  | .datum id => some (.datum id)
  | .list id => some (.list id)
  | .modifiedTypePath _ _ => none

theorem DmNumberBits.numericEq_iff {a b : DmNumberBits} (ha : a.isNaN = false) (hb : b.isNaN = false) :
    a.numericEq b = true ↔ (if a.isZero then 0 else a) = if b.isZero then 0 else b := by
  have hzero : isZero 0 = true := by decide
  simp only [numericEq, ha, hb, Bool.not_false, Bool.true_and, Bool.or_eq_true, beq_iff_eq,
    Bool.and_eq_true]
  by_cases haz : a.isZero <;> by_cases hbz : b.isZero <;> simp only [haz, hbz, if_true]
  · simp
  · simp only [Bool.false_eq_true, and_false, or_false, if_false]
    constructor
    · rintro rfl
      exact absurd haz hbz
    · intro heq
      exact absurd (heq ▸ hzero) hbz
  · simp only [Bool.false_eq_true, false_and, or_false, if_false]
    constructor
    · rintro rfl
      exact absurd hbz haz
    · intro heq
      exact absurd (heq ▸ hzero) haz
  · simp

/-- The keys of values say which are equal. -/
theorem semanticEq_iff_key {a b : Value} {key : SemanticKey} (h : semanticKey a = some key) :
    a.semanticEq b = true ↔ semanticKey b = some key := by
  cases a with
  | number bits =>
    simp only [semanticKey] at h
    split at h
    · cases h
    · rename_i hnan
      cases h
      cases b with
      | number bits' =>
        simp only [Value.semanticEq, semanticKey]
        by_cases hnan' : bits'.isNaN = true
        · simp [hnan', DmNumberBits.numericEq]
        · rw [DmNumberBits.numericEq_iff (Bool.not_eq_true _ ▸ hnan) (Bool.not_eq_true _ ▸ hnan'),
            if_neg hnan', Option.some.injEq, SemanticKey.number.injEq]
          exact eq_comm
      | _ => simp [semanticKey]
  | modifiedTypePath => cases h
  | _ =>
    cases h
    cases b with
    | number bits =>
      simp only [semanticKey, Value.semanticEq]
      split <;> simp
    | _ =>
      simp only [semanticKey, Value.semanticEq, Option.some.injEq, reduceCtorEq,
        SemanticKey.text.injEq, SemanticKey.file.injEq, SemanticKey.typePath.injEq,
        SemanticKey.datum.injEq, SemanticKey.list.injEq, decide_eq_true_eq, beq_iff_eq] <;>
        exact eq_comm

end Dream64
