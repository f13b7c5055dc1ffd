import Mathlib

/-!
# Subtracting from the end of a list

`removeLast x` removes the last `x` of a list, and `subtract xs` does so for
every entry of `xs`. `dropQuota` is the same in one pass from the end, with a
number of entries still to be removed for each value. What is subtracted at the
end of a list commutes with removing the first `x`, and with appending an `x`
that is not subtracted.
-/

namespace ListSubtract

variable {α : Type} [DecidableEq α]

def removeLast (x : α) : List α → List α
  | [] => []
  | y :: ys => if x ∈ ys then y :: removeLast x ys else if y = x then ys else y :: ys

def subtract (xs l : List α) : List α := xs.foldl (fun l x => removeLast x l) l

/-- One pass from the end, with what is left of the quotas. -/
def dropQuota (quota : α → Nat) : List α → (α → Nat) × List α
  | [] => (quota, [])
  | y :: ys =>
    let rest := dropQuota quota ys
    if 0 < rest.1 y then (Function.update rest.1 y (rest.1 y - 1), rest.2)
    else (rest.1, y :: rest.2)

variable {x y : α} {l xs ys : List α}

@[simp] theorem removeLast_nil : removeLast x [] = [] := rfl

@[simp] theorem subtract_nil : subtract [] l = l := rfl

@[simp] theorem subtract_cons : subtract (x :: xs) l = subtract xs (removeLast x l) := rfl

theorem subtract_append : subtract (xs ++ ys) l = subtract ys (subtract xs l) :=
  List.foldl_append

theorem subtract_from_nil (xs : List α) : subtract xs [] = [] := by
  induction xs with
  | nil => rfl
  | cons x xs ih => rw [subtract_cons, removeLast_nil, ih]

theorem removeLast_of_not_mem (h : x ∉ l) : removeLast x l = l := by
  cases l with
  | nil => rfl
  | cons y ys =>
    rw [List.mem_cons, not_or] at h
    rw [removeLast, if_neg h.2, if_neg (Ne.symm h.1)]

/-- Nothing to subtract. -/
theorem subtract_of_disjoint (h : ∀ x ∈ xs, x ∉ l) : subtract xs l = l := by
  induction xs with
  | nil => rfl
  | cons x xs ih =>
    obtain ⟨hx, hxs⟩ := List.forall_mem_cons.1 h
    rw [subtract_cons, removeLast_of_not_mem hx, ih hxs]

theorem count_removeLast (x y : α) (l : List α) :
    (removeLast x l).count y = l.count y - if x = y then 1 else 0 := by
  induction l with
  | nil => simp
  | cons z zs ih =>
    rw [removeLast]
    by_cases hmem : x ∈ zs
    · rw [if_pos hmem, List.count_cons, List.count_cons, ih]
      by_cases heq : x = y
      · subst heq
        have hpos : 0 < zs.count x := List.count_pos_iff.2 hmem
        rw [if_pos rfl]
        omega
      · rw [if_neg heq]
        omega
    · rw [if_neg hmem]
      by_cases hz : z = x
      · subst hz
        rw [if_pos rfl, List.count_cons]
        by_cases heq : z = y
        · simp [heq]
        · simp [heq]
      · rw [if_neg hz]
        by_cases heq : x = y
        · subst heq
          have hcons : x ∉ z :: zs := by
            rw [List.mem_cons, not_or]
            exact ⟨Ne.symm hz, hmem⟩
          rw [List.count_eq_zero_of_not_mem hcons, Nat.zero_sub]
        · rw [if_neg heq]
          omega

/-! ## The pass over the quotas -/

theorem dropQuota_fst (quota : α → Nat) (l : List α) (a : α) :
    (dropQuota quota l).1 a = quota a - l.count a := by
  induction l with
  | nil => rfl
  | cons y ys ih =>
    rw [dropQuota, List.count_cons]
    by_cases hpos : 0 < (dropQuota quota ys).1 y
    · rw [if_pos hpos]
      show Function.update (dropQuota quota ys).1 y _ a = _
      by_cases heq : a = y
      · subst heq
        rw [Function.update_self, ih, if_pos (beq_self_eq_true a)]
        omega
      · rw [Function.update_of_ne heq, ih, if_neg (by simpa using Ne.symm heq)]
        rfl
    · rw [if_neg hpos]
      show (dropQuota quota ys).1 a = _
      by_cases heq : a = y
      · subst heq
        rw [ih] at hpos ⊢
        rw [if_pos (beq_self_eq_true a)]
        omega
      · rw [ih, if_neg (by simpa using Ne.symm heq)]
        rfl

theorem dropQuota_cons (quota : α → Nat) (y : α) (ys : List α) :
    (dropQuota quota (y :: ys)).2 =
      if ys.count y < quota y then (dropQuota quota ys).2 else y :: (dropQuota quota ys).2 := by
  have hquota := dropQuota_fst quota ys y
  rw [dropQuota]
  by_cases hlt : ys.count y < quota y
  · have hpos : 0 < (dropQuota quota ys).1 y := by omega
    rw [if_pos hlt, if_pos hpos]
  · have hzero : ¬ 0 < (dropQuota quota ys).1 y := by omega
    rw [if_neg hlt, if_neg hzero]

/-- One more of a value in the quotas removes its last occurrence. -/
theorem dropQuota_add (quota : α → Nat) (x : α) (l : List α) :
    (dropQuota (fun a => quota a + if x = a then 1 else 0) l).2 =
      (dropQuota quota (removeLast x l)).2 := by
  induction l with
  | nil => rfl
  | cons y ys ih =>
    rw [dropQuota_cons, removeLast, ih]
    by_cases hmem : x ∈ ys
    · have hpos : 0 < ys.count x := List.count_pos_iff.2 hmem
      rw [if_pos hmem, dropQuota_cons, count_removeLast]
      by_cases heq : x = y
      · subst heq
        rw [if_pos rfl]
        by_cases hlt : ys.count x < quota x + 1
        · rw [if_pos hlt, if_pos (by omega)]
        · rw [if_neg hlt, if_neg (by omega)]
      · rw [if_neg heq]
        rfl
    · rw [if_neg hmem, removeLast_of_not_mem hmem]
      by_cases heq : y = x
      · subst heq
        rw [if_pos rfl, if_pos rfl, List.count_eq_zero_of_not_mem hmem, if_pos (by omega)]
      · rw [if_neg heq, if_neg (Ne.symm heq), dropQuota_cons]
        rfl

/-- The pass subtracts the values whose numbers are the quotas. -/
theorem dropQuota_count (xs l : List α) :
    (dropQuota (fun a => xs.count a) l).2 = subtract xs l := by
  induction xs generalizing l with
  | nil =>
    have hzero : ∀ l : List α, (dropQuota (fun _ => 0) l).2 = l := by
      intro l
      induction l with
      | nil => rfl
      | cons y ys ih => rw [dropQuota_cons, if_neg (Nat.not_lt_zero _), ih]
    exact hzero l
  | cons x xs ih =>
    rw [subtract_cons, ← ih, ← dropQuota_add]
    refine congrArg Prod.snd (congrArg (dropQuota · l) (funext fun a => ?_))
    rw [List.count_cons]
    by_cases heq : x = a
    · simp [heq]
    · simp [heq]

/-! ## What commutes with subtracting -/

theorem removeLast_erase (x y : α) (l : List α) :
    (removeLast x l).erase y = removeLast x (l.erase y) := by
  induction l with
  | nil => rfl
  | cons z zs ih =>
    rw [removeLast, List.erase_cons]
    by_cases hmem : x ∈ zs
    · rw [if_pos hmem, List.erase_cons]
      by_cases hz : (z == y) = true
      · rw [if_pos hz, if_pos hz]
      · rw [if_neg hz, if_neg hz, removeLast, ih]
        by_cases hmem' : x ∈ zs.erase y
        · rw [if_pos hmem']
        · -- the last `x` is the first `y`
          rw [if_neg hmem', removeLast_of_not_mem hmem']
          by_cases hzx : z = x
          · rw [if_pos hzx]
            have hxy : x = y := by
              by_contra hne
              exact hmem' ((List.mem_erase_of_ne hne).2 hmem)
            exact absurd (hzx.trans hxy) (by simpa using hz)
          · rw [if_neg hzx]
    · rw [if_neg hmem]
      have hmem' : x ∉ zs.erase y := fun h => hmem (List.mem_of_mem_erase h)
      by_cases hz : (z == y) = true
      · rw [if_pos hz, removeLast_of_not_mem hmem]
        by_cases hzx : z = x
        · have hxy : x = y := hzx.symm.trans (by simpa using hz)
          rw [if_pos hzx, ← hxy, List.erase_of_not_mem hmem]
        · rw [if_neg hzx, List.erase_cons, if_pos hz]
      · rw [if_neg hz, removeLast, if_neg hmem']
        by_cases hzx : z = x
        · rw [if_pos hzx, if_pos hzx]
        · rw [if_neg hzx, if_neg hzx, List.erase_cons, if_neg hz]

theorem subtract_erase (xs l : List α) (y : α) :
    (subtract xs l).erase y = subtract xs (l.erase y) := by
  induction xs generalizing l with
  | nil => rfl
  | cons x xs ih => rw [subtract_cons, subtract_cons, ih, removeLast_erase]

theorem removeLast_concat (h : x ≠ y) (l : List α) :
    removeLast x (l ++ [y]) = removeLast x l ++ [y] := by
  induction l with
  | nil =>
    have hmem : x ∉ ([] ++ [y] : List α) := by simpa using h
    rw [removeLast_of_not_mem hmem]
    rfl
  | cons z zs ih =>
    rw [List.cons_append, removeLast, removeLast, ih]
    have hmem : x ∈ zs ++ [y] ↔ x ∈ zs := by simp [h]
    simp only [hmem]
    split
    · rfl
    · split <;> rfl

theorem subtract_concat (h : y ∉ xs) (l : List α) :
    subtract xs (l ++ [y]) = subtract xs l ++ [y] := by
  induction xs generalizing l with
  | nil => rfl
  | cons x xs ih =>
    rw [List.mem_cons, not_or] at h
    rw [subtract_cons, subtract_cons, removeLast_concat (Ne.symm h.1), ih h.2]

end ListSubtract
