import Mathlib

/-!
# Sweeps

A set of keys grows by sweeps over a list of entries: an entry whose rule holds
of the set marks its key, in the same sweep already for the entries behind it.
The sweeps end with one that marks nothing new. The set that is reached is
closed under the rules (`settle_closed`) and has no keys but those the rules
call for (`settle_least`).
-/

namespace Sweep

variable {α κ : Type} [DecidableEq κ] (entries : List α) (key : α → κ)
  (rule : α → Finset κ → Bool)

def mark (marked : Finset κ) (entry : α) : Finset κ :=
  if rule entry marked then insert (key entry) marked else marked

def sweep (marked : Finset κ) : Finset κ := entries.foldl (mark key rule) marked

variable {key rule} in
theorem subset_mark (marked : Finset κ) (entry : α) : marked ⊆ mark key rule marked entry := by
  rw [mark]
  split
  · exact Finset.subset_insert _ _
  · exact Finset.Subset.refl _

theorem subset_sweep (marked : Finset κ) : marked ⊆ sweep entries key rule marked := by
  induction entries generalizing marked with
  | nil => exact Finset.Subset.refl _
  | cons entry entries ih => exact (subset_mark marked entry).trans (ih _)

/-- What a sweep adds are keys of entries. -/
theorem sweep_subset (marked : Finset κ) :
    sweep entries key rule marked ⊆ marked ∪ (entries.map key).toFinset := by
  induction entries generalizing marked with
  | nil => exact Finset.subset_union_left
  | cons entry entries ih =>
    refine (ih (mark key rule marked entry)).trans ?_
    intro k hk
    rw [List.map_cons, List.toFinset_cons]
    have hmark : mark key rule marked entry ⊆ insert (key entry) marked := by
      rw [mark]
      split
      · exact Finset.Subset.refl _
      · exact Finset.subset_insert _ _
    rcases Finset.mem_union.1 hk with hk | hk
    · rcases Finset.mem_insert.1 (hmark hk) with rfl | hk
      · exact Finset.mem_union_right _ (Finset.mem_insert_self _ _)
      · exact Finset.mem_union_left _ hk
    · exact Finset.mem_union_right _ (Finset.mem_insert_of_mem hk)

/-- A sweep that marks something leaves fewer keys to be marked. -/
theorem card_sdiff_sweep_lt {marked : Finset κ}
    (h : (sweep entries key rule marked).card ≠ marked.card) :
    ((entries.map key).toFinset \ sweep entries key rule marked).card <
      ((entries.map key).toFinset \ marked).card := by
  have hsub := subset_sweep entries key rule marked
  apply Finset.card_lt_card
  refine ⟨Finset.sdiff_subset_sdiff (Finset.Subset.refl _) hsub, fun hback => h ?_⟩
  congr 1
  refine Finset.Subset.antisymm (fun k hk => ?_) hsub
  by_contra hnot
  rcases Finset.mem_union.1 (sweep_subset entries key rule marked hk) with hold | hnew
  · exact hnot hold
  · exact (Finset.mem_sdiff.1 (hback (Finset.mem_sdiff.2 ⟨hnew, hnot⟩))).2 hk

/-- Sweeps until one marks nothing new. -/
def settle (marked : Finset κ) : Finset κ :=
  let next := sweep entries key rule marked
  if next.card = marked.card then next else settle next
termination_by ((entries.map key).toFinset \ marked).card
decreasing_by
  rename_i hne
  exact card_sdiff_sweep_lt entries key rule hne

variable {entries key rule}

/-- The rules of the set call for nothing outside of it. -/
def Closed (entries : List α) (key : α → κ) (rule : α → Finset κ → Bool) (marked : Finset κ) :
    Prop := ∀ entry ∈ entries, rule entry marked = true → key entry ∈ marked

theorem closed_of_sweep {marked : Finset κ} (h : sweep entries key rule marked = marked) :
    Closed entries key rule marked := by
  induction entries with
  | nil => exact fun _ hmem => absurd hmem List.not_mem_nil
  | cons entry entries ih =>
    have hmark : mark key rule marked entry = marked := by
      refine Finset.Subset.antisymm ?_ (subset_mark marked entry)
      conv_rhs => rw [← h]
      exact subset_sweep entries key rule _
    have hrest : sweep entries key rule marked = marked := by
      have hsweep : sweep entries key rule (mark key rule marked entry) = marked := h
      rwa [hmark] at hsweep
    intro other hmem hrule
    rcases List.mem_cons.1 hmem with rfl | hmem
    · rw [mark, if_pos hrule] at hmark
      exact Finset.insert_eq_self.1 hmark
    · exact ih hrest other hmem hrule

theorem settle_closed (marked : Finset κ) :
    Closed entries key rule (settle entries key rule marked) := by
  induction marked using settle.induct entries key rule with
  | case1 marked next hcard =>
    rw [settle, if_pos hcard]
    have heq : sweep entries key rule marked = marked :=
      (Finset.eq_of_subset_of_card_le (subset_sweep entries key rule marked) hcard.le).symm
    rw [heq]
    exact closed_of_sweep heq
  | case2 marked next hcard ih =>
    rw [settle, if_neg hcard]
    exact ih

section

variable {P : κ → Prop} {marked : Finset κ}
  (hP : ∀ entry ∈ entries, ∀ marked : Finset κ, (∀ k ∈ marked, P k) → rule entry marked = true → P
    (key entry)) (h : ∀ k ∈ marked, P k)

include hP h

theorem sweep_least : ∀ k ∈ sweep entries key rule marked, P k := by
  induction entries generalizing marked with
  | nil => exact h
  | cons entry entries ih =>
    refine ih (fun other hmem => hP other (List.mem_cons_of_mem _ hmem)) ?_
    intro k hk
    rw [mark] at hk
    split at hk
    · rename_i hrule
      rcases Finset.mem_insert.1 hk with rfl | hk
      · exact hP entry List.mem_cons_self marked h hrule
      · exact h k hk
    · exact h k hk

/-- What the rules derive from the marked keys holds of all that is reached. -/
theorem settle_least : ∀ k ∈ settle entries key rule marked, P k := by
  induction marked using settle.induct entries key rule with
  | case1 marked next hcard =>
    rw [settle, if_pos hcard]
    exact sweep_least hP h
  | case2 marked next hcard ih =>
    rw [settle, if_neg hcard]
    exact ih (sweep_least hP h)

end

end Sweep
