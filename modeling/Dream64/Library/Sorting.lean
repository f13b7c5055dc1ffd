import Mathlib

/-!
# Grouping and sorting by a key

A list that is taken apart by the keys of its entries is put together again by
sorting it, if the entries had been in order.
-/

namespace Sorting

variable {α κ : Type}

/-- The groups of a list by their keys hold its entries. -/
theorem flatMap_filter_perm [DecidableEq κ] (key : α → κ) {keys : List κ} (hkeys : keys.Nodup)
    {l : List α} (hall : ∀ a ∈ l, key a ∈ keys) :
    (keys.flatMap fun k => l.filter fun a => key a = k).Perm l := by
  induction keys generalizing l with
  | nil =>
    have hnil : l = [] := List.eq_nil_iff_forall_not_mem.2 fun a ha => List.not_mem_nil (hall a ha)
    rw [hnil]
    rfl
  | cons k keys ih =>
    obtain ⟨hk, hkeys⟩ := List.nodup_cons.1 hkeys
    have hothers : (keys.flatMap fun k' => l.filter fun a => key a = k') =
        keys.flatMap fun k' => (l.filter fun a => ! decide (key a = k)).filter fun a => key a = k' := by
      refine List.flatMap_congr fun k' hk' => ?_
      rw [List.filter_filter]
      refine List.filter_congr fun a _ => ?_
      by_cases heq : key a = k'
      · have hne : key a ≠ k := fun hsame => hk (hsame ▸ heq ▸ hk')
        simp [heq, heq ▸ hne]
      · simp [heq]
    rw [List.flatMap_cons, hothers]
    refine List.Perm.trans (List.Perm.append_left _ (ih hkeys fun a ha => ?_))
      (List.filter_append_perm _ l)
    obtain ⟨hmem, hne⟩ := List.mem_filter.1 ha
    rcases List.mem_cons.1 (hall a hmem) with heq | hmem
    · simp [heq] at hne
    · exact hmem

/-- Sorting by a key puts the keys in order. -/
theorem mergeSort_sorted [LinearOrder κ] (key : α → κ) (l : List α) :
    (l.mergeSort fun a b => key a ≤ key b).Pairwise fun a b => key a ≤ key b := by
  refine (List.pairwise_mergeSort (fun a b c hab hbc => ?_) (fun a b => ?_) l).imp
    of_decide_eq_true
  · simp only [decide_eq_true_eq] at hab hbc ⊢
    exact hab.trans hbc
  · simp only [Bool.or_eq_true, decide_eq_true_eq]
    exact le_total (key a) (key b)

/-- Sorting puts entries in the order that their keys have. -/
theorem mergeSort_eq_of_perm (key : α → Nat) {l m : List α} (h : l.Perm m)
    (hm : m.Pairwise fun a b => key a < key b) :
    (l.mergeSort fun a b => key a ≤ key b) = m := by
  have hsorted := mergeSort_sorted key l
  have hnodup : (m.map key).Nodup := (List.pairwise_map.2 hm).imp Nat.ne_of_lt
  have hperm := (List.mergeSort_perm l fun a b => key a ≤ key b).trans h
  refine List.Perm.eq_of_pairwise (fun a b ha hb hab hba => ?_) hsorted (hm.imp Nat.le_of_lt) hperm
  exact List.inj_on_of_nodup_map hnodup (hperm.mem_iff.1 ha) hb (Nat.le_antisymm hab hba)

/-- What is in order and among the entries of a list in order stands there in this order. -/
theorem sublist_of_subset [LinearOrder κ] (key : α → κ) {l m : List α}
    (hl : l.Pairwise fun a b => key a < key b) (hm : m.Pairwise fun a b => key a < key b)
    (hsub : ∀ a ∈ l, a ∈ m) : l.Sublist m := by
  have hnodup : l.Nodup := hl.imp fun hlt => ne_of_apply_ne key hlt.ne
  have hasymm : Std.Antisymm fun a b : α => key a < key b := ⟨fun a b hab hba => absurd hab hba.not_gt⟩
  exact List.sublist_of_subperm_of_pairwise (List.subperm_of_subset hnodup hsub) hl hm

/-- Keys that are all different are found wherever they stand. -/
theorem lookup_perm [BEq κ] [LawfulBEq κ] {l m : List (κ × α)} (h : l.Perm m)
    (hnodup : (l.map (·.1)).Nodup) (k : κ) : l.lookup k = m.lookup k := by
  have hmem {l : List (κ × α)} (hnodup : (l.map (·.1)).Nodup) (a : α) :
      l.lookup k = some a ↔ (k, a) ∈ l := by
    constructor
    · intro hlookup
      obtain ⟨l₁, l₂, rfl, -⟩ := List.lookup_eq_some_iff.1 hlookup
      exact List.mem_append_right _ List.mem_cons_self
    · intro hmem
      obtain ⟨b, hb⟩ := Option.isSome_iff_exists.1
        (List.lookup_isSome_iff.2 ⟨_, hmem, beq_self_eq_true k⟩)
      obtain ⟨l₁, l₂, rfl, -⟩ := List.lookup_eq_some_iff.1 hb
      have heq := List.inj_on_of_nodup_map hnodup hmem
        (List.mem_append_right _ List.mem_cons_self) rfl
      rw [hb, (Prod.mk.inj heq).2]
  refine Option.ext fun a => ?_
  rw [hmem hnodup, hmem ((h.map _).nodup hnodup), h.mem_iff]

end Sorting
