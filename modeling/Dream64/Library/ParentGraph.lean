import Mathlib

/-!
# Graphs in which every node has at most one parent

`f a` is the parent of `a`, if it has one. `climb f k a` is the node `k`
parents above `a`. From a node of a finite closed set the climb either ends
or runs into a cycle. `resetCycles f g` gives the nodes on the cycles of `f`
the parents of `g`; whether every climb then ends is a matter of the steps
`Reenter f g` from one cycle to the next.
-/

namespace ParentGraph

variable {α : Type} (f g : α → Option α)

def climb : Nat → α → Option α
  | 0, a => some a
  | k + 1, a => (f a).bind (climb k)

def Ends (a : α) : Prop := ∃ k, climb f k a = none

def OnCycle (a : α) : Prop := ∃ k, climb f (k + 1) a = some a

variable {f g} {a b c : α} {j k : Nat}

@[simp] theorem climb_zero : climb f 0 a = some a := rfl

theorem climb_succ : climb f (k + 1) a = (f a).bind (climb f k) := rfl

theorem climb_add (j k : Nat) (a : α) : climb f (j + k) a = (climb f j a).bind (climb f k) := by
  induction j generalizing a with
  | zero => simp
  | succ j ih =>
    rw [Nat.succ_add, climb_succ, climb_succ]
    cases f a with
    | none => rfl
    | some b => exact ih b

theorem climb_one : climb f 1 a = f a := by
  rw [climb_succ]
  cases f a <;> rfl

theorem climb_trans (hj : climb f j a = some b) (hk : climb f k b = some c) :
    climb f (j + k) a = some c := by
  rw [climb_add, hj]
  exact hk

theorem climb_cut (h : climb f (j + k) a = some c) :
    ∃ b, climb f j a = some b ∧ climb f k b = some c := by
  rw [climb_add] at h
  exact Option.bind_eq_some_iff.1 h

theorem climb_none (hj : climb f j a = none) : climb f (j + k) a = none := by
  rw [climb_add, hj]
  rfl

theorem Ends.above (h : Ends f a) (hb : climb f k a = some b) : Ends f b := by
  obtain ⟨j, hj⟩ := h
  refine ⟨j, ?_⟩
  have hnone : climb f (k + j) a = none := by
    rw [Nat.add_comm]
    exact climb_none hj
  rw [climb_add, hb] at hnone
  exact hnone

/-- A cycle is climbed any number of times. -/
theorem climb_cycle (h : climb f (k + 1) a = some a) (n : Nat) :
    climb f (n * (k + 1)) a = some a := by
  induction n with
  | zero => simp
  | succ n ih =>
    rw [Nat.succ_mul]
    exact climb_trans ih h

theorem OnCycle.not_ends (h : OnCycle f a) : ¬ Ends f a := by
  obtain ⟨k, hk⟩ := h
  rintro ⟨j, hj⟩
  have hend := climb_cycle hk j
  have hle : j ≤ j * (k + 1) := Nat.le_mul_of_pos_right j (by omega)
  obtain ⟨m, hm⟩ := Nat.exists_eq_add_of_le hle
  rw [hm, climb_none hj] at hend
  cases hend

/-- Every node that is climbed from a cycle is on it. -/
theorem OnCycle.above (h : OnCycle f a) (hb : climb f j a = some b) : OnCycle f b := by
  obtain ⟨k, hk⟩ := h
  have hle : j ≤ j * (k + 1) := Nat.le_mul_of_pos_right j (by omega)
  obtain ⟨m, hm⟩ := Nat.exists_eq_add_of_le hle
  have hback : climb f m b = some a := by
    have hround := climb_cycle hk j
    rw [hm, climb_add, hb] at hround
    exact hround
  have hturn := climb_trans hback (climb_trans hk hb)
  rw [show m + (k + 1 + j) = m + k + j + 1 by omega] at hturn
  exact ⟨_, hturn⟩

/-- A node on a cycle is climbed from every node it reaches. -/
theorem OnCycle.back (h : OnCycle f a) (hb : climb f j a = some b) :
    ∃ m, climb f m b = some a := by
  obtain ⟨k, hk⟩ := h
  have hle : j ≤ j * (k + 1) := Nat.le_mul_of_pos_right j (by omega)
  obtain ⟨m, hm⟩ := Nat.exists_eq_add_of_le hle
  have hround := climb_cycle hk j
  rw [hm, climb_add, hb] at hround
  exact ⟨m, hround⟩

theorem mem_of_climb {s : Set α} (hs : ∀ a ∈ s, ∀ b, f a = some b → b ∈ s) (ha : a ∈ s)
    (h : climb f k a = some b) : b ∈ s := by
  induction k generalizing a with
  | zero => cases h; exact ha
  | succ k ih =>
    rw [climb_succ] at h
    obtain ⟨c, hc, h⟩ := Option.bind_eq_some_iff.1 h
    exact ih (hs a ha c hc) h

section Finite

variable {s : Finset α}

section

variable (hs : ∀ a ∈ s, ∀ b, f a = some b → b ∈ s) (ha : a ∈ s)

include hs ha

/-- A climb that is as long as the set is large meets a cycle. -/
theorem exists_onCycle (h : climb f s.card a = some b) :
    ∃ j c, climb f j a = some c ∧ OnCycle f c := by
  have hsome : ∀ i : Fin (s.card + 1), ∃ c ∈ s, climb f i a = some c := by
    intro i
    obtain ⟨m, hm⟩ := Nat.exists_eq_add_of_le (Nat.le_of_lt_succ i.2)
    rw [hm] at h
    obtain ⟨c, hc, -⟩ := climb_cut h
    exact ⟨c, mem_of_climb (s := (s : Set α)) hs ha hc, hc⟩
  choose node hmem hnode using hsome
  obtain ⟨i, -, j, -, hne, heq⟩ := Finset.exists_ne_map_eq_of_card_lt_of_maps_to
    (s := Finset.univ) (t := s) (by simp) (f := node) (fun i _ => hmem i)
  -- the two equal nodes, the lower one first
  have hcycle : ∀ i j : Fin (s.card + 1), (i : Nat) < j → node i = node j →
      ∃ j c, climb f j a = some c ∧ OnCycle f c := by
    intro i j hlt heq
    obtain ⟨m, hm⟩ := Nat.exists_eq_add_of_lt hlt
    have hj := hnode j
    rw [hm, Nat.add_assoc, climb_add, hnode i] at hj
    exact ⟨i, node i, hnode i, m, hj.trans (congrArg some heq.symm)⟩
  rcases Nat.lt_or_gt_of_ne (fun h => hne (Fin.ext h)) with hlt | hlt
  · exact hcycle i j hlt heq
  · exact hcycle j i hlt heq.symm

theorem ends_or_onCycle : Ends f a ∨ ∃ j c, climb f j a = some c ∧ OnCycle f c := by
  cases h : climb f s.card a with
  | none => exact .inl ⟨_, h⟩
  | some b => exact .inr (exists_onCycle hs ha h)

/-- A climb that ends does so within as many steps as there are nodes. -/
theorem Ends.climb_card (h : Ends f a) : climb f s.card a = none := by
  cases hclimb : climb f s.card a with
  | none => rfl
  | some b =>
    obtain ⟨j, c, hc, hcycle⟩ := exists_onCycle hs ha hclimb
    exact absurd (h.above hc) hcycle.not_ends

end

end Finite

/-! ## Resetting the cycles -/

section Reset

open Classical in
/-- The nodes on the cycles of `f` take the parents of `g`. -/
noncomputable def resetCycles (f g : α → Option α) (a : α) : Option α :=
  if OnCycle f a then g a else f a

/-- From a node on a cycle of `f`, up the parent of `g` and then the parents of `f`, to the
first node that is on a cycle of `f`. -/
def Reenter (f g : α → Option α) (a b : α) : Prop :=
  OnCycle f a ∧ ∃ c k, g a = some c ∧ climb f k c = some b ∧ OnCycle f b ∧
    ∀ j < k, ∀ d, climb f j c = some d → ¬ OnCycle f d

theorem resetCycles_onCycle (h : OnCycle f a) : resetCycles f g a = g a := if_pos h

theorem resetCycles_not_onCycle (h : ¬ OnCycle f a) : resetCycles f g a = f a := if_neg h

/-- Off the cycles of `f` nothing changes. -/
theorem climb_resetCycles (h : ∀ j < k, ∀ d, climb f j a = some d → ¬ OnCycle f d) :
    climb (resetCycles f g) k a = climb f k a := by
  induction k generalizing a with
  | zero => rfl
  | succ k ih =>
    have hoff : ¬ OnCycle f a := h 0 (by omega) a rfl
    rw [climb_succ, climb_succ, resetCycles_not_onCycle hoff]
    cases hf : f a with
    | none => rfl
    | some b =>
      refine ih fun j hj d hd => h (j + 1) (by omega) d ?_
      rw [climb_succ, hf]
      exact hd

theorem Reenter.exists_climb (h : Reenter f g a b) : ∃ k, climb (resetCycles f g) (k + 1) a = some b := by
  obtain ⟨ha, c, k, hc, hb, -, hoff⟩ := h
  refine ⟨k, ?_⟩
  rw [climb_succ, resetCycles_onCycle ha, hc]
  exact (climb_resetCycles hoff).trans hb

theorem Reenter.transGen_climb (h : Relation.TransGen (Reenter f g) a b) :
    ∃ k, climb (resetCycles f g) (k + 1) a = some b := by
  induction h with
  | single h => exact h.exists_climb
  | tail _ h ih =>
    obtain ⟨j, hj⟩ := ih
    obtain ⟨k, hk⟩ := h.exists_climb
    have hboth := climb_trans hj hk
    exact ⟨j + 1 + k, hboth⟩

/-- A climb of the reset graph that reaches a node on a cycle of `f` meets a first one. -/
theorem climb_first (h : climb (resetCycles f g) k a = some b) (hb : OnCycle f b) :
    ∃ i c, i ≤ k ∧ climb f i a = some c ∧ OnCycle f c ∧
      (∀ j < i, ∀ d, climb f j a = some d → ¬ OnCycle f d) ∧
      climb (resetCycles f g) (k - i) c = some b := by
  induction k generalizing a with
  | zero =>
    exact ⟨0, a, Nat.le_refl _, rfl, Option.some.inj h ▸ hb, by simp, h⟩
  | succ k ih =>
    by_cases ha : OnCycle f a
    · exact ⟨0, a, by omega, rfl, ha, by simp, h⟩
    · rw [climb_succ, resetCycles_not_onCycle ha] at h
      obtain ⟨a', ha', h⟩ := Option.bind_eq_some_iff.1 h
      obtain ⟨i, c, hle, hc, hcycle, hoff, hrest⟩ := ih h
      refine ⟨i + 1, c, by omega, by rw [climb_succ, ha']; exact hc, hcycle, ?_, ?_⟩
      · intro j hj d hd
        cases j with
        | zero => cases hd; exact ha
        | succ j =>
          rw [climb_succ, ha'] at hd
          exact hoff j (by omega) d hd
      · rw [show k + 1 - (i + 1) = k - i by omega]
        exact hrest

theorem transGen_of_climb (h : climb (resetCycles f g) (k + 1) a = some b) (ha : OnCycle f a)
    (hb : OnCycle f b) : Relation.TransGen (Reenter f g) a b := by
  induction k using Nat.strong_induction_on generalizing a with
  | _ k ih =>
    rw [climb_succ, resetCycles_onCycle ha] at h
    obtain ⟨p, hp, h⟩ := Option.bind_eq_some_iff.1 h
    obtain ⟨i, c, hle, hc, hcycle, hoff, hrest⟩ := climb_first h hb
    have hstep : Reenter f g a c := ⟨ha, p, i, hp, hc, hcycle, hoff⟩
    cases hk : k - i with
    | zero =>
      rw [hk] at hrest
      cases hrest
      exact .single hstep
    | succ m =>
      rw [hk] at hrest
      exact .head hstep (ih m (by omega) hrest hcycle)

/-- The reset graph has a cycle exactly when some cycle of `f` is entered again from the
parents that `g` gives its nodes. -/
theorem exists_onCycle_resetCycles :
    (∃ a, OnCycle (resetCycles f g) a) ↔ ∃ a, Relation.TransGen (Reenter f g) a a := by
  constructor
  · rintro ⟨a, k, hk⟩
    by_cases hoff : ∀ j < k + 1, ∀ d, climb f j a = some d → ¬ OnCycle f d
    · -- a cycle that misses every cycle of `f` is itself one of them
      rw [climb_resetCycles hoff] at hk
      exact absurd ⟨k, hk⟩ (hoff 0 (by omega) a rfl)
    · push Not at hoff
      obtain ⟨j, hj, d, hd, hcycle⟩ := hoff
      -- the first node of the climb that is on a cycle of `f`
      obtain ⟨i, hi, c, hc, hcyclec, hmin⟩ : ∃ i < k + 1, ∃ c, climb f i a = some c ∧
          OnCycle f c ∧ ∀ j < i, ∀ d, climb f j a = some d → ¬ OnCycle f d := by
        classical
        have hex : ∃ i, ∃ c, climb f i a = some c ∧ OnCycle f c := ⟨j, d, hd, hcycle⟩
        obtain ⟨c, hc, hcyclec⟩ := Nat.find_spec hex
        refine ⟨Nat.find hex, Nat.lt_of_le_of_lt (Nat.find_min' hex ⟨d, hd, hcycle⟩) hj, c, hc,
          hcyclec, fun j hj d hd hon => Nat.find_min hex hj ⟨d, hd, hon⟩⟩
      have hreset : climb (resetCycles f g) i a = some c := (climb_resetCycles hmin).trans hc
      have hon : OnCycle (resetCycles f g) c := OnCycle.above ⟨k, hk⟩ hreset
      obtain ⟨m, hm⟩ := hon
      exact ⟨c, transGen_of_climb hm hcyclec hcyclec⟩
  · rintro ⟨a, h⟩
    exact ⟨a, Reenter.transGen_climb h⟩

end Reset

/-! ## Renaming the nodes -/

section Rename

variable {β : Type} {f' : β → Option β} {e : β → α} {s : Set β}

theorem climb_rename (hs : ∀ b ∈ s, ∀ c, f' b = some c → c ∈ s)
    (h : ∀ b ∈ s, (f' b).map e = f (e b)) (k : Nat) {b : β} (hb : b ∈ s) :
    (climb f' k b).map e = climb f k (e b) := by
  induction k generalizing b with
  | zero => rfl
  | succ k ih =>
    rw [climb_succ, climb_succ, ← h b hb]
    cases hf : f' b with
    | none => rfl
    | some c => exact ih (hs b hb c hf)

theorem onCycle_rename (hs : ∀ b ∈ s, ∀ c, f' b = some c → c ∈ s) (he : Set.InjOn e s)
    (h : ∀ b ∈ s, (f' b).map e = f (e b)) {b : β} (hb : b ∈ s) :
    OnCycle f' b ↔ OnCycle f (e b) := by
  refine exists_congr fun k => ?_
  rw [← climb_rename hs h (k + 1) hb]
  cases hclimb : climb f' (k + 1) b with
  | none => simp
  | some c => simp [he.eq_iff (mem_of_climb hs hb hclimb) hb]

end Rename

end ParentGraph
