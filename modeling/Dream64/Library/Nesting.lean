import Mathlib

/-!
# Nested ranges

A family of ranges `(lo, hi]` of positions, each opened at an index before the
positions it covers. The family is `Nested` if of two ranges the later one lies
inside the earlier one or behind it. `enclosing range size kind pos` are the
openings of the ranges of a kind around a position, outermost first.

`Layered opened around` is what a stack of openings keeps of the ranges around
the position it belongs to when a range may be left without being closed: they
stand in it in their order, and above each of them only later openings.
-/

namespace Nesting

variable (range : Nat → Option (Nat × Nat)) (size : Nat)

def covers (k pos : Nat) : Bool :=
  (range k).any fun r => decide (r.1 < pos) && decide (pos ≤ r.2)

def enclosing (kind : Nat → Bool) (pos : Nat) : List Nat :=
  (List.range size).filter fun k => kind k && covers range k pos

structure Nested : Prop where
  lt_size {k : Nat} {r : Nat × Nat} : range k = some r → k < size
  le_lo {k lo hi : Nat} : range k = some (lo, hi) → k ≤ lo
  nested {j k lo hi lo' hi' : Nat} : range j = some (lo, hi) → range k = some (lo', hi') → j < k →
    hi ≤ lo' ∨ (lo ≤ lo' ∧ hi' ≤ hi)

variable {range size} {kind : Nat → Bool} {j k pos pos' : Nat}

theorem covers_iff : covers range k pos = true ↔
    ∃ lo hi, range k = some (lo, hi) ∧ lo < pos ∧ pos ≤ hi := by
  cases h : range k with
  | none => simp [covers, h]
  | some r => simp [covers, h, Prod.ext_iff]

theorem enclosing_sorted (kind : Nat → Bool) (pos : Nat) :
    (enclosing range size kind pos).Pairwise (· < ·) :=
  List.Pairwise.filter _ List.pairwise_lt_range

theorem enclosing_congr (h : ∀ k, kind k = true → covers range k pos' = covers range k pos) :
    enclosing range size kind pos' = enclosing range size kind pos := by
  refine List.filter_congr fun k _ => ?_
  cases hk : kind k with
  | false => rfl
  | true => rw [h k hk]

theorem filter_isPrefix {α : Type} {p q : α → Bool} {l : List α}
    (h : l.Pairwise fun a b => p a = true → q b = true → q a = true)
    (hsub : ∀ a ∈ l, q a = true → p a = true) : l.filter q <+: l.filter p := by
  induction l with
  | nil => exact List.prefix_refl []
  | cons a l ih =>
    obtain ⟨ha, hl⟩ := List.pairwise_cons.1 h
    have hrest := ih hl fun b hb => hsub b (List.mem_cons_of_mem a hb)
    cases hq : q a with
    | true =>
      rw [List.filter_cons_of_pos hq, List.filter_cons_of_pos (hsub a List.mem_cons_self hq)]
      exact List.prefix_cons_inj a |>.2 hrest
    | false =>
      cases hp : p a with
      | false =>
        rw [List.filter_cons_of_neg (by simp [hq]), List.filter_cons_of_neg (by simp [hp])]
        exact hrest
      | true =>
        have hnone : (a :: l).filter q = [] := by
          refine List.filter_eq_nil_iff.2 fun b hb hqb => ?_
          rcases List.mem_cons.1 hb with rfl | hb
          · rw [hq] at hqb
            cases hqb
          · rw [ha b hb hp hqb] at hq
            cases hq
        rw [hnone]
        exact List.nil_prefix

namespace Nested

variable (N : Nested range size)

include N in
theorem covers_lt (h : covers range k pos = true) : k < pos := by
  obtain ⟨lo, hi, hk, hlo, -⟩ := covers_iff.1 h
  exact (N.le_lo hk).trans_lt hlo

include N in
/-- A range around a position of a later range is around the whole of it. -/
theorem covers_outer (hj : covers range j pos = true) (hk : covers range k pos = true) (hle : j ≤ k)
    (hk' : covers range k pos' = true) : covers range j pos' = true := by
  rcases Nat.eq_or_lt_of_le hle with rfl | hlt
  · exact hk'
  · obtain ⟨lo, hi, hrj, hlo, hhi⟩ := covers_iff.1 hj
    obtain ⟨lo', hi', hrk, hlo', hhi'⟩ := covers_iff.1 hk
    obtain ⟨lo'', hi'', hrk', hlo'', hhi''⟩ := covers_iff.1 hk'
    rw [hrk] at hrk'
    cases hrk'
    have hnested := N.nested hrj hrk hlt
    exact covers_iff.2 ⟨lo, hi, hrj, by omega, by omega⟩

include N in
theorem mem_enclosing :
    k ∈ enclosing range size kind pos ↔ kind k = true ∧ covers range k pos = true := by
  simp only [enclosing, List.mem_filter, List.mem_range, Bool.and_eq_true, and_iff_right_iff_imp,
    and_imp]
  intro _ hk
  obtain ⟨lo, hi, hr, -⟩ := covers_iff.1 hk
  exact N.lt_size hr

include N in
theorem enclosing_eq_of_mem {l : List Nat} (hl : l.Pairwise (· < ·))
    (h : ∀ k, k ∈ l ↔ kind k = true ∧ covers range k pos = true) :
    enclosing range size kind pos = l := by
  refine List.Pairwise.eq_of_mem_iff (enclosing_sorted kind pos) hl fun k => ?_
  rw [N.mem_enclosing, h]

include N in
/-- Entering the range opened at `k`. -/
theorem enclosing_open (hkind : kind k = true)
    (h : ∀ j, covers range j pos' = true ↔ covers range j pos = true ∨ j = k)
    (hlt : ∀ j, covers range j pos = true → j < k) :
    enclosing range size kind pos' = enclosing range size kind pos ++ [k] := by
  refine N.enclosing_eq_of_mem ?_ fun j => ?_
  · refine List.pairwise_append.2 ⟨enclosing_sorted kind pos, List.pairwise_singleton _ _, ?_⟩
    intro j hj _ hk
    cases List.mem_singleton.1 hk
    exact hlt j (N.mem_enclosing.1 hj).2
  · rw [List.mem_append, N.mem_enclosing, List.mem_singleton, h]
    constructor
    · rintro (⟨hj, hc⟩ | rfl)
      · exact ⟨hj, .inl hc⟩
      · exact ⟨hkind, .inr rfl⟩
    · rintro ⟨hj, hc | rfl⟩
      · exact .inl ⟨hj, hc⟩
      · exact .inr rfl

include N in
/-- Leaving ranges, and entering none, leaves the outer ones. -/
theorem enclosing_outer (h : ∀ k, covers range k pos' = true → covers range k pos = true) :
    enclosing range size kind pos' <+: enclosing range size kind pos := by
  refine filter_isPrefix (List.pairwise_lt_range.imp ?_) ?_
  · intro j k hlt hj hk
    rw [Bool.and_eq_true] at hj hk ⊢
    exact ⟨hj.1, N.covers_outer hj.2 (h k hk.2) hlt.le hk.2⟩
  · intro k _ hk
    rw [Bool.and_eq_true] at hk ⊢
    exact ⟨hk.1, h k hk.2⟩

end Nested

/-! ## Stacks of openings -/

inductive Layered : List Nat → List Nat → Prop where
  | outside (opened : List Nat) : Layered opened []
  | inside {opened around inner : List Nat} {k : Nat} : Layered opened around →
      (∀ j ∈ inner, k < j) → Layered (opened ++ k :: inner) (around ++ [k])

namespace Layered

variable {opened around inner rest : List Nat}

theorem split (h : Layered opened (around ++ [k])) :
    ∃ outer inner, opened = outer ++ k :: inner ∧ Layered outer around ∧ ∀ j ∈ inner, k < j := by
  generalize hl : around ++ [k] = l at h
  cases h with
  | outside => simp at hl
  | inside h hinner =>
    obtain ⟨rfl, hk⟩ := List.append_inj' hl rfl
    cases hk
    exact ⟨_, _, rfl, h, hinner⟩

theorem push (h : Layered opened around) (k : Nat) : Layered (opened ++ [k]) (around ++ [k]) :=
  .inside h fun _ hj => nomatch hj

theorem append (h : Layered opened around) (hinner : ∀ j ∈ inner, ∀ k ∈ around, k < j) :
    Layered (opened ++ inner) around := by
  cases h with
  | outside => exact .outside _
  | @inside opened around inner' k h hk =>
    rw [List.append_assoc, List.cons_append]
    refine .inside h fun j hj => ?_
    rcases List.mem_append.1 hj with hj | hj
    · exact hk j hj
    · exact hinner j hj k (by simp)

/-- Leaving the inner ranges without closing them. -/
theorem leave (h : Layered opened (around ++ rest)) (hsorted : (around ++ rest).Pairwise (· < ·)) :
    Layered opened around := by
  induction rest using List.reverseRecOn generalizing opened with
  | nil => simpa using h
  | append_singleton rest k ih =>
    rw [← List.append_assoc] at h hsorted
    obtain ⟨outer, inner, rfl, houter, hinner⟩ := h.split
    obtain ⟨hrest, -, hk⟩ := List.pairwise_append.1 hsorted
    refine (ih houter hrest).append fun j hj i hi => ?_
    have hik := hk i (List.mem_append_left _ hi) k (List.mem_singleton_self k)
    rcases List.mem_cons.1 hj with rfl | hj
    · exact hik
    · exact hik.trans (hinner j hj)

/-- Closing the innermost range by taking the last opening off the stack, whichever it is. -/
theorem pop (h : Layered opened (around ++ [k])) (hsorted : (around ++ [k]).Pairwise (· < ·)) :
    Layered opened.dropLast around := by
  obtain ⟨outer, inner, rfl, houter, hinner⟩ := h.split
  rcases List.eq_nil_or_concat inner with rfl | ⟨inner, j, rfl⟩
  · simpa using houter
  · rw [List.concat_eq_append] at hinner ⊢
    rw [← List.cons_append, ← List.append_assoc, List.dropLast_concat]
    refine houter.append fun i hi l hl => ?_
    have hlk := (List.pairwise_append.1 hsorted).2.2 l hl k (List.mem_singleton_self k)
    rcases List.mem_cons.1 hi with rfl | hi
    · exact hlk
    · exact hlk.trans (hinner i (List.mem_append_left _ hi))

end Layered

end Nesting
