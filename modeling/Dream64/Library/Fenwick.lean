import Mathlib

/-!
# Fenwick trees

A tree of counts in one vector: the entry at a place holds the sum of a block
of counts that ends at the place. Prefix sums walk down the blocks, and a count
that grows walks up the blocks around it.
-/

namespace Fenwick

/-- The largest power of two that divides a number; the length of its block. -/
def low (n : Nat) : Nat := 2 ^ padicValNat 2 n

theorem low_pos (n : Nat) : 0 < low n := Nat.two_pow_pos _

theorem low_dvd (n : Nat) : low n ∣ n := pow_padicValNat_dvd

variable {n : Nat}

theorem low_le (h : 0 < n) : low n ≤ n := Nat.le_of_dvd h (low_dvd n)

theorem two_mul_low_dvd_sub (h : 0 < n) : 2 * low n ∣ n - low n := by
  obtain ⟨m, hm⟩ := low_dvd n
  have hodd : ¬ 2 ∣ m := by
    rintro ⟨k, rfl⟩
    have hdvd : low n * 2 ∣ n := ⟨k, by rw [Nat.mul_assoc]; exact hm⟩
    rw [low, ← pow_succ] at hdvd
    have hle := (padicValNat_dvd_iff_le (p := 2) (Nat.pos_iff_ne_zero.1 h)).1 hdvd
    omega
  obtain ⟨k, rfl⟩ : ∃ k, m = 2 * k + 1 := ⟨m / 2, by omega⟩
  refine ⟨k, ?_⟩
  have hexpand : low n * (2 * k + 1) = 2 * low n * k + low n := by ring
  omega

theorem low_two_mul (h : 0 < n) : low (2 * n) = 2 * low n := by
  rw [low, padicValNat.mul (by omega) (by omega), padicValNat.self (by omega), low, pow_add, pow_one]

theorem low_of_odd (h : n % 2 = 1) : low n = 1 := by
  rw [low, padicValNat.eq_zero_of_not_dvd (by omega), pow_zero]

/-! ## Steps -/

theorem two_mul_and_two_mul (a b : Nat) : 2 * a &&& 2 * b = 2 * (a &&& b) := by
  simpa [Nat.bit_val] using Nat.land_bit false a false b

theorem two_mul_and_two_mul_succ (a b : Nat) : 2 * a &&& 2 * b + 1 = 2 * (a &&& b) := by
  simpa [Nat.bit_val] using Nat.land_bit false a true b

theorem two_mul_succ_and_two_mul (a b : Nat) : 2 * a + 1 &&& 2 * b = 2 * (a &&& b) := by
  simpa [Nat.bit_val] using Nat.land_bit true a false b

theorem two_mul_succ_and_two_mul_succ (a b : Nat) : 2 * a + 1 &&& 2 * b + 1 = 2 * (a &&& b) + 1 := by
  simpa [Nat.bit_val] using Nat.land_bit true a true b

/-- Clearing the lowest bit goes to the start of the block. -/
theorem and_pred (h : 0 < n) : n &&& (n - 1) = n - low n := by
  induction n using Nat.strong_induction_on with
  | _ n ih =>
    rcases Nat.even_or_odd' n with ⟨m, rfl | rfl⟩
    · have hm : 0 < m := by omega
      rw [show 2 * m - 1 = 2 * (m - 1) + 1 by omega, two_mul_and_two_mul_succ, ih m (by omega) hm,
        low_two_mul hm]
      omega
    · rw [Nat.add_sub_cancel, two_mul_succ_and_two_mul, Nat.and_self, low_of_odd (by omega),
        Nat.add_sub_cancel]

variable {w : Nat}

theorem and_complement (h : n < 2 ^ w) : n &&& (2 ^ w - (n + 1)) = 0 := by
  apply Nat.eq_of_testBit_eq
  intro i
  rw [Nat.testBit_and, Nat.testBit_two_pow_sub_succ h, Nat.zero_testBit]
  cases n.testBit i <;> simp

/-- The lowest bit, from the negation of a word. -/
theorem and_neg (h : 0 < n) (hw : n < 2 ^ w) : n &&& (2 ^ w - n) = low n := by
  induction w generalizing n with
  | zero => omega
  | succ w ih =>
    rw [pow_succ] at hw ⊢
    rcases Nat.even_or_odd' n with ⟨m, rfl | rfl⟩
    · have hm : 0 < m := by omega
      rw [show 2 ^ w * 2 - 2 * m = 2 * (2 ^ w - m) by omega, two_mul_and_two_mul,
        ih hm (by omega), low_two_mul hm]
    · rw [show 2 ^ w * 2 - (2 * m + 1) = 2 * (2 ^ w - (m + 1)) + 1 by omega,
        two_mul_succ_and_two_mul_succ, and_complement (by omega), low_of_odd (by omega)]

/-! ## Blocks -/

/-- A place is in the block that ends at another. -/
def Covers (block place : Nat) : Prop := block - low block < place ∧ place ≤ block

theorem covers_self (h : 0 < n) : Covers n n := by
  have hpos := low_pos n
  exact ⟨by omega, Nat.le_refl n⟩

/-- Powers of two divide each other in their order. -/
theorem low_dvd_low {m : Nat} (h : low m ≤ low n) : low m ∣ low n :=
  Nat.pow_dvd_pow 2 ((Nat.pow_le_pow_iff_right (by omega)).1 h)

theorem two_low_dvd_low {m : Nat} (h : low m < low n) : 2 * low m ∣ low n := by
  have hlt := (Nat.pow_lt_pow_iff_right (by omega)).1 h
  rw [low, ← pow_succ']
  exact Nat.pow_dvd_pow 2 hlt

variable {block place : Nat}

/-- The next block around a place is in every larger block around it. -/
theorem Covers.up (h : Covers block place) (hlt : place < block) :
    Covers block (place + low place) := by
  obtain ⟨hlow, hle⟩ := h
  have hblock : 0 < block := by omega
  have hdvd := two_mul_low_dvd_sub hblock
  have hstart : low block ∣ block - low block := dvd_trans (dvd_mul_left _ _) hdvd
  have hpos := low_pos place
  refine ⟨by omega, ?_⟩
  rcases Nat.lt_or_ge (low place) (low block) with hless | hge
  · have hpart : low place ∣ low block := low_dvd_low (Nat.le_of_lt hless)
    have hrest : low place ∣ block - place :=
      Nat.dvd_sub (dvd_trans hpart (low_dvd block)) (low_dvd place)
    have hlowle := Nat.le_of_dvd (by omega) hrest
    omega
  · -- the block would divide a place inside it
    have hplaceDvd : low block ∣ place := dvd_trans (low_dvd_low hge) (low_dvd place)
    have hinside := Nat.le_of_dvd (by omega) (Nat.dvd_sub hplaceDvd hstart)
    omega

theorem Covers.down (h : Covers block (place + low place)) (hplace : 0 < place) :
    Covers block place := by
  obtain ⟨hlow, hle⟩ := h
  have hpos := low_pos place
  have hnext : 2 * low place ∣ place + low place := by
    obtain ⟨k, hk⟩ := two_mul_low_dvd_sub hplace
    have hself := low_le hplace
    have hexpand : 2 * low place * (k + 1) = 2 * low place * k + 2 * low place := by ring
    exact ⟨k + 1, by omega⟩
  have hblock : 0 < block := by omega
  have hblockDvd := two_mul_low_dvd_sub hblock
  refine ⟨?_, by omega⟩
  rcases Nat.lt_or_ge (low block) (low place) with hless | hge
  · -- a multiple of the block would lie inside it, or end it
    have hdvd : 2 * low block ∣ place + low place :=
      dvd_trans (dvd_trans (two_low_dvd_low hless) (dvd_mul_left _ _)) hnext
    have hinside := Nat.le_of_dvd (by omega) (Nat.dvd_sub hdvd hblockDvd)
    omega
  · have hstart : 2 * low place ∣ block - low block :=
      dvd_trans (Nat.mul_dvd_mul_left 2 (low_dvd_low hge)) hblockDvd
    have hinside := Nat.le_of_dvd (by omega) (Nat.dvd_sub hnext hstart)
    omega

/-! ## The tree -/

theorem and_pred_lt (h : n ≠ 0) : n &&& (n - 1) < n := by
  have hle : n &&& (n - 1) ≤ n - 1 := Nat.and_le_right
  omega

/-- The sum of the counts up to a place. -/
def prefixSum (tree : List Nat) (cursor : Nat) : Option Nat :=
  if cursor = 0 then some 0
  else do
    let value ← tree[cursor]?
    let rest ← prefixSum tree (cursor &&& (cursor - 1))
    some (value + rest)
termination_by cursor
decreasing_by exact and_pred_lt ‹_›

/-- One more at a place, in a tree whose places are words. A place other than zero moves up by its
lowest bit; the second condition says that it does. -/
def increment (w : Nat) (tree : List Nat) (cursor : Nat) : List Nat :=
  if cursor < tree.length ∧ 0 < cursor &&& (2 ^ w - cursor) then
    increment w (tree.modify cursor (· + 1)) (cursor + (cursor &&& (2 ^ w - cursor)))
  else tree
termination_by tree.length - cursor
decreasing_by
  rw [List.length_modify]
  omega

/-- The tree of some counts: every entry is the sum of its block. -/
def Counts (tree : List Nat) (count : Nat → Nat) : Prop :=
  ∀ place, 0 < place → place < tree.length →
    tree[place]? = some (Finset.sum (Finset.Ioc (place - low place) place) count)

variable {tree : List Nat}

theorem Counts.prefixSum {count : Nat → Nat} (h : Counts tree count) (hplace : place < tree.length)
    : prefixSum tree place = some (Finset.sum (Finset.Ioc 0 place) count) := by
  induction place using Nat.strong_induction_on with
  | _ place ih =>
    rw [Fenwick.prefixSum]
    split
    · rename_i hzero
      subst hzero
      rfl
    · rename_i hne
      have hpos : 0 < place := Nat.pos_of_ne_zero hne
      have hlt := and_pred_lt hne
      rw [h place hpos hplace, ih _ hlt (by omega), and_pred hpos]
      rw [and_pred hpos] at hlt
      show some _ = some _
      rw [Nat.add_comm, Finset.sum_Ioc_consecutive count (Nat.zero_le _) (Nat.le_of_lt hlt)]

theorem length_increment (w : Nat) (tree : List Nat) (cursor : Nat) :
    (increment w tree cursor).length = tree.length := by
  induction tree, cursor using increment.induct (w := w) with
  | case1 tree cursor h ih => rw [increment, if_pos h, ih, List.length_modify]
  | case2 tree cursor h => rw [increment, if_neg h]

/-- The blocks around the place grow by one, and no others. -/
theorem getElem?_increment {cursor : Nat} (hword : tree.length ≤ 2 ^ w) (hcursor : 0 < cursor)
    (hblock : 0 < block) : (increment w tree cursor)[block]? =
      tree[block]?.map fun value => value + if block - low block < cursor ∧ cursor ≤ block
        then 1 else 0 := by
  induction tree, cursor using increment.induct (w := w) with
  | case1 tree cursor h ih =>
    have hneg := and_neg hcursor (Nat.lt_of_lt_of_le h.1 hword)
    have hpos := low_pos cursor
    rw [increment, if_pos h, ih (by rwa [List.length_modify]) (by omega), hneg,
      List.getElem?_modify, Option.map_eq_map, Option.map_map]
    refine congrArg (fun f => Option.map f tree[block]?) (funext fun value => ?_)
    rw [Function.comp_apply]
    have hup : Covers block (cursor + low cursor) → Covers block cursor :=
      fun hcovers => hcovers.down hcursor
    have hdown : Covers block cursor → cursor < block → Covers block (cursor + low cursor) :=
      fun hcovers hlt => hcovers.up hlt
    unfold Covers at hup hdown
    by_cases heq : cursor = block
    · subst heq
      have hself := covers_self hblock
      unfold Covers at hself
      rw [if_pos rfl, if_pos hself, if_neg (by omega)]
    · rw [if_neg heq]
      by_cases hcovers : block - low block < cursor ∧ cursor ≤ block
      · rw [if_pos hcovers, if_pos (hdown hcovers (by omega))]
      · rw [if_neg hcovers, if_neg fun hnext => hcovers (hup hnext)]
  | case2 tree cursor h =>
    rw [increment, if_neg h]
    rcases Nat.lt_or_ge block tree.length with hlt | hge
    · have hout : tree.length ≤ cursor := by
        by_contra hin
        have hneg := and_neg hcursor (Nat.lt_of_lt_of_le (Nat.lt_of_not_ge hin) hword)
        have hpos := low_pos cursor
        exact h ⟨Nat.lt_of_not_ge hin, by omega⟩
      rw [List.getElem?_eq_getElem hlt, Option.map_some, if_neg (by omega), Nat.add_zero]
    · rw [List.getElem?_eq_none hge, Option.map_none]

theorem Counts.increment {count : Nat → Nat} (h : Counts tree count) (hword : tree.length ≤ 2 ^ w)
    {cursor : Nat} (hcursor : 0 < cursor) :
    Counts (increment w tree cursor) (Function.update count cursor (count cursor + 1)) := by
  intro place hplace hlt
  rw [length_increment] at hlt
  rw [getElem?_increment hword hcursor hplace, h place hplace hlt, Option.map_some,
    Option.some.injEq]
  by_cases hmem : cursor ∈ Finset.Ioc (place - low place) place
  · rw [if_pos (Finset.mem_Ioc.1 hmem), Finset.sum_update_of_mem hmem,
      Finset.sum_eq_add_sum_sdiff_singleton_of_mem hmem]
    omega
  · rw [if_neg fun hin => hmem (Finset.mem_Ioc.2 hin), Finset.sum_update_of_notMem hmem]
    rfl

theorem counts_replicate (length : Nat) : Counts (List.replicate length 0) fun _ => 0 := by
  intro place _ hlt
  rw [List.length_replicate] at hlt
  rw [List.getElem?_replicate, if_pos hlt, Finset.sum_const_zero]

end Fenwick
