import Mathlib

/-!
# Occurrences that do not overlap

The occurrences of a delimiter in a list, counted from the left, each behind
the one before it.
-/

namespace Occurrences

variable {α : Type} {delimiter text : List α} [DecidableEq α]

/-- The occurrences of a delimiter that is not empty, behind some items. -/
def countFrom (delimiter : List α) : Nat → List α → Nat
  | _, [] => 0
  | skip + 1, _ :: text => countFrom delimiter skip text
  | 0, item :: text =>
    if delimiter.isPrefixOf (item :: text) then
      countFrom delimiter (delimiter.length - 1) text + 1
    else countFrom delimiter 0 text

def leftmostCount (delimiter text : List α) : Nat := countFrom delimiter 0 text

theorem countFrom_eq (delimiter : List α) (skip : Nat) (text : List α) :
    countFrom delimiter skip text = leftmostCount delimiter (text.drop skip) := by
  induction skip generalizing text with
  | zero => rfl
  | succ skip ih =>
    cases text with
    | nil => rfl
    | cons item text =>
      rw [countFrom, ih, List.drop_succ_cons]

theorem leftmostCount_append (hne : delimiter ≠ []) (rest : List α) :
    leftmostCount delimiter (delimiter ++ rest) = leftmostCount delimiter rest + 1 := by
  cases delimiter with
  | nil => exact absurd rfl hne
  | cons item delimiter =>
    have hfront : (item :: delimiter).isPrefixOf (item :: (delimiter ++ rest)) = true :=
      List.isPrefixOf_iff_prefix.2 (List.prefix_append (item :: delimiter) rest)
    rw [List.cons_append, leftmostCount, countFrom, if_pos hfront, countFrom_eq, List.length_cons,
      Nat.add_sub_cancel, List.drop_left]

theorem leftmostCount_cons {item : α} (hskip : ¬ delimiter <+: item :: text) :
    leftmostCount delimiter (item :: text) = leftmostCount delimiter text := by
  have hfront : ¬ delimiter.isPrefixOf (item :: text) = true :=
    fun h => hskip (List.isPrefixOf_iff_prefix.1 h)
  rw [leftmostCount, countFrom, if_neg hfront, countFrom_eq, List.drop_zero]

end Occurrences
