import Mathlib

/-!
# Memos

A memo is a list of arguments with the results that a function had for them.
`fetch` looks a result up, or computes it and keeps it if the memo admits
another entry. From a memo that holds results of the function it gives the
result, and leaves such a memo (`Sound.fetch`). The function is partial: what
has no result is not kept.
-/

namespace Memo

variable {α β : Type} [DecidableEq α] {f : α → Option β} {admits : List (α × β) → α → Bool}
  {memo : List (α × β)} {a : α}

def fetch (f : α → Option β) (admits : List (α × β) → α → Bool) (memo : List (α × β)) (a : α) :
    Option (β × List (α × β)) :=
  match memo.lookup a with
  | some b => some (b, memo)
  | none => (f a).map fun b => (b, if admits memo a then (a, b) :: memo else memo)

def Sound (f : α → Option β) (memo : List (α × β)) : Prop :=
  ∀ entry ∈ memo, f entry.1 = some entry.2

theorem mem_of_lookup {b : β} (h : memo.lookup a = some b) : (a, b) ∈ memo := by
  induction memo with
  | nil => cases h
  | cons entry memo ih =>
    obtain ⟨a', b'⟩ := entry
    by_cases heq : a = a'
    · subst heq
      simp only [List.lookup_cons_self, Option.some.injEq] at h
      exact h ▸ List.mem_cons_self
    · simp only [List.lookup, beq_eq_false_iff_ne.2 heq] at h
      exact List.mem_cons_of_mem _ (ih h)

theorem Sound.fetch (h : Sound f memo) (admits : List (α × β) → α → Bool) (a : α) :
    ∃ memo', Sound f memo' ∧ fetch f admits memo a = (f a).map fun b => (b, memo') := by
  unfold Memo.fetch
  cases hlookup : memo.lookup a with
  | some b =>
    refine ⟨memo, h, ?_⟩
    rw [h _ (mem_of_lookup hlookup)]
    rfl
  | none =>
    cases hresult : f a with
    | none => exact ⟨memo, h, rfl⟩
    | some b =>
      by_cases hadmits : admits memo a = true
      · refine ⟨(a, b) :: memo, ?_, by simp [hadmits]⟩
        intro entry hentry
        rcases List.mem_cons.1 hentry with rfl | hentry
        · exact hresult
        · exact h entry hentry
      · exact ⟨memo, h, by simp [hadmits]⟩

end Memo
