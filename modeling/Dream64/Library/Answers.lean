import Mathlib

/-!
# Partial steps seen through a view

A step gives, from a state, nothing or a result and the next state. Its outcome
`Answers` an expected one if the two are the same once the states are seen
through `view`, and the next state has the invariant. What the view hides
then has no influence on any sequence of such steps (`Answers.runAll`). A step
may look at what the view hides to guess its result, if it makes no wrong guess
(`Guesses`) and goes on where it makes none (`Answers.guess`).
-/

namespace Stepwise

variable {σ τ α β γ ω : Type} {view : σ → τ} {inv : σ → Prop}

structure Answers (view : σ → τ) (inv : σ → Prop) (outcome : Option (α × σ))
    (expected : Option (α × τ)) : Prop where
  view_eq : outcome.map (Prod.map id view) = expected
  invariant : ∀ a s, outcome = some (a, s) → inv s

/-- What is hidden in `s` gives no result, or the expected one, of the form `f a`. -/
structure Guesses (view : σ → τ) (inv : σ → Prop) (f : α → β) (s : σ)
    (outcome : Option (Option α × σ)) (expected : Option (β × τ)) : Prop where
  ends : outcome = none → expected = none
  hidden : ∀ guess s', outcome = some (guess, s') → inv s' ∧ view s' = view s
  right : ∀ a s', outcome = some (some a, s') → expected = some (f a, view s)

def orElse (f : α → β) (outcome : Option (Option α × σ)) (rest : σ → Option (β × σ)) :
    Option (β × σ) :=
  outcome.bind fun r => r.1.elim (rest r.2) fun a => some (f a, r.2)

/-- The steps of a list, with the results of all of them. -/
def runAll (step : ω → σ → Option (α × σ)) : List ω → σ → Option (List α × σ)
  | [], s => some ([], s)
  | op :: ops, s =>
    (step op s).bind fun r => (runAll step ops r.2).map fun rs => (r.1 :: rs.1, rs.2)

section

variable {f : α → β} {s : σ} {outcome : Option (Option α × σ)} {expected : Option (β × τ)}
  (h : Guesses view inv f s outcome expected)

include h

theorem Guesses.map (g : β → γ) :
    Guesses view inv (g ∘ f) s outcome (expected.map fun r => (g r.1, r.2)) where
  ends hnone := by rw [h.ends hnone]; rfl
  hidden := h.hidden
  right a s' hsome := by rw [h.right a s' hsome]; rfl

/-- Where no guess is made, something hidden may be changed. -/
theorem Guesses.tidy {g : σ → σ} (hg : ∀ s', inv s' → inv (g s') ∧ view (g s') = view s') :
    Guesses view inv f s (outcome.map fun r => if r.1.isSome then r else (none, g r.2))
      expected := by
  rcases outcome with _ | ⟨_ | a, s'⟩
  · exact h
  · obtain ⟨hinv, hview⟩ := h.hidden none s' rfl
    obtain ⟨hinv', hview'⟩ := hg s' hinv
    refine ⟨fun hnone => ?_, fun guess t hsome => ?_, fun a t hsome => ?_⟩
    · cases hnone
    · cases hsome
      exact ⟨hinv', hview'.trans hview⟩
    · cases hsome
  · exact h

end

namespace Answers

theorem none : Answers view inv (none : Option (α × σ)) Option.none where
  view_eq := rfl
  invariant _ _ h := by cases h

theorem some {v : σ → τ} {s : σ} (a : α) (hs : inv s) :
    Answers v inv (some (a, s)) (some (a, v s)) where
  view_eq := rfl
  invariant _ _ h := by cases h; exact hs

/-- A step that changes only what the view hides. -/
theorem hidden {s s' : σ} (a : α) (hs : inv s') (hview : view s' = view s) :
    Answers view inv (Option.some (a, s')) (Option.some (a, view s)) :=
  hview ▸ some a hs

theorem bind {outcome : Option (α × σ)} {expected : Option (α × τ)}
    {f : α → σ → Option (β × σ)} {g : α → τ → Option (β × τ)}
    (h : Answers view inv outcome expected)
    (hf : ∀ a s, inv s → Answers view inv (f a s) (g a (view s))) :
    Answers view inv (outcome.bind fun r => f r.1 r.2) (expected.bind fun r => g r.1 r.2) := by
  rcases outcome with _ | ⟨a, s⟩
  · rw [← h.view_eq]
    exact none
  · rw [← h.view_eq]
    exact hf a s (h.invariant a s rfl)

/-- The new result may depend on what the view shows of the next state. -/
theorem map {outcome : Option (α × σ)} {expected : Option (α × τ)} (f : α → τ → β)
    (h : Answers view inv outcome expected) :
    Answers view inv (outcome.map fun r => (f r.1 (view r.2), r.2))
      (expected.map fun r => (f r.1 r.2, r.2)) := by
  rcases outcome with _ | ⟨a, s⟩
  · rw [← h.view_eq]
    exact none
  · rw [← h.view_eq]
    exact some _ (h.invariant a s rfl)

theorem guess {f : α → β} {s : σ} {outcome : Option (Option α × σ)}
    {expected : Option (β × τ)} {rest : σ → Option (β × σ)}
    (h : Guesses view inv f s outcome expected)
    (hrest : ∀ s', inv s' → view s' = view s → Answers view inv (rest s') expected) :
    Answers view inv (orElse f outcome rest) expected := by
  rcases outcome with _ | ⟨guess, s'⟩
  · rw [h.ends rfl]
    exact none
  · obtain ⟨hinv, hview⟩ := h.hidden guess s' rfl
    cases guess with
    | none => exact hrest s' hinv hview
    | some a =>
      rw [h.right a s' rfl]
      exact hidden (f a) hinv hview

theorem runAll {step : ω → σ → Option (α × σ)} {expected : ω → τ → Option (α × τ)}
    (hstep : ∀ op s, inv s → Answers view inv (step op s) (expected op (view s))) (ops : List ω)
    {s : σ} (hs : inv s) :
    Answers view inv (runAll step ops s) (runAll expected ops (view s)) := by
  induction ops generalizing s with
  | nil => exact some [] hs
  | cons op ops ih =>
    refine bind (f := fun a s => (Stepwise.runAll step ops s).map fun rs => (a :: rs.1, rs.2))
      (g := fun a t => (Stepwise.runAll expected ops t).map fun rs => (a :: rs.1, rs.2))
      (hstep op s hs) fun a s hs => ?_
    exact (ih hs).map fun results _ => a :: results

end Answers

end Stepwise
