import Mathlib.Control.Monad.Basic

/-!
# Staged updates

A computation that may fail between two updates of a state, and does not undo
the ones before its failure. `Leaves original run current` says what every
failure leaves behind: the state `original`. A run is atomic where it leaves
the state in which it began.
-/

namespace Staged

variable {ε σ α β : Type}

/-- A failure comes with the state in which it happened. -/
abbrev Staging (ε σ α : Type) := ExceptT ε (StateM σ) α

/-- A step that may fail and updates nothing. -/
def attempt (value : Except ε α) : Staging ε σ α := ExceptT.mk (pure value)

/-- An update that cannot fail. -/
def commit (update : σ → σ) : Staging ε σ Unit := modify update

/-- The answer of a run, and the state it leaves. -/
def perform (run : Staging ε σ α) (state : σ) : Except ε α × σ := run.run.run state

def Leaves (original : σ) (run : Staging ε σ α) (current : σ) : Prop :=
  ∀ error, (perform run current).1 = .error error → (perform run current).2 = original

theorem perform_attempt (value : Except ε α) (state : σ) :
    perform (attempt value) state = (value, state) := rfl

theorem perform_commit (update : σ → σ) (state : σ) :
    perform (commit update : Staging ε σ Unit) state = (.ok (), update state) := rfl

theorem perform_bind (run : Staging ε σ α) (next : α → Staging ε σ β) (state : σ) :
    perform (run >>= next) state =
      match perform run state with
      | (.ok value, state) => perform (next value) state
      | (.error error, state) => (.error error, state) := by
  show (ExceptT.bind run next).run.run state = _
  simp only [ExceptT.bind, ExceptT.mk, ExceptT.run, StateT.run, bind, StateT.bind]
  rcases h : perform run state with ⟨error | value, after⟩ <;>
  · rw [show run state = _ from h]
    rfl

variable {original current : σ}

@[simp] theorem leaves_commit (update : σ → σ) :
    Leaves original (commit update : Staging ε σ Unit) current := by
  intro error herror
  cases herror

/-- What may fail is decided before anything that comes later. -/
theorem leaves_attempt_bind (value : Except ε α) (next : α → Staging ε σ β) :
    Leaves original (attempt value >>= next) current ↔
      (∀ error, value = .error error → current = original) ∧
        ∀ result, value = .ok result → Leaves original (next result) current := by
  unfold Leaves
  rw [perform_bind, perform_attempt]
  cases value with
  | error error => simp
  | ok result => simp

theorem leaves_commit_bind (update : σ → σ) (next : Unit → Staging ε σ β) :
    Leaves original (commit update >>= next) current ↔
      Leaves original (next ()) (update current) := by
  unfold Leaves
  rw [perform_bind, perform_commit]

end Staged
