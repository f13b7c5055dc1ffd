import Mathlib

/-!
# Computations that may panic

A computation gives a value or an error, or it panics. A panic is an outcome
of its own: nothing that follows it is done.
-/

inductive Fallible (ε α : Type) where
  | value (a : α)
  | error (e : ε)
  | panic
deriving DecidableEq, Repr

namespace Fallible

variable {ε α β : Type}

protected def bind (x : Fallible ε α) (f : α → Fallible ε β) : Fallible ε β :=
  match x with
  | .value a => f a
  | .error e => .error e
  | .panic => .panic

protected def map (f : α → β) (x : Fallible ε α) : Fallible ε β :=
  x.bind fun a => .value (f a)

def orError (x : Option α) (e : ε) : Fallible ε α :=
  match x with
  | some a => .value a
  | none => .error e

def ofExcept : Except ε α → Fallible ε α
  | .ok a => .value a
  | .error e => .error e

def mapError {ε' : Type} (f : ε → ε') : Fallible ε α → Fallible ε' α
  | .value a => .value a
  | .error e => .error (f e)
  | .panic => .panic

instance : Monad (Fallible ε) where
  pure := .value
  bind := Fallible.bind

@[simp] theorem value_bind (a : α) (f : α → Fallible ε β) :
    (Fallible.value a).bind f = f a := rfl

@[simp] theorem error_bind (e : ε) (f : α → Fallible ε β) :
    (Fallible.error e : Fallible ε α).bind f = .error e := rfl

@[simp] theorem panic_bind (f : α → Fallible ε β) :
    (Fallible.panic : Fallible ε α).bind f = .panic := rfl

@[simp] theorem map_value (f : α → β) (a : α) :
    (Fallible.value a : Fallible ε α).map f = .value (f a) := rfl

@[simp] theorem orError_some (a : α) (e : ε) : orError (some a) e = .value a := rfl

@[simp] theorem orError_none (e : ε) : (orError none e : Fallible ε α) = .error e := rfl

variable {x : Fallible ε α} {f : α → Fallible ε β}

theorem bind_eq_panic : x.bind f = .panic ↔ x = .panic ∨ ∃ a, x = .value a ∧ f a = .panic := by
  cases x with
  | value a => simp
  | error e => simp
  | panic => simp

theorem bind_eq_value {b : β} : x.bind f = .value b ↔ ∃ a, x = .value a ∧ f a = .value b := by
  cases x with
  | value a => simp
  | error e => simp
  | panic => simp

theorem bind_ne_panic (hx : x ≠ .panic) (hf : ∀ a, x = .value a → f a ≠ .panic) :
    x.bind f ≠ .panic := by
  intro h
  rcases bind_eq_panic.1 h with h | ⟨a, ha, h⟩
  · exact hx h
  · exact hf a ha h

theorem map_eq_panic {f : α → β} : x.map f = .panic ↔ x = .panic := by
  rw [Fallible.map, bind_eq_panic]
  simp

theorem map_eq_value {f : α → β} {b : β} : x.map f = .value b ↔ ∃ a, x = .value a ∧ f a = b := by
  rw [Fallible.map, bind_eq_value]
  simp

theorem orError_ne_panic (x : Option α) (e : ε) : orError x e ≠ .panic := by
  cases x with
  | some a => exact fun h => nomatch h
  | none => exact fun h => nomatch h

variable {a : α}

theorem orError_eq_value {x : Option α} {e : ε} : orError x e = .value a ↔ x = some a := by
  cases x with
  | some b => simp
  | none => simp

theorem ofExcept_ne_panic (x : Except ε α) : ofExcept x ≠ .panic := by
  cases x with
  | ok a => simp [ofExcept]
  | error e => simp [ofExcept]

theorem ofExcept_eq_value {x : Except ε α} : ofExcept x = .value a ↔ x = .ok a := by
  cases x with
  | ok b => simp [ofExcept]
  | error e => simp [ofExcept]

theorem mapError_eq_panic {ε' : Type} {f : ε → ε'} : x.mapError f = .panic ↔ x = .panic := by
  cases x <;> simp [mapError]

theorem mapError_eq_value {ε' : Type} {f : ε → ε'} : x.mapError f = .value a ↔ x = .value a := by
  cases x <;> simp [mapError]

end Fallible

/-!
# Fallible computations on a state

A computation reads and writes a state and gives a value or an error, or it
panics. `Returns` says what it gives from a state and the state it leaves,
`Fails` that it gives nothing. Both are known of a sequence when they are known
of its parts.
-/

namespace Fallible

abbrev Stateful (σ ε α : Type) := StateT σ (Fallible ε) α

namespace Stateful

variable {σ ε α β : Type}

/-- A computation that panics where there is no value. -/
def unwrap (x : Option α) : Stateful σ ε α := fun s =>
  match x with
  | some a => .value (a, s)
  | none => .panic

/-- A computation that gives the error where there is no value in the state. -/
def expect (read : σ → Option α) (e : ε) : Stateful σ ε α := fun s =>
  match read s with
  | some a => .value (a, s)
  | none => .error e

def update (write : σ → σ) : Stateful σ ε Unit := fun s => .value ((), write s)

def read (view : σ → α) : Stateful σ ε α := fun s => .value (view s, s)

def raise (e : ε) : Stateful σ ε α := fun _ => .error e

def Returns (run : Stateful σ ε α) (s : σ) (a : α) (s' : σ) : Prop := run s = .value (a, s')

def Fails (run : Stateful σ ε α) (s : σ) : Prop := ∀ a s', ¬ run.Returns s a s'

variable {run : Stateful σ ε α} {next : α → Stateful σ ε β} {s s' s'' : σ} {a : α} {b : β}

theorem Returns.pure (s : σ) (a : α) : Returns (pure a : Stateful σ ε α) s a s := rfl

theorem Returns.unwrap (s : σ) (a : α) : Returns (unwrap (some a) : Stateful σ ε α) s a s := rfl

theorem Returns.update (s : σ) (write : σ → σ) :
    Returns (update write : Stateful σ ε Unit) s () (write s) := rfl

theorem Returns.read (s : σ) (view : σ → α) :
    Returns (read view : Stateful σ ε α) s (view s) s := rfl

theorem Returns.expect {view : σ → Option α} (h : view s = some a) (e : ε) :
    Returns (expect view e) s a s := by
  rw [Returns, Stateful.expect, h]

theorem bind_apply (run : Stateful σ ε α) (next : α → Stateful σ ε β) (s : σ) :
    (run >>= next) s = (run s).bind fun r => next r.1 r.2 := rfl

theorem Returns.bind (h : Returns run s a s') (hnext : Returns (next a) s' b s'') :
    Returns (run >>= next) s b s'' := by
  rw [Returns, bind_apply, h]
  exact hnext

theorem Returns.unique {a' : α} (h : Returns run s a s') (h' : Returns run s a' s'') :
    a = a' ∧ s' = s'' := by
  have heq := h.symm.trans h'
  rw [Fallible.value.injEq, Prod.mk.injEq] at heq
  exact heq

theorem Fails.bind (h : Fails run s) : Fails (run >>= next) s := by
  intro b s'' hreturns
  rw [Returns, bind_apply, bind_eq_value] at hreturns
  obtain ⟨⟨a, s'⟩, hrun, -⟩ := hreturns
  exact h a s' hrun

theorem Returns.bind_fails (h : Returns run s a s') (hnext : Fails (next a) s') :
    Fails (run >>= next) s := by
  intro b s'' hreturns
  rw [Returns, bind_apply, h] at hreturns
  exact hnext b s'' hreturns

theorem fails_expect {view : σ → Option α} (h : view s = none) (e : ε) :
    Fails (expect view e) s := by
  intro a s' hreturns
  rw [Returns, Stateful.expect, h] at hreturns
  cases hreturns

end Stateful

end Fallible
