import Dream64.Library.Fallible

/-!
# Loops that advance

A loop repeats a turn on a state until one turn is the last, raises an error or
panics, or the fuel is used up. A loop whose turns bring it forward, by a
measure that never grows, ends unless a turn panics or it stands still from
some turn on (`finishes_iff`).
-/

/-- A turn is the last one or leads to the next. -/
inductive Advance.Turn (α β : Type) where
  | last (result : β)
  | next (state : α)
deriving DecidableEq, Repr

inductive Halt (ε : Type) where
  | raised (e : ε)
  | outOfFuel
deriving DecidableEq, Repr

namespace Fallible

variable {ε α β : Type}

/-- A computation without a loop. -/
def raise : Fallible ε α → Fallible (Halt ε) α
  | .value a => .value a
  | .error e => .error (.raised e)
  | .panic => .panic

/-- It came to a value or an error. -/
def Finished (x : Fallible (Halt ε) α) : Prop := x ≠ .panic ∧ x ≠ .error .outOfFuel

@[simp] theorem raise_value (a : α) : (Fallible.value a : Fallible ε α).raise = .value a := rfl

theorem finished_value (a : α) : (Fallible.value a : Fallible (Halt ε) α).Finished :=
  ⟨by simp, by simp⟩

theorem finished_raised (e : ε) : (Fallible.error (.raised e) : Fallible (Halt ε) α).Finished :=
  ⟨by simp, by simp⟩

theorem not_finished_panic : ¬ (Fallible.panic : Fallible (Halt ε) α).Finished := fun h => h.1 rfl

theorem not_finished_outOfFuel : ¬ (Fallible.error .outOfFuel : Fallible (Halt ε) α).Finished :=
  fun h => h.2 rfl

end Fallible

namespace Advance

variable {ε α β : Type} {turn : α → Fallible ε (Advance.Turn α β)} {a b : α} {m n : Nat}

def run (turn : α → Fallible ε (Advance.Turn α β)) : Nat → α → Fallible (Halt ε) β
  | 0, _ => .error .outOfFuel
  | n + 1, a =>
    match turn a with
    | .value (.last result) => .value result
    | .value (.next b) => run turn n b
    | .error e => .error (.raised e)
    | .panic => .panic

/-- The state in front of a turn, if there is such a turn. -/
def reached (turn : α → Fallible ε (Advance.Turn α β)) : Nat → α → Option α
  | 0, a => some a
  | n + 1, a =>
    match turn a with
    | .value (.next b) => reached turn n b
    | _ => none

def Finishes (turn : α → Fallible ε (Advance.Turn α β)) (a : α) : Prop := ∃ n, (run turn n a).Finished

/-- From some turn on there is always another one, and it stands still. -/
def Stalls (turn : α → Fallible ε (Advance.Turn α β)) (stands : α → Prop) (a : α) : Prop :=
  ∃ n, ∀ m ≥ n, ∃ b, reached turn m a = some b ∧ stands b

theorem run_next (h : turn a = .value (.next b)) (n : Nat) : run turn (n + 1) a = run turn n b := by
  rw [run, h]

theorem reached_next (h : turn a = .value (.next b)) (n : Nat) :
    reached turn (n + 1) a = reached turn n b := by
  rw [reached, h]

theorem reached_succ (h : ∀ b, turn a ≠ .value (.next b)) (n : Nat) :
    reached turn (n + 1) a = none := by
  rw [reached]
  split
  · rename_i b hb
    exact (h b hb).elim
  · rfl

theorem reached_add (h : reached turn m a = some b) (n : Nat) :
    reached turn (m + n) a = reached turn n b := by
  induction m generalizing a with
  | zero =>
    cases h
    rw [Nat.zero_add]
  | succ m ih =>
    by_cases hnext : ∃ c, turn a = .value (.next c)
    · obtain ⟨c, hc⟩ := hnext
      rw [reached_next hc] at h
      rw [Nat.succ_add, reached_next hc, ih h]
    · rw [reached_succ (fun c hc => hnext ⟨c, hc⟩)] at h
      cases h

/-- A finished loop has no turn behind its fuel. -/
theorem reached_of_finished (h : (run turn n a).Finished) : reached turn n a = none := by
  induction n generalizing a with
  | zero => exact (Fallible.not_finished_outOfFuel h).elim
  | succ n ih =>
    by_cases hnext : ∃ b, turn a = .value (.next b)
    · obtain ⟨b, hb⟩ := hnext
      rw [run_next hb] at h
      rw [reached_next hb]
      exact ih h
    · exact reached_succ (fun b hb => hnext ⟨b, hb⟩) n

theorem reached_mono (h : reached turn m a = none) (hle : m ≤ n) : reached turn n a = none := by
  induction m generalizing a n with
  | zero => cases h
  | succ m ih =>
    obtain ⟨k, rfl⟩ : ∃ k, n = k + 1 := ⟨n - 1, by omega⟩
    by_cases hnext : ∃ b, turn a = .value (.next b)
    · obtain ⟨b, hb⟩ := hnext
      rw [reached_next hb] at h ⊢
      exact ih h (by omega)
    · exact reached_succ (fun b hb => hnext ⟨b, hb⟩) k

theorem finishes_next (h : turn a = .value (.next b)) : Finishes turn a ↔ Finishes turn b := by
  constructor
  · rintro ⟨n, hn⟩
    cases n with
    | zero => exact (Fallible.not_finished_outOfFuel hn).elim
    | succ n =>
      rw [run_next h] at hn
      exact ⟨n, hn⟩
  · rintro ⟨n, hn⟩
    refine ⟨n + 1, ?_⟩
    rw [run_next h]
    exact hn

theorem finishes_of_reached (h : reached turn n a = some b) :
    Finishes turn a ↔ Finishes turn b := by
  induction n generalizing a with
  | zero =>
    cases h
    exact Iff.rfl
  | succ n ih =>
    by_cases hnext : ∃ c, turn a = .value (.next c)
    · obtain ⟨c, hc⟩ := hnext
      rw [reached_next hc] at h
      rw [finishes_next hc, ih h]
    · rw [reached_succ (fun c hc => hnext ⟨c, hc⟩)] at h
      cases h

theorem not_finishes_of_panic (h : turn a = .panic) : ¬ Finishes turn a := by
  rintro ⟨n, hn⟩
  cases n with
  | zero => exact Fallible.not_finished_outOfFuel hn
  | succ n =>
    rw [run, h] at hn
    exact Fallible.not_finished_panic hn

theorem finishes_of_last (h : ∀ b, turn a ≠ .value (.next b)) (hpanic : turn a ≠ .panic) :
    Finishes turn a := by
  refine ⟨1, ?_⟩
  rw [run]
  cases hturn : turn a with
  | value result =>
    cases result with
    | last result => exact Fallible.finished_value result
    | next b => exact (h b hturn).elim
  | error e => exact Fallible.finished_raised e
  | panic => exact (hpanic hturn).elim

section Forward

variable {inv stands : α → Prop} {μ : α → Nat}

/-- A turn that does not stand still lowers the measure. -/
structure Forward (turn : α → Fallible ε (Advance.Turn α β)) (inv stands : α → Prop) (μ : α → Nat) :
    Prop where
  keeps : ∀ a b, inv a → turn a = .value (.next b) → inv b
  forward : ∀ a b, inv a → turn a = .value (.next b) → μ b < μ a ∨ μ b = μ a ∧ stands a

theorem Forward.reached (h : Forward turn inv stands μ) (ha : inv a)
    (hb : reached turn n a = some b) : inv b ∧ μ b ≤ μ a := by
  induction n generalizing a with
  | zero =>
    cases hb
    exact ⟨ha, Nat.le_refl _⟩
  | succ n ih =>
    by_cases hnext : ∃ c, turn a = .value (.next c)
    · obtain ⟨c, hc⟩ := hnext
      rw [reached_next hc] at hb
      obtain ⟨hinv, hle⟩ := ih (h.keeps a c ha hc) hb
      rcases h.forward a c ha hc with hlt | ⟨heq, -⟩
      · exact ⟨hinv, by omega⟩
      · exact ⟨hinv, by omega⟩
    · rw [reached_succ (fun c hc => hnext ⟨c, hc⟩)] at hb
      cases hb

/-- No turn of the loop panics. -/
def Calm (turn : α → Fallible ε (Advance.Turn α β)) (a : α) : Prop :=
  ∀ n b, Advance.reached turn n a = some b → turn b ≠ .panic

theorem Calm.of_reached (h : Calm turn a) (hb : Advance.reached turn n a = some b) :
    Calm turn b := by
  intro m c hc
  refine h (n + m) c ?_
  rw [reached_add hb, hc]

theorem Finishes.calm (h : Finishes turn a) : Calm turn a := by
  intro n b hb hpanic
  exact not_finishes_of_panic hpanic ((finishes_of_reached hb).1 h)

/-- Some turn in front of one that is not reached ended the loop. -/
theorem finishes_of_none (hcalm : Calm turn a) (hnone : Advance.reached turn n a = none) :
    Finishes turn a := by
  induction n generalizing a with
  | zero => cases hnone
  | succ n ih =>
    by_cases hnext : ∃ c, turn a = .value (.next c)
    · obtain ⟨c, hc⟩ := hnext
      rw [reached_next hc] at hnone
      rw [finishes_next hc]
      refine ih (hcalm.of_reached (n := 1) ?_) hnone
      rw [reached_next hc, Advance.reached]
    · exact finishes_of_last (fun c hc => hnext ⟨c, hc⟩) (hcalm 0 a rfl)

theorem Stalls.of_reached (h : Advance.reached turn n a = some b) (hb : Stalls turn stands b) :
    Stalls turn stands a := by
  obtain ⟨k, hk⟩ := hb
  refine ⟨n + k, fun m hm => ?_⟩
  obtain ⟨c, hc, hstands⟩ := hk (m - n) (by omega)
  rw [← reached_add h, Nat.add_sub_cancel' (by omega : n ≤ m)] at hc
  exact ⟨c, hc, hstands⟩

theorem not_finishes_of_stalls (h : Stalls turn stands a) : ¬ Finishes turn a := by
  rintro ⟨n, hn⟩
  obtain ⟨k, hk⟩ := h
  obtain ⟨b, hb, -⟩ := hk (max n k) (Nat.le_max_right n k)
  rw [reached_mono (reached_of_finished hn) (Nat.le_max_left n k)] at hb
  cases hb

theorem finishes_iff (h : Forward turn inv stands μ) (ha : inv a) :
    Finishes turn a ↔ Calm turn a ∧ ¬ Stalls turn stands a := by
  refine ⟨fun hfin => ⟨hfin.calm, fun hstalls => not_finishes_of_stalls hstalls hfin⟩, ?_⟩
  rintro ⟨hcalm, hstalls⟩
  -- strong induction on the measure: some turn does not stand still, and lowers it
  induction hk : μ a using Nat.strongRecOn generalizing a with
  | ind k ih =>
    by_contra hfin
    obtain ⟨m, hm⟩ : ∃ m, ∀ b, Advance.reached turn m a = some b → ¬ stands b := by
      by_contra hall
      refine hstalls ⟨0, fun m _ => ?_⟩
      by_contra hnone
      exact hall ⟨m, fun b hb hstands => hnone ⟨b, hb, hstands⟩⟩
    cases hb : Advance.reached turn m a with
    | none => exact hfin (finishes_of_none hcalm hb)
    | some b =>
      obtain ⟨hinv, hle⟩ := h.reached ha hb
      by_cases hnext : ∃ c, turn b = .value (.next c)
      · obtain ⟨c, hc⟩ := hnext
        have hlt : μ c < μ b := by
          rcases h.forward b c hinv hc with hlt | ⟨-, hstands⟩
          · exact hlt
          · exact (hm b hb hstands).elim
        have hreach : Advance.reached turn (m + 1) a = some c := by
          rw [reached_add hb, reached_next hc, Advance.reached]
        have hfinc := ih (μ c) (by omega) (h.keeps b c hinv hc) (hcalm.of_reached hreach)
          (fun hstalls' => hstalls (hstalls'.of_reached hreach)) rfl
        exact hfin ((finishes_of_reached hreach).2 hfinc)
      · have hfinb := finishes_of_last (fun c hc => hnext ⟨c, hc⟩) (hcalm m b hb)
        exact hfin ((finishes_of_reached hb).2 hfinb)

/-- What the last turn comes to. -/
theorem Forward.result (h : Forward turn inv stands μ) (ha : inv a) {post : β → Prop}
    (hlast : ∀ a result, inv a → turn a = .value (.last result) → post result) {result : β}
    (hrun : run turn n a = .value result) : post result := by
  induction n generalizing a with
  | zero => cases hrun
  | succ n ih =>
    rw [run] at hrun
    cases hturn : turn a with
    | value outcome =>
      cases outcome with
      | last b =>
        simp only [hturn] at hrun
        cases hrun
        exact hlast a result ha hturn
      | next b =>
        simp only [hturn] at hrun
        exact ih (h.keeps a b ha hturn) hrun
    | error _ | panic =>
      simp only [hturn] at hrun
      cases hrun

end Forward

theorem run_of_le {b : β} (h : run turn m a = .value b) (hle : m ≤ n) :
    run turn n a = .value b := by
  induction m generalizing a n with
  | zero => cases h
  | succ m ih =>
    obtain ⟨k, rfl⟩ : ∃ k, n = k + 1 := ⟨n - 1, by omega⟩
    rw [run] at h ⊢
    cases hturn : turn a with
    | value outcome =>
      cases outcome with
      | last result =>
        simp only [hturn] at h ⊢
        exact h
      | next c =>
        simp only [hturn] at h ⊢
        exact ih h (by omega)
    | error _ | panic =>
      simp only [hturn] at h
      cases h

/-! ## Turns that take fuel -/

section Steady

variable {turn : Nat → α → Fallible ε (Advance.Turn α β)} {k : Nat} {r : β}

/-- More fuel does not change what a turn comes to. -/
def Steady (turn : Nat → α → Fallible ε (Advance.Turn α β)) : Prop :=
  ∀ m n a x, m ≤ n → turn m a = .value x → turn n a = .value x

/-- With enough fuel a turn leads to the next. -/
def Leads (turn : Nat → α → Fallible ε (Advance.Turn α β)) (a b : α) : Prop :=
  ∃ n, turn n a = .value (.next b)

theorem Steady.agree (h : Steady turn) {x y : Advance.Turn α β} (hx : turn m a = .value x)
    (hy : turn n a = .value y) : x = y := by
  have hx' := h m (max m n) a x (Nat.le_max_left m n) hx
  rw [h n (max m n) a y (Nat.le_max_right m n) hy] at hx'
  cases hx'
  rfl

theorem Steady.run (h : Steady turn) (hle : m ≤ n) (hrun : Advance.run (turn m) k a = .value r) :
    Advance.run (turn n) k a = .value r := by
  induction k generalizing a with
  | zero => cases hrun
  | succ k ih =>
    rw [Advance.run] at hrun ⊢
    cases hturn : turn m a with
    | value outcome =>
      rw [h m n a outcome hle hturn]
      cases outcome with
      | last result =>
        simp only [hturn] at hrun ⊢
        exact hrun
      | next b =>
        simp only [hturn] at hrun ⊢
        exact ih hrun
    | error _ | panic =>
      simp only [hturn] at hrun
      cases hrun

/-- A loop that comes to something comes to it from every state on the way. -/
theorem Steady.run_of_leads (h : Steady turn) (hb : Relation.ReflTransGen (Leads turn) a b)
    (hrun : Advance.run (turn m) k a = .value r) : ∃ k, Advance.run (turn m) k b = .value r := by
  induction hb with
  | refl => exact ⟨k, hrun⟩
  | tail _ hlast ih =>
    obtain ⟨k, hk⟩ := ih
    obtain ⟨n, hn⟩ := hlast
    cases k with
    | zero => cases hk
    | succ k =>
      rw [Advance.run] at hk
      cases hturn : turn m _ with
      | value outcome =>
        cases h.agree hturn hn
        simp only [hturn] at hk
        exact ⟨k, hk⟩
      | error _ | panic =>
        simp only [hturn] at hk
        cases hk

theorem turn_of_run (hrun : Advance.run (turn m) k a = .value r) :
    ∃ outcome, turn m a = .value outcome := by
  cases k with
  | zero => cases hrun
  | succ k =>
    rw [Advance.run] at hrun
    cases hturn : turn m a with
    | value outcome => exact ⟨outcome, rfl⟩
    | error _ | panic =>
      simp only [hturn] at hrun
      cases hrun

/-- What a loop comes to is what the last turn on the way comes to. -/
theorem last_of_run (hrun : Advance.run (turn m) k a = .value r) :
    ∃ b, Relation.ReflTransGen (Leads turn) a b ∧ turn m b = .value (.last r) := by
  induction k generalizing a with
  | zero => cases hrun
  | succ k ih =>
    obtain ⟨outcome, hturn⟩ := turn_of_run hrun
    rw [Advance.run] at hrun
    simp only [hturn] at hrun
    cases outcome with
    | last result =>
      cases hrun
      exact ⟨a, .refl, hturn⟩
    | next b =>
      obtain ⟨c, hc, hlast⟩ := ih hrun
      exact ⟨c, .head ⟨m, hturn⟩ hc, hlast⟩

theorem run_of_last (hlast : turn m a = .value (.last r)) (k : Nat) :
    Advance.run (turn m) (k + 1) a = .value r := by
  rw [Advance.run, hlast]

/-- A loop whose turns all come to something, and lower a measure, comes to something. -/
theorem Steady.comes (h : Steady turn) {μ : α → Nat}
    (hturn : ∀ b, Relation.ReflTransGen (Leads turn) a b → ∃ n outcome, turn n b = .value outcome)
    (hlower : ∀ b c, Relation.ReflTransGen (Leads turn) a b → Leads turn b c → μ c < μ b) :
    ∃ n r, Advance.run (turn n) (μ a + 1) a = .value r := by
  induction hk : μ a using Nat.strongRecOn generalizing a with
  | ind k ih =>
    obtain ⟨n, outcome, hn⟩ := hturn a .refl
    cases outcome with
    | last r => exact ⟨n, r, run_of_last hn k⟩
    | next b =>
      have hlt := hlower a b .refl ⟨n, hn⟩
      obtain ⟨m, r, hr⟩ := ih (μ b) (by omega) (fun c hc => hturn c (.head ⟨n, hn⟩ hc))
        (fun c d hc => hlower c d (.head ⟨n, hn⟩ hc)) rfl
      refine ⟨max n m, r, ?_⟩
      rw [run_next (h n _ a _ (Nat.le_max_left n m) hn)]
      exact run_of_le (h.run (Nat.le_max_right n m) hr) (by omega)

end Steady

end Advance
