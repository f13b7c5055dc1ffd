import Dream64.Library.Fallible

/-!
# Computations with fuel

A recursion without a bound of its own is given fuel, and running out of it is
an outcome. More fuel keeps every other outcome (`Grows`), so a computation
settles on at most one value, and it settles on the value of its parts one
after another (`settles_bind`). A search settles if all that it comes to does.
-/

inductive OutOfFuel where
  | outOfFuel
deriving DecidableEq, Repr

abbrev Fuelled (α : Type) := Fallible OutOfFuel α

namespace Fallible

variable {ε α β : Type}

/-- One step after another over a list. -/
def fold (f : β → α → Fallible ε β) : β → List α → Fallible ε β
  | b, [] => .value b
  | b, a :: rest => (f b a).bind fun b => fold f b rest

/-- The first entry for which the test gives `true`; no test is made behind it. -/
def find (p : α → Fallible ε Bool) : List α → Fallible ε (Option α)
  | [] => .value none
  | a :: rest => (p a).bind fun found => if found then .value (some a) else find p rest

/-- What is found is an entry, and the test gives `false` for every entry in front of it. -/
theorem find_eq_some {p : α → Fallible ε Bool} {l : List α} {a : α}
    (h : find p l = .value (some a)) : ∃ before after, l = before ++ a :: after ∧
      p a = .value true ∧ ∀ b ∈ before, p b = .value false := by
  induction l with
  | nil => cases h
  | cons b rest ih =>
    obtain ⟨found, hfound, hrest⟩ := bind_eq_value.1 h
    cases found with
    | true =>
      cases hrest
      exact ⟨[], rest, rfl, hfound, fun c hc => absurd hc List.not_mem_nil⟩
    | false =>
      obtain ⟨before, after, rfl, hvalue, hbefore⟩ := ih hrest
      refine ⟨b :: before, after, rfl, hvalue, fun c hc => ?_⟩
      rcases List.mem_cons.1 hc with rfl | hmem
      · exact hfound
      · exact hbefore c hmem

def any (p : α → Fallible ε Bool) (l : List α) : Fallible ε Bool := (find p l).map Option.isSome

end Fallible

namespace Fuelled

variable {α β : Type}

/-! ## More fuel -/

def Refines (x y : Fuelled α) : Prop := x = .error .outOfFuel ∨ x = y

theorem Refines.refl (x : Fuelled α) : Refines x x := .inr rfl

variable {x y : Fuelled α}

theorem Refines.trans {z : Fuelled α} (hxy : Refines x y) (hyz : Refines y z) : Refines x z := by
  rcases hxy with h | h
  · exact .inl h
  · exact h ▸ hyz

theorem Refines.bind {f g : α → Fuelled β} (hxy : Refines x y) (hfg : ∀ a, Refines (f a) (g a)) :
    Refines (x.bind f) (y.bind g) := by
  rcases hxy with rfl | rfl
  · exact .inl rfl
  · cases x with
    | value a => exact hfg a
    | error e => exact .inr rfl
    | panic => exact .inr rfl

theorem Refines.map (hxy : Refines x y) (f : α → β) : Refines (x.map f) (y.map f) :=
  hxy.bind fun a => .refl (.value (f a))

theorem Refines.fold {f g : β → α → Fuelled β} (hfg : ∀ b a, Refines (f b a) (g b a)) (b : β)
    (l : List α) : Refines (Fallible.fold f b l) (Fallible.fold g b l) := by
  induction l generalizing b with
  | nil => exact .refl _
  | cons a rest ih => exact (hfg b a).bind fun b => ih b

theorem Refines.find {p q : α → Fuelled Bool} (hpq : ∀ a, Refines (p a) (q a)) (l : List α) :
    Refines (Fallible.find p l) (Fallible.find q l) := by
  induction l with
  | nil => exact .refl _
  | cons a rest ih =>
    refine (hpq a).bind fun found => ?_
    split
    · exact .refl _
    · exact ih

/-- An outcome that is reached stays what it is with more fuel. -/
def Grows (f : Nat → Fuelled α) : Prop := ∀ n, Refines (f n) (f (n + 1))

variable {f : Nat → Fuelled α}

theorem Grows.refines (h : Grows f) {n m : Nat} (hle : n ≤ m) : Refines (f n) (f m) := by
  induction m, hle using Nat.le_induction with
  | base => exact .refl _
  | succ m hle ih => exact ih.trans (h m)

/-! ## Settling -/

/-- With enough fuel the computation gives this value. -/
def Settles (f : Nat → Fuelled α) (a : α) : Prop := ∃ n, ∀ m ≥ n, f m = .value a

def Ends (f : Nat → Fuelled α) : Prop := ∃ a, Settles f a

variable {a : α}

theorem Grows.settles (h : Grows f) {n : Nat} (hn : f n = .value a) : Settles f a := by
  refine ⟨n, fun m hm => ?_⟩
  rcases h.refines hm with hout | heq
  · rw [hn] at hout
    cases hout
  · rw [← heq, hn]

theorem settles_value (a : α) : Settles (fun _ => .value a) a := ⟨0, fun _ _ => rfl⟩

theorem settles_value_iff {b : α} : Settles (fun _ => .value a) b ↔ a = b := by
  constructor
  · rintro ⟨n, hn⟩
    exact Fallible.value.inj (hn n le_rfl)
  · rintro rfl
    exact settles_value a

theorem not_settles_panic : ¬ Settles (fun _ => .panic) a := by
  rintro ⟨n, hn⟩
  cases hn n le_rfl

theorem Settles.unique {b : α} (ha : Settles f a) (hb : Settles f b) : a = b := by
  obtain ⟨n, hn⟩ := ha
  obtain ⟨m, hm⟩ := hb
  have h := hm (max n m) (le_max_right n m)
  rw [hn (max n m) (le_max_left n m)] at h
  exact Fallible.value.inj h

variable {b : β}

theorem settles_bind (hf : Grows f) {g : Nat → α → Fuelled β} :
    Settles (fun n => (f n).bind (g n)) b ↔ ∃ a, Settles f a ∧ Settles (fun n => g n a) b := by
  constructor
  · rintro ⟨n, hn⟩
    obtain ⟨a, ha, -⟩ := Fallible.bind_eq_value.1 (hn n le_rfl)
    have hsettles := hf.settles ha
    obtain ⟨k, hk⟩ := hsettles
    refine ⟨a, ⟨k, hk⟩, max n k, fun m hm => ?_⟩
    have hbind : (f m).bind (g m) = .value b := hn m (le_trans (le_max_left n k) hm)
    rwa [hk m (le_trans (le_max_right n k) hm), Fallible.value_bind] at hbind
  · rintro ⟨a, ⟨n, hn⟩, k, hk⟩
    refine ⟨max n k, fun m hm => ?_⟩
    simp only
    rw [hn m (le_trans (le_max_left n k) hm), Fallible.value_bind]
    exact hk m (le_trans (le_max_right n k) hm)

theorem settles_map (hf : Grows f) {g : α → β} :
    Settles (fun n => (f n).map g) b ↔ ∃ a, Settles f a ∧ g a = b := by
  refine (settles_bind hf).trans (exists_congr fun a => and_congr_right fun _ => ?_)
  exact settles_value_iff

/-- A computation on less fuel settles on the same value. -/
theorem settles_succ : Settles (fun n => f (n + 1)) a ↔ Settles f a := by
  constructor
  · rintro ⟨n, hn⟩
    refine ⟨n + 1, fun m hm => ?_⟩
    obtain ⟨k, rfl⟩ : ∃ k, m = k + 1 := ⟨m - 1, by omega⟩
    exact hn k (by omega)
  · rintro ⟨n, hn⟩
    exact ⟨n, fun m hm => hn (m + 1) (by omega)⟩

/-! ## Loops and searches -/

variable {c : β}

theorem settles_fold_cons {f : Nat → β → α → Fuelled β} (hf : ∀ b a, Grows fun n => f n b a)
    {rest : List α} : Settles (fun n => Fallible.fold (f n) b (a :: rest)) c ↔
      ∃ b', Settles (fun n => f n b a) b' ∧ Settles (fun n => Fallible.fold (f n) b' rest) c :=
  settles_bind (hf b a)

variable {l : List α}

/-- A loop ends if each of its steps does, and keeps what they keep. -/
theorem ends_fold {f : Nat → β → α → Fuelled β} (hf : ∀ b a, Grows fun n => f n b a) {P : β → Prop}
    (h : ∀ a ∈ l, ∀ b, P b → ∃ b', Settles (fun n => f n b a) b' ∧ P b') (hb : P b) :
    ∃ c, Settles (fun n => Fallible.fold (f n) b l) c ∧ P c := by
  induction l generalizing b with
  | nil => exact ⟨b, settles_value b, hb⟩
  | cons a rest ih =>
    obtain ⟨b', hb', hkept⟩ := h a List.mem_cons_self b hb
    obtain ⟨c, hc, hkept⟩ := ih (fun a' ha' => h a' (List.mem_cons_of_mem a ha')) hkept
    exact ⟨c, (settles_fold_cons hf).2 ⟨b', hb', hc⟩, hkept⟩

/-- What the steps of a loop lead to, if all of them go up in an order. -/
theorem fold_le {R : β → β → Prop} (hrefl : ∀ b, R b b) (htrans : ∀ {b c d}, R b c → R c d → R b d)
    {f : β → α → Fuelled β} (h : ∀ b a b', f b a = .value b' → R b b')
    (hc : Fallible.fold f b l = .value c) : R b c := by
  induction l generalizing b with
  | nil => exact Fallible.value.inj hc ▸ hrefl b
  | cons a rest ih =>
    obtain ⟨b', hb', hc⟩ := Fallible.bind_eq_value.1 hc
    exact htrans (h b a b' hb') (ih hc)

/-- Every step of a loop that ends has ended, below the end of the loop. -/
theorem Settles.fold_step {f : Nat → β → α → Fuelled β} (hf : ∀ b a, Grows fun n => f n b a)
    {R : β → β → Prop} (hrefl : ∀ b, R b b) (htrans : ∀ {b c d}, R b c → R c d → R b d)
    (h : ∀ n b a b', f n b a = .value b' → R b b')
    (hc : Settles (fun n => Fallible.fold (f n) b l) c) (ha : a ∈ l) :
    ∃ b' b'', Settles (fun n => f n b' a) b'' ∧ R b'' c := by
  induction l generalizing b with
  | nil => cases ha
  | cons a' rest ih =>
    obtain ⟨b', hb', hrest⟩ := (settles_fold_cons hf).1 hc
    rcases List.mem_cons.1 ha with rfl | ha
    · obtain ⟨n, hn⟩ := hrest
      exact ⟨b, b', hb', fold_le hrefl htrans (h n) (hn n le_rfl)⟩
    · exact ih hrest ha

/-- All tests end up to the first that gives `true`. -/
def SearchEnds (ends stops : α → Prop) : List α → Prop
  | [] => True
  | a :: rest => ends a ∧ (stops a ∨ SearchEnds ends stops rest)

theorem searchEnds_congr {ends ends' stops stops' : α → Prop} (hends : ∀ a, ends a ↔ ends' a)
    (hstops : ∀ a, ends a → (stops a ↔ stops' a)) :
    SearchEnds ends stops l ↔ SearchEnds ends' stops' l := by
  induction l with
  | nil => exact Iff.rfl
  | cons a rest ih =>
    rw [SearchEnds, SearchEnds, ih, ← hends]
    exact and_congr_right fun ha => or_congr_left (hstops a ha)

open Classical in
/-- What stops a search matters only where its tests end. -/
theorem SearchEnds.find?_congr {ends stops stops' : α → Prop} (h : SearchEnds ends stops l)
    (hstops : ∀ a, ends a → (stops a ↔ stops' a)) :
    (l.find? fun a => decide (stops a)) = l.find? fun a => decide (stops' a) := by
  induction l with
  | nil => rfl
  | cons a rest ih =>
    obtain ⟨ha, hrest⟩ := h
    rw [List.find?_cons, List.find?_cons, decide_eq_decide.2 (hstops a ha)]
    by_cases hstop : stops' a
    · rw [decide_eq_true hstop]
    · rw [decide_eq_false hstop]
      exact ih (hrest.resolve_left fun h => hstop ((hstops a ha).1 h))

variable {p : Nat → α → Fuelled Bool}

open Classical in
theorem settles_find (hp : ∀ a, Grows fun n => p n a) {found : Option α} :
    Settles (fun n => Fallible.find (p n) l) found ↔
      SearchEnds (fun a => Ends fun n => p n a) (fun a => Settles (fun n => p n a) true) l ∧
        found = l.find? fun a => decide (Settles (fun n => p n a) true) := by
  induction l with
  | nil => exact settles_value_iff.trans ⟨fun h => ⟨trivial, h.symm⟩, fun h => h.2.symm⟩
  | cons a rest ih =>
    have hsplit : Settles (fun n => Fallible.find (p n) (a :: rest)) found ↔
        ∃ b, Settles (fun n => p n a) b ∧ Settles (fun n =>
          if b then Fallible.value (some a) else Fallible.find (p n) rest) found :=
      settles_bind (hp a)
    rw [hsplit, SearchEnds, List.find?_cons]
    constructor
    · rintro ⟨b, hb, hfound⟩
      cases b with
      | true =>
        rw [decide_eq_true hb]
        exact ⟨⟨⟨true, hb⟩, .inl hb⟩, (settles_value_iff.1 hfound).symm⟩
      | false =>
        have hnot : ¬ Settles (fun n => p n a) true := fun h => Bool.false_ne_true (hb.unique h)
        obtain ⟨hrest, hfound⟩ := ih.1 hfound
        rw [decide_eq_false hnot]
        exact ⟨⟨⟨false, hb⟩, .inr hrest⟩, hfound⟩
    · rintro ⟨⟨⟨b, hb⟩, hrest⟩, hfound⟩
      cases b with
      | true =>
        rw [decide_eq_true hb] at hfound
        exact ⟨true, hb, hfound ▸ settles_value _⟩
      | false =>
        have hnot : ¬ Settles (fun n => p n a) true := fun h => Bool.false_ne_true (hb.unique h)
        rw [decide_eq_false hnot] at hfound
        exact ⟨false, hb, ih.2 ⟨hrest.resolve_left hnot, hfound⟩⟩

theorem ends_any (hp : ∀ a, Grows fun n => p n a) : (Ends fun n => Fallible.any (p n) l) ↔
      SearchEnds (fun a => Ends fun n => p n a) (fun a => Settles (fun n => p n a) true) l := by
  have hgrows : Grows fun n => Fallible.find (p n) l := fun n => .find (fun a => hp a n) l
  constructor
  · rintro ⟨b, hb⟩
    obtain ⟨found, hfound, -⟩ := (settles_map hgrows).1 hb
    exact ((settles_find hp).1 hfound).1
  · intro hends
    exact ⟨_, (settles_map hgrows).2 ⟨_, (settles_find hp).2 ⟨hends, rfl⟩, rfl⟩⟩

theorem settles_any_true (hp : ∀ a, Grows fun n => p n a) :
    Settles (fun n => Fallible.any (p n) l) true ↔
      SearchEnds (fun a => Ends fun n => p n a) (fun a => Settles (fun n => p n a) true) l ∧
        ∃ a ∈ l, Settles (fun n => p n a) true := by
  classical
  have hgrows : Grows fun n => Fallible.find (p n) l := fun n => .find (fun a => hp a n) l
  rw [show (fun n => Fallible.any (p n) l) = fun n => (Fallible.find (p n) l).map Option.isSome
    from rfl, settles_map hgrows]
  constructor
  · rintro ⟨found, hfound, hsome⟩
    obtain ⟨hends, rfl⟩ := (settles_find hp).1 hfound
    obtain ⟨a, ha, hstop⟩ := List.find?_isSome.1 hsome
    exact ⟨hends, a, ha, of_decide_eq_true hstop⟩
  · rintro ⟨hends, a, ha, hstop⟩
    refine ⟨_, (settles_find hp).2 ⟨hends, rfl⟩, List.find?_isSome.2 ⟨a, ha, ?_⟩⟩
    exact decide_eq_true hstop

end Fuelled
