import Dream64.Library.Codec

/-!
# Readers that go on with what they have read

`Makes read raw make` says that a reader accepts exactly what another one
accepts and `make` can make something of, and gives what is made of it. The
errors of the two readers may be different ones.
-/

namespace Codec

variable {ε α β γ : Type}

def Makes (read : Reader ε β) (raw : Reader ε α) (make : α → Except ε β) : Prop :=
  ∀ bytes result rest, read bytes = .ok (result, rest) ↔
    ∃ a, raw bytes = .ok (a, rest) ∧ make a = .ok result

namespace Makes

variable {read : Reader ε β} {raw : Reader ε α} {make : α → Except ε β}

theorem bind_eq_ok_iff {x : Except ε α} {f : α → Except ε β} {b : β} :
    x.bind f = .ok b ↔ ∃ a, x = .ok a ∧ f a = .ok b := by
  constructor
  · exact bind_eq_ok
  · rintro ⟨a, rfl, hb⟩
    exact hb

theorem lift_apply (value : Except ε α) (bytes : Bytes) :
    (liftM value : Reader ε α) bytes = value.bind fun a => .ok (a, bytes) := by
  cases value <;> rfl

/-- Both readers read something before. -/
theorem behind {first : Reader ε γ} {next : γ → Reader ε β} {rawNext : γ → Reader ε α}
    (h : ∀ c, Makes (next c) (rawNext c) make) : Makes (first >>= next) (first >>= rawNext) make := by
  intro bytes result rest
  simp only [bind_apply, bind_eq_ok_iff]
  constructor
  · rintro ⟨⟨c, rest'⟩, hc, hnext⟩
    obtain ⟨a, ha, hb⟩ := (h c rest' result rest).1 hnext
    exact ⟨a, ⟨(c, rest'), hc, ha⟩, hb⟩
  · rintro ⟨a, ⟨⟨c, rest'⟩, hc, ha⟩, hb⟩
    exact ⟨(c, rest'), hc, (h c rest' result rest).2 ⟨a, ha, hb⟩⟩

/-- Both readers go on with what they have. -/
theorem bind {γ' : Type} {next : β → Reader ε γ} {rawNext : α → Reader ε γ'}
    {makeNext : γ' → Except ε γ} (h : Makes read raw make)
    (hnext : ∀ a b, make a = .ok b → Makes (next b) (rawNext a) makeNext)
    (hmake : ∀ a c, (∃ bytes rest, rawNext a bytes = .ok (c, rest)) →
      ∀ result, makeNext c = .ok result → ∃ b, make a = .ok b) :
    Makes (read >>= next) (raw >>= rawNext) makeNext := by
  intro bytes result rest
  simp only [bind_apply, bind_eq_ok_iff]
  constructor
  · rintro ⟨⟨b, rest'⟩, hb, hlast⟩
    obtain ⟨a, ha, hab⟩ := (h bytes b rest').1 hb
    obtain ⟨c, hc, hmade⟩ := (hnext a b hab rest' result rest).1 hlast
    exact ⟨c, ⟨(a, rest'), ha, hc⟩, hmade⟩
  · rintro ⟨c, ⟨⟨a, rest'⟩, ha, hc⟩, hmade⟩
    obtain ⟨b, hab⟩ := hmake a c ⟨rest', rest, hc⟩ result hmade
    exact ⟨(b, rest'), (h bytes b rest').2 ⟨a, ha, hab⟩, (hnext a b hab rest' result rest).2
      ⟨c, hc, hmade⟩⟩

theorem mapped {β' γ' : Type} (h : Makes read raw make) {wrap : β → β'} {rawWrap : α → γ'}
    {makeNext : γ' → Except ε β'} (hwrap : ∀ a, makeNext (rawWrap a) = (make a).map wrap) :
    Makes (read >>= fun b => Pure.pure (wrap b)) (raw >>= fun a => Pure.pure (rawWrap a)) makeNext := by
  intro bytes result rest
  simp only [bind_apply, bind_eq_ok_iff]
  constructor
  · rintro ⟨⟨b, rest'⟩, hb, hlast⟩
    cases hlast
    obtain ⟨a, ha, hab⟩ := (h bytes b rest').1 hb
    refine ⟨rawWrap a, ⟨(a, rest'), ha, rfl⟩, ?_⟩
    rw [hwrap, hab]
    rfl
  · rintro ⟨c, ⟨⟨a, rest'⟩, ha, hc⟩, hmade⟩
    cases hc
    rw [hwrap] at hmade
    cases hab : make a with
    | error error =>
      rw [hab] at hmade
      cases hmade
    | ok b =>
      rw [hab] at hmade
      cases hmade
      exact ⟨(b, rest'), (h bytes b rest').2 ⟨a, ha, hab⟩, rfl⟩

/-- Values one behind the other. -/
theorem many {read : Nat → Reader ε β} {raw : Nat → Reader ε α}
    (h : ∀ index, Makes (read index) (raw index) make) (index count : Nat) :
    Makes (readMany read index count) (readMany raw index count) (List.mapM make) := by
  induction count generalizing index with
  | zero =>
    intro bytes result rest
    constructor
    · intro hread
      cases hread
      exact ⟨[], rfl, rfl⟩
    · rintro ⟨a, ha, hmade⟩
      cases ha
      cases hmade
      rfl
  | succ count ih =>
    refine (h index).bind (fun a b hab => (ih (index + 1)).mapped fun values => ?_) ?_
    · rw [List.mapM_cons, hab]
      cases values.mapM make <;> rfl
    · rintro a values ⟨bytes, rest, hvalues⟩ result hmade
      obtain ⟨⟨more, rest'⟩, -, heq⟩ := bind_eq_ok hvalues
      cases heq
      rw [List.mapM_cons] at hmade
      obtain ⟨b, hab, -⟩ := bind_eq_ok hmade
      exact ⟨b, hab⟩

end Makes

end Codec
