import Dream64.Library.Codec

/-!
# The errors of readers

`FailsOn` says on which bytes a reader gives one error, such as that of a
reader that has to be stopped. A reader that goes through several values fails
where the values before the place of the error are written and the bytes behind
them are bad.
-/

namespace Codec

section

variable {ε α β : Type} {write : α → Bytes} {read : Reader ε α} {valid : α → Prop}

/-- The bytes on which the reader gives the error. -/
def FailsOn (read : Reader ε α) (error : ε) (bad : Bytes → Prop) : Prop :=
  ∀ bytes, read bytes = .error error ↔ bad bytes

/-- A valid value, and behind it bytes that are bad for it. -/
def Behind (write : α → Bytes) (valid : α → Prop) (bad : α → Bytes → Prop) (bytes : Bytes) :
    Prop :=
  ∃ a rest, valid a ∧ bytes = write a ++ rest ∧ bad a rest

variable {e : ε}

theorem bind_eq_error {x : Except ε α} {f : α → Except ε β} :
    x.bind f = .error e ↔ x = .error e ∨ ∃ a, x = .ok a ∧ f a = .error e := by
  cases x with
  | error => simp [Except.bind]
  | ok a => simp [Except.bind]

variable {bad : Bytes → Prop}

theorem FailsOn.congr {bad' : Bytes → Prop} (h : FailsOn read e bad)
    (hbad : ∀ bytes, bad' bytes ↔ bad bytes) : FailsOn read e bad' :=
  fun bytes => (h bytes).trans (hbad bytes).symm

variable {next : α → Reader ε β}

/-- A value that is read fails, or what is read behind it does. -/
theorem FailsOn.bind {badNext : α → Bytes → Prop} (hcodes : Codes write read valid)
    (h : FailsOn read e bad) (hnext : ∀ a, valid a → FailsOn (next a) e (badNext a)) :
    FailsOn (read >>= next) e fun bytes => bad bytes ∨ Behind write valid badNext bytes := by
  intro bytes
  rw [bind_apply, bind_eq_error, h bytes]
  refine or_congr_right ⟨?_, ?_⟩
  · rintro ⟨⟨a, rest⟩, hread, hfail⟩
    obtain ⟨hvalid, hbytes⟩ := hcodes.read_eq_ok.1 hread
    exact ⟨a, rest, hvalid, hbytes, (hnext a hvalid rest).1 hfail⟩
  · rintro ⟨a, rest, hvalid, hbytes, hfail⟩
    exact ⟨(a, rest), hcodes.read_eq_ok.2 ⟨hvalid, hbytes⟩, (hnext a hvalid rest).2 hfail⟩

/-- A reader that never gives the error. -/
def NeverFails (read : Reader ε α) (error : ε) : Prop := ∀ bytes, read bytes ≠ .error error

theorem NeverFails.failsOn (h : NeverFails read e) : FailsOn read e fun _ => False :=
  fun bytes => ⟨h bytes, False.elim⟩

theorem NeverFails.pure (a : α) (e : ε) : NeverFails (Pure.pure a : Reader ε α) e := by
  intro bytes h
  cases h

theorem NeverFails.throw {error e : ε} (hne : error ≠ e) :
    NeverFails (throw error : Reader ε α) e := fun _ h => hne (Except.error.inj h)

theorem NeverFails.bind (h : NeverFails read e) (hnext : ∀ a, NeverFails (next a) e) :
    NeverFails (read >>= next) e := by
  intro bytes hfail
  rw [bind_apply, bind_eq_error] at hfail
  rcases hfail with hfail | ⟨⟨a, rest⟩, -, hfail⟩
  · exact h bytes hfail
  · exact hnext a rest hfail

theorem NeverFails.ite {p : Prop} [Decidable p] {read' : Reader ε α} (h : NeverFails read e)
    (h' : NeverFails read' e) : NeverFails (if p then read else read') e := by
  split
  · exact h
  · exact h'

variable {error : ε}

theorem NeverFails.readExact (count : Nat) (hne : error ≠ e) :
    NeverFails (Codec.readExact count error) e := by
  intro bytes h
  unfold Codec.readExact at h
  split at h
  · cases h
  · exact hne (Except.error.inj h)

theorem NeverFails.readByte (hne : error ≠ e) : NeverFails (Codec.readByte error) e := by
  intro bytes h
  cases bytes with
  | nil => exact hne (Except.error.inj h)
  | cons => cases h

theorem NeverFails.readNumber (count : Nat) (hne : error ≠ e) :
    NeverFails (Codec.readNumber count error) e :=
  (NeverFails.readExact count hne).bind fun _ => .pure _ e

theorem NeverFails.respell {decode : α → Option β} {error : α → ε} (h : NeverFails read e)
    (hne : ∀ a, error a ≠ e) : NeverFails (Codec.respell decode error read) e := by
  refine h.bind fun a => ?_
  cases decode a with
  | some b => exact .pure b e
  | none => exact .throw (hne a)

theorem NeverFails.readOption {readTag : Reader ε UInt8} {error : UInt8 → ε}
    (htag : NeverFails readTag e) (h : NeverFails read e) (hne : ∀ tag, error tag ≠ e) :
    NeverFails (Codec.readOption readTag read error) e :=
  htag.bind fun tag =>
    .ite (.pure none e) (.ite (h.bind fun a => .pure (some a) e) (.throw (hne tag)))

theorem NeverFails.readMany {read : Nat → Reader ε α} (h : ∀ index, NeverFails (read index) e)
    (index count : Nat) : NeverFails (Codec.readMany read index count) e := by
  induction count generalizing index with
  | zero => exact .pure [] e
  | succ count ih =>
    exact (h index).bind fun a => (ih (index + 1)).bind fun values => .pure (a :: values) e

/-- What fails is behind a value that is read. -/
theorem FailsOn.behind {badNext : α → Bytes → Prop} (hcodes : Codes write read valid)
    (h : NeverFails read e) (hnext : ∀ a, valid a → FailsOn (next a) e (badNext a)) :
    FailsOn (read >>= next) e (Behind write valid badNext) :=
  (FailsOn.bind hcodes h.failsOn hnext).congr fun _ => by rw [false_or]

/-- Nothing fails behind the values that are read. -/
theorem FailsOn.before (h : FailsOn read e bad) (hnext : ∀ a, NeverFails (next a) e) :
    FailsOn (read >>= next) e bad := by
  intro bytes
  rw [bind_apply, bind_eq_error, h bytes, or_iff_left]
  rintro ⟨⟨a, rest⟩, -, hfail⟩
  exact hnext a rest hfail

/-- A value that is refused with the error. -/
theorem FailsOn.refuse (hcodes : Codes write read valid) (h : NeverFails read e) (p : α → Prop)
    [DecidablePred p] :
    FailsOn (Codec.refuse p (fun _ => e) read) e (Behind write valid fun a _ => p a) := by
  refine FailsOn.behind hcodes h fun a _ bytes => ?_
  by_cases hp : p a
  · rw [if_pos hp]
    exact ⟨fun _ => hp, fun _ => rfl⟩
  · rw [if_neg hp]
    exact ⟨fun hfail => absurd hfail (NeverFails.pure a e bytes), fun h => absurd h hp⟩

/-- Entry after entry is read, until one fails. -/
def BehindMany (write : α → Bytes) (valid : Nat → α → Prop) (bad : Nat → Bytes → Prop)
    (index count : Nat) (bytes : Bytes) : Prop :=
  ∃ (values : List α) (rest : Bytes), values.length < count ∧
    (∀ i a, values[i]? = some a → valid (index + i) a) ∧ bytes = values.flatMap write ++ rest ∧
      bad (index + values.length) rest

theorem FailsOn.readMany {read : Nat → Reader ε α} {valid : Nat → α → Prop}
    {bad : Nat → Bytes → Prop} (hcodes : ∀ index, Codes write (read index) (valid index))
    (h : ∀ index, FailsOn (read index) e (bad index)) (index count : Nat) :
    FailsOn (readMany read index count) e (BehindMany write valid bad index count) := by
  induction count generalizing index with
  | zero =>
    refine (NeverFails.pure [] e).failsOn.congr fun bytes => ⟨?_, False.elim⟩
    rintro ⟨values, rest, hlt, -⟩
    exact Nat.not_lt_zero _ hlt
  | succ count ih =>
    refine (FailsOn.bind (hcodes index) (h index) fun a _ =>
      (ih (index + 1)).before fun values => .pure (a :: values) e).congr fun bytes => ⟨?_, ?_⟩
    · rintro ⟨values, rest, hlt, hvalid, rfl, hbad⟩
      cases values with
      | nil => exact Or.inl hbad
      | cons a values =>
        refine Or.inr ⟨a, values.flatMap write ++ rest, hvalid 0 a rfl, ?_, ?_⟩
        · rw [List.flatMap_cons, List.append_assoc]
        · refine ⟨values, rest, Nat.lt_of_succ_lt_succ hlt, fun i b hb => ?_, rfl, ?_⟩
          · have hnext := hvalid (i + 1) b hb
            rwa [show index + (i + 1) = index + 1 + i by omega] at hnext
          · rwa [List.length_cons, show index + (values.length + 1) = index + 1 + values.length
              by omega] at hbad
    · rintro (hbad | ⟨a, more, ha, rfl, hmore⟩)
      · exact ⟨[], bytes, Nat.zero_lt_succ _, fun i a ha => (by cases ha), rfl, hbad⟩
      · obtain ⟨values, rest, hlt, hvalid, rfl, hbad⟩ := hmore
        refine ⟨a :: values, rest, Nat.succ_lt_succ hlt, fun i b hb => ?_, ?_, ?_⟩
        · cases i with
          | zero =>
            cases hb
            exact ha
          | succ i =>
            have hnext := hvalid i b hb
            rwa [show index + (i + 1) = index + 1 + i by omega]
        · rw [List.flatMap_cons, List.append_assoc]
        · rwa [List.length_cons, show index + (values.length + 1) = index + 1 + values.length
            by omega]

end

end Codec
