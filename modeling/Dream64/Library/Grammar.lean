import Dream64.Library.Codec

/-!
# Readers of a grammar

A grammar says which bytes stand for which values. A reader that reads it finds
the value at the front of the bytes and accepts no others. A writer that may
fail is a grammar: the bytes that it gives for the value.
-/

namespace Codec

section

variable {ε α β : Type}

abbrev Grammar (α : Type) := Bytes → α → Prop

/-- The reader takes off what the grammar has at the front, and nothing else. -/
structure Reads (grammar : Grammar α) (read : Reader ε α) : Prop where
  complete : ∀ {out : Bytes} {a : α}, grammar out a → ∀ rest, read (out ++ rest) = .ok (a, rest)
  sound : ∀ {bytes rest : Bytes} {a : α}, read bytes = .ok (a, rest) →
    ∃ out, grammar out a ∧ bytes = out ++ rest

/-- What a writer gives. -/
def WrittenBy (write : α → Except ε Bytes) : Grammar α := fun out a => write a = .ok out

variable {grammar : Grammar α} {read : Reader ε α}

theorem Codes.reads {write : α → Bytes} {valid : α → Prop} (h : Codes write read valid) :
    Reads (fun out a => valid a ∧ out = write a) read where
  complete hout rest := by
    obtain ⟨hvalid, rfl⟩ := hout
    exact h.read_write _ rest hvalid
  sound hread := ⟨_, ⟨(h.write_read _ _ _ hread).1, rfl⟩, (h.write_read _ _ _ hread).2⟩

namespace Reads

theorem congr {grammar' : Grammar α} (h : Reads grammar read)
    (hiff : ∀ out a, grammar' out a ↔ grammar out a) : Reads grammar' read where
  complete hout := h.complete ((hiff _ _).1 hout)
  sound hread := by
    obtain ⟨out, hout, hbytes⟩ := h.sound hread
    exact ⟨out, (hiff _ _).2 hout, hbytes⟩

theorem pure (x : α) : Reads (fun out a => out = [] ∧ a = x) (pure x : Reader ε α) where
  complete hout rest := by
    obtain ⟨rfl, rfl⟩ := hout
    rfl
  sound hread := by
    cases hread
    exact ⟨[], ⟨rfl, rfl⟩, rfl⟩

/-- One thing and what is behind it. -/
theorem bind {next : α → Reader ε β} {grammarNext : α → Grammar β} (h : Reads grammar read)
    (hnext : ∀ a, Reads (grammarNext a) (next a)) :
    Reads (fun out b => ∃ a first, grammar first a ∧ ∃ last, grammarNext a last b ∧ out = first ++ last)
      (read >>= next) where
  complete hout rest := by
    obtain ⟨a, first, hfirst, last, hlast, rfl⟩ := hout
    rw [bind_apply, List.append_assoc, h.complete hfirst]
    exact (hnext a).complete hlast rest
  sound hread := by
    rw [bind_apply] at hread
    obtain ⟨⟨a, rest'⟩, ha, hnextRead⟩ := bind_eq_ok hread
    obtain ⟨first, hfirst, rfl⟩ := h.sound ha
    obtain ⟨last, hlast, rfl⟩ := (hnext a).sound hnextRead
    exact ⟨first ++ last, ⟨a, first, hfirst, last, hlast, rfl⟩, (List.append_assoc ..).symm⟩

/-- What is made of a value. -/
theorem map (h : Reads grammar read) (f : α → β) :
    Reads (fun out b => ∃ a, grammar out a ∧ b = f a) (read >>= fun a => Pure.pure (f a)) := by
  refine (h.bind fun a => Reads.pure (f a)).congr fun out b => ⟨?_, ?_⟩
  · rintro ⟨a, hout, rfl⟩
    exact ⟨a, out, hout, [], ⟨rfl, rfl⟩, (List.append_nil _).symm⟩
  · rintro ⟨a, first, hfirst, last, ⟨rfl, rfl⟩, rfl⟩
    exact ⟨a, (List.append_nil first).symm ▸ hfirst, rfl⟩

/-- What stands at the front is taken off. -/
theorem step (h : Reads grammar read) {out : Bytes} {a : α} (hout : grammar out a)
    (next : α → Reader ε β) (rest : Bytes) : (read >>= next) (out ++ rest) = next a rest := by
  rw [bind_apply, h.complete hout]
  rfl

/-- The first thing that was read. -/
theorem split (h : Reads grammar read) {next : α → Reader ε β} {bytes rest : Bytes} {b : β}
    (hread : (read >>= next) bytes = .ok (b, rest)) :
    ∃ a out rest', grammar out a ∧ bytes = out ++ rest' ∧ next a rest' = .ok (b, rest) := by
  rw [bind_apply] at hread
  obtain ⟨⟨a, rest'⟩, ha, hnext⟩ := bind_eq_ok hread
  obtain ⟨out, hout, hbytes⟩ := h.sound ha
  exact ⟨a, out, rest', hout, hbytes, hnext⟩

theorem fail {error : ε} : Reads (fun _ _ => False) (throw error : Reader ε α) where
  complete hout := hout.elim
  sound hread := by cases hread

/-- A check. -/
theorem guard {p : Prop} [Decidable p] {error : ε} (h : Reads grammar read) :
    Reads (fun out a => ¬ p ∧ grammar out a) (if p then throw error else read) := by
  by_cases hp : p
  · rw [if_pos hp]
    exact fail.congr fun out a => ⟨fun h => h.1 hp, False.elim⟩
  · rw [if_neg hp]
    exact h.congr fun out a => ⟨And.right, fun h => ⟨hp, h⟩⟩

end Reads

/-- A check of the number of bytes that are left. -/
def demand (p : Nat → Prop) [DecidablePred p] (error : ε) : Reader ε Unit := fun bytes =>
  if p bytes.length then .ok ((), bytes) else .error error

/-- Bytes that are long enough in any case. -/
theorem Reads.demanded (h : Reads grammar read) {p : Nat → Prop} [DecidablePred p] (error : ε)
    (hp : ∀ out a rest, grammar out a → p (out ++ rest : Bytes).length) :
    Reads grammar (demand p error >>= fun _ => read) where
  complete hout rest := by
    rw [bind_apply, demand, if_pos (hp _ _ rest hout)]
    exact h.complete hout rest
  sound {bytes rest a} hread := by
    rw [bind_apply, demand] at hread
    split at hread
    · exact h.sound hread
    · cases hread

/-- So many things one behind the other. -/
def Repeated (grammar : Grammar α) (count : Nat) : Grammar (List α) := fun out values =>
  values.length = count ∧ ∃ outs, List.Forall₂ grammar outs values ∧ out = outs.flatten

theorem Reads.many (h : Reads grammar read) (index count : Nat) :
    Reads (Repeated grammar count) (readMany (fun _ => read) index count) := by
  induction count generalizing index with
  | zero =>
    refine (Reads.pure []).congr fun out values => ⟨?_, ?_⟩
    · rintro ⟨hlength, outs, hall, rfl⟩
      have hnil := List.eq_nil_of_length_eq_zero hlength
      subst hnil
      rw [List.forall₂_nil_right_iff.1 hall]
      exact ⟨rfl, rfl⟩
    · rintro ⟨rfl, rfl⟩
      exact ⟨rfl, [], List.Forall₂.nil, rfl⟩
  | succ count ih =>
    refine (h.bind fun a => (ih (index + 1)).bind fun values => Reads.pure (a :: values)).congr
      fun out values => ⟨?_, ?_⟩
    · rintro ⟨hlength, outs, hall, rfl⟩
      cases hall with
      | nil => cases hlength
      | cons hfirst hall =>
        exact ⟨_, _, hfirst, _, ⟨_, _, ⟨Nat.succ.inj hlength, _, hall, rfl⟩, [], ⟨rfl, rfl⟩, rfl⟩,
          by rw [List.append_nil, List.flatten_cons]⟩
    · rintro ⟨a, first, hfirst, _, ⟨more, _, ⟨hlength, outs, hall, rfl⟩, _, ⟨rfl, rfl⟩, rfl⟩, rfl⟩
      exact ⟨congrArg (· + 1) hlength, first :: outs, List.Forall₂.cons hfirst hall,
        by rw [List.append_nil, List.flatten_cons]⟩

variable {write : α → Except ε Bytes} {values : List α}

theorem forall₂_writtenBy {outs : List Bytes} :
    List.Forall₂ (WrittenBy write) outs values ↔ values.mapM write = .ok outs := by
  induction values generalizing outs with
  | nil =>
    rw [List.forall₂_nil_right_iff, List.mapM_nil, pure_eq_ok]
  | cons a values ih =>
    rw [List.forall₂_cons_right_iff, List.mapM_cons]
    simp only [bind_eq_ok_iff, pure_eq_ok, ih, WrittenBy]
    constructor
    · rintro ⟨out, outs, hout, houts, rfl⟩
      exact ⟨out, hout, outs, houts, rfl⟩
    · rintro ⟨out, hout, outs, houts, rfl⟩
      exact ⟨out, outs, hout, houts, rfl⟩

variable {out : Bytes}

/-- Things of some bytes each take up so many bytes. -/
theorem Repeated.length_le {count least : Nat}
    (hleast : ∀ out a, grammar out a → least ≤ out.length) (h : Repeated grammar count out values) :
    count * least ≤ out.length := by
  obtain ⟨rfl, outs, hall, rfl⟩ := h
  induction hall with
  | nil => simp
  | @cons out a outs values hout _ ih =>
    have hfirst := hleast out a hout
    rw [List.length_cons, List.flatten_cons, List.length_append, Nat.succ_mul]
    omega

/-! ## Parts one behind the other -/

/-- What the parts give, one behind the other; the first error is given back. -/
def joined (parts : List (Except ε Bytes)) : Except ε Bytes := do
  let outs ← parts.mapM id
  .ok outs.flatten

theorem joined_nil_eq_ok : joined ([] : List (Except ε Bytes)) = .ok out ↔ out = [] := by
  rw [joined, List.mapM_nil]
  exact pure_eq_ok

theorem joined_cons_eq_ok {part : Except ε Bytes} {parts : List (Except ε Bytes)} :
    joined (part :: parts) = .ok out ↔
      ∃ first, part = .ok first ∧ ∃ last, joined parts = .ok last ∧ out = first ++ last := by
  rw [joined, List.mapM_cons]
  simp only [bind_eq_ok_iff, pure_eq_ok, joined, id_eq, Except.ok.injEq]
  constructor
  · rintro ⟨_, ⟨first, hfirst, outs, houts, rfl⟩, rfl⟩
    exact ⟨first, hfirst, _, ⟨outs, houts, rfl⟩, List.flatten_cons⟩
  · rintro ⟨first, hfirst, _, ⟨outs, houts, rfl⟩, rfl⟩
    exact ⟨_, ⟨first, hfirst, outs, houts, rfl⟩, List.flatten_cons⟩

/-- The same writer for one value after the other. -/
theorem joined_map_eq_ok :
    joined (values.map write) = .ok out ↔ Repeated (WrittenBy write) values.length out values := by
  have hmap : (values.map write).mapM id = values.mapM write := by
    rw [List.mapM_map]
    rfl
  rw [joined, hmap, Repeated]
  simp only [bind_eq_ok_iff, forall₂_writtenBy, Except.ok.injEq, true_and, eq_comm (a := out)]

/-- The same for the values that are valid. -/
theorem repeated_valid {valid : α → Prop} {count : Nat} :
    Repeated (fun out a => valid a ∧ write a = .ok out) count out values ↔
      values.length = count ∧ (∀ a ∈ values, valid a) ∧ joined (values.map write) = .ok out := by
  have hall (outs : List Bytes) : List.Forall₂ (fun out a => valid a ∧ write a = .ok out) outs values ↔
      (∀ a ∈ values, valid a) ∧ List.Forall₂ (WrittenBy write) outs values := by
    induction values generalizing outs with
    | nil => simp
    | cons a values ih =>
      simp only [List.forall₂_cons_right_iff, ih, List.forall_mem_cons, WrittenBy]
      constructor
      · rintro ⟨out, outs, ⟨ha, hout⟩, ⟨hvalues, houts⟩, rfl⟩
        exact ⟨⟨ha, hvalues⟩, out, outs, hout, houts, rfl⟩
      · rintro ⟨⟨ha, hvalues⟩, out, outs, hout, houts, rfl⟩
        exact ⟨out, outs, ⟨ha, hout⟩, ⟨hvalues, houts⟩, rfl⟩
  simp only [Repeated, joined_map_eq_ok, hall, true_and]
  constructor
  · rintro ⟨hlength, outs, ⟨hvalid, houts⟩, hout⟩
    exact ⟨hlength, hvalid, outs, houts, hout⟩
  · rintro ⟨hlength, hvalid, outs, houts, hout⟩
    exact ⟨hlength, outs, ⟨hvalid, houts⟩, hout⟩

theorem joined_append_eq_ok {parts more : List (Except ε Bytes)} :
    joined (parts ++ more) = .ok out ↔
      ∃ first, joined parts = .ok first ∧ ∃ last, joined more = .ok last ∧ out = first ++ last := by
  induction parts generalizing out with
  | nil =>
    rw [List.nil_append]
    constructor
    · exact fun h => ⟨[], joined_nil_eq_ok.2 rfl, out, h, rfl⟩
    · rintro ⟨first, hfirst, last, hlast, rfl⟩
      rw [joined_nil_eq_ok.1 hfirst]
      exact hlast
  | cons part parts ih =>
    simp only [List.cons_append, joined_cons_eq_ok, ih]
    constructor
    · rintro ⟨a, ha, _, ⟨b, hb, c, hc, rfl⟩, rfl⟩
      exact ⟨a ++ b, ⟨a, ha, b, hb, rfl⟩, c, hc, (List.append_assoc ..).symm⟩
    · rintro ⟨_, ⟨a, ha, b, hb, rfl⟩, c, hc, rfl⟩
      exact ⟨a, ha, b ++ c, ⟨b, hb, c, hc, rfl⟩, List.append_assoc ..⟩

end

end Codec
