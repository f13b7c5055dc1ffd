import Mathlib

/-!
# Codecs

A reader takes a value off the front of a byte string, or fails. `Codes` says
that a reader is the inverse of a writer on the valid values and that it reads
nothing else. The rules go through a record field by field: the fields read so
far determine what is known of the record.
-/

namespace Codec

abbrev Bytes := List UInt8

abbrev Reader (ε α : Type) := StateT Bytes (Except ε) α

/-- The reader gives the valid values that the writer has written, and no others. -/
structure Codes {ε α : Type} (write : α → Bytes) (read : Reader ε α) (valid : α → Prop) :
    Prop where
  read_write (a : α) (rest : Bytes) : valid a → read (write a ++ rest) = .ok (a, rest)
  write_read (bytes : Bytes) (a : α) (rest : Bytes) : read bytes = .ok (a, rest) →
    valid a ∧ bytes = write a ++ rest

section

variable {ε α β : Type} {write : α → Bytes} {read : Reader ε α} {valid known : α → Prop}

theorem bind_apply (read : Reader ε α) (next : α → Reader ε β) (bytes : Bytes) :
    (read >>= next) bytes = (read bytes).bind fun r => next r.1 r.2 := rfl

theorem bind_eq_ok {x : Except ε α} {f : α → Except ε β} {b : β} (h : x.bind f = .ok b) :
    ∃ a, x = .ok a ∧ f a = .ok b := by
  cases x with
  | error => cases h
  | ok a => exact ⟨a, rfl, h⟩

/-- Refuses some of the values. -/
def refuse (p : α → Prop) [DecidablePred p] (error : α → ε) (read : Reader ε α) : Reader ε α :=
  read >>= fun a => if p a then throw (error a) else pure a

/-- The value that is spelled by the one that is read. -/
def respell (decode : α → Option β) (error : α → ε) (read : Reader ε α) : Reader ε β :=
  read >>= fun a =>
    match decode a with
    | some b => pure b
    | none => throw (error a)

namespace Codes

/-- The reader accepts exactly what the writer writes. -/
theorem read_eq_ok (h : Codes write read valid) {bytes rest : Bytes} {a : α} :
    read bytes = .ok (a, rest) ↔ valid a ∧ bytes = write a ++ rest := by
  constructor
  · exact h.write_read bytes a rest
  · rintro ⟨ha, rfl⟩
    exact h.read_write a rest ha

theorem congr {write' : α → Bytes} {valid' : α → Prop} (h : Codes write read valid)
    (hwrite : ∀ a, write' a = write a) (hvalid : ∀ a, valid' a ↔ valid a) :
    Codes write' read valid' where
  read_write a rest ha := by
    rw [hwrite]
    exact h.read_write a rest ((hvalid a).1 ha)
  write_read bytes a rest hread := by
    rw [hwrite, hvalid]
    exact h.write_read bytes a rest hread

/-- All fields are known. -/
theorem pure {x : α} (h : ∀ a, known a ↔ a = x) :
    Codes (fun _ => []) (pure x : Reader ε α) fun a => known a ∧ True where
  read_write a rest ha := by rw [(h a).1 ha.1]; rfl
  write_read bytes a rest hread := by
    cases hread
    exact ⟨⟨(h x).2 rfl, trivial⟩, rfl⟩

/-- The values that are made of other ones. -/
theorem mapped {make : α → β} {write' : β → Bytes} {valid' : β → Prop} (h : Codes write read valid)
    (hwrite : ∀ a, valid a → write' (make a) = write a)
    (hvalid : ∀ b, valid' b ↔ ∃ a, valid a ∧ make a = b) :
    Codes write' (read >>= fun a => Pure.pure (make a)) valid' where
  read_write b rest hb := by
    obtain ⟨a, ha, rfl⟩ := (hvalid b).1 hb
    rw [hwrite a ha, bind_apply, h.read_write a rest ha]
    rfl
  write_read bytes b rest hread := by
    rw [bind_apply] at hread
    obtain ⟨⟨a, rest'⟩, ha, hnext⟩ := bind_eq_ok hread
    cases hnext
    obtain ⟨hfit, rfl⟩ := h.write_read _ _ _ ha
    exact ⟨(hvalid (make a)).2 ⟨a, hfit, rfl⟩, by rw [hwrite a hfit]⟩

/-- There is nothing to read. -/
theorem fail {error : ε} (h : ∀ a, ¬ valid a) : Codes write (throw error : Reader ε α) valid where
  read_write a rest ha := absurd ha (h a)
  write_read bytes a rest hread := by cases hread

section

variable {writeField : β → Bytes} {readField : Reader ε β} {validField : β → Prop} (proj : α → β)
  (hfield : Codes writeField readField validField)

include proj hfield

/-- A field whose valid values depend on what is known, and what is behind it. -/
theorem fieldOf {k v v' : α → Prop} {writeRest : α → Bytes} {readRest : β → Reader ε α}
    (hvalid : ∀ a, k a → (validField (proj a) ↔ v' a)) (hrest : ∀ b, validField b →
      Codes writeRest (readRest b) fun a => (k a ∧ proj a = b) ∧ v a) :
    Codes (fun a => writeField (proj a) ++ writeRest a) (readField >>= readRest)
      fun a => k a ∧ v' a ∧ v a where
  read_write a rest ha := by
    obtain ⟨hknown, hfit, ha⟩ := ha
    have hproj := (hvalid a hknown).2 hfit
    rw [bind_apply, List.append_assoc, hfield.read_write _ _ hproj]
    exact (hrest (proj a) hproj).read_write a rest ⟨⟨hknown, rfl⟩, ha⟩
  write_read bytes a rest hread := by
    rw [bind_apply] at hread
    obtain ⟨⟨b, rest'⟩, hb, hnext⟩ := bind_eq_ok hread
    obtain ⟨hfit, rfl⟩ := hfield.write_read _ _ _ hb
    obtain ⟨⟨⟨hknown, rfl⟩, ha⟩, rfl⟩ := (hrest b hfit).write_read _ _ _ hnext
    rw [List.append_assoc]
    exact ⟨⟨hknown, (hvalid a hknown).1 hfit, ha⟩, rfl⟩

/-- A field, and what is behind it. -/
theorem field {k v : α → Prop} {writeRest : α → Bytes} {readRest : β → Reader ε α}
    (hrest : ∀ b, Codes writeRest (readRest b) fun a => (k a ∧ proj a = b) ∧ v a) :
    Codes (fun a => writeField (proj a) ++ writeRest a) (readField >>= readRest)
      fun a => k a ∧ validField (proj a) ∧ v a :=
  fieldOf proj hfield (fun _ _ => Iff.rfl) fun b _ => hrest b

end

/-- A check of what is known. -/
theorem guard {p : Prop} [Decidable p] {q : α → Prop} {error : ε}
    (hp : ∀ a, known a → (q a ↔ ¬ p)) (h : Codes write read fun a => known a ∧ valid a) :
    Codes write (if p then throw error else read) fun a => known a ∧ q a ∧ valid a where
  read_write a rest ha := by
    obtain ⟨hknown, hq, ha⟩ := ha
    rw [if_neg ((hp a hknown).1 hq)]
    exact h.read_write a rest ⟨hknown, ha⟩
  write_read bytes a rest hread := by
    by_cases hneg : p
    · rw [if_pos hneg] at hread
      cases hread
    · rw [if_neg hneg] at hread
      obtain ⟨⟨hknown, ha⟩, hbytes⟩ := h.write_read bytes a rest hread
      exact ⟨⟨hknown, (hp a hknown).2 hneg, ha⟩, hbytes⟩

theorem refused (h : Codes write read valid) (p : α → Prop) [DecidablePred p] (error : α → ε) :
    Codes write (refuse p error read) fun a => valid a ∧ ¬ p a where
  read_write a rest ha := by
    rw [refuse, bind_apply, h.read_write a rest ha.1]
    show (if p a then throw (error a) else Pure.pure a : Reader ε α) rest = _
    rw [if_neg ha.2]
    rfl
  write_read bytes a rest hread := by
    rw [refuse, bind_apply] at hread
    obtain ⟨⟨b, rest'⟩, hb, hnext⟩ := bind_eq_ok hread
    by_cases hp : p b
    · rw [if_pos hp] at hnext
      cases hnext
    · rw [if_neg hp] at hnext
      cases hnext
      obtain ⟨hvalid, hbytes⟩ := h.write_read _ _ _ hb
      exact ⟨⟨hvalid, hp⟩, hbytes⟩

/-- A value that is checked against the one expected. -/
theorem expected (h : Codes write read valid) {x : α} (hx : valid x) {p : α → Prop}
    [DecidablePred p] (hp : ∀ a, p a ↔ a ≠ x) (error : α → ε) :
    Codes (fun _ : Unit => write x)
      (read >>= fun a => if p a then throw (error a) else Pure.pure ()) fun _ => True where
  read_write _ rest _ := by
    rw [bind_apply, h.read_write x rest hx]
    show (if p x then throw (error x) else Pure.pure () : Reader ε Unit) rest = _
    rw [if_neg (fun hpx => (hp x).1 hpx rfl)]
    rfl
  write_read bytes _ rest hread := by
    rw [bind_apply] at hread
    obtain ⟨⟨a, rest'⟩, ha, hnext⟩ := bind_eq_ok hread
    obtain ⟨-, rfl⟩ := h.write_read _ _ _ ha
    by_cases hpa : p a
    · rw [if_pos hpa] at hnext
      cases hnext
    · rw [if_neg hpa] at hnext
      cases hnext
      exact ⟨trivial, by rw [not_not.1 fun hne => hpa ((hp a).2 hne)]⟩

end Codes

/-! ## Bytes and numbers -/

/-- The first bytes, if there are so many. -/
def readExact (count : Nat) (error : ε) : Reader ε Bytes := fun bytes =>
  if count ≤ bytes.length then .ok (bytes.take count, bytes.drop count) else .error error

theorem codes_readExact (count : Nat) (error : ε) :
    Codes (fun bytes => bytes) (readExact count error) fun bytes => bytes.length = count where
  read_write bytes rest hlength := by
    rw [readExact, if_pos (by rw [List.length_append, hlength]; exact Nat.le_add_right ..)]
    rw [← hlength, List.take_left, List.drop_left]
  write_read bytes value rest hread := by
    unfold readExact at hread
    split at hread
    · rename_i hle
      cases hread
      exact ⟨List.length_take_of_le hle, (List.take_append_drop ..).symm⟩
    · cases hread

/-- A number in some bytes, the lowest first. -/
def toLittleEndian : (count : Nat) → Nat → Bytes
  | 0, _ => []
  | count + 1, value => UInt8.ofNat value :: toLittleEndian count (value / 256)

def ofLittleEndian : Bytes → Nat
  | [] => 0
  | byte :: bytes => byte.toNat + 256 * ofLittleEndian bytes

theorem length_toLittleEndian (count value : Nat) :
    (toLittleEndian count value).length = count := by
  induction count generalizing value with
  | zero => rfl
  | succ count ih => rw [toLittleEndian, List.length_cons, ih]

theorem ofLittleEndian_lt (bytes : Bytes) : ofLittleEndian bytes < 256 ^ bytes.length := by
  induction bytes with
  | nil => exact Nat.one_pos
  | cons byte bytes ih =>
    have hbyte := byte.toNat_lt
    rw [ofLittleEndian, List.length_cons, Nat.pow_succ]
    omega

theorem ofLittleEndian_toLittleEndian {count value : Nat} (h : value < 256 ^ count) :
    ofLittleEndian (toLittleEndian count value) = value := by
  induction count generalizing value with
  | zero =>
    rw [Nat.pow_zero] at h
    exact (Nat.lt_one_iff.1 h).symm
  | succ count ih =>
    rw [Nat.pow_succ] at h
    rw [toLittleEndian, ofLittleEndian, ih (Nat.div_lt_of_lt_mul (by omega)), UInt8.toNat_ofNat']
    omega

theorem toLittleEndian_ofLittleEndian (bytes : Bytes) :
    toLittleEndian bytes.length (ofLittleEndian bytes) = bytes := by
  induction bytes with
  | nil => rfl
  | cons byte bytes ih =>
    have hbyte := byte.toNat_lt
    have hdiv : (byte.toNat + 256 * ofLittleEndian bytes) / 256 = ofLittleEndian bytes := by omega
    have hofNat : UInt8.ofNat (byte.toNat + 256 * ofLittleEndian bytes) = byte := by
      apply UInt8.toNat_inj.1
      rw [UInt8.toNat_ofNat']
      omega
    rw [ofLittleEndian, List.length_cons, toLittleEndian, hdiv, hofNat, ih]

/-- A number in some bytes. -/
def readNumber (count : Nat) (error : ε) : Reader ε Nat :=
  readExact count error >>= fun bytes => Pure.pure (ofLittleEndian bytes)

theorem codes_readNumber (count : Nat) (error : ε) :
    Codes (toLittleEndian count) (readNumber count error) fun value => value < 256 ^ count where
  read_write value rest hvalue := by
    rw [readNumber, bind_apply,
      (codes_readExact count error).read_write _ rest (length_toLittleEndian count value)]
    show Except.ok (ofLittleEndian (toLittleEndian count value), rest) = _
    rw [ofLittleEndian_toLittleEndian hvalue]
  write_read bytes value rest hread := by
    rw [readNumber, bind_apply] at hread
    obtain ⟨⟨number, rest'⟩, hnumber, hnext⟩ := bind_eq_ok hread
    obtain ⟨rfl, rfl⟩ := (codes_readExact count error).write_read _ _ _ hnumber
    cases hnext
    exact ⟨ofLittleEndian_lt number, by rw [toLittleEndian_ofLittleEndian]⟩

/-! ## Lists -/

/-- Values one behind the other, each read with its index. -/
def readMany (read : Nat → Reader ε α) : (index count : Nat) → Reader ε (List α)
  | _, 0 => Pure.pure []
  | index, count + 1 => read index >>= fun a =>
    readMany read (index + 1) count >>= fun values => Pure.pure (a :: values)

theorem codes_readMany {read : Nat → Reader ε α} {valid : Nat → α → Prop}
    (h : ∀ index, Codes write (read index) (valid index)) (index count : Nat) :
    Codes (fun values => values.flatMap write) (readMany read index count) fun values =>
      values.length = count ∧ ∀ i a, values[i]? = some a → valid (index + i) a := by
  induction count generalizing index with
  | zero =>
    constructor
    · rintro values rest ⟨hlength, -⟩
      rw [List.eq_nil_of_length_eq_zero hlength]
      rfl
    · intro bytes values rest hread
      cases hread
      exact ⟨⟨rfl, fun i a ha => (by cases ha)⟩, rfl⟩
  | succ count ih =>
    have hmore := ih (index + 1)
    constructor
    · rintro values rest ⟨hlength, hvalid⟩
      cases values with
      | nil => cases hlength
      | cons a values =>
        have hvalues : values.length = count ∧
            ∀ i a, values[i]? = some a → valid (index + 1 + i) a := by
          refine ⟨Nat.succ.inj hlength, fun i a ha => ?_⟩
          have hnext := hvalid (i + 1) a ha
          rwa [show index + (i + 1) = index + 1 + i by omega] at hnext
        rw [readMany, List.flatMap_cons, bind_apply, List.append_assoc,
          (h index).read_write a _ (hvalid 0 a rfl)]
        show (readMany read (index + 1) count >>= _) _ = _
        rw [bind_apply, hmore.read_write values rest hvalues]
        rfl
    · intro bytes values rest hread
      rw [readMany, bind_apply] at hread
      obtain ⟨⟨a, rest'⟩, ha, hvalues⟩ := bind_eq_ok hread
      obtain ⟨hvalid, rfl⟩ := (h index).write_read _ _ _ ha
      rw [bind_apply] at hvalues
      obtain ⟨⟨more, rest''⟩, hmany, hnext⟩ := bind_eq_ok hvalues
      obtain ⟨⟨hlength, hall⟩, rfl⟩ := hmore.write_read _ _ _ hmany
      cases hnext
      refine ⟨⟨congrArg (· + 1) hlength, fun i b hb => ?_⟩, ?_⟩
      · cases i with
        | zero =>
          cases hb
          exact hvalid
        | succ i =>
          have hnext := hall i b hb
          rwa [show index + (i + 1) = index + 1 + i by omega]
      · rw [List.flatMap_cons, List.append_assoc]

/-- A list behind its length. -/
theorem Codes.list {writeLength : Nat → Bytes} {readLength : Reader ε Nat}
    {validLength : Nat → Prop} {read : Nat → Reader ε α} {valid : Nat → α → Prop}
    (hlength : Codes writeLength readLength validLength)
    (h : ∀ index, Codes write (read index) (valid index)) :
    Codes (fun values => writeLength values.length ++ values.flatMap write)
      (readLength >>= readMany read 0) fun values =>
        validLength values.length ∧ ∀ i a, values[i]? = some a → valid i a := by
  refine (Codes.field (k := fun _ => True) List.length hlength fun count => ?_).congr
    (fun _ => rfl) fun _ => by rw [true_and]
  refine (codes_readMany h 0 count).congr (fun _ => rfl) fun values => ?_
  simp only [true_and, Nat.zero_add]

/-! ## Text -/

/-- The bytes of a text in UTF-8. -/
def utf8 (text : String) : Bytes := text.toUTF8.data.toList

/-- The text that the bytes are in UTF-8. -/
def ofUtf8 (bytes : Bytes) : Option String := String.fromUTF8? ⟨bytes.toArray⟩

theorem ofUtf8_eq_some {bytes : Bytes} {text : String} :
    ofUtf8 bytes = some text ↔ bytes = utf8 text := by
  unfold ofUtf8 String.fromUTF8?
  constructor
  · intro h
    split at h
    · cases h
      exact rfl
    · cases h
  · rintro rfl
    have hbytes : (⟨(utf8 text).toArray⟩ : ByteArray) = text.toByteArray := rfl
    rw [hbytes, dif_pos text.isValidUTF8]
    rfl

theorem Codes.respelled {encode : β → α} {decode : α → Option β} (h : Codes write read valid)
    (hdecode : ∀ a b, decode a = some b ↔ a = encode b) (error : α → ε) :
    Codes (fun b => write (encode b)) (respell decode error read) fun b => valid (encode b) where
  read_write b rest hb := by
    rw [respell, bind_apply, h.read_write _ rest hb]
    dsimp only [Except.bind]
    rw [(hdecode _ b).2 rfl]
    rfl
  write_read bytes b rest hread := by
    rw [respell, bind_apply] at hread
    obtain ⟨⟨a, rest'⟩, ha, hnext⟩ := bind_eq_ok hread
    obtain ⟨hvalid, rfl⟩ := h.write_read _ _ _ ha
    cases hspelled : decode a with
    | none =>
      rw [hspelled] at hnext
      cases hnext
    | some value =>
      rw [hspelled] at hnext
      cases hnext
      have heq := (hdecode a b).1 hspelled
      subst heq
      exact ⟨hvalid, rfl⟩

/-! ## Tags -/

def readByte (error : ε) : Reader ε UInt8
  | byte :: bytes => .ok (byte, bytes)
  | [] => .error error

theorem codes_readByte (error : ε) : Codes (fun byte => [byte]) (readByte error) fun _ => True where
  read_write _ _ _ := rfl
  write_read bytes byte rest hread := by
    cases bytes with
    | nil => cases hread
    | cons first bytes =>
      cases hread
      exact ⟨trivial, rfl⟩

/-- A value behind a tag that says whether it is there. -/
def writeOption (write : α → Bytes) : Option α → Bytes
  | some a => 1 :: write a
  | none => [0]

def readOption (readTag : Reader ε UInt8) (read : Reader ε α) (error : UInt8 → ε) :
    Reader ε (Option α) :=
  readTag >>= fun tag =>
    if tag = 0 then Pure.pure none
    else if tag = 1 then read >>= fun a => Pure.pure (some a)
    else throw (error tag)

theorem codes_readOption (h : Codes write read valid) (missing : ε) (error : UInt8 → ε) :
    Codes (writeOption write) (readOption (readByte missing) read error) fun value =>
      ∀ a, value = some a → valid a where
  read_write value rest hvalue := by
    cases value with
    | none => rfl
    | some a =>
      show (read (write a ++ rest)).bind _ = _
      rw [h.read_write a rest (hvalue a rfl)]
      rfl
  write_read bytes value rest hread := by
    rw [readOption, bind_apply] at hread
    obtain ⟨⟨tag, rest'⟩, htag, hnext⟩ := bind_eq_ok hread
    obtain ⟨-, rfl⟩ := (codes_readByte missing).write_read _ _ _ htag
    dsimp only at hnext
    split at hnext
    · rename_i hzero
      cases hnext
      exact ⟨fun a ha => (by cases ha), by rw [hzero]; rfl⟩
    · split at hnext
      · rename_i hone
        rw [bind_apply] at hnext
        obtain ⟨⟨a, rest''⟩, ha, hsome⟩ := bind_eq_ok hnext
        obtain ⟨hvalid, rfl⟩ := h.write_read _ _ _ ha
        cases hsome
        refine ⟨fun b hb => ?_, by rw [hone]; rfl⟩
        cases hb
        exact hvalid
      · cases hnext

end

end Codec

/-!
# Writers that may fail

A writer that refuses some values writes the same bytes as one that refuses
none, on the values it does not refuse.
-/

namespace Codec

section

variable {ε α : Type} {write : α → Except ε Bytes} {bytes : α → Bytes} {fits : α → Prop}

/-- The writer gives these bytes, on the values that fit. -/
def Writes (write : α → Except ε Bytes) (bytes : α → Bytes) (fits : α → Prop) : Prop :=
  ∀ a out, write a = .ok out ↔ fits a ∧ out = bytes a

theorem pure_eq_ok {a b : α} : (Pure.pure a : Except ε α) = .ok b ↔ b = a := by
  show Except.ok a = .ok b ↔ b = a
  rw [Except.ok.injEq, eq_comm]

theorem bind_eq_ok_iff {β : Type} {x : Except ε α} {f : α → Except ε β} {b : β} :
    (x >>= f) = .ok b ↔ ∃ a, x = .ok a ∧ f a = .ok b := by
  constructor
  · exact bind_eq_ok
  · rintro ⟨a, rfl, h⟩
    exact h

/-- A check in front of a program. -/
theorem refuse_eq_ok {p : Prop} [Decidable p] {error : ε} {next : Except ε α} {a : α} :
    (if p then throw error else next) = .ok a ↔ ¬ p ∧ next = .ok a := by
  by_cases hp : p
  · rw [if_pos hp]
    exact ⟨fun h => (by cases h), fun h => absurd hp h.1⟩
  · rw [if_neg hp]
    exact ⟨fun h => ⟨hp, h⟩, fun h => h.2⟩

theorem Writes.mapM (h : Writes write bytes fits) (values : List α) (out : List Bytes) :
    values.mapM write = .ok out ↔ (∀ a ∈ values, fits a) ∧ out = values.map bytes := by
  induction values generalizing out with
  | nil =>
    rw [List.mapM_nil, pure_eq_ok, List.map_nil]
    exact ⟨fun h => ⟨fun a ha => absurd ha List.not_mem_nil, h⟩, fun h => h.2⟩
  | cons a values ih =>
    rw [List.mapM_cons, List.map_cons, List.forall_mem_cons]
    simp only [bind_eq_ok_iff, pure_eq_ok]
    constructor
    · rintro ⟨first, hfirst, rest, hrest, rfl⟩
      obtain ⟨ha, rfl⟩ := (h a first).1 hfirst
      obtain ⟨hvalues, rfl⟩ := (ih rest).1 hrest
      exact ⟨⟨ha, hvalues⟩, rfl⟩
    · rintro ⟨⟨ha, hvalues⟩, rfl⟩
      exact ⟨bytes a, (h a _).2 ⟨ha, rfl⟩, values.map bytes, (ih _).2 ⟨hvalues, rfl⟩, rfl⟩

end

end Codec
