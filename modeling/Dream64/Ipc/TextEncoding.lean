import Dream64.Ipc.Loopback
import Dream64.Library.ByteSlices
import Dream64.Library.Codec
import Dream64.Library.Numerals
import Dream64.Library.Words

/-!
# Hex fields

Texts travel as pairs of hex digits. `unhex` cuts its field every two bytes,
which panics when a cut falls inside a character; the pairs in front of such
a cut must all be hex digits, since the first pair that is not ends the
decoding with an error (`unhex_eq_panic`). A field that `hex` wrote is decoded
to the same bytes (`unhex_hex`).
-/

namespace Dream64.Ipc

open ByteText (splitBytes)
open String (utf8Len)

def hexByte (byte : UInt8) : List Char :=
  [Nat.digitChar (byte.toNat / 16), Nat.digitChar (byte.toNat % 16)]

def hex (bytes : List UInt8) : List Char := bytes.flatMap hexByte

/-- `u8::from_str_radix` of a pair. -/
def unhexPair (pair : List Char) : Fallible String UInt8 :=
  Fallible.orError ((Numerals.parseNat 16 256 pair).map UInt8.ofNat) "hex field is invalid"

/-- The pairs of a field, up to the first that is none. -/
def unhexPairs : Nat → List Char → Fallible String (List UInt8)
  | 0, _ => .value []
  | n + 1, value =>
    match splitBytes 2 value with
    | none => .panic
    | some (pair, rest) =>
      (unhexPair pair).bind fun byte => (unhexPairs n rest).map fun bytes => byte :: bytes

def unhex (value : List Char) : Fallible String (List UInt8) :=
  if utf8Len value % 2 ≠ 0 then .error "hex field has odd length"
  else unhexPairs (utf8Len value / 2) value

/-- `String::from_utf8` of decoded bytes. -/
def utf8Text (message : String) (bytes : List UInt8) : Fallible String String :=
  Fallible.orError (Codec.ofUtf8 bytes) message

/-- A hex field that must be a text. -/
def unhexText (message : String) (value : List Char) : Fallible String String :=
  (unhex value).bind (utf8Text message)

/-! ## Cuts inside a character -/

/-- Behind pairs of hex digits there is a character that a cut falls into. -/
def cutsCharacter : List Char → Bool
  | [] => false
  | [c] => c.utf8Size != 2
  | c :: d :: rest =>
    if c.utf8Size = 1 then
      if d.utf8Size = 1 then (Numerals.parseNat 16 256 [c, d]).isSome && cutsCharacter rest
      else true
    else c.utf8Size != 2

/-- The fields that panic. -/
def cutsHexField (value : List Char) : Bool := utf8Len value % 2 = 0 && cutsCharacter value

theorem splitBytes_two_of_size {c : Char} (rest : List Char) (h : c.utf8Size = 2) :
    splitBytes 2 (c :: rest) = some ([c], rest) := by
  rw [splitBytes, if_pos (Nat.le_of_eq h), h, Nat.sub_self, splitBytes]
  rfl

theorem splitBytes_two_of_wide {c : Char} (rest : List Char) (h : 2 < c.utf8Size) :
    splitBytes 2 (c :: rest) = none := by
  rw [splitBytes, if_neg (Nat.not_le.2 h)]

theorem splitBytes_two_of_narrow {c d : Char} (rest : List Char) (hc : c.utf8Size = 1)
    (hd : d.utf8Size = 1) : splitBytes 2 (c :: d :: rest) = some ([c, d], rest) := by
  rw [splitBytes, if_pos (by omega), hc, splitBytes, if_pos (by omega), hd, Nat.sub_self, splitBytes]
  rfl

theorem splitBytes_two_of_cut {c d : Char} (rest : List Char) (hc : c.utf8Size = 1)
    (hd : 1 < d.utf8Size) : splitBytes 2 (c :: d :: rest) = none := by
  rw [splitBytes, if_pos (by omega), hc, splitBytes, if_neg (by omega)]
  rfl

theorem unhexPair_ne_panic (pair : List Char) : unhexPair pair ≠ .panic :=
  Fallible.orError_ne_panic _ _

theorem digitValue_of_wide {c : Char} (h : c.utf8Size ≠ 1) : Numerals.digitValue 16 c = none := by
  have hlarge : 128 ≤ c.toNat := by
    by_contra hlt
    apply h
    rw [Char.utf8Size_eq_one_iff, UInt32.le_iff_toNat_le]
    show c.toNat ≤ 127
    omega
  have h0 : ('9' : Char).toNat = 57 := rfl
  have h1 : ('z' : Char).toNat = 122 := rfl
  have h2 : ('Z' : Char).toNat = 90 := rfl
  rw [Numerals.digitValue, if_neg (by omega), if_neg (by omega), if_neg (by omega)]
  rfl

/-- A character of two bytes is a pair of its own, but not of digits. -/
theorem parseNat_singleton_of_wide {c : Char} (h : c.utf8Size ≠ 1) :
    Numerals.parseNat 16 256 [c] = none := by
  have hplus : c ≠ '+' := by
    intro heq
    subst heq
    exact h (by decide)
  rw [Numerals.parseNat, Numerals.dropPlus_of_head? (by simpa using hplus), Numerals.numeralValue,
    if_neg (List.cons_ne_nil _ _), Numerals.digitsValue, digitValue_of_wide h]
  rfl

theorem unhexPairs_eq_panic (n : Nat) (value : List Char) (h : utf8Len value = 2 * n) :
    unhexPairs n value = .panic ↔ cutsCharacter value = true := by
  induction n generalizing value with
  | zero =>
    have hnil : value = [] := by
      cases value with
      | nil => rfl
      | cons c rest =>
        have := c.utf8Size_pos
        rw [String.utf8Len_cons] at h
        omega
    subst hnil
    simp [unhexPairs, cutsCharacter]
  | succ n ih =>
    cases value with
    | nil =>
      rw [String.utf8Len_nil] at h
      omega
    | cons c rest =>
      have hpos := c.utf8Size_pos
      rw [String.utf8Len_cons] at h
      rcases Nat.lt_trichotomy c.utf8Size 2 with hnarrow | htwo | hwide
      · have hc : c.utf8Size = 1 := by omega
        cases rest with
        | nil =>
          rw [String.utf8Len_nil] at h
          omega
        | cons d rest =>
          rw [String.utf8Len_cons] at h
          by_cases hd : d.utf8Size = 1
          · have hrest := ih rest (by omega)
            rw [unhexPairs, splitBytes_two_of_narrow rest hc hd, cutsCharacter, if_pos hc, if_pos hd,
              Bool.and_eq_true, ← hrest]
            dsimp only
            rw [Fallible.bind_eq_panic]
            constructor
            · rintro (hpair | ⟨byte, hpair, hpairs⟩)
              · exact absurd hpair (unhexPair_ne_panic _)
              · obtain ⟨number, hnumber, -⟩ :=
                  Option.map_eq_some_iff.1 (Fallible.orError_eq_value.1 hpair)
                exact ⟨by rw [hnumber]; rfl, Fallible.map_eq_panic.1 hpairs⟩
            · rintro ⟨hsome, hpairs⟩
              obtain ⟨number, hnumber⟩ := Option.isSome_iff_exists.1 hsome
              refine .inr ⟨UInt8.ofNat number, ?_, Fallible.map_eq_panic.2 hpairs⟩
              rw [unhexPair, hnumber]
              rfl
          · have hd' := d.utf8Size_pos
            rw [unhexPairs, splitBytes_two_of_cut rest hc (by omega), cutsCharacter, if_pos hc,
              if_neg hd]
            simp
      · -- The pair is the character itself, which is no pair of digits.
        have hnot : cutsCharacter (c :: rest) = false := by
          cases rest with
          | nil => simp [cutsCharacter, htwo]
          | cons d rest => simp [cutsCharacter, htwo]
        rw [unhexPairs, splitBytes_two_of_size rest htwo, hnot]
        dsimp only
        rw [unhexPair, parseNat_singleton_of_wide (by omega)]
        simp
      · have hcut : cutsCharacter (c :: rest) = true := by
          have hne : c.utf8Size ≠ 2 := by omega
          have hone : c.utf8Size ≠ 1 := by omega
          cases rest with
          | nil => simp [cutsCharacter, hne]
          | cons d rest => simp [cutsCharacter, hne, hone]
        rw [unhexPairs, splitBytes_two_of_wide rest hwide, hcut]
        simp

theorem unhex_eq_panic (value : List Char) :
    unhex value = .panic ↔ cutsHexField value = true := by
  rw [unhex, cutsHexField]
  by_cases hodd : utf8Len value % 2 = 0
  · rw [if_neg (by simpa using hodd), unhexPairs_eq_panic _ _ (by omega)]
    simp [hodd]
  · rw [if_pos hodd]
    simp [hodd]

theorem unhexText_eq_panic {message : String} {value : List Char} :
    unhexText message value = .panic ↔ cutsHexField value = true := by
  rw [unhexText, Fallible.bind_eq_panic, unhex_eq_panic]
  constructor
  · rintro (hcut | ⟨bytes, -, htext⟩)
    · exact hcut
    · exact absurd htext (Fallible.orError_ne_panic _ _)
  · exact .inl

/-! ## Pairs of hex digits -/

/-- The bytes of a field that is nothing but pairs of hex digits. -/
def hexPairs : List Char → Option (List UInt8)
  | [] => some []
  | [_] => none
  | c :: d :: rest =>
    (Numerals.parseNat 16 256 [c, d]).bind fun number =>
      (hexPairs rest).map fun bytes => UInt8.ofNat number :: bytes

/-- The text of a field of hex pairs. -/
def hexPairsText (value : List Char) : Option String := (hexPairs value).bind Codec.ofUtf8

/-- The digits of a pair are ASCII characters. -/
theorem utf8Size_of_parseNat {c d : Char} {number : Nat}
    (h : Numerals.parseNat 16 256 [c, d] = some number) : c.utf8Size = 1 ∧ d.utf8Size = 1 := by
  rw [Numerals.parseNat] at h
  have hvalue := (Option.filter_eq_some_iff.1 h).1
  by_cases hplus : c = '+'
  · subst hplus
    refine ⟨by decide, ?_⟩
    by_contra hd
    rw [Numerals.dropPlus, Numerals.numeralValue, if_neg (List.cons_ne_nil _ _),
      Numerals.digitsValue, digitValue_of_wide hd] at hvalue
    cases hvalue
  · rw [Numerals.dropPlus_of_head? (by simpa using hplus), Numerals.numeralValue,
      if_neg (List.cons_ne_nil _ _), Numerals.digitsValue] at hvalue
    constructor
    · by_contra hc
      rw [digitValue_of_wide hc] at hvalue
      cases hvalue
    · by_contra hd
      obtain ⟨first, -, hrest⟩ := Option.bind_eq_some_iff.1 hvalue
      rw [Numerals.digitsValue, digitValue_of_wide hd] at hrest
      cases hrest

theorem unhexPairs_eq_value (n : Nat) (value : List Char) (bytes : List UInt8)
    (h : utf8Len value = 2 * n) : unhexPairs n value = .value bytes ↔ hexPairs value = some bytes := by
  induction n generalizing value bytes with
  | zero =>
    have hnil : value = [] := by
      cases value with
      | nil => rfl
      | cons c rest =>
        have := c.utf8Size_pos
        rw [String.utf8Len_cons] at h
        omega
    subst hnil
    simp [unhexPairs, hexPairs]
  | succ n ih =>
    cases value with
    | nil =>
      rw [String.utf8Len_nil] at h
      omega
    | cons c rest =>
      rw [String.utf8Len_cons] at h
      by_cases hc : c.utf8Size = 1
      · cases rest with
        | nil =>
          rw [String.utf8Len_nil] at h
          omega
        | cons d rest =>
          rw [String.utf8Len_cons] at h
          by_cases hd : d.utf8Size = 1
          · rw [unhexPairs, splitBytes_two_of_narrow rest hc hd, hexPairs]
            dsimp only
            rw [unhexPair]
            cases hpair : Numerals.parseNat 16 256 [c, d] with
            | none => simp
            | some number =>
              have hrest := fun more => ih rest more (by omega)
              simp [Fallible.map_eq_value, hrest]
          · have hpos := d.utf8Size_pos
            rw [unhexPairs, splitBytes_two_of_cut rest hc (by omega), hexPairs]
            cases hpair : Numerals.parseNat 16 256 [c, d] with
            | none => simp
            | some number => exact absurd (utf8Size_of_parseNat hpair).2 hd
      · have hnone : hexPairs (c :: rest) = none := by
          cases rest with
          | nil => rfl
          | cons d rest =>
            rw [hexPairs]
            cases hpair : Numerals.parseNat 16 256 [c, d] with
            | none => rfl
            | some number => exact absurd (utf8Size_of_parseNat hpair).1 hc
        have hpos := c.utf8Size_pos
        rw [hnone, unhexPairs]
        by_cases htwo : c.utf8Size = 2
        · rw [splitBytes_two_of_size rest htwo]
          dsimp only
          rw [unhexPair, parseNat_singleton_of_wide hc]
          simp
        · rw [splitBytes_two_of_wide rest (by omega)]
          simp

theorem utf8Len_of_hexPairs {value : List Char} {bytes : List UInt8}
    (h : hexPairs value = some bytes) : utf8Len value = 2 * bytes.length := by
  induction value using hexPairs.induct generalizing bytes with
  | case1 =>
    cases h
    rfl
  | case2 c => cases h
  | case3 c d rest ih =>
    rw [hexPairs] at h
    obtain ⟨number, hpair, hrest⟩ := Option.bind_eq_some_iff.1 h
    obtain ⟨more, hmore, rfl⟩ := Option.map_eq_some_iff.1 hrest
    have hsize := utf8Size_of_parseNat hpair
    rw [String.utf8Len_cons, String.utf8Len_cons, ih hmore, hsize.1, hsize.2, List.length_cons]
    omega

theorem unhex_eq_value (value : List Char) (bytes : List UInt8) :
    unhex value = .value bytes ↔ hexPairs value = some bytes := by
  rw [unhex]
  by_cases hodd : utf8Len value % 2 = 0
  · rw [if_neg (by simpa using hodd), unhexPairs_eq_value _ _ _ (by omega)]
  · rw [if_pos hodd]
    constructor
    · intro h
      cases h
    · intro h
      have := utf8Len_of_hexPairs h
      omega

theorem unhexText_eq_value {message : String} {value : List Char} {text : String} :
    unhexText message value = .value text ↔ hexPairsText value = some text := by
  rw [unhexText, Fallible.bind_eq_value, hexPairsText, Option.bind_eq_some_iff]
  simp only [unhex_eq_value, utf8Text, Fallible.orError_eq_value]

/-! ## What `hex` writes -/

theorem utf8Size_digitChar {d : Nat} (h : d < 16) : d.digitChar.utf8Size = 1 := by
  have hall : ∀ d < 16, d.digitChar.utf8Size = 1 := by decide
  exact hall d h

theorem utf8Len_hex (bytes : List UInt8) : utf8Len (hex bytes) = 2 * bytes.length := by
  induction bytes with
  | nil => rfl
  | cons byte rest ih =>
    have hbyte := byte.toNat_lt
    show utf8Len (_ :: _ :: hex rest) = _
    rw [String.utf8Len_cons, String.utf8Len_cons, ih, utf8Size_digitChar (by omega),
      utf8Size_digitChar (by omega), List.length_cons]
    omega

theorem parseNat_hexByte (byte : UInt8) :
    Numerals.parseNat 16 256 (hexByte byte) = some byte.toNat := by
  have hbyte := byte.toNat_lt
  have hplus : (hexByte byte).head? ≠ some '+' := by
    have hall : ∀ d < 16, d.digitChar ≠ '+' := by decide
    intro h
    exact hall _ (by omega) (Option.some.inj h)
  rw [Numerals.parseNat, Numerals.dropPlus_of_head? hplus, hexByte, Numerals.numeralValue,
    if_neg (List.cons_ne_nil _ _), Numerals.digitsValue,
    Numerals.digitValue_digitChar (by decide) (by omega), Option.bind_some, Numerals.digitsValue,
    Numerals.digitValue_digitChar (by decide) (by omega), Option.bind_some, Numerals.digitsValue,
    Option.filter_some, if_pos (by simp; omega)]
  congr 1
  omega

theorem unhexPairs_hex (bytes : List UInt8) :
    unhexPairs bytes.length (hex bytes) = .value bytes := by
  induction bytes with
  | nil => rfl
  | cons byte rest ih =>
    have hbyte := byte.toNat_lt
    have hsplit : splitBytes 2 (hex (byte :: rest)) = some (hexByte byte, hex rest) :=
      splitBytes_two_of_narrow (hex rest) (utf8Size_digitChar (by omega))
        (utf8Size_digitChar (by omega))
    rw [List.length_cons, unhexPairs, hsplit]
    dsimp only
    rw [unhexPair, parseNat_hexByte, ih]
    simp

theorem unhex_hex (bytes : List UInt8) : unhex (hex bytes) = .value bytes := by
  rw [unhex, utf8Len_hex, if_neg (by omega), Nat.mul_div_cancel_left _ (by decide), unhexPairs_hex]

theorem unhexText_hex (message : String) (text : String) :
    unhexText message (hex (Codec.utf8 text)) = .value text := by
  rw [unhexText, unhex_hex, Fallible.value_bind, utf8Text, Codec.ofUtf8_eq_some.2 rfl,
    Fallible.orError_some]

end Dream64.Ipc
