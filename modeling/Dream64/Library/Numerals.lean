import Mathlib

/-!
# Numerals

Numbers as text: digits of a radix, most significant first. Reading takes a
sign in front of the digits, upper and lower case, and any number of leading
zeros; a number that does not fit is no number. What is printed is read again.
-/

namespace Numerals

/-- The value of a digit, below the radix. -/
def digitValue (radix : Nat) (c : Char) : Option Nat :=
  let value :=
    if '0'.toNat ≤ c.toNat ∧ c.toNat ≤ '9'.toNat then some (c.toNat - '0'.toNat)
    else if 'a'.toNat ≤ c.toNat ∧ c.toNat ≤ 'z'.toNat then some (c.toNat - 'a'.toNat + 10)
    else if 'A'.toNat ≤ c.toNat ∧ c.toNat ≤ 'Z'.toNat then some (c.toNat - 'A'.toNat + 10)
    else none
  value.filter fun value => decide (value < radix)

/-- The value of digits behind a number. -/
def digitsValue (radix : Nat) : Nat → List Char → Option Nat
  | value, [] => some value
  | value, c :: digits =>
    (digitValue radix c).bind fun digit => digitsValue radix (value * radix + digit) digits

/-- One or more digits. -/
def numeralValue (radix : Nat) (digits : List Char) : Option Nat :=
  if digits = [] then none else digitsValue radix 0 digits

def dropPlus : List Char → List Char
  | '+' :: digits => digits
  | digits => digits

/-- An unsigned number below `bound`. -/
def parseNat (radix bound : Nat) (text : List Char) : Option Nat :=
  (numeralValue radix (dropPlus text)).filter fun value => decide (value < bound)

/-- A number in two's complement of `width + 1` bits. -/
def parseInt (width : Nat) (text : List Char) : Option (BitVec (width + 1)) :=
  if text.head? = some '-' then
    ((numeralValue 10 text.tail).filter fun value => decide (value ≤ 2 ^ width)).map
      fun (value : Nat) => BitVec.ofInt (width + 1) (-(value : Int))
  else (parseNat 10 (2 ^ width) text).map fun (value : Nat) => BitVec.ofInt (width + 1) value

def printNat (radix n : Nat) : List Char := Nat.toDigits radix n

def printInt : Int → List Char
  | .ofNat n => printNat 10 n
  | .negSucc n => '-' :: printNat 10 (n + 1)

/-! ## Digits -/

theorem digitValue_digitChar {radix d : Nat} (hradix : radix ≤ 16) (hd : d < radix) :
    digitValue radix d.digitChar = some d := by
  have h16 : d < 16 := by omega
  have hvalue : ∀ d < 16, digitValue 16 d.digitChar = some d := by decide
  have h := hvalue d h16
  rw [digitValue, Option.filter_eq_some_iff] at h ⊢
  exact ⟨h.1, by simpa using hd⟩

theorem digitsValue_append (radix value : Nat) (first second : List Char) :
    digitsValue radix value (first ++ second) =
      (digitsValue radix value first).bind fun value => digitsValue radix value second := by
  induction first generalizing value with
  | nil => rfl
  | cons c rest ih =>
    rw [List.cons_append, digitsValue, digitsValue, Option.bind_assoc]
    congr 1
    funext digit
    exact ih _

theorem digitsValue_toDigits {radix : Nat} (hone : 1 < radix) (hradix : radix ≤ 16) (n : Nat) :
    digitsValue radix 0 (Nat.toDigits radix n) = some n := by
  induction n using Nat.strongRecOn with
  | ind n ih =>
    by_cases hlt : n < radix
    · rw [Nat.toDigits_of_lt_base hlt, digitsValue, digitValue_digitChar hradix hlt]
      simp [digitsValue]
    · have hdiv : n / radix < n := Nat.div_lt_self (by omega) hone
      rw [Nat.toDigits_of_base_le hone (by omega), digitsValue_append, ih _ hdiv, Option.bind_some,
        digitsValue, digitValue_digitChar hradix (Nat.mod_lt _ (by omega)), Option.bind_some,
        digitsValue, Nat.mul_comm, Nat.div_add_mod]

theorem numeralValue_printNat {radix : Nat} (hone : 1 < radix) (hradix : radix ≤ 16) (n : Nat) :
    numeralValue radix (printNat radix n) = some n := by
  rw [numeralValue, if_neg (show printNat radix n ≠ [] from Nat.toDigits_ne_nil)]
  exact digitsValue_toDigits hone hradix n

/-- Every digit of a printed number. -/
theorem mem_printNat {radix n : Nat} (hone : 1 < radix) {c : Char} (h : c ∈ printNat radix n) :
    ∃ d < radix, c = d.digitChar := by
  induction n using Nat.strongRecOn with
  | ind n ih =>
    rw [printNat] at h
    by_cases hlt : n < radix
    · rw [Nat.toDigits_of_lt_base hlt, List.mem_singleton] at h
      exact ⟨n, hlt, h⟩
    · rw [Nat.toDigits_of_base_le hone (by omega), List.mem_append, List.mem_singleton] at h
      rcases h with h | h
      · exact ih _ (Nat.div_lt_self (by omega) hone) h
      · exact ⟨n % radix, Nat.mod_lt _ (by omega), h⟩

/-- The digits are letters and decimal digits, so no sign and no space. -/
theorem isAlphanum_of_mem_printNat {radix n : Nat} (hone : 1 < radix) (hradix : radix ≤ 16)
    {c : Char} (h : c ∈ printNat radix n) : c.isAlphanum = true := by
  obtain ⟨d, hd, rfl⟩ := mem_printNat hone h
  have hall : ∀ d < 16, d.digitChar.isAlphanum = true := by decide
  exact hall d (by omega)

theorem printNat_ne_nil (radix n : Nat) : printNat radix n ≠ [] := Nat.toDigits_ne_nil

/-! ## What is printed is read -/

theorem head?_printNat {radix n : Nat} (hone : 1 < radix) (hradix : radix ≤ 16) {c : Char}
    (hc : c.isAlphanum = false) : (printNat radix n).head? ≠ some c := by
  intro h
  have halpha := isAlphanum_of_mem_printNat hone hradix (List.mem_of_head? h)
  rw [hc] at halpha
  cases halpha

theorem dropPlus_of_head? {text : List Char} (h : text.head? ≠ some '+') : dropPlus text = text := by
  rw [dropPlus]
  intro digits hdigits
  exact h (by rw [hdigits]; rfl)

theorem parseNat_printNat {radix bound n : Nat} (hone : 1 < radix) (hradix : radix ≤ 16)
    (hn : n < bound) : parseNat radix bound (printNat radix n) = some n := by
  rw [parseNat, dropPlus_of_head? (head?_printNat hone hradix (by decide)),
    numeralValue_printNat hone hradix, Option.filter_some, if_pos (by simpa using hn)]

theorem parseInt_printInt {width : Nat} (x : BitVec (width + 1)) :
    parseInt width (printInt x.toInt) = some x := by
  have hlow := x.le_toInt
  have hhigh := x.toInt_lt
  rw [Nat.add_sub_cancel] at hlow hhigh
  cases hx : x.toInt with
  | ofNat n =>
    rw [hx] at hhigh
    have hn : n < 2 ^ width := by
      have : (n : Int) < ((2 ^ width : Nat) : Int) := by simpa using hhigh
      exact Int.ofNat_lt.1 this
    rw [printInt, parseInt, if_neg (head?_printNat (by decide) (by decide) (by decide)),
      parseNat_printNat (by decide) (by decide) hn, Option.map_some]
    show some (BitVec.ofInt (width + 1) (Int.ofNat n)) = _
    rw [← hx, BitVec.ofInt_toInt]
  | negSucc n =>
    rw [hx] at hlow
    have hn : n + 1 ≤ 2 ^ width := by
      have : -((2 ^ width : Nat) : Int) ≤ Int.negSucc n := by simpa using hlow
      omega
    have hsign : ('-' :: printNat 10 (n + 1)).head? = some '-' := rfl
    rw [printInt, parseInt, if_pos hsign, List.tail_cons, numeralValue_printNat (by decide)
      (by decide), Option.filter_some, if_pos (by simpa using hn), Option.map_some]
    show some (BitVec.ofInt (width + 1) (Int.negSucc n)) = _
    rw [← hx, BitVec.ofInt_toInt]

end Numerals
