import Dream64.Vm.TextBuiltins

/-!
# Positions of texts

A position that a search gives is a number, which is the position itself below
`2 ^ 24`. The offset of a position that lies in front of a character is where
the text in front of it ends; in the byte form a position inside of a character
has the offset of the character. On these offsets `findtext`, `copytext` and
`splicetext` agree about what a position means (`positions_agree`).
-/

namespace Dream64

open ByteText (boundaries slice sliceFrom sliceTo)
open String (utf8Len)

/-! ## Numbers of positions -/

namespace DmNumberBits

variable {n x m : Nat}

/-- The fields of a number that is put together from them. -/
theorem fields_eq (hx : x < 2 ^ 8) (hm : m < 2 ^ 23) :
    (ofFields x m).isNegative = false ∧
      (ofFields x m).exponent = x ∧
      ((ofFields x m).extractLsb' 0 23).toNat = m := by
  have hsum : x * 2 ^ 23 + m < 2 ^ 31 := by omega
  have hmod : (x * 2 ^ 23 + m) % 2 ^ 32 = x * 2 ^ 23 + m := Nat.mod_eq_of_lt (by omega)
  refine ⟨?_, ?_, ?_⟩
  · rw [isNegative, ofFields, BitVec.getLsbD_ofNat, Nat.testBit_lt_two_pow hsum, Bool.and_false]
  · rw [exponent, ofFields, BitVec.extractLsb'_toNat, BitVec.toNat_ofNat, hmod,
      Nat.shiftRight_eq_div_pow]
    omega
  · rw [ofFields, BitVec.extractLsb'_toNat, BitVec.toNat_ofNat, hmod, Nat.shiftRight_eq_div_pow]
    omega

/-- A finite number that is at least one. -/
theorem toI64_of_fields (hx : x < 255) (hx' : 127 ≤ x) (hm : m < 2 ^ 23) :
    (ofFields x m).isFinite = true ∧
    (ofFields x m).toI64 = min (2 ^ 63 - 1)
      ((if x ≤ 150 then (2 ^ 23 + m) / 2 ^ (150 - x) else (2 ^ 23 + m) * 2 ^ (x - 150) : Nat) : Int) := by
  obtain ⟨hsign, hexponent, hsignificand⟩ := fields_eq (show x < 2 ^ 8 by omega) hm
  have hfinite : (ofFields x m).isFinite = true := by
    rw [isFinite, hexponent, bne_iff_ne]
    omega
  have hnan : (ofFields x m).isNaN = false := by
    rw [isNaN, Bool.and_eq_false_iff]
    refine .inl (beq_eq_false_iff_ne.2 fun heq => ?_)
    have hfield := congrArg BitVec.toNat heq
    rw [exponent] at hexponent
    rw [hexponent] at hfield
    have : (255#8).toNat = 255 := rfl
    omega
  refine ⟨hfinite, ?_⟩
  rw [toI64, hnan, hsign, hfinite, integralPart, hexponent, hsignificand]
  rw [if_neg Bool.false_ne_true, if_neg Bool.false_ne_true, if_pos rfl, if_neg (by omega)]

theorem log2_bounds (hn : n ≠ 0) : 2 ^ Nat.log2 n ≤ n ∧ n < 2 ^ (Nat.log2 n + 1) :=
  ⟨Nat.log2_self_le hn, Nat.lt_log2_self⟩

theorem ofNat_small (hn : n ≠ 0) (hsmall : n < 2 ^ 24) :
    (ofNat n).isFinite = true ∧ (ofNat n).toI64 = n := by
  obtain ⟨hle, hlt⟩ := log2_bounds hn
  have hlog : Nat.log2 n ≤ 23 := by
    by_contra hbig
    have hpow : 2 ^ 24 ≤ 2 ^ Nat.log2 n := Nat.pow_le_pow_right (by omega) (by omega)
    omega
  obtain ⟨rest, hrest⟩ : ∃ rest, Nat.log2 n + rest = 23 := ⟨23 - Nat.log2 n, by omega⟩
  have hscale : 2 ^ Nat.log2 n * 2 ^ rest = 2 ^ 23 := by rw [← pow_add, hrest]
  have hlow : 2 ^ 23 ≤ n * 2 ^ rest := by
    rw [← hscale]
    exact Nat.mul_le_mul_right _ hle
  have hhigh : n * 2 ^ rest < 2 ^ 24 := by
    have hmul := (Nat.mul_lt_mul_right (Nat.two_pow_pos rest)).2 hlt
    have htop : 2 ^ (Nat.log2 n + 1) * 2 ^ rest = 2 ^ 24 := by
      rw [← pow_add]
      congr 1
      omega
    omega
  have heq : ofNat n =
      ofFields (Nat.log2 n + 127) (n * 2 ^ rest - 2 ^ 23) := by
    have hzero : Nat.log2 n - 23 = 0 := by omega
    have hexp : 23 - Nat.log2 n = rest := by omega
    rw [ofNat]
    simp only [hzero, pow_zero, Nat.mod_one, Nat.div_one, hexp]
    rw [if_neg hn, if_neg (by omega), if_neg (by omega)]
  obtain ⟨hfinite, hvalue⟩ := @toI64_of_fields (Nat.log2 n + 127) (n * 2 ^ rest - 2 ^ 23)
    (by omega) (by omega) (by omega)
  rw [heq]
  refine ⟨hfinite, ?_⟩
  rw [hvalue, if_pos (by omega)]
  have hexp : 150 - (Nat.log2 n + 127) = rest := by omega
  rw [hexp, Nat.add_sub_cancel' hlow, Nat.mul_div_cancel _ (Nat.two_pow_pos rest)]
  omega

theorem le_toI64_ofFields (hx : 151 ≤ x) (hx' : x < 255) (hm : m ≤ 2 ^ 23) :
    2 ^ 24 ≤ (ofFields x m).toI64 := by
  have hbelow (x m : Nat) (hx : 151 ≤ x) (hx' : x < 255) (hm : m < 2 ^ 23) :
      2 ^ 24 ≤ (ofFields x m).toI64 := by
    rw [(toI64_of_fields hx' (by omega) hm).2, if_neg (by omega)]
    have hpow : 2 ^ 1 ≤ 2 ^ (x - 150) := Nat.pow_le_pow_right (by omega) (by omega)
    have hmul := Nat.mul_le_mul (Nat.le_add_right (2 ^ 23) m) hpow
    omega
  rcases Nat.lt_or_ge m (2 ^ 23) with hlt | hge
  · exact hbelow x m hx hx' hlt
  · -- the significand overflows into the exponent
    have hsum : x * 2 ^ 23 + m = (x + 1) * 2 ^ 23 + 0 := by omega
    have hcarry : ofFields x m = ofFields (x + 1) 0 := by rw [ofFields, hsum, ofFields]
    rw [hcarry]
    rcases Nat.lt_or_ge (x + 1) 255 with hlt | hlast
    · exact hbelow (x + 1) 0 (by omega) hlt (Nat.two_pow_pos 23)
    · have heq : x + 1 = 255 := by omega
      rw [heq]
      decide

theorem le_ofNat (hlarge : 2 ^ 24 ≤ n) : 2 ^ 24 ≤ (ofNat n).toI64 := by
  have hn : n ≠ 0 := by omega
  obtain ⟨hle, hlt⟩ := log2_bounds hn
  have hlog : 24 ≤ Nat.log2 n := by
    by_contra hsmall
    have hpow : 2 ^ (Nat.log2 n + 1) ≤ 2 ^ 24 := Nat.pow_le_pow_right (by omega) (by omega)
    omega
  have hkept : n / 2 ^ (Nat.log2 n - 23) < 2 ^ 24 := by
    rw [Nat.div_lt_iff_lt_mul (Nat.two_pow_pos _), ← pow_add]
    exact Nat.lt_of_lt_of_le hlt (Nat.pow_le_pow_right (by omega) (by omega))
  have hzero : 23 - Nat.log2 n = 0 := by omega
  rw [ofNat, if_neg hn, hzero, pow_zero, Nat.mul_one]
  by_cases hfar : 127 < Nat.log2 n
  · rw [if_pos hfar]
    decide
  · rw [if_neg hfar]
    refine le_toI64_ofFields (by omega) (by omega) ?_
    split <;> omega

end DmNumberBits
/-! ## Offsets -/

section

variable {text a b : List Char} {m n : Nat} {characterIndices : Bool}

theorem logicalLength_append (a b : List Char) (characterIndices : Bool) :
    logicalLength (a ++ b) characterIndices =
      logicalLength a characterIndices + logicalLength b characterIndices := by
  cases characterIndices with
  | true => exact List.length_append
  | false => exact String.utf8Len_append a b

/-- The offset behind a first part of a text. -/
theorem byteOffset_append (a b : List Char) (characterIndices : Bool) :
    byteOffset (a ++ b) (logicalLength a characterIndices) characterIndices = utf8Len a := by
  cases characterIndices with
  | true =>
    show utf8Len ((a ++ b).take a.length) = utf8Len a
    rw [List.take_left]
  | false =>
    have hmin : min (utf8Len a) (utf8Len (a ++ b)) = utf8Len a := by
      rw [String.utf8Len_append]
      omega
    show ByteText.previousBoundary (a ++ b) (min (utf8Len a) (utf8Len (a ++ b))) = utf8Len a
    rw [hmin]
    exact ByteText.previousBoundary_of_isBoundary ⟨a, b, rfl, rfl⟩

/-- A position in front of the end of a first part has an offset in front of it. -/
theorem byteOffset_lt (h : m < logicalLength a characterIndices) (b : List Char) :
    byteOffset (a ++ b) m characterIndices < utf8Len a := by
  cases characterIndices with
  | true =>
    show utf8Len ((a ++ b).take m) < utf8Len a
    have hlt : m < a.length := h
    rw [List.take_append_of_le_length (by omega)]
    have hsplit := congrArg utf8Len (List.take_append_drop m a)
    rw [String.utf8Len_append, List.drop_eq_getElem_cons hlt, String.utf8Len_cons] at hsplit
    have hpos := (a[m]).utf8Size_pos
    omega
  | false =>
    have hle := ByteText.previousBoundary_le (a ++ b) (min m (utf8Len (a ++ b)))
    have hlt : m < utf8Len a := h
    show ByteText.previousBoundary (a ++ b) (min m (utf8Len (a ++ b))) < utf8Len a
    omega

/-- A position moved back to the start of its character. -/
def characterStart (text : List Char) (position : Nat) (characterIndices : Bool) : Nat :=
  if characterIndices then position else byteOffset text (position - 1) false + 1

theorem characterStart_le (h : byteOffset text (m - 1) characterIndices ≤ utf8Len a)
    (happend : a ++ b = text) (hm : m ≤ logicalLength text characterIndices + 1) :
    characterStart text m characterIndices ≤ logicalLength a characterIndices + 1 := by
  cases characterIndices with
  | true =>
    show m ≤ a.length + 1
    by_contra hbehind
    have hm' : m ≤ text.length + 1 := hm
    have htake : (text.take (m - 1)).length = m - 1 := List.length_take_of_le (by omega)
    have hlt : logicalLength a true < logicalLength (text.take (m - 1)) true := by
      show a.length < (text.take (m - 1)).length
      omega
    have hoffset := byteOffset_lt hlt (text.drop (m - 1))
    rw [List.take_append_drop, ← happend, byteOffset_append, happend] at hoffset
    have hle : utf8Len (text.take (m - 1)) ≤ utf8Len a := h
    omega
  | false => exact Nat.succ_le_succ h

theorem le_characterStart (h : utf8Len a ≤ byteOffset text (m - 1) characterIndices)
    (happend : a ++ b = text) (hm : 1 ≤ m) :
    logicalLength a characterIndices + 1 ≤ characterStart text m characterIndices := by
  cases characterIndices with
  | true =>
    show a.length + 1 ≤ m
    by_contra hbehind
    have hlt : m - 1 < logicalLength a true := by
      show m - 1 < a.length
      omega
    have hoffset := byteOffset_lt hlt b
    rw [happend] at hoffset
    omega
  | false => exact Nat.succ_le_succ h

end

/-! ## Searching -/

section

variable {σ Target : Type} {host : TextHost σ Target} {state : σ}

theorem matchesAt_exact {text needle : List Char} {offset : Nat} {outcome : Bool}
    (h : matchesAt host text needle true offset = .value outcome) :
    ∃ a b, a ++ b = text ∧ utf8Len a = offset ∧ (outcome = true ↔ needle <+: b) := by
  obtain ⟨tail, htail, hvalue⟩ := Fallible.map_eq_value.1 h
  obtain ⟨a, happend, hlength⟩ := ByteText.sliceFrom_eq_value_iff.1 htail
  refine ⟨a, tail, happend, hlength, ?_⟩
  rw [← hvalue, if_pos rfl, List.isPrefixOf_iff_prefix]

/-- An exact search finds the first occurrence. -/
theorem findMatch_exact {text needle : List Char} {offset : Nat}
    (h : findMatch host text needle true false = .value (some offset)) :
    ∃ a b, a ++ (needle ++ b) = text ∧ utf8Len a = offset ∧
      ∀ a' b', a' ++ (needle ++ b') = text → utf8Len a ≤ utf8Len a' := by
  obtain ⟨before, after, hsplit, hfound, hmissing⟩ := Fallible.find_eq_some h
  obtain ⟨a, tail, happend, hlength, houtcome⟩ := matchesAt_exact hfound
  obtain ⟨b, rfl⟩ := houtcome.1 rfl
  refine ⟨a, b, happend, hlength, fun a' b' happend' => ?_⟩
  have hsplit : boundaries text = before ++ offset :: after := hsplit
  have hmem := ByteText.mem_boundaries a' (needle ++ b')
  rw [happend', hsplit, List.mem_append, List.mem_cons] at hmem
  rcases hmem with hearlier | heq | hlater
  · obtain ⟨c, d, hcd, hc, hcase⟩ := matchesAt_exact (hmissing _ hearlier)
    obtain ⟨rfl, rfl⟩ := ByteText.append_unique (hcd.trans happend'.symm) hc
    have hfalse := hcase.2 (List.prefix_append needle b')
    cases hfalse
  · rw [hlength, heq]
  · have hsorted := ByteText.boundaries_sorted text
    rw [hsplit, List.pairwise_append] at hsorted
    have hlt := (List.pairwise_cons.1 hsorted.2.1).1 _ hlater
    omega

theorem positionOf_append (a b : List Char) (characterIndices : Bool) :
    positionOf (a ++ b) (utf8Len a) characterIndices =
      .value (logicalLength a characterIndices + 1) := by
  cases characterIndices with
  | true =>
    show (sliceTo (a ++ b) (utf8Len a)).map (fun before => before.length + 1) = _
    rw [ByteText.sliceTo_append]
    rfl
  | false => rfl

/-- A position that is not too large for a number is given as it is. -/
theorem ofNat_position {position : Nat} {bits : DmNumberBits}
    (h : Value.ofNat position = .number bits) (hpos : 0 < bits.toI64) (hlt : bits.toI64 < 2 ^ 24) :
    bits.toI64 = position := by
  rw [Value.ofNat, Value.number.injEq] at h
  rw [← h] at hpos hlt ⊢
  have hn : position ≠ 0 := by
    rintro rfl
    have hzero : (DmNumberBits.ofNat 0).toI64 = 0 := by decide
    omega
  have hsmall : position < 2 ^ 24 := by
    by_contra hlarge
    have hle := DmNumberBits.le_ofNat (Nat.not_lt.1 hlarge)
    omega
  exact (DmNumberBits.ofNat_small hn hsmall).2

/-- What an exact search finds in a region is the first occurrence in the region. -/
theorem findText_exact {text n : List Char} {needle : Value} {start finish : Option Value}
    {characterIndices : Bool} {bits : DmNumberBits}
    (hneedle : strictText host state needle "findtext needle" = .value n)
    (h : findText host state text needle start finish true characterIndices false =
      .value (.number bits)) (hpos : 0 < bits.toI64) (hlt : bits.toI64 < 2 ^ 24) :
    ∃ i j a b, signedPosition host start 1 = .value i ∧ signedPosition host finish 0 = .value j ∧
      a ++ (n ++ b) = text ∧ bits.toI64 = (logicalLength a characterIndices + 1 : Nat) ∧
      (textRegion text i j characterIndices).1 ≤ utf8Len a ∧
      utf8Len a + utf8Len n ≤ (textRegion text i j characterIndices).2.1 ∧
      ∀ a' b', a' ++ (n ++ b') = text → (textRegion text i j characterIndices).1 ≤ utf8Len a' →
        utf8Len a' + utf8Len n ≤ (textRegion text i j characterIndices).2.1 →
          utf8Len a ≤ utf8Len a' := by
  rw [findText, hneedle, Fallible.value_bind] at h
  simp only [Bool.false_eq_true, if_false] at h
  obtain ⟨i, hi, h⟩ := Fallible.bind_eq_value.1 h
  obtain ⟨j, hj, h⟩ := Fallible.bind_eq_value.1 h
  obtain ⟨region, hregion, h⟩ := Fallible.bind_eq_value.1 h
  obtain ⟨found, hfound, h⟩ := Fallible.bind_eq_value.1 h
  obtain ⟨front, back, rfl, hfront, hback⟩ := ByteText.slice_eq_value_iff.1 hregion
  cases found with
  | none =>
    rw [Fallible.value.injEq, Value.ofNat, Value.number.injEq] at h
    have hzero : (DmNumberBits.ofNat 0).toI64 = 0 := by decide
    rw [← h] at hpos
    omega
  | some offset =>
    obtain ⟨a, b, rfl, rfl, hfirst⟩ := findMatch_exact hfound
    obtain ⟨position, hposition, hvalue⟩ := Fallible.map_eq_value.1 h
    have hend : utf8Len front + utf8Len a = utf8Len (front ++ a) := (String.utf8Len_append ..).symm
    rw [← hfront, hend] at hposition
    have htext : front ++ (a ++ (n ++ b) ++ back) = (front ++ a) ++ (n ++ (b ++ back)) := by
      simp only [List.append_assoc]
    rw [htext, positionOf_append, Fallible.value.injEq] at hposition
    rw [← hposition] at hvalue
    refine ⟨i, j, front ++ a, b ++ back, hi, hj, htext.symm, ofNat_position hvalue hpos hlt, ?_, ?_,
      fun a' b' happend hle hinside => ?_⟩
    · rw [← hfront, String.utf8Len_append]
      exact Nat.le_add_right _ _
    · rw [← hback, String.utf8Len_append, String.utf8Len_append, String.utf8Len_append]
      omega
    · -- the other occurrence lies in the region too
      rw [← hfront] at hle
      rw [← hback] at hinside
      obtain ⟨x, rfl, hx⟩ := ByteText.append_split happend.symm hle
      rw [String.utf8Len_append] at hinside ⊢
      have hlength : utf8Len (x ++ n) ≤ utf8Len (a ++ (n ++ b)) := by
        rw [String.utf8Len_append]
        omega
      have hx : x ++ n ++ b' = a ++ (n ++ b) ++ back := by rw [List.append_assoc, hx]
      obtain ⟨y, hy, -⟩ := ByteText.append_split hx hlength
      have hle := hfirst x y (by rw [hy, List.append_assoc])
      rw [String.utf8Len_append]
      omega

/-! ## Copying -/

/-- A finite number other than zero that stands for a position. -/
def Denotes (length : Nat) (value : Value) (position : Nat) : Prop :=
  ∃ bits, value = .number bits ∧ bits.isFinite = true ∧ bits.toI64 ≠ 0 ∧
    resolvePosition bits.toI64 length = position

theorem resolvePosition_bounds (i : Int) (length : Nat) :
    1 ≤ resolvePosition i length ∧ resolvePosition i length ≤ length + 1 := by
  rw [resolvePosition]
  split <;> omega

variable {t : String} {characterIndices : Bool} {start finish : Value} {p q : Nat}

variable (host) in
theorem Denotes.signedTextIndex {length : Nat} {value : Value} {position : Nat}
    (h : Denotes length value position) (default : Int) : ∃ i,
      Dream64.signedTextIndex host (some value) default = .value i ∧ i ≠ 0 ∧
        resolvePosition i length = position := by
  obtain ⟨bits, rfl, hfinite, hne, hposition⟩ := h
  refine ⟨bits.toI64, ?_, hne, hposition⟩
  show Fallible.value (if bits.isFinite then bits.toI64 else default) = _
  rw [if_pos hfinite]

/-- A copy between two positions is what lies between their offsets. -/
theorem copyTextBuiltin_eq (hstart : Denotes (logicalLength t.toList characterIndices) start p)
    (hfinish : Denotes (logicalLength t.toList characterIndices) finish q) (hle : p ≤ q) :
    copyTextBuiltin host state (.text t) (some start) (some finish) characterIndices =
      (slice t.toList (byteOffset t.toList (p - 1) characterIndices)
        (byteOffset t.toList (q - 1) characterIndices)).map Value.ofChars := by
  obtain ⟨i, hi, -, hp⟩ := hstart.signedTextIndex host 1
  obtain ⟨j, hj, hne, hq⟩ := hfinish.signedTextIndex host 0
  rw [copyTextBuiltin, builtinText, Fallible.value_bind, hi, Fallible.value_bind, hj,
    Fallible.value_bind]
  simp only [if_neg hne, hp, hq]
  split
  · have heq : p = q := by omega
    obtain ⟨a, c, happend, hlength⟩ := byteOffset_isBoundary t.toList (q - 1) characterIndices
    have hslice : (slice t.toList (byteOffset t.toList (q - 1) characterIndices)
        (byteOffset t.toList (q - 1) characterIndices) : Fallible String (List Char)) = .value [] :=
      ByteText.slice_eq_value_iff.2 ⟨a, c, happend, hlength, hlength⟩
    rw [heq, hslice]
    rfl
  · rfl

/-- A copy from a position on is what lies behind its offset. -/
theorem copyTextBuiltin_from (hstart : Denotes (logicalLength t.toList characterIndices) start p) :
    copyTextBuiltin host state (.text t) (some start) none characterIndices =
      (slice t.toList (byteOffset t.toList (p - 1) characterIndices)
        (utf8Len t.toList)).map Value.ofChars := by
  obtain ⟨i, hi, -, hp⟩ := hstart.signedTextIndex host 1
  have hbound := (resolvePosition_bounds i (logicalLength t.toList characterIndices)).2
  have hnone : signedTextIndex host none 0 = .value 0 := rfl
  rw [copyTextBuiltin, builtinText, Fallible.value_bind, hi, Fallible.value_bind, hnone,
    Fallible.value_bind]
  simp only [if_true, hp]
  rw [hp] at hbound
  split
  · have heq : p - 1 = logicalLength t.toList characterIndices := by omega
    have hslice : (slice t.toList (utf8Len t.toList) (utf8Len t.toList) :
        Fallible String (List Char)) = .value [] :=
      ByteText.slice_eq_value_iff.2 ⟨t.toList, [], List.append_nil _, rfl, Nat.add_zero _⟩
    rw [heq, byteOffset_logicalLength, hslice]
    rfl
  · rw [Nat.add_sub_cancel, byteOffset_logicalLength]

/-- A copy from the first position to another one is what lies in front of its offset. -/
theorem copyTextBuiltin_to (hstart : Denotes (logicalLength t.toList characterIndices) start 1)
    (hfinish : Denotes (logicalLength t.toList characterIndices) finish p) :
    copyTextBuiltin host state (.text t) (some start) (some finish) characterIndices =
      (slice t.toList 0 (byteOffset t.toList (p - 1) characterIndices)).map Value.ofChars := by
  obtain ⟨j, -, -, hp⟩ := hfinish.signedTextIndex host 0
  have hbound := (resolvePosition_bounds j (logicalLength t.toList characterIndices)).1
  rw [hp] at hbound
  rw [copyTextBuiltin_eq hstart hfinish hbound, Nat.sub_self, byteOffset_zero]

/-! ## Agreement -/

/-- The positions of a region, in order; a zero behind the start is the end of the text. -/
def regionPositions (text : List Char) (i j : Int) (characterIndices : Bool) : Nat × Nat :=
  let length := logicalLength text characterIndices
  let last := if j = 0 then length + 1 else resolvePosition j length
  (min (resolvePosition i length) last, max (resolvePosition i length) last)

/-- A number that is finite, or none. -/
def FinitePosition (value : Option Value) : Prop :=
  ∀ bits, value = some (.number bits) → bits.isFinite = true

/-- A text is copied from a position over its own length, and from no position before it. -/
structure FirstCopy (host : TextHost σ Target) (state : σ) (t : String) (characterIndices : Bool)
    (n : List Char) (lower position : Nat) : Prop where
  copied : ∀ start finish, Denotes (logicalLength t.toList characterIndices) start position →
    Denotes (logicalLength t.toList characterIndices) finish
      (position + logicalLength n characterIndices) →
    copyTextBuiltin host state (.text t) (some start) (some finish) characterIndices =
      .value (.ofChars n)
  first : ∀ earlier, lower ≤ earlier → earlier < position → ∀ start finish,
    Denotes (logicalLength t.toList characterIndices) start earlier →
    Denotes (logicalLength t.toList characterIndices) finish
      (earlier + logicalLength n characterIndices) →
    copyTextBuiltin host state (.text t) (some start) (some finish) characterIndices ≠
      .value (.ofChars n)

/-- The text is cut at two positions, and a replacement stands between them. -/
def Splices (host : TextHost σ Target) (state : σ) (t : String) (characterIndices : Bool)
    (replacement front back : Value) (start finish : Option Value) : Prop :=
  ∀ (r : List Char) (one : Value),
    strictText host state replacement "splicetext replacement" = .value r →
    Denotes (logicalLength t.toList characterIndices) one 1 → ∃ a b : List Char,
      copyTextBuiltin host state (.text t) (some one) (some front) characterIndices =
        .value (.ofChars a) ∧
      copyTextBuiltin host state (.text t) (some back) none characterIndices =
        .value (.ofChars b) ∧
      splicetext host state (.text t) start finish replacement characterIndices =
        .value (.ofChars (a ++ r ++ b))

/-- What the builtins for positions of a text mean by them. -/
structure PositionsAgree (host : TextHost σ Target) (state : σ) (t : String)
    (characterIndices : Bool) : Prop where
  found : ∀ needle n start finish bits,
    strictText host state needle "findtext needle" = .value n →
    findText host state t.toList needle start finish true characterIndices false =
      .value (.number bits) →
    0 < bits.toI64 → bits.toI64 < 2 ^ 24 → ∃ (i j : Int) (position : Nat),
      signedPosition host start 1 = .value i ∧ signedPosition host finish 0 = .value j ∧
      bits.toI64 = position ∧
      characterStart t.toList (regionPositions t.toList i j characterIndices).1 characterIndices ≤
        position ∧
      position + logicalLength n characterIndices ≤
        characterStart t.toList (regionPositions t.toList i j characterIndices).2
          characterIndices ∧
      FirstCopy host state t characterIndices n (regionPositions t.toList i j characterIndices).1
        position
  parted : ∀ one value position,
    Denotes (logicalLength t.toList characterIndices) one 1 →
    Denotes (logicalLength t.toList characterIndices) value position → ∃ a b : List Char,
      copyTextBuiltin host state (.text t) (some one) (some value) characterIndices =
        .value (.ofChars a) ∧
      copyTextBuiltin host state (.text t) (some value) none characterIndices =
        .value (.ofChars b) ∧ a ++ b = t.toList
  spliced : ∀ replacement start finish p q,
    Denotes (logicalLength t.toList characterIndices) start p →
    Denotes (logicalLength t.toList characterIndices) finish q → p ≤ q →
    Splices host state t characterIndices replacement start finish (some start) (some finish)
  spliced_region : ∀ replacement start finish front back i j,
    FinitePosition start → FinitePosition finish →
    signedPosition host start 1 = .value i → signedPosition host finish 0 = .value j →
    Denotes (logicalLength t.toList characterIndices) front
      (regionPositions t.toList i j characterIndices).1 →
    Denotes (logicalLength t.toList characterIndices) back
      (regionPositions t.toList i j characterIndices).2 →
    Splices host state t characterIndices replacement front back start finish

theorem textRegion_eq (text : List Char) (i j : Int) (characterIndices : Bool) :
    textRegion text i j characterIndices =
      (byteOffset text ((regionPositions text i j characterIndices).1 - 1) characterIndices,
        byteOffset text ((regionPositions text i j characterIndices).2 - 1) characterIndices,
        (regionPositions text i j characterIndices).1) := rfl

theorem regionPositions_bounds (text : List Char) (i j : Int) (characterIndices : Bool) :
    1 ≤ (regionPositions text i j characterIndices).1 ∧
      (regionPositions text i j characterIndices).1 ≤ logicalLength text characterIndices + 1 ∧
      1 ≤ (regionPositions text i j characterIndices).2 := by
  have hi := resolvePosition_bounds i (logicalLength text characterIndices)
  have hj := resolvePosition_bounds j (logicalLength text characterIndices)
  rw [regionPositions]
  simp only
  split <;> omega

/-- The occurrence that a search finds is the first one that is copied. -/
theorem firstCopy_of_found {n a b : List Char} {lower upper : Nat} (hlower : 1 ≤ lower)
    (happend : a ++ (n ++ b) = t.toList)
    (hinside : utf8Len a + utf8Len n ≤ upper)
    (hfirst : ∀ a' b', a' ++ (n ++ b') = t.toList →
      byteOffset t.toList (lower - 1) characterIndices ≤ utf8Len a' →
        utf8Len a' + utf8Len n ≤ upper → utf8Len a ≤ utf8Len a') :
    FirstCopy host state t characterIndices n lower (logicalLength a characterIndices + 1) := by
  have hbehind : logicalLength a characterIndices + 1 + logicalLength n characterIndices - 1 =
      logicalLength (a ++ n) characterIndices := by
    rw [logicalLength_append]
    omega
  have hstart : byteOffset t.toList (logicalLength a characterIndices) characterIndices =
      utf8Len a := by
    rw [← happend, byteOffset_append]
  have hend : byteOffset t.toList (logicalLength (a ++ n) characterIndices) characterIndices =
      utf8Len (a ++ n) := by
    rw [← happend, ← List.append_assoc, byteOffset_append]
  constructor
  · intro start finish hmark hmark'
    rw [copyTextBuiltin_eq hmark hmark' (Nat.le_add_right _ _), Nat.add_sub_cancel, hbehind, hstart,
      hend]
    have hslice : (slice t.toList (utf8Len a) (utf8Len (a ++ n)) : Fallible String (List Char)) =
        .value n :=
      ByteText.slice_eq_value_iff.2 ⟨a, b, happend, rfl, (String.utf8Len_append a n).symm⟩
    rw [hslice]
    rfl
  · intro earlier hle hlt start finish hmark hmark' hcopy
    rw [copyTextBuiltin_eq hmark hmark' (Nat.le_add_right _ _)] at hcopy
    obtain ⟨copy, hslice, hvalue⟩ := Fallible.map_eq_value.1 hcopy
    rw [Value.ofChars, Value.ofChars, Value.text.injEq] at hvalue
    have hcopy : copy = n := String.ofList_injective hvalue
    rw [hcopy] at hslice
    obtain ⟨a', b', happend', hoffset, -⟩ := ByteText.slice_eq_value_iff.1 hslice
    -- the earlier copy starts in front of the found one, and behind the start of the region
    have hbefore : byteOffset t.toList (earlier - 1) characterIndices < utf8Len a := by
      rw [← happend]
      exact byteOffset_lt (by omega) _
    have hlow := byteOffset_mono t.toList (show lower - 1 ≤ earlier - 1 by omega) characterIndices
    have hle := hfirst a' b' happend' (by omega) (by omega)
    omega

/-- A text with its ends at two positions is cut there. -/
theorem splices_of_region {replacement front back : Value} {start finish : Option Value} {i j : Int}
    (hi : signedPosition host start 1 = .value i) (hj : signedPosition host finish 0 = .value j)
    (hfront : Denotes (logicalLength t.toList characterIndices) front
      (regionPositions t.toList i j characterIndices).1)
    (hback : Denotes (logicalLength t.toList characterIndices) back
      (regionPositions t.toList i j characterIndices).2) :
    Splices host state t characterIndices replacement front back start finish := by
  intro r one hr hone
  obtain ⟨hlower, hupper, -⟩ := textRegion_spec t.toList i j characterIndices
  have hregion := textRegion_eq t.toList i j characterIndices
  rw [hregion] at hlower hupper
  obtain ⟨a, rest, ha, halen⟩ := hlower
  obtain ⟨c, b, hb, hclen⟩ := hupper
  simp only at halen hclen
  have hslice : (slice t.toList 0 (utf8Len a) : Fallible String (List Char)) = .value a :=
    ByteText.slice_eq_value_iff.2 ⟨[], rest, ha, rfl, Nat.zero_add _⟩
  have hslice' : (slice t.toList (utf8Len c) (utf8Len t.toList) : Fallible String (List Char)) =
      .value b := by
    refine ByteText.slice_eq_value_iff.2 ⟨c, [], by rw [List.append_nil, hb], rfl, ?_⟩
    rw [← hb, String.utf8Len_append]
  refine ⟨a, b, ?_, ?_, ?_⟩
  · rw [copyTextBuiltin_to hone hfront, ← halen, hslice]
    rfl
  · rw [copyTextBuiltin_from hback, ← hclen, hslice']
    rfl
  · have hto : (sliceTo t.toList (utf8Len a) : Fallible String (List Char)) = .value a :=
      ByteText.sliceTo_eq_value_iff.2 ⟨rest, ha, rfl⟩
    have hfrom : (sliceFrom t.toList (utf8Len c) : Fallible String (List Char)) = .value b :=
      ByteText.sliceFrom_eq_value_iff.2 ⟨c, hb, rfl⟩
    rw [splicetext, strictText, Fallible.value_bind, hi, Fallible.value_bind, hj,
      Fallible.value_bind, hr, Fallible.value_bind, hregion]
    simp only [← halen, ← hclen, hto, hfrom, Fallible.value_bind, Fallible.map_value]

theorem signedPosition_of_finite {bits : DmNumberBits} (default : Int) :
    signedPosition host (some (.number bits)) default = .value bits.toI64 := rfl

theorem splices_between {replacement start finish : Value}
    (hstart : Denotes (logicalLength t.toList characterIndices) start p)
    (hfinish : Denotes (logicalLength t.toList characterIndices) finish q) (hle : p ≤ q) :
    Splices host state t characterIndices replacement start finish (some start) (some finish) := by
  obtain ⟨bits, rfl, hfinite, hne, hp⟩ := hstart
  obtain ⟨bits', rfl, hfinite', hne', hq⟩ := hfinish
  have hregion : regionPositions t.toList bits.toI64 bits'.toI64 characterIndices = (p, q) := by
    rw [regionPositions]
    simp only [if_neg hne', hp, hq]
    rw [Nat.min_eq_left hle, Nat.max_eq_right hle]
  refine splices_of_region (signedPosition_of_finite 1) (signedPosition_of_finite 0) ?_ ?_
  · rw [hregion]
    exact ⟨bits, rfl, hfinite, hne, hp⟩
  · rw [hregion]
    exact ⟨bits', rfl, hfinite', hne', hq⟩

theorem parted_of_marks {one value : Value} {position : Nat}
    (hone : Denotes (logicalLength t.toList characterIndices) one 1)
    (hvalue : Denotes (logicalLength t.toList characterIndices) value position) :
    ∃ a b : List Char,
      copyTextBuiltin host state (.text t) (some one) (some value) characterIndices =
        .value (.ofChars a) ∧
      copyTextBuiltin host state (.text t) (some value) none characterIndices =
        .value (.ofChars b) ∧ a ++ b = t.toList := by
  obtain ⟨a, b, happend, hlength⟩ :=
    byteOffset_isBoundary t.toList (position - 1) characterIndices
  have hslice : (slice t.toList 0 (utf8Len a) : Fallible String (List Char)) = .value a :=
    ByteText.slice_eq_value_iff.2 ⟨[], b, happend, rfl, Nat.zero_add _⟩
  have hslice' : (slice t.toList (utf8Len a) (utf8Len t.toList) : Fallible String (List Char)) =
      .value b := by
    refine ByteText.slice_eq_value_iff.2 ⟨a, [], by rw [List.append_nil, happend], rfl, ?_⟩
    rw [← happend, String.utf8Len_append]
  refine ⟨a, b, ?_, ?_, happend⟩
  · rw [copyTextBuiltin_to hone hvalue, ← hlength, hslice]
    rfl
  · rw [copyTextBuiltin_from hvalue, ← hlength, hslice']
    rfl

/-- The builtins agree on the positions of every text, in both forms. -/
theorem positions_agree (host : TextHost σ Target) (state : σ) (t : String)
    (characterIndices : Bool) : PositionsAgree host state t characterIndices where
  found := by
    intro needle n start finish bits hneedle hfind hpos hlt
    obtain ⟨i, j, a, b, hi, hj, happend, hbits, hlower, hupper, hfirst⟩ :=
      findText_exact hneedle hfind hpos hlt
    have hregion := textRegion_eq t.toList i j characterIndices
    obtain ⟨hone, hlow, hhigh⟩ := regionPositions_bounds t.toList i j characterIndices
    rw [hregion] at hlower hupper hfirst
    refine ⟨i, j, logicalLength a characterIndices + 1, hi, hj, hbits,
      characterStart_le hlower happend hlow, ?_, firstCopy_of_found hone happend hupper hfirst⟩
    have hend : utf8Len (a ++ n) ≤ byteOffset t.toList
        ((regionPositions t.toList i j characterIndices).2 - 1) characterIndices := by
      rw [String.utf8Len_append]
      exact hupper
    have hle := le_characterStart (b := b) hend (by rw [List.append_assoc, happend]) hhigh
    rw [logicalLength_append] at hle
    omega
  parted := fun _ _ _ hone hvalue => parted_of_marks hone hvalue
  spliced := fun _ _ _ _ _ hstart hfinish hle => splices_between hstart hfinish hle
  spliced_region := fun _ _ _ _ _ _ _ _ _ hi hj hfront hback =>
    splices_of_region hi hj hfront hback

end

/-! ## Positions inside of characters, and positions in reverse order -/

/-- A search from inside of a character starts at the character, and ends that are in reverse order
are exchanged by a splice and not by a copy. -/
theorem positions_disagree :
    findText plainHost () "é".toList (.text "é") (some (.ofNat 2)) none true false false =
      .value (.ofNat 1) ∧
    splicetext plainHost () (.text "ab") (some (.ofNat 3)) (some (.ofNat 1)) (.text "") false =
      .value (.text "") ∧
    copyTextBuiltin plainHost () (.text "ab") (some (.ofNat 1)) (some (.ofNat 3)) false =
      .value (.text "ab") ∧
    copyTextBuiltin plainHost () (.text "ab") (some (.ofNat 1)) none false =
      .value (.text "ab") := by
  refine ⟨?_, ?_, ?_, ?_⟩
  · rfl
  · rfl
  · rfl
  · rfl

end Dream64
