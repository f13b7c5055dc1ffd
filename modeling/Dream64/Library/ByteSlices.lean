import Dream64.Library.Fallible

/-!
# Text with byte offsets

A text is a list of characters; an offset into it counts bytes of UTF-8. A text
is split at an offset only if the offset is a character boundary.
-/

namespace ByteText

open String (utf8Len)

variable {text a b : List Char} {n : Nat}

/-- What lies before a byte offset and what lies behind, if it is a character boundary. -/
def splitBytes : Nat → List Char → Option (List Char × List Char)
  | 0, text => some ([], text)
  | _ + 1, [] => none
  | n + 1, c :: text =>
    if c.utf8Size ≤ n + 1 then
      (splitBytes (n + 1 - c.utf8Size) text).map fun parts => (c :: parts.1, parts.2)
    else none

/-- The byte offset of the first occurrence of a pattern. -/
def find (pattern : List Char) : List Char → Option Nat
  | [] => if pattern.isEmpty then some 0 else none
  | c :: text =>
    if pattern.isPrefixOf (c :: text) then some 0
    else (find pattern text).map (c.utf8Size + ·)

/-- The lines with their newlines. -/
def lines : List Char → List (List Char)
  | [] => []
  | '\n' :: text => ['\n'] :: lines text
  | c :: text =>
    match lines text with
    | [] => [[c]]
    | line :: rest => (c :: line) :: rest

theorem splitBytes_append (h : splitBytes n text = some (a, b)) : a ++ b = text := by
  induction text generalizing n a with
  | nil =>
    cases n with
    | zero => cases h; rfl
    | succ n => cases h
  | cons c text ih =>
    cases n with
    | zero => cases h; rfl
    | succ n =>
      rw [splitBytes] at h
      split at h
      · obtain ⟨⟨a', b'⟩, hparts, heq⟩ := Option.map_eq_some_iff.1 h
        cases heq
        rw [List.cons_append, ih hparts]
      · cases h

theorem splitBytes_length (h : splitBytes n text = some (a, b)) : utf8Len a = n := by
  induction text generalizing n a with
  | nil =>
    cases n with
    | zero => cases h; rfl
    | succ n => cases h
  | cons c text ih =>
    cases n with
    | zero => cases h; rfl
    | succ n =>
      rw [splitBytes] at h
      split at h
      · rename_i hsize
        obtain ⟨⟨a', b'⟩, hparts, heq⟩ := Option.map_eq_some_iff.1 h
        cases heq
        rw [String.utf8Len_cons, ih hparts]
        omega
      · cases h

theorem lines_flatten (text : List Char) : (lines text).flatten = text := by
  induction text using lines.induct with
  | case1 => rfl
  | case2 text ih => rw [lines, List.flatten_cons, ih]; rfl
  | case3 c text hc hlines ih =>
    rw [hlines] at ih
    rw [lines, hlines, ← ih]
    · rfl
    · exact hc
  | case4 c text hc line rest hlines ih =>
    rw [hlines] at ih
    rw [lines, hlines, ← ih]
    · rfl
    · exact hc

end ByteText

/-!
# Slices of texts

Slices between byte offsets, which panic unless both offsets are character
boundaries in order. The offsets of the characters and the end are the
boundaries, an offset can be moved back to one, and the offset of the `n`-th
character and the boundary before an offset grow with what they are taken of.
-/

namespace ByteText

open String (utf8Len)

variable {text a b : List Char} {m n : Nat} {ε : Type}

/-- A byte offset between two characters or at an end. -/
def IsBoundary (text : List Char) (n : Nat) : Prop := ∃ a b, a ++ b = text ∧ utf8Len a = n

def isCharBoundary (text : List Char) (n : Nat) : Bool := (splitBytes n text).isSome

def sliceFrom (text : List Char) (start : Nat) : Fallible ε (List Char) :=
  match splitBytes start text with
  | some parts => .value parts.2
  | none => .panic

def sliceTo (text : List Char) (finish : Nat) : Fallible ε (List Char) :=
  match splitBytes finish text with
  | some parts => .value parts.1
  | none => .panic

def slice (text : List Char) (start finish : Nat) : Fallible ε (List Char) :=
  if start ≤ finish then
    (sliceFrom text start).bind fun rest => sliceTo rest (finish - start)
  else .panic

/-- `&text[..n]`, where that is a text. -/
def getTo (text : List Char) (n : Nat) : Option (List Char) := (splitBytes n text).map (·.1)

/-- The boundary at an offset, or the next one before it. -/
def previousBoundary (text : List Char) : Nat → Nat
  | 0 => 0
  | n + 1 => if isCharBoundary text (n + 1) then n + 1 else previousBoundary text n

/-- The offsets of all characters and of the end. -/
def boundaries (text : List Char) : List Nat := text.inits.map utf8Len

/-! ## Boundaries -/

theorem splitBytes_utf8Len (a b : List Char) : splitBytes (utf8Len a) (a ++ b) = some (a, b) := by
  induction a with
  | nil => rw [String.utf8Len_nil, List.nil_append, splitBytes]
  | cons c a ih =>
    have hpos := c.utf8Size_pos
    rw [String.utf8Len_cons, List.cons_append]
    obtain ⟨k, hk⟩ : ∃ k, utf8Len a + c.utf8Size = k + 1 := ⟨utf8Len a + c.utf8Size - 1, by omega⟩
    rw [hk, splitBytes, if_pos (by omega), ← hk, Nat.add_sub_cancel, ih, Option.map_some]

theorem splitBytes_eq_some_iff :
    splitBytes n text = some (a, b) ↔ a ++ b = text ∧ utf8Len a = n := by
  constructor
  · exact fun h => ⟨splitBytes_append h, splitBytes_length h⟩
  · rintro ⟨rfl, rfl⟩
    exact splitBytes_utf8Len a b

theorem isCharBoundary_iff : isCharBoundary text n = true ↔ IsBoundary text n := by
  rw [isCharBoundary, Option.isSome_iff_exists]
  constructor
  · rintro ⟨⟨a, b⟩, h⟩
    exact ⟨a, b, splitBytes_eq_some_iff.1 h⟩
  · rintro ⟨a, b, h⟩
    exact ⟨(a, b), splitBytes_eq_some_iff.2 h⟩

theorem isBoundary_zero (text : List Char) : IsBoundary text 0 := ⟨[], text, rfl, rfl⟩

theorem isBoundary_utf8Len (text : List Char) : IsBoundary text (utf8Len text) :=
  ⟨text, [], List.append_nil text, rfl⟩

theorem IsBoundary.take (text : List Char) (n : Nat) : IsBoundary text (utf8Len (text.take n)) :=
  ⟨text.take n, text.drop n, List.take_append_drop n text, rfl⟩

theorem previousBoundary_isBoundary (text : List Char) (n : Nat) :
    IsBoundary text (previousBoundary text n) := by
  induction n with
  | zero => exact isBoundary_zero text
  | succ n ih =>
    rw [previousBoundary]
    split
    · rename_i h
      exact isCharBoundary_iff.1 h
    · exact ih

theorem previousBoundary_le (text : List Char) (n : Nat) : previousBoundary text n ≤ n := by
  induction n with
  | zero => exact Nat.le_refl 0
  | succ n ih =>
    rw [previousBoundary]
    split
    · exact Nat.le_refl _
    · exact Nat.le_succ_of_le ih

theorem previousBoundary_of_isBoundary (h : IsBoundary text n) : previousBoundary text n = n := by
  cases n with
  | zero => rfl
  | succ n => rw [previousBoundary, if_pos (isCharBoundary_iff.2 h)]

theorem previousBoundary_mono (text : List Char) (h : m ≤ n) :
    previousBoundary text m ≤ previousBoundary text n := by
  induction n with
  | zero => rw [Nat.le_zero.1 h]
  | succ n ih =>
    rcases Nat.lt_or_ge n m with hlt | hge
    · rw [Nat.le_antisymm h hlt]
    · rw [previousBoundary]
      split
      · exact Nat.le_trans (previousBoundary_le text m) h
      · exact ih hge

theorem utf8Len_take_mono (text : List Char) (h : m ≤ n) :
    utf8Len (text.take m) ≤ utf8Len (text.take n) := by
  have hsplit : text.take n = text.take m ++ (text.drop m).take (n - m) := by
    rw [← List.take_add, Nat.add_sub_cancel' h]
  rw [hsplit, String.utf8Len_append]
  exact Nat.le_add_right _ _

theorem boundaries_cons (c : Char) (text : List Char) :
    boundaries (c :: text) = 0 :: (boundaries text).map (· + c.utf8Size) := by
  rw [boundaries, List.inits_cons, List.map_cons, List.map_map, boundaries, List.map_map]
  exact congrArg _ (List.map_congr_left fun a _ => String.utf8Len_cons c a)

theorem boundaries_sorted (text : List Char) : (boundaries text).Pairwise (· < ·) := by
  induction text with
  | nil => exact List.pairwise_singleton _ _
  | cons c text ih =>
    rw [boundaries_cons]
    refine List.Pairwise.cons (fun n hn => ?_) (ih.map _ fun m n hlt => Nat.add_lt_add_right hlt _)
    obtain ⟨m, -, rfl⟩ := List.mem_map.1 hn
    exact Nat.add_pos_right m c.utf8Size_pos

theorem mem_boundaries (a b : List Char) : utf8Len a ∈ boundaries (a ++ b) :=
  List.mem_map.2 ⟨a, (List.mem_inits _ _).2 (List.prefix_append a b), rfl⟩

/-! ## Slices between boundaries -/

theorem sliceFrom_append (a b : List Char) :
    (sliceFrom (a ++ b) (utf8Len a) : Fallible ε (List Char)) = .value b := by
  rw [sliceFrom, splitBytes_utf8Len]

theorem sliceTo_append (a b : List Char) :
    (sliceTo (a ++ b) (utf8Len a) : Fallible ε (List Char)) = .value a := by
  rw [sliceTo, splitBytes_utf8Len]

/-- A boundary behind another one is a boundary of what lies behind that one. -/
theorem IsBoundary.sub {a b : List Char} (h : IsBoundary (a ++ b) n) (hle : utf8Len a ≤ n) :
    IsBoundary b (n - utf8Len a) := by
  obtain ⟨c, d, heq, rfl⟩ := h
  rcases List.append_eq_append_iff.1 heq with ⟨e, rfl, rfl⟩ | ⟨e, rfl, rfl⟩
  · rw [String.utf8Len_append] at hle
    have hzero : utf8Len c - utf8Len (c ++ e) = 0 := by
      rw [String.utf8Len_append]
      omega
    rw [hzero]
    exact isBoundary_zero b
  · refine ⟨e, d, rfl, ?_⟩
    rw [String.utf8Len_append]
    omega

theorem sliceFrom_eq_value (h : IsBoundary text n) :
    ∃ a b, a ++ b = text ∧ utf8Len a = n ∧
      (sliceFrom text n : Fallible ε (List Char)) = .value b := by
  obtain ⟨a, b, rfl, rfl⟩ := h
  exact ⟨a, b, rfl, rfl, sliceFrom_append a b⟩

theorem sliceTo_eq_value (h : IsBoundary text n) :
    ∃ a b, a ++ b = text ∧ utf8Len a = n ∧
      (sliceTo text n : Fallible ε (List Char)) = .value a := by
  obtain ⟨a, b, rfl, rfl⟩ := h
  exact ⟨a, b, rfl, rfl, sliceTo_append a b⟩

/-- Between two boundaries in order there is a slice. -/
theorem slice_eq_value (hm : IsBoundary text m) (hn : IsBoundary text n) (hle : m ≤ n) :
    ∃ a b c, a ++ (b ++ c) = text ∧ utf8Len a = m ∧ utf8Len a + utf8Len b = n ∧
      (slice text m n : Fallible ε (List Char)) = .value b := by
  obtain ⟨a, rest, rfl, rfl, hfrom⟩ := sliceFrom_eq_value (ε := ε) hm
  obtain ⟨b, c, rfl, hb, hto⟩ := sliceTo_eq_value (ε := ε) (hn.sub hle)
  refine ⟨a, b, c, rfl, rfl, by omega, ?_⟩
  rw [slice, if_pos hle, hfrom, Fallible.value_bind, hto]

theorem append_unique {c d : List Char} (h : a ++ b = c ++ d) (hlen : utf8Len a = utf8Len c) :
    a = c ∧ b = d := by
  have hsplit := splitBytes_utf8Len a b
  rw [h, hlen, splitBytes_utf8Len] at hsplit
  cases hsplit
  exact ⟨rfl, rfl⟩

/-- Of two first parts of a text the shorter one is a first part of the other. -/
theorem append_split {c d : List Char} (h : a ++ b = c ++ d) (hle : utf8Len a ≤ utf8Len c) :
    ∃ e, c = a ++ e ∧ b = e ++ d := by
  rcases List.append_eq_append_iff.1 h with ⟨e, hc, hb⟩ | ⟨e, ha, hd⟩
  · exact ⟨e, hc, hb⟩
  · cases e with
    | nil => exact ⟨[], by rw [ha, List.append_nil, List.append_nil], hd.symm⟩
    | cons x e =>
      have hpos := x.utf8Size_pos
      rw [ha, String.utf8Len_append, String.utf8Len_cons] at hle
      omega

theorem sliceFrom_eq_value_iff : (sliceFrom text n : Fallible ε (List Char)) = .value b ↔
    ∃ a, a ++ b = text ∧ utf8Len a = n := by
  constructor
  · intro h
    rw [sliceFrom] at h
    cases hsplit : splitBytes n text with
    | none => simp only [hsplit, reduceCtorEq] at h
    | some parts =>
      simp only [hsplit, Fallible.value.injEq] at h
      obtain ⟨happend, hlen⟩ := splitBytes_eq_some_iff.1 hsplit
      exact ⟨parts.1, by rw [← h, happend], hlen⟩
  · rintro ⟨a, rfl, rfl⟩
    exact sliceFrom_append a b

theorem sliceTo_eq_value_iff : (sliceTo text n : Fallible ε (List Char)) = .value a ↔
    ∃ b, a ++ b = text ∧ utf8Len a = n := by
  constructor
  · intro h
    rw [sliceTo] at h
    cases hsplit : splitBytes n text with
    | none => simp only [hsplit, reduceCtorEq] at h
    | some parts =>
      simp only [hsplit, Fallible.value.injEq] at h
      obtain ⟨happend, hlen⟩ := splitBytes_eq_some_iff.1 hsplit
      exact ⟨parts.2, by rw [← h, happend], by rw [← h, hlen]⟩
  · rintro ⟨b, rfl, rfl⟩
    exact sliceTo_append a b

theorem slice_eq_value_iff : (slice text m n : Fallible ε (List Char)) = .value b ↔
    ∃ a c, a ++ (b ++ c) = text ∧ utf8Len a = m ∧ utf8Len a + utf8Len b = n := by
  constructor
  · intro h
    rw [slice] at h
    split at h
    · rename_i hle
      obtain ⟨rest, hfrom, hto⟩ := Fallible.bind_eq_value.1 h
      obtain ⟨a, hrest, hm⟩ := sliceFrom_eq_value_iff.1 hfrom
      obtain ⟨c, hc, hn⟩ := sliceTo_eq_value_iff.1 hto
      exact ⟨a, c, by rw [hc, hrest], hm, by omega⟩
    · cases h
  · rintro ⟨a, c, rfl, rfl, rfl⟩
    rw [slice, if_pos (Nat.le_add_right _ _), sliceFrom_append, Fallible.value_bind,
      Nat.add_sub_cancel_left, sliceTo_append]

end ByteText
