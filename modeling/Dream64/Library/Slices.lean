import Dream64.Library.Codec
import Dream64.Library.Fallible

/-!
# Byte strings at offsets

A byte string is read at offsets instead of from its front. `At` says that a
piece lies at an offset; pieces one behind the other are one piece, and a piece
of the whole length is the byte string. Slices panic out of range, numbers are
read as `Codec` writes them.
-/

namespace Fallible

variable {ε α β : Type}

/-- An error if something holds. -/
def refuse (p : Prop) [Decidable p] (e : ε) : Fallible ε Unit := if p then .error e else .value ()

/-- It neither panics nor comes to this error. -/
def Spares (e : ε) (x : Fallible ε α) : Prop := x ≠ .panic ∧ x ≠ .error e

theorem do_bind (x : Fallible ε α) (f : α → Fallible ε β) : (x >>= f) = x.bind f := rfl

theorem do_pure (a : α) : (pure a : Fallible ε α) = .value a := rfl

theorem refuse_eq_value {p : Prop} [Decidable p] {e : ε} {u : Unit} :
    refuse p e = .value u ↔ ¬ p := by
  rw [refuse]
  split_ifs with h
  · simp [h]
  · simp [h]

theorem Spares.bind {e : ε} {x : Fallible ε α} {f : α → Fallible ε β} (hx : x.Spares e)
    (hf : ∀ a, x = .value a → (f a).Spares e) : (x >>= f).Spares e := by
  rw [do_bind]
  cases x with
  | value a => exact hf a rfl
  | error other => exact ⟨by simp, by simpa [Spares] using hx.2⟩
  | panic => exact (hx.1 rfl).elim

theorem Spares.value {e : ε} (a : α) : (Fallible.value a).Spares e := ⟨by simp, by simp⟩

theorem Spares.error {e other : ε} (h : other ≠ e) : (Fallible.error other : Fallible ε α).Spares e :=
  ⟨by simp, by simpa using h⟩

theorem Spares.refuse {p : Prop} [Decidable p] {e other : ε} (h : other ≠ e) :
    (refuse p other).Spares e := by
  rw [Fallible.refuse]
  split_ifs
  · exact .error h
  · exact .value ()

theorem Spares.orError {e other : ε} (h : other ≠ e) (x : Option α) :
    (orError x other).Spares e := by
  cases x with
  | none => exact .error h
  | some a => exact .value a

end Fallible

namespace Codec

variable {ε : Type} {bytes piece : Bytes} {start stop count offset : Nat}

/-- The piece lies at the offset. -/
def At (bytes : Bytes) (offset : Nat) (piece : Bytes) : Prop := piece <+: bytes.drop offset

/-- `bytes.get(start..stop)` -/
def get (bytes : Bytes) (start stop : Nat) : Option Bytes :=
  if start ≤ stop ∧ stop ≤ bytes.length then some ((bytes.drop start).take (stop - start)) else none

/-- `&bytes[start..stop]` -/
def slice (bytes : Bytes) (start stop : Nat) : Fallible ε Bytes :=
  match get bytes start stop with
  | some piece => .value piece
  | none => .panic

theorem at_nil (bytes : Bytes) (offset : Nat) : At bytes offset [] := List.nil_prefix

theorem at_append (first second : Bytes) :
    At bytes offset (first ++ second) ↔
      At bytes offset first ∧ At bytes (offset + first.length) second := by
  unfold At
  rw [← List.drop_drop]
  constructor
  · rintro ⟨rest, hrest⟩
    rw [← hrest, List.append_assoc]
    refine ⟨List.prefix_append _ _, ?_⟩
    rw [List.drop_left]
    exact List.prefix_append _ _
  · rintro ⟨⟨rest, hrest⟩, hsecond⟩
    rw [← hrest, List.drop_left] at hsecond
    rw [← hrest]
    exact (List.prefix_append_right_inj first).2 hsecond

theorem at_zero (h : bytes.length = piece.length) : At bytes 0 piece ↔ bytes = piece := by
  unfold At
  rw [List.drop_zero]
  constructor
  · exact fun hbegins => (hbegins.eq_of_length h.symm).symm
  · rintro rfl
    exact List.prefix_rfl

theorem At.length_le (h : At bytes offset piece) (hpiece : piece ≠ []) :
    offset + piece.length ≤ bytes.length := by
  have hle := List.IsPrefix.length_le h
  have hpos := List.length_pos_iff.2 hpiece
  rw [List.length_drop] at hle
  omega

theorem at_iff (hcount : piece.length = count) (hpos : 0 < count) : At bytes offset piece ↔
    offset + count ≤ bytes.length ∧ (bytes.drop offset).take count = piece := by
  constructor
  · intro h
    have hne : piece ≠ [] := List.length_pos_iff.1 (by omega)
    have hle := h.length_le hne
    rw [hcount] at hle
    refine ⟨hle, ?_⟩
    rw [← hcount]
    exact (List.prefix_iff_eq_take.1 h).symm
  · rintro ⟨-, rfl⟩
    exact List.take_prefix _ _

theorem get_eq_some : get bytes start stop = some piece ↔
    start ≤ stop ∧ stop ≤ bytes.length ∧ (bytes.drop start).take (stop - start) = piece := by
  rw [get]
  split_ifs with h
  · simp [h.1, h.2]
  · simp only [false_iff, not_and]
    exact fun hle hlen => (h ⟨hle, hlen⟩).elim

/-- What a slice of some bytes is. -/
theorem slice_eq_value : (slice bytes start stop : Fallible ε Bytes) = .value piece ↔
    start ≤ stop ∧ stop ≤ bytes.length ∧ (bytes.drop start).take (stop - start) = piece := by
  rw [← get_eq_some, slice]
  cases get bytes start stop with
  | none => simp
  | some other => simp

theorem slice_of_le (hle : start ≤ stop) (hlength : stop ≤ bytes.length) :
    (slice bytes start stop : Fallible ε Bytes) =
      .value ((bytes.drop start).take (stop - start)) :=
  slice_eq_value.2 ⟨hle, hlength, rfl⟩

/-- The slice from an offset on is what lies there. -/
theorem At.of_take (hle : start ≤ stop) (hlength : stop ≤ bytes.length)
    (h : (bytes.drop start).take (stop - start) = piece) :
    At bytes start piece ∧ piece.length = stop - start := by
  subst h
  refine ⟨List.take_prefix _ _, ?_⟩
  rw [List.length_take, List.length_drop]
  omega

theorem At.take (h : At bytes offset piece) : (bytes.drop offset).take piece.length = piece :=
  (List.prefix_iff_eq_take.1 h).symm

/-! ## Numbers -/

/-- The number in the bytes at an offset, if there are so many. -/
def getNumber (bytes : Bytes) (offset count : Nat) : Option Nat :=
  (get bytes offset (offset + count)).map ofLittleEndian

theorem getNumber_eq_some (hpos : 0 < count) {n : Nat} : getNumber bytes offset count = some n ↔
    n < 256 ^ count ∧ At bytes offset (toLittleEndian count n) := by
  rw [getNumber, Option.map_eq_some_iff, at_iff (length_toLittleEndian count n) hpos]
  constructor
  · rintro ⟨piece, hpiece, rfl⟩
    obtain ⟨-, hlength, rfl⟩ := get_eq_some.1 hpiece
    rw [Nat.add_sub_cancel_left]
    have hcount : ((bytes.drop offset).take count).length = count := by
      rw [List.length_take, List.length_drop]
      omega
    have hlt := ofLittleEndian_lt ((bytes.drop offset).take count)
    have hback := toLittleEndian_ofLittleEndian ((bytes.drop offset).take count)
    rw [hcount] at hlt hback
    exact ⟨hlt, hlength, hback.symm⟩
  · rintro ⟨hlt, hlength, htake⟩
    refine ⟨toLittleEndian count n, get_eq_some.2 ⟨Nat.le_add_right _ _, hlength, ?_⟩,
      ofLittleEndian_toLittleEndian hlt⟩
    rw [Nat.add_sub_cancel_left, htake]

end Codec
