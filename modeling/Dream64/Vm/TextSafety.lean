import Dream64.Vm.TextBuiltins

/-!
# Searches do not panic

`findtext` cuts its text at boundaries, in order, whatever its arguments are:
any needle, any positions, in either direction.
-/

namespace Dream64

open ByteText (IsBoundary slice sliceTo boundaries)
open String (utf8Len)
open Fallible (bind_ne_panic)

variable {σ Target : Type} {host : TextHost σ Target} {state : σ} {text : List Char} {n : Nat}

theorem map_ne_panic {α β : Type} {x : Fallible String α} {f : α → β} (h : x ≠ .panic) :
    x.map f ≠ .panic := fun hmap => h (Fallible.map_eq_panic.1 hmap)

theorem sliceTo_ne_panic (h : IsBoundary text n) :
    (sliceTo text n : Fallible String _) ≠ .panic := by
  obtain ⟨a, -, -, -, hslice⟩ := ByteText.sliceTo_eq_value (ε := String) h
  rw [hslice]
  exact fun h => by cases h

theorem strictText_ne_panic (value : Value) (context : String) :
    strictText host state value context ≠ .panic := by
  cases value with
  | datum datum =>
    refine bind_ne_panic (bind_ne_panic (Fallible.ofExcept_ne_panic _) fun path _ => ?_)
      fun received _ h => by cases h
    split <;> exact fun h => by cases h
  | _ => exact fun h => by cases h

theorem signedPosition_ne_panic (value : Option Value) (default : Int) :
    signedPosition host value default ≠ .panic := by
  unfold signedPosition
  split <;> exact fun h => by cases h

theorem findMatch_spec (needle : List Char) (exact reverse : Bool) :
    ∃ found, findMatch host text needle exact reverse = .value found ∧
      ∀ offset ∈ found, IsBoundary text offset := by
  have hall : ∀ offsets : List Nat, (∀ offset ∈ offsets, IsBoundary text offset) →
      ∃ found, Fallible.find (matchesAt host text needle exact) offsets = .value found ∧
        ∀ offset ∈ found, IsBoundary text offset := by
    intro offsets hoffsets
    induction offsets with
    | nil => exact ⟨none, rfl, fun _ h => by cases h⟩
    | cons offset rest ih =>
      obtain ⟨-, tail, -, -, htail⟩ :=
        ByteText.sliceFrom_eq_value (ε := String) (hoffsets offset List.mem_cons_self)
      rw [Fallible.find, matchesAt, htail, Fallible.map_value, Fallible.value_bind]
      by_cases hmatch : (if exact then needle.isPrefixOf tail
        else (ByteText.getTo tail (utf8Len needle)).any (eqIgnoreAsciiCase · needle) ||
          (host.lowercase needle).isPrefixOf (host.lowercase tail)) = true
      · rw [if_pos hmatch]
        exact ⟨some offset, rfl, fun _ h => Option.some.inj h ▸ hoffsets _ List.mem_cons_self⟩
      · rw [if_neg hmatch]
        exact ih fun other hother => hoffsets other (List.mem_cons_of_mem _ hother)
  refine hall _ fun offset hoffset => ?_
  have hmem : offset ∈ boundaries text := by
    split at hoffset
    · exact List.mem_reverse.1 hoffset
    · exact hoffset
  obtain ⟨front, hfront, rfl⟩ := List.mem_map.1 hmem
  obtain ⟨back, rfl⟩ := (List.mem_inits _ _).1 hfront
  exact ⟨front, back, rfl, rfl⟩

/-- What is found in a slice of a text has a position in the text. -/
theorem found_ne_panic {first last : Nat} (hfirst : IsBoundary text first)
    (hlast : IsBoundary text last) (hle : first ≤ last) (needle : List Char)
    (exact characterIndices reverse : Bool) {f : Option Nat → Fallible String Value}
    (hnone : f none ≠ .panic) (hsome : ∀ found, f (some found) =
      (positionOf text (first + found) characterIndices).map Value.ofNat) :
    ((slice text first last).bind fun region =>
      (findMatch host region needle exact reverse).bind f) ≠ .panic := by
  obtain ⟨a, region, c, rfl, rfl, -, hslice⟩ :=
    ByteText.slice_eq_value (ε := String) hfirst hlast hle
  obtain ⟨found, hfound, hboundary⟩ := @findMatch_spec _ _ host region needle exact reverse
  rw [hslice, Fallible.value_bind, hfound, Fallible.value_bind]
  cases found with
  | none => exact hnone
  | some found =>
    obtain ⟨d, e, hregion, rfl⟩ := hboundary found rfl
    rw [hsome]
    refine map_ne_panic ?_
    rw [positionOf]
    split
    · refine map_ne_panic (sliceTo_ne_panic ⟨a ++ d, e ++ c, ?_, String.utf8Len_append a d⟩)
      rw [← hregion, List.append_assoc, List.append_assoc]
    · exact fun h => by cases h

theorem findText_ne_panic (haystack : List Char) (needle : Value) (start finish : Option Value)
    (exact characterIndices reverse : Bool) :
    findText host state haystack needle start finish exact characterIndices reverse ≠ .panic := by
  refine bind_ne_panic (strictText_ne_panic _ _) fun needle _ => ?_
  cases reverse with
  | true =>
    refine bind_ne_panic (signedPosition_ne_panic _ _) fun start _ => ?_
    refine bind_ne_panic (signedPosition_ne_panic _ _) fun finish _ => ?_
    dsimp only
    generalize (if start = 0 then _ else _ : Nat) = last
    split
    · exact fun h => by cases h
    · exact found_ne_panic (byteOffset_isBoundary ..) (byteOffset_isBoundary ..)
        (byteOffset_mono _ (by omega) _) _ _ _ _ (fun h => by cases h) fun _ => rfl
  | false =>
    refine bind_ne_panic (signedPosition_ne_panic _ _) fun start _ => ?_
    refine bind_ne_panic (signedPosition_ne_panic _ _) fun finish _ => ?_
    obtain ⟨hfirst, hlast, hle⟩ := textRegion_spec haystack start finish characterIndices
    exact found_ne_panic hfirst hlast hle _ _ _ _ (fun h => by cases h) fun _ => rfl

end Dream64
