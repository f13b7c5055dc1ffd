import Mathlib

/-!
# Indexes of a list without duplicates

`names.idxOf?` gives the slot of a name in a list. An index is a table that is
meant to agree with it: it is built by inserting the names with consecutive
slots, and kept when a name is appended or the names behind an erased one are
inserted again.
-/

namespace SlotIndex

variable {α : Type} [DecidableEq α] {names : List α} {name : α} {slot : Nat}

/-- The names are inserted with the slots from `slot` on. -/
def insertFrom (index : α → Option Nat) (slot : Nat) : List α → α → Option Nat
  | [] => index
  | name :: names => insertFrom (Function.update index name (some slot)) (slot + 1) names

theorem idxOf?_eq_some (hnodup : names.Nodup) :
    names.idxOf? name = some slot ↔ names[slot]? = some name := by
  rw [List.idxOf?_eq_some_iff, List.getElem?_eq_some_iff]
  constructor
  · rintro ⟨hlt, heq, -⟩
    exact ⟨hlt, heq⟩
  · rintro ⟨hlt, heq⟩
    refine ⟨hlt, heq, fun j hj heq' => ?_⟩
    have hsame := hnodup.getElem_inj_iff.1 (heq'.trans heq.symm)
    omega

theorem insertFrom_apply (hnodup : names.Nodup) (index : α → Option Nat) (slot : Nat) (name : α) :
    insertFrom index slot names name =
      ((names.idxOf? name).map (slot + ·)).or (index name) := by
  induction names generalizing index slot with
  | nil => rfl
  | cons first names ih =>
    obtain ⟨hfirst, hrest⟩ := List.nodup_cons.1 hnodup
    rw [insertFrom, ih hrest, List.idxOf?_cons]
    by_cases heq : first = name
    · subst heq
      have hnone : names.idxOf? first = none := List.idxOf?_eq_none_iff.2 hfirst
      simp [hnone]
    · have hne : name ≠ first := Ne.symm heq
      simp only [beq_iff_eq, heq, if_false, Function.update_of_ne hne, Option.map_map]
      congr 2
      funext i
      show slot + 1 + i = slot + (i + 1)
      omega

/-- The index of all names. -/
theorem insertFrom_all (hnodup : names.Nodup) :
    insertFrom (fun _ => none) 0 names = names.idxOf? := by
  funext name
  rw [insertFrom_apply hnodup]
  simp

theorem idxOf?_append (front back : List α) (name : α) : (front ++ back).idxOf? name =
    (front.idxOf? name).or ((back.idxOf? name).map (front.length + ·)) := by
  have happend : (front ++ back).idxOf? name =
      (front.idxOf? name).or ((back.idxOf? name).map (· + front.length)) := List.findIdx?_append
  rw [happend]
  congr 2
  funext i
  exact Nat.add_comm ..

omit [DecidableEq α] in
theorem nodup_concat (hnodup : names.Nodup) (hname : name ∉ names) : (names ++ [name]).Nodup := by
  refine List.nodup_append.2 ⟨hnodup, List.nodup_singleton name, ?_⟩
  rintro a ha b hb rfl
  rw [List.mem_singleton] at hb
  subst hb
  exact hname ha

theorem idxOf?_concat (hname : name ∉ names) :
    (names ++ [name]).idxOf? = Function.update names.idxOf? name (some names.length) := by
  funext other
  rw [idxOf?_append]
  by_cases heq : other = name
  · subst heq
    have hnone : names.idxOf? other = none := List.idxOf?_eq_none_iff.2 hname
    simp [hnone]
  · have hne : ¬ name = other := fun h => heq h.symm
    simp [Function.update_of_ne heq, hne]

/-- The names behind a removed one are inserted again. -/
theorem insertFrom_remove {front back : List α} (hnodup : (front ++ name :: back).Nodup) :
    insertFrom (Function.update (front ++ name :: back).idxOf? name none) front.length back =
      (front ++ back).idxOf? := by
  obtain ⟨-, hback, hdisjoint⟩ := List.nodup_append.1 hnodup
  obtain ⟨hname, hback⟩ := List.nodup_cons.1 hback
  funext other
  rw [insertFrom_apply hback, idxOf?_append]
  by_cases heq : other = name
  · subst heq
    have hfront : other ∉ front := fun h => hdisjoint other h other List.mem_cons_self rfl
    have hnone : front.idxOf? other = none := List.idxOf?_eq_none_iff.2 hfront
    have hnone' : back.idxOf? other = none := List.idxOf?_eq_none_iff.2 hname
    simp [hnone, hnone']
  · have hne : ¬ name = other := fun h => heq h.symm
    rw [Function.update_of_ne heq, idxOf?_append, List.idxOf?_cons]
    by_cases hfront : other ∈ front
    · have hnone : back.idxOf? other = none := List.idxOf?_eq_none_iff.2
        fun h => hdisjoint other hfront other (List.mem_cons_of_mem _ h) rfl
      simp [hnone, hne]
    · have hnone : front.idxOf? other = none := List.idxOf?_eq_none_iff.2 hfront
      cases hposition : back.idxOf? other with
      | none => simp [hnone, hne]
      | some i => simp [hnone]

theorem insertFrom_eraseIdx (hnodup : names.Nodup) (hslot : names[slot]? = some name) :
    insertFrom (Function.update names.idxOf? name none) slot ((names.eraseIdx slot).drop slot) =
      (names.eraseIdx slot).idxOf? := by
  obtain ⟨hlt, hget⟩ := List.getElem?_eq_some_iff.1 hslot
  have hlength : (names.take slot).length = slot := List.length_take_of_le hlt.le
  have hsplit : names = names.take slot ++ name :: names.drop (slot + 1) := by
    rw [← hget, List.getElem_cons_drop, List.take_append_drop]
  have herase : names.eraseIdx slot = names.take slot ++ names.drop (slot + 1) :=
    List.eraseIdx_eq_take_drop_succ ..
  have hdrop : (names.eraseIdx slot).drop slot = names.drop (slot + 1) := by
    rw [herase]
    exact List.drop_left' hlength
  have hremove := insertFrom_remove (hsplit ▸ hnodup)
  rw [← hsplit, hlength] at hremove
  rw [hdrop, herase]
  exact hremove

end SlotIndex
