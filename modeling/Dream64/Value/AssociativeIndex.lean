import Dream64.Value.DmList

/-!
# The entries of an order

Up to 2^31 an index and the bit of the vector it is for do not get in each
other's way: an entry says what its slot says, and the functions that renumber
entries renumber their slots.
-/

namespace Dream64

open Pools

namespace ListOrder

variable {entry : ListOrder} {index gone : Nat}

variable {bits : Nat}

theorem and_associativeBit_lt (h : bits < 2 ^ 31) : bits &&& associativeBit = 0 := by
  rw [associativeBit, Nat.and_two_pow, Nat.testBit_lt_two_pow h]
  rfl

theorem and_associativeBit_ge (h : bits < 2 ^ 32) (hge : 2 ^ 31 ≤ bits) :
    bits &&& associativeBit ≠ 0 := by
  have hbit : bits.testBit 31 = true := by
    rw [Nat.testBit_eq_decide_div_mod_eq]
    simp
    omega
  rw [associativeBit, Nat.and_two_pow, hbit]
  simp

theorem and_mask (h : bits < 2 ^ 32) (hge : 2 ^ 31 ≤ bits) :
    bits &&& (associativeBit - 1) = bits - 2 ^ 31 := by
  rw [associativeBit, Nat.and_two_pow_sub_one_eq_mod]
  omega

theorem slot_lt (h : entry.bits < 2 ^ 31) : entry.slot = .inl entry.bits := by
  rw [slot, positionalIndex, if_pos (and_associativeBit_lt h)]

theorem slot_ge (h : entry.bits < 2 ^ 32) (hge : 2 ^ 31 ≤ entry.bits) :
    entry.slot = .inr (entry.bits - 2 ^ 31) := by
  simp only [slot, positionalIndex, and_associativeBit_ge h hge, if_false, and_mask h hge]

theorem positionalIndex_eq (h : entry.bits < 2 ^ 32) :
    entry.positionalIndex = some index ↔ entry.slot = .inl index := by
  rcases Nat.lt_or_ge entry.bits (2 ^ 31) with hlt | hge
  · rw [slot_lt hlt, positionalIndex, if_pos (and_associativeBit_lt hlt), Option.some.injEq,
      Sum.inl.injEq]
  · rw [slot_ge h hge, positionalIndex, if_neg (and_associativeBit_ge h hge)]
    simp

theorem associativeIndex_eq (h : entry.bits < 2 ^ 32) :
    entry.associativeIndex = some index ↔ entry.slot = .inr index := by
  rcases Nat.lt_or_ge entry.bits (2 ^ 31) with hlt | hge
  · rw [slot_lt hlt, associativeIndex, if_neg (not_not.2 (and_associativeBit_lt hlt))]
    simp
  · rw [slot_ge h hge, associativeIndex, if_pos (and_associativeBit_ge h hge), and_mask h hge,
      Option.some.injEq, Sum.inr.injEq]

/-- An entry that can be made for a slot. -/
def Is (entry : ListOrder) (slot : Slot) : Prop := entry.bits < 2 ^ 32 ∧ entry.slot = slot

theorem positional_is (h : index < 2 ^ 31) : ∃ entry, positional index = some entry ∧
    entry.Is (.inl index) := by
  refine ⟨⟨index⟩, ?_, by show index < 2 ^ 32; omega, slot_lt h⟩
  rw [positional, if_pos (by omega)]

theorem associative_is (h : index < 2 ^ 31) : ∃ entry, associative index = some entry ∧
    entry.Is (.inr index) := by
  have hor := Nat.two_pow_add_eq_or_of_lt h 1
  rw [mul_one] at hor
  have hbits : index ||| associativeBit = 2 ^ 31 + index := by
    rw [associativeBit, Nat.lor_comm, ← hor]
  refine ⟨⟨2 ^ 31 + index⟩, ?_, by show 2 ^ 31 + index < 2 ^ 32; omega, ?_⟩
  · rw [associative, if_pos (by omega), hbits]
  · rw [slot_ge (by show 2 ^ 31 + index < 2 ^ 32; omega) (Nat.le_add_right ..)]
    show Sum.inr (2 ^ 31 + index - 2 ^ 31) = _
    rw [Nat.add_sub_cancel_left]

theorem slot_lt_bound (h : entry.bits < 2 ^ 32) :
    (∀ position, entry.slot = .inl position → position < 2 ^ 31) ∧
      ∀ association, entry.slot = .inr association → association < 2 ^ 31 := by
  rcases Nat.lt_or_ge entry.bits (2 ^ 31) with hlt | hge
  · rw [slot_lt hlt]
    exact ⟨fun position hposition => Sum.inl.inj hposition ▸ hlt, fun _ heq => by cases heq⟩
  · rw [slot_ge h hge]
    refine ⟨fun _ heq => (by cases heq), fun association hassociation => ?_⟩
    have heq := Sum.inr.inj hassociation
    omega

theorem closePositional_is (h : entry.bits < 2 ^ 32) :
    ∃ closed, entry.closePositional gone = some closed ∧ closed.Is (closeLeft gone entry.slot) := by
  rw [closePositional]
  cases hindex : entry.positionalIndex with
  | some other =>
    have hslot := (positionalIndex_eq h).1 hindex
    have hlt := (slot_lt_bound h).1 other hslot
    rw [hslot]
    show ∃ closed, (if gone < other then positional (other - 1) else some entry) = some closed ∧
      closed.Is (.inl (closeUp gone other))
    rw [closeUp]
    split
    · exact positional_is (by omega)
    · exact ⟨entry, rfl, h, hslot⟩
  | none =>
    refine ⟨entry, rfl, h, ?_⟩
    cases hslot : entry.slot with
    | inl position => exact absurd ((positionalIndex_eq h).2 hslot) (by simp [hindex])
    | inr association => rfl

theorem closeAssociative_is (h : entry.bits < 2 ^ 32) :
    ∃ closed, entry.closeAssociative gone = some closed ∧
      closed.Is (closeRight gone entry.slot) := by
  rw [closeAssociative]
  cases hindex : entry.associativeIndex with
  | some other =>
    have hslot := (associativeIndex_eq h).1 hindex
    have hlt := (slot_lt_bound h).2 other hslot
    rw [hslot]
    show ∃ closed, (if gone < other then associative (other - 1) else some entry) = some closed ∧
      closed.Is (.inr (closeUp gone other))
    rw [closeUp]
    split
    · exact associative_is (by omega)
    · exact ⟨entry, rfl, h, hslot⟩
  | none =>
    refine ⟨entry, rfl, h, ?_⟩
    cases hslot : entry.slot with
    | inl position => rfl
    | inr association => exact absurd ((associativeIndex_eq h).2 hslot) (by simp [hindex])

/-! ## Orders -/

/-- The entries are made for these slots. -/
def Are (order : List ListOrder) (slots : List Slot) : Prop :=
  (∀ entry ∈ order, entry.bits < 2 ^ 32) ∧ order.map slot = slots

variable {order : List ListOrder} {slots : List Slot}

theorem Are.length_eq (h : Are order slots) : order.length = slots.length := by
  rw [← h.2, List.length_map]

theorem Are.getElem? (h : Are order slots) {k : Nat} {slot : Slot} (hk : slots[k]? = some slot) :
    ∃ entry, order[k]? = some entry ∧ entry.Is slot := by
  rw [← h.2, List.getElem?_map] at hk
  obtain ⟨entry, hentry, hslot⟩ := Option.map_eq_some_iff.1 hk
  exact ⟨entry, hentry, h.1 entry (List.mem_of_getElem? hentry), hslot⟩

/-- Entries that a function makes from entries, slot by slot. -/
theorem Are.mapM (h : Are order slots) {f : ListOrder → Option ListOrder} {g : Slot → Slot}
    (hf : ∀ entry ∈ order, ∃ made, f entry = some made ∧ made.Is (g entry.slot)) :
    ∃ made, order.mapM f = some made ∧ Are made (slots.map g) := by
  obtain ⟨hbits, rfl⟩ := h
  induction order with
  | nil => exact ⟨[], rfl, fun entry hentry => absurd hentry List.not_mem_nil, rfl⟩
  | cons entry order ih =>
    obtain ⟨made, hmade, hbound, hslot⟩ := hf entry List.mem_cons_self
    obtain ⟨rest, hrest, hrestBits, hrestSlots⟩ := ih
      (fun other hother => hf other (List.mem_cons_of_mem _ hother))
      (fun other hother => hbits other (List.mem_cons_of_mem _ hother))
    refine ⟨made :: rest, ?_, List.forall_mem_cons.2 ⟨hbound, hrestBits⟩, ?_⟩
    · rw [List.mapM_cons, hmade, hrest]
      rfl
    · rw [List.map_cons, List.map_cons, List.map_cons, hslot, hrestSlots]

theorem Are.closePositional (h : Are order slots) (gone : Nat) :
    ∃ closed, order.mapM (ListOrder.closePositional gone) = some closed ∧
      Are closed (slots.map (closeLeft gone)) :=
  h.mapM fun entry hentry => closePositional_is (h.1 entry hentry)

theorem Are.closeAssociative (h : Are order slots) (gone : Nat) :
    ∃ closed, order.mapM (ListOrder.closeAssociative gone) = some closed ∧
      Are closed (slots.map (closeRight gone)) :=
  h.mapM fun entry hentry => closeAssociative_is (h.1 entry hentry)

theorem Are.append (h : Are order slots) {order' : List ListOrder} {slots' : List Slot}
    (h' : Are order' slots') : Are (order ++ order') (slots ++ slots') := by
  refine ⟨fun entry hentry => ?_, by rw [List.map_append, h.2, h'.2]⟩
  rcases List.mem_append.1 hentry with hmem | hmem
  · exact h.1 entry hmem
  · exact h'.1 entry hmem

theorem Is.singleton {slot : Slot} (h : entry.Is slot) : Are [entry] [slot] := by
  refine ⟨fun other hother => ?_, by rw [List.map_singleton, h.2]⟩
  rw [List.mem_singleton.1 hother]
  exact h.1

theorem Are.sublist (h : Are order slots) {order' : List ListOrder} (hsub : order' ⊆ order)
    {slots' : List Slot} (hslots : order'.map slot = slots') : Are order' slots' :=
  ⟨fun entry hentry => h.1 entry (hsub hentry), hslots⟩

theorem Are.eraseIdx (h : Are order slots) (k : Nat) : Are (order.eraseIdx k) (slots.eraseIdx k) :=
  h.sublist (List.eraseIdx_subset) (by rw [Pools.map_eraseIdx, h.2])

theorem Are.drop (h : Are order slots) (k : Nat) : Are (order.drop k) (slots.drop k) :=
  h.sublist (List.drop_subset k order) (by rw [List.map_drop, h.2])

theorem Are.set (h : Are order slots) (k : Nat) {slot : Slot} (hentry : entry.Is slot) :
    Are (order.set k entry) (slots.set k slot) := by
  refine ⟨fun other hother => ?_, by rw [List.map_set, h.2, hentry.2]⟩
  rcases List.mem_or_eq_of_mem_set hother with hmem | rfl
  · exact h.1 other hmem
  · exact hentry.1

theorem Are.insertIdx (h : Are order slots) (k : Nat) {slot : Slot} (hentry : entry.Is slot) :
    Are (order.insertIdx k entry) (slots.insertIdx k slot) := by
  refine ⟨fun other hother => ?_, by rw [List.map_insertIdx, h.2, hentry.2]⟩
  rcases List.eq_or_mem_of_mem_insertIdx hother with rfl | hmem
  · exact hentry.1
  · exact h.1 other hmem

/-- Positional entries one behind the other. -/
theorem are_range' {first count : Nat} (h : first + count ≤ 2 ^ 31) :
    ∃ made, (List.range' first count).mapM positional = some made ∧
      Are made ((List.range' first count).map .inl) := by
  induction count generalizing first with
  | zero => exact ⟨[], rfl, fun entry hentry => absurd hentry List.not_mem_nil, rfl⟩
  | succ count ih =>
    obtain ⟨made, hmade, his⟩ := positional_is (show first < 2 ^ 31 by omega)
    obtain ⟨rest, hrest, hare⟩ := ih (show first + 1 + count ≤ 2 ^ 31 by omega)
    refine ⟨made :: rest, ?_, his.singleton.append hare⟩
    rw [List.range'_succ, List.mapM_cons, hmade, hrest]
    rfl

end ListOrder

/-!
# The index of associations

The index has an entry for the hash of every key, so a key whose hash it does
not have is not there. A place that it gives is checked, and where the check
fails the associations are scanned; with keys that are different the lookup is
the scan (`associationPositionForKey_eq`).
-/

open DmList

variable {hash : SemanticKey → Nat} {associative : List (Value × Value)}

/-- Every hash of a key is in the index, and what the index says is in the vector. -/
structure Indexed (hash : SemanticKey → Nat) (associative : List (Value × Value))
    (index : Nat → Option Nat) : Prop where
  covers : ∀ entry ∈ associative, ∀ keyHash, semanticHash hash entry.1 = some keyHash →
    index keyHash ≠ none
  bounded : ∀ keyHash position, index keyHash = some position →
    position = associativeIndexCollision ∨ position < associative.length

/-- No key comes twice. -/
def Distinct (associative : List (Value × Value)) : Prop :=
  associative.Pairwise fun a b => a.1.semanticEq b.1 = false

theorem semanticHash_eq {a b : Value} {keyHash : Nat} (ha : semanticHash hash a = some keyHash)
    (h : a.semanticEq b = true) : semanticHash hash b = some keyHash := by
  obtain ⟨key, hkey, hhash⟩ := Option.map_eq_some_iff.1 ha
  rw [semanticHash, (semanticEq_iff_key hkey).1 h]
  exact congrArg some hhash

/-- An entry that is put into the index. -/
structure IndexGrows (hash : SemanticKey → Nat) (associative : List (Value × Value)) (position : Nat)
    (index grown : Nat → Option Nat) : Prop where
  keeps : ∀ keyHash, index keyHash ≠ none → grown keyHash ≠ none
  covers : ∀ entry, associative[position]? = some entry → ∀ keyHash,
    semanticHash hash entry.1 = some keyHash → grown keyHash ≠ none
  bounded : ∀ keyHash place, grown keyHash = some place → index keyHash = some place ∨
    place = associativeIndexCollision ∨ place = position

variable {position : Nat} {entry : Value × Value}

theorem IndexGrows.update {place : Nat} {index : Nat → Option Nat} {keyHash : Nat}
    (hentry : associative[position]? = some entry)
    (hhash : semanticHash hash entry.1 = some keyHash)
    (hplace : place = associativeIndexCollision ∨ place = position) :
    IndexGrows hash associative position index (Function.update index keyHash (some place)) where
  keeps := by
    intro other hother
    by_cases heq : other = keyHash
    · rw [heq, Function.update_self]
      simp
    · rwa [Function.update_of_ne heq]
  covers := by
    intro other hget otherHash hotherHash
    rw [hentry, Option.some.injEq] at hget
    rw [← hget, hhash, Option.some.injEq] at hotherHash
    rw [← hotherHash, Function.update_self]
    simp
  bounded := by
    intro other otherPlace hother
    by_cases heq : other = keyHash
    · rw [heq, Function.update_self, Option.some.injEq] at hother
      exact Or.inr (hother ▸ hplace)
    · rw [Function.update_of_ne heq] at hother
      exact Or.inl hother

theorem IndexGrows.same {index : Nat → Option Nat} (hentry : associative[position]? = some entry)
    (h : ∀ keyHash, semanticHash hash entry.1 = some keyHash → index keyHash ≠ none) :
    IndexGrows hash associative position index index where
  keeps := fun _ hkeep => hkeep
  covers := by
    intro other hget keyHash hkeyHash
    rw [hentry, Option.some.injEq] at hget
    exact h keyHash (hget ▸ hkeyHash)
  bounded := fun _ _ hplace => Or.inl hplace

variable {index : Nat → Option Nat} {list next : DmList}

/-- An entry that is put into the index. -/
theorem indexEntry_grows {grown : Nat → Option Nat}
    (hgrown : indexEntry hash associative index position = some grown) :
    IndexGrows hash associative position index grown := by
  rw [indexEntry, Option.bind_eq_bind, Option.bind_eq_some_iff] at hgrown
  obtain ⟨entry, hentry, hgrown⟩ := hgrown
  cases hhash : semanticHash hash entry.1 with
  | none =>
    simp only [hhash, Option.some.injEq] at hgrown
    rw [← hgrown]
    refine IndexGrows.same hentry fun keyHash hkeyHash => ?_
    rw [hhash] at hkeyHash
    cases hkeyHash
  | some keyHash =>
    have hsame (hsome : index keyHash ≠ none) :
        IndexGrows hash associative position index index := by
      refine IndexGrows.same hentry fun other hother => ?_
      rw [hhash, Option.some.injEq] at hother
      exact hother ▸ hsome
    simp only [hhash] at hgrown
    split at hgrown
    · cases hgrown
    · split at hgrown
      · rw [Option.some.injEq] at hgrown
        rw [← hgrown]
        exact IndexGrows.update hentry hhash (Or.inr rfl)
      · rename_i indexed hindexed
        have hsome : index keyHash ≠ none := by
          rw [hindexed]
          simp
        split at hgrown
        · rw [Option.some.injEq] at hgrown
          rw [← hgrown]
          exact hsame hsome
        · rw [Option.bind_eq_some_iff] at hgrown
          obtain ⟨other, -, hgrown⟩ := hgrown
          split at hgrown
          · rw [Option.some.injEq] at hgrown
            rw [← hgrown]
            exact hsame hsome
          · rw [Option.some.injEq] at hgrown
            rw [← hgrown]
            exact IndexGrows.update hentry hhash (Or.inl rfl)

/-- An entry within the vector can be put into an index of places in it. -/
theorem indexEntry_isSome (hbounded : ∀ keyHash place, index keyHash = some place →
      place = associativeIndexCollision ∨ place < associative.length)
    (hposition : position < associative.length) (hword : position < 2 ^ 32) :
    ∃ grown, indexEntry hash associative index position = some grown := by
  rw [indexEntry, List.getElem?_eq_getElem hposition, Option.bind_eq_bind, Option.bind_some]
  simp only [if_neg (Nat.not_le.2 hword)]
  split
  · exact ⟨_, rfl⟩
  · split
    · exact ⟨_, rfl⟩
    · rename_i indexed hindexed
      split
      · exact ⟨_, rfl⟩
      · rename_i hcollision
        have hlt := (hbounded _ indexed hindexed).resolve_left hcollision
        simp only [List.getElem?_eq_getElem hlt, Option.bind_some]
        split
        · exact ⟨_, rfl⟩
        · exact ⟨_, rfl⟩

/-- The fold over the first associations. -/
theorem foldlM_indexed {count : Nat} (hfold : (List.range count).foldlM
      (indexEntry hash associative) (fun _ => none) = some index) :
    (∀ position < count, ∀ entry, associative[position]? = some entry → ∀ keyHash,
      semanticHash hash entry.1 = some keyHash → index keyHash ≠ none) ∧
    ∀ keyHash place, index keyHash = some place →
      place = associativeIndexCollision ∨ place < count := by
  induction count generalizing index with
  | zero =>
    have hempty : index = fun _ => none := (Option.some.inj hfold).symm
    refine ⟨fun position hlt => absurd hlt (Nat.not_lt_zero _), fun keyHash place hplace => ?_⟩
    rw [hempty] at hplace
    cases hplace
  | succ count ih =>
    rw [List.range_succ, List.foldlM_append, Option.bind_eq_bind, Option.bind_eq_some_iff] at hfold
    obtain ⟨before, hbefore, hlast⟩ := hfold
    have hlast : indexEntry hash associative before count = some index := by
      rw [List.foldlM_cons, Option.bind_eq_bind, Option.bind_eq_some_iff] at hlast
      obtain ⟨grown, hgrown, hnil⟩ := hlast
      rw [List.foldlM_nil, Option.pure_def, Option.some.injEq] at hnil
      rwa [← hnil]
    have hgrows := indexEntry_grows hlast
    obtain ⟨hcovers, hbounded⟩ := ih hbefore
    refine ⟨fun position hlt entry hentry keyHash hkeyHash => ?_, fun keyHash place hplace => ?_⟩
    · rcases Nat.lt_succ_iff_lt_or_eq.1 hlt with hless | rfl
      · exact hgrows.keeps keyHash (hcovers position hless entry hentry keyHash hkeyHash)
      · exact hgrows.covers entry hentry keyHash hkeyHash
    · rcases hgrows.bounded keyHash place hplace with hold | hcollision | rfl
      · exact (hbounded keyHash place hold).imp_right Nat.lt_succ_of_lt
      · exact Or.inl hcollision
      · exact Or.inr (Nat.lt_succ_self _)

theorem foldlM_isSome (hword : associative.length ≤ 2 ^ 32) {count : Nat}
    (hcount : count ≤ associative.length) : ∃ index, (List.range count).foldlM
      (indexEntry hash associative) (fun _ => none) = some index := by
  induction count with
  | zero => exact ⟨_, rfl⟩
  | succ count ih =>
    obtain ⟨index, hfold⟩ := ih (by omega)
    have hbounded := (foldlM_indexed hfold).2
    obtain ⟨grown, hgrown⟩ := @indexEntry_isSome hash associative count index
      (fun keyHash place hplace => (hbounded keyHash place hplace).imp_right (by omega))
      (by omega) (by omega)
    refine ⟨grown, ?_⟩
    rw [List.range_succ, List.foldlM_append, hfold]
    show (indexEntry hash associative index count).bind some = _
    rw [hgrown]
    rfl

/-- An index that there is, is one of these associations, and they are many. -/
def IndexOf (hash : SemanticKey → Nat) (index : Option (Nat → Option Nat))
    (associative : List (Value × Value)) : Prop :=
  ∀ known, index = some known →
    associativeIndexThreshold ≤ associative.length ∧ Indexed hash associative known

theorem IndexOf.none (hash : SemanticKey → Nat) (associative : List (Value × Value)) :
    IndexOf hash .none associative := fun _ hnone => by cases hnone

theorem rebuildAssociativeIndex_of_some (h : list.rebuildAssociativeIndex hash = some next) :
    ∃ index, next = { list with associativeIndex := index } ∧
      IndexOf hash index list.associative := by
  rw [DmList.rebuildAssociativeIndex] at h
  split at h
  · rw [Option.some.injEq] at h
    exact ⟨none, h.symm, IndexOf.none hash _⟩
  · rename_i hmany
    rw [Option.bind_eq_bind, Option.bind_eq_some_iff] at h
    obtain ⟨index, hfold, h⟩ := h
    rw [Option.some.injEq] at h
    obtain ⟨hcovers, hbounded⟩ := foldlM_indexed hfold
    refine ⟨some index, h.symm, fun other hother => ?_⟩
    cases hother
    refine ⟨Nat.le_of_not_lt hmany, fun entry hentry => ?_, hbounded⟩
    obtain ⟨position, hposition⟩ := List.mem_iff_getElem?.1 hentry
    exact hcovers position (List.getElem?_eq_some_iff.1 hposition).1 entry hposition

theorem rebuildAssociativeIndex_spec (hash : SemanticKey → Nat) {list : DmList}
    (hword : list.associative.length ≤ 2 ^ 31) : ∃ index,
      list.rebuildAssociativeIndex hash = some { list with associativeIndex := index } ∧
        IndexOf hash index list.associative := by
  have hsome : ∃ next, list.rebuildAssociativeIndex hash = some next := by
    rw [DmList.rebuildAssociativeIndex]
    split
    · exact ⟨_, rfl⟩
    · obtain ⟨index, hfold⟩ := @foldlM_isSome hash list.associative (by omega) _ le_rfl
      rw [hfold]
      exact ⟨_, rfl⟩
  obtain ⟨next, hnext⟩ := hsome
  obtain ⟨index, rfl, hindex⟩ := rebuildAssociativeIndex_of_some hnext
  exact ⟨index, hnext, hindex⟩

theorem indexLastAssociation_of_some {before : List (Value × Value)} {entry : Value × Value}
    (hlast : list.associative = before ++ [entry])
    (hindex : IndexOf hash list.associativeIndex before)
    (h : list.indexLastAssociation hash = some next) :
    ∃ index, next = { list with associativeIndex := index } ∧
      IndexOf hash index list.associative := by
  have hlength : list.associative.length = before.length + 1 := by
    rw [hlast, List.length_append, List.length_singleton]
  rw [DmList.indexLastAssociation] at h
  split at h
  · exact rebuildAssociativeIndex_of_some h
  · split at h
    · rename_i hfew
      rw [Option.some.injEq] at h
      refine ⟨list.associativeIndex, h.symm, fun index hsome => ?_⟩
      have hmany := (hindex index hsome).1
      omega
    · split at h
      · rename_i hnone
        rw [Option.some.injEq] at h
        exact ⟨none, by rw [← hnone, h], IndexOf.none hash _⟩
      · rename_i index hsome
        obtain ⟨hmany, hindexed⟩ := hindex index hsome
        rw [Option.bind_eq_bind, Option.bind_eq_some_iff] at h
        obtain ⟨grown, hgrown, h⟩ := h
        rw [Option.some.injEq] at h
        have hgrows := indexEntry_grows hgrown
        have hplace : list.associative.length - 1 = before.length := by omega
        rw [hplace] at hgrows
        refine ⟨some grown, h.symm, fun other hother => ?_⟩
        cases hother
        refine ⟨by omega, fun added hadded keyHash hkeyHash => ?_, fun keyHash place hplace => ?_⟩
        · rw [hlast, List.mem_append, List.mem_singleton] at hadded
          rcases hadded with hmem | rfl
          · exact hgrows.keeps keyHash (hindexed.covers added hmem keyHash hkeyHash)
          · refine hgrows.covers added ?_ keyHash hkeyHash
            rw [hlast, List.getElem?_concat_length]
        · rcases hgrows.bounded keyHash place hplace with hold | hcollision | rfl
          · exact (hindexed.bounded keyHash place hold).imp_right (by omega)
          · exact Or.inl hcollision
          · exact Or.inr (by omega)

/-- The last association is put into the index of those before. -/
theorem indexLastAssociation_spec {list : DmList} {before : List (Value × Value)}
    {entry : Value × Value} (hlast : list.associative = before ++ [entry])
    (hword : list.associative.length ≤ 2 ^ 31) (hindex : IndexOf hash list.associativeIndex before) :
    ∃ index, list.indexLastAssociation hash = some { list with associativeIndex := index } ∧
      IndexOf hash index list.associative := by
  have hlength : list.associative.length = before.length + 1 := by
    rw [hlast, List.length_append, List.length_singleton]
  have hsome : ∃ next, list.indexLastAssociation hash = some next := by
    rw [DmList.indexLastAssociation]
    split
    · obtain ⟨index, hrebuild, -⟩ := rebuildAssociativeIndex_spec hash hword
      exact ⟨_, hrebuild⟩
    · split
      · exact ⟨_, rfl⟩
      · split
        · exact ⟨_, rfl⟩
        · rename_i index hsome
          have hbounded := (hindex index hsome).2.bounded
          obtain ⟨grown, hgrown⟩ := @indexEntry_isSome hash list.associative
            (list.associative.length - 1) index
            (fun keyHash place hplace => (hbounded keyHash place hplace).imp_right (by omega))
            (by omega) (by omega)
          rw [hgrown]
          exact ⟨_, rfl⟩
  obtain ⟨next, hnext⟩ := hsome
  obtain ⟨index, rfl, hindex⟩ := indexLastAssociation_of_some hlast hindex hnext
  exact ⟨index, hnext, hindex⟩

/-! ## Lookups -/

/-- Different keys that are equal to one key are at one place. -/
theorem Distinct.unique (h : Distinct associative) {i j : Nat} {a b : Value × Value} {key : Value}
    (hi : associative[i]? = some a) (hj : associative[j]? = some b)
    (ha : a.1.semanticEq key = true) (hb : b.1.semanticEq key = true) : i = j := by
  have heq : a.1.semanticEq b.1 = true :=
    Value.semanticEq_trans _ _ _ ha (Value.semanticEq_symm _ _ hb)
  have hne {i j : Nat} {a b : Value × Value} (hi : associative[i]? = some a)
      (hj : associative[j]? = some b) (hlt : i < j) : a.1.semanticEq b.1 = false := by
    obtain ⟨hilt, rfl⟩ := List.getElem?_eq_some_iff.1 hi
    obtain ⟨hjlt, rfl⟩ := List.getElem?_eq_some_iff.1 hj
    exact List.pairwise_iff_getElem.1 h i j hilt hjlt hlt
  rcases Nat.lt_trichotomy i j with hlt | rfl | hgt
  · rw [hne hi hj hlt] at heq
    cases heq
  · rfl
  · have hback := Value.semanticEq_symm _ _ heq
    rw [hne hj hi hgt] at hback
    cases hback

theorem scanAssociations_eq {list : DmList} {key : Value} (h : Distinct list.associative)
    (hget : list.associative[position]? = some entry) (heq : entry.1.semanticEq key = true) :
    list.scanAssociations key = some position := by
  rw [scanAssociations]
  cases hfind : list.associative.findIdx? fun entry => entry.1.semanticEq key with
  | none =>
    have hnone := List.findIdx?_eq_none_iff.1 hfind entry (List.mem_of_getElem? hget)
    rw [heq] at hnone
    cases hnone
  | some found =>
    obtain ⟨hlt, hfound, -⟩ := List.findIdx?_eq_some_iff_getElem.1 hfind
    exact congrArg some (h.unique (List.getElem?_eq_getElem hlt) hget hfound heq)

/-- The lookup through the index is the scan. -/
theorem associationPositionForKey_eq {list : DmList}
    (hindex : IndexOf hash list.associativeIndex list.associative)
    (h : Distinct list.associative) (key : Value) :
    list.associationPositionForKey hash key = list.scanAssociations key := by
  rw [associationPositionForKey]
  split
  · rename_i index keyHash hsome hhash
    have hindexed := (hindex index hsome).2
    cases hposition : index keyHash with
    | some position =>
      simp only
      split
      · rename_i hcheck
        obtain ⟨entry, hentry, heq⟩ := Option.any_eq_true _ _ |>.1 hcheck.2
        exact (scanAssociations_eq h hentry heq).symm
      · rfl
    | none =>
      refine (List.findIdx?_eq_none_iff.2 fun entry hentry => ?_).symm
      rw [Bool.eq_false_iff]
      intro heq
      have hentryHash := semanticHash_eq hhash (Value.semanticEq_symm _ _ heq)
      exact hindexed.covers entry hentry keyHash hentryHash hposition
  · rfl

end Dream64
