import Dream64.Value.ListRefinement

/-!
# Keys of a list

A key is looked up among the associations, and a value that is equal to it
becomes its key. As the keys are different there is one place that the lookup
can find, wherever the association is kept.
-/

namespace Dream64

open DmList Pools ListOrder

variable {hash : SemanticKey → Nat} {list : DmList} {entries : List Entry} {slots : List Slot}

/-! ## Associations that change -/

variable {key : Value}

theorem Distinct.append {associative : List (Value × Value)} (h : Distinct associative)
    {value : Value} (hnew : ∀ pair ∈ associative, pair.1.semanticEq key = false) :
    Distinct (associative ++ [(key, value)]) := by
  refine List.pairwise_append.2 ⟨h, List.pairwise_singleton _ _, fun pair hpair other hother => ?_⟩
  rw [List.mem_singleton.1 hother]
  exact hnew pair hpair

variable {position : Nat} {pair : Value × Value}

/-- A new value for a key. -/
theorem mem_set_key {associative : List (Value × Value)}
    (hpair : associative[position]? = some pair) {value : Value} {other : Value × Value}
    (hother : other ∈ associative.set position (pair.1, value)) :
    ∃ old ∈ associative, old.1 = other.1 := by
  rcases List.mem_or_eq_of_mem_set hother with hmem | rfl
  · exact ⟨other, hmem, rfl⟩
  · exact ⟨pair, List.mem_of_getElem? hpair, rfl⟩

theorem map_key_set {associative : List (Value × Value)}
    (hpair : associative[position]? = some pair) (value : Value) :
    (associative.set position (pair.1, value)).map (·.1) = associative.map (·.1) := by
  apply List.ext_getElem?
  intro i
  rw [List.map_set]
  by_cases hi : i = position
  · subst hi
    rw [List.getElem?_set_self (by rw [List.length_map]; exact (List.getElem?_eq_some_iff.1 hpair).1),
      List.getElem?_map, hpair]
    rfl
  · rw [List.getElem?_set_ne (Ne.symm hi)]

theorem Distinct.set {associative : List (Value × Value)} (h : Distinct associative)
    (hpair : associative[position]? = some pair) (value : Value) :
    Distinct (associative.set position (pair.1, value)) := by
  have hkeys := List.pairwise_map (f := fun pair : Value × Value => pair.1)
    (R := fun a b => a.semanticEq b = false) |>.2 h
  rw [← map_key_set hpair value] at hkeys
  exact List.pairwise_map.1 hkeys

theorem IndexOf.set {associative : List (Value × Value)} {index : Option (Nat → Option Nat)}
    (h : IndexOf hash index associative) (hpair : associative[position]? = some pair)
    (value : Value) : IndexOf hash index (associative.set position (pair.1, value)) := by
  intro known hsome
  obtain ⟨hmany, hindexed⟩ := h known hsome
  rw [List.length_set]
  refine ⟨hmany, fun other hother keyHash hkeyHash => ?_, ?_⟩
  · obtain ⟨old, hold, heq⟩ := mem_set_key hpair hother
    exact hindexed.covers old hold keyHash (heq ▸ hkeyHash)
  · rw [List.length_set]
    exact hindexed.bounded

/-! ## Finding -/

/-- The association of a key, among the associations and in the sequence. -/
theorem Settled.scan (h : Settled hash list slots entries) (key : Value) :
    (list.scanAssociations key = none ∧ entries.findIdx? (ListSpec.isAssociation key) = none) ∨
      ∃ position place pair, list.scanAssociations key = some position ∧
        entries.findIdx? (ListSpec.isAssociation key) = some place ∧
        slots[place]? = some (.inr position) ∧ list.associative[position]? = some pair ∧
        entries[place]? = some (.inr pair) := by
  cases hfind : entries.findIdx? (ListSpec.isAssociation key) with
  | none =>
    refine Or.inl ⟨List.findIdx?_eq_none_iff.2 fun pair hpair => ?_, rfl⟩
    obtain ⟨position, hposition⟩ := List.mem_iff_getElem?.1 hpair
    have hmem := h.holds.right_mem position (List.getElem?_eq_some_iff.1 hposition).1
    obtain ⟨entry, hentry, hlookup⟩ := h.holds.lookup_of_mem hmem
    rw [lookup, hposition, Option.map_some, Option.some.injEq] at hlookup
    have hnot := List.findIdx?_eq_none_iff.1 hfind entry hentry
    rwa [← hlookup] at hnot
  | some place =>
    obtain ⟨hplace, hassociation, -⟩ := List.findIdx?_eq_some_iff_getElem.1 hfind
    have hget := List.getElem?_eq_getElem hplace
    obtain ⟨entry, slot, -, -, hslot, hlookup⟩ := h.slot_at hplace
    rw [hget] at hlookup
    cases hentry : entries[place] with
    | inl value =>
      rw [hentry] at hassociation
      cases hassociation
    | inr pair =>
      rw [hentry] at hassociation hlookup hget
      cases slot with
      | inl position =>
        obtain ⟨value, -, hvalue⟩ := Option.map_eq_some_iff.1 hlookup
        cases hvalue
      | inr position =>
        obtain ⟨found, hfound, heq⟩ := Option.map_eq_some_iff.1 hlookup
        cases heq
        exact Or.inr ⟨position, place, pair, scanAssociations_eq h.distinct hfound hassociation, rfl,
          hslot, hfound, hget⟩

/-- The first value that is equal to a key. -/
theorem OrderReads.findPositional {order : List ListOrder} (h : OrderReads list order entries)
    (hbits : ∀ entry ∈ order, entry.bits < 2 ^ 32) (key : Value) : ∃ found,
      list.findPositional key order = some found ∧
        found.map (·.1) = entries.findIdx? (ListSpec.isPositional key) ∧
        ∀ place position, found = some (place, position) →
          ∃ entry, order[place]? = some entry ∧ entry.slot = .inl position := by
  induction entries generalizing order with
  | nil =>
    rw [List.map_eq_nil_iff.1 h]
    exact ⟨none, rfl, rfl, fun place position hnone => by cases hnone⟩
  | cons entry entries ih =>
    obtain ⟨first, rest, rfl, hfirst, hrest⟩ := List.map_eq_cons_iff.1 h
    obtain ⟨found, hfound, hplace, hentry⟩ :=
      ih hrest fun other hother => hbits other (List.mem_cons_of_mem _ hother)
    have hnext (hnot : ListSpec.isPositional key entry = false) : ∃ next,
        some (found.map fun place => (place.1 + 1, place.2)) = some next ∧
        next.map (·.1) = (entry :: entries).findIdx? (ListSpec.isPositional key) ∧
        ∀ place position, next = some (place, position) →
          ∃ entry, (first :: rest)[place]? = some entry ∧ entry.slot = .inl position := by
      refine ⟨_, rfl, ?_, fun place position heq => ?_⟩
      · rw [List.findIdx?_cons, hnot, ← hplace, Option.map_map]
        cases found <;> rfl
      · obtain ⟨pair, rfl, hpair⟩ := Option.map_eq_some_iff.1 heq
        cases hpair
        exact hentry pair.1 pair.2 rfl
    rw [DmList.findPositional, hfound]
    cases hslot : first.slot with
    | inl position =>
      rw [(positionalIndex_eq (hbits first List.mem_cons_self)).2 hslot]
      rw [hslot] at hfirst
      obtain ⟨value, hvalue, rfl⟩ := Option.map_eq_some_iff.1 hfirst
      simp only [hvalue, Option.bind_eq_bind, Option.bind_some]
      split
      · rename_i heq
        refine ⟨_, rfl, ?_, fun place position' hsome => ?_⟩
        · rw [List.findIdx?_cons, ListSpec.isPositional, if_pos heq]
          rfl
        · cases hsome
          exact ⟨first, rfl, hslot⟩
      · rename_i hne
        exact hnext (Bool.eq_false_iff.2 hne)
    | inr association =>
      have hnone : first.positionalIndex = none := by
        cases hindex : first.positionalIndex with
        | none => rfl
        | some position =>
          rw [(positionalIndex_eq (hbits first List.mem_cons_self)).1 hindex] at hslot
          cases hslot
      rw [hnone]
      rw [hslot] at hfirst
      obtain ⟨pair, -, rfl⟩ := Option.map_eq_some_iff.1 hfirst
      exact hnext rfl

/-! ## Setting and removing -/

variable {place : Nat}

theorem modify_of_getElem? {entry : Entry} (h : entries[place]? = some entry) (f : Entry → Entry) :
    entries.modify place f = entries.set place (f entry) := by
  obtain ⟨hlt, rfl⟩ := List.getElem?_eq_some_iff.1 h
  apply List.ext_getElem?
  intro i
  rw [List.getElem?_modify]
  by_cases hi : place = i
  · subst hi
    rw [List.getElem?_set_self hlt, h]
    simp
  · rw [List.getElem?_set_ne hi]
    simp [hi]

section

variable (h : Settled hash list slots entries) (hnone : list.positionalRemoveIndex = none)

include h hnone

/-- A new value for the key of an association. -/
theorem Settled.setPair (hslot : slots[place]? = some (.inr position))
    (hpair : list.associative[position]? = some pair) (value : Value) :
    Represents hash { list with associative := list.associative.set position (pair.1, value) }
      (entries.set place (.inr (pair.1, value))) :=
  Settled.represents ⟨h.head, h.order, h.holds.setRight hslot (pair.1, value),
    h.distinct.set hpair value, h.index.set hpair value, h.bound⟩ hnone

/-- A value becomes a key, and its slot moves to the associations. -/
theorem Settled.promote {existing : Value} (hslot : slots[place]? = some (.inl position))
    (hexisting : list.positional[position]? = some existing) (heq : existing.semanticEq key = true)
    (hscan : list.scanAssociations key = none) (value : Value) : ∃ closed entry next,
      list.order.mapM (closePositional position) = some closed ∧
      associative list.associative.length = some entry ∧
      indexLastAssociation hash { list with
        positional := list.positional.eraseIdx position
        order := closed.set place entry
        associative := list.associative ++ [(existing, value)] } = some next ∧
      Represents hash next (entries.set place (.inr (existing, value))) := by
  have hpools := h.positional_le
  have hbound := h.bound
  have hposition := (List.getElem?_eq_some_iff.1 hexisting).1
  obtain ⟨closed, hclosed, hclosedAre⟩ := h.order.closePositional position
  obtain ⟨entry, hentry, his⟩ := associative_is (show list.associative.length < 2 ^ 31 by omega)
  obtain ⟨index, hindexed, hindex⟩ := @indexLastAssociation_spec hash
    { list with
      positional := list.positional.eraseIdx position
      order := closed.set place entry
      associative := list.associative ++ [(existing, value)] }
    list.associative (existing, value) rfl
    (by rw [List.length_append, List.length_singleton]; omega) h.index
  have hnew : ∀ pair ∈ list.associative, pair.1.semanticEq existing = false := by
    intro pair hpair
    have hnot := List.findIdx?_eq_none_iff.1 hscan pair hpair
    by_contra htrue
    rw [Value.semanticEq_trans _ _ _ (Bool.of_not_eq_false htrue) heq] at hnot
    cases hnot
  refine ⟨closed, entry, _, hclosed, hentry, hindexed, Settled.represents ⟨h.head,
    hclosedAre.set place his, h.holds.moveRight hslot (existing, value), h.distinct.append hnew,
    hindex, ?_⟩ hnone⟩
  show (closed.set place entry).length ≤ 2 ^ 31
  rw [List.length_set, hclosedAre.length_eq, List.length_map, ← h.order.length_eq]
  exact hbound

/-- A new key behind all entries. -/
theorem Settled.appendPair (hroom : entries.length + 1 ≤ 2 ^ 31)
    (hscan : list.scanAssociations key = none) (value : Value) :
    ∃ entry next, associative list.associative.length = some entry ∧
      indexLastAssociation hash { list with
        order := list.order ++ [entry]
        associative := list.associative ++ [(key, value)] } = some next ∧
      Represents hash next (entries ++ [.inr (key, value)]) := by
  have hpools := h.positional_le
  have hlength := h.length_eq
  obtain ⟨entry, hentry, his⟩ := associative_is (show list.associative.length < 2 ^ 31 by omega)
  obtain ⟨index, hindexed, hindex⟩ := @indexLastAssociation_spec hash
    { list with
      order := list.order ++ [entry]
      associative := list.associative ++ [(key, value)] }
    list.associative (key, value) rfl
    (by rw [List.length_append, List.length_singleton]; omega) h.index
  refine ⟨entry, _, hentry, hindexed, Settled.represents ⟨h.head, h.order.append his.singleton,
    h.holds.appendRight (key, value),
    h.distinct.append fun pair hpair => List.findIdx?_eq_none_iff.1 hscan pair hpair, hindex, ?_⟩ hnone⟩
  show (list.order ++ [entry]).length ≤ 2 ^ 31
  rw [List.length_append, List.length_singleton, hlength]
  exact hroom

end

theorem setKey_spec (h : Represents hash list entries) (key value : Value)
    (hroom : (ListSpec.setKey entries key value).1.length ≤ 2 ^ 31) :
    ∃ next, list.setKey hash key value = some (next, (ListSpec.setKey entries key value).2) ∧
      Represents hash next (ListSpec.setKey entries key value).1 := by
  obtain ⟨settled, slots, hmaterialize, hsettled, -, -⟩ := materializePrefix_spec h
  have hinvalid := hsettled.invalidate
  have hlookup := associationPositionForKey_eq hinvalid.index hinvalid.distinct key
  rw [DmList.setKey, hmaterialize, Option.bind_eq_bind, Option.bind_some]
  simp only [hlookup]
  rw [ListSpec.setKey] at hroom ⊢
  rcases hinvalid.scan key with ⟨hscan, hfind⟩ |
    ⟨position, place, pair, hscan, hfind, hslot, hpair, hentry⟩
  · obtain ⟨found, hfound, hplace, hslots⟩ := (hinvalid.represents rfl).reads.findPositional
      (fun entry hentry => hinvalid.order.1 entry (List.mem_of_mem_drop hentry)) key
    rw [hinvalid.head, List.drop_zero] at hfound hslots
    rw [hfind] at hroom ⊢
    simp only [hscan, hfound, Option.bind_eq_bind, Option.bind_some]
    rw [← hplace] at hroom ⊢
    cases found with
    | some place =>
      obtain ⟨entry, hentry, hslotEq⟩ := hslots place.1 place.2 rfl
      have hslot : slots[place.1]? = some (.inl place.2) := by
        rw [← hinvalid.order.2, List.getElem?_map, hentry, Option.map_some, hslotEq]
      obtain ⟨hlt, hpositional, -⟩ := List.findIdx?_eq_some_iff_getElem.1 hplace.symm
      have hget := List.getElem?_eq_getElem hlt
      obtain ⟨holds, hholds, hlookup⟩ := hinvalid.holds.lookup_of_slot hslot
      obtain ⟨existing, hexisting, rfl⟩ := Option.map_eq_some_iff.1 hlookup
      rw [hholds, Option.some.injEq] at hget
      rw [← hget] at hpositional
      obtain ⟨closed, made, next, hclosed, hmade, hnext, hrepresents⟩ :=
        hinvalid.promote rfl hslot hexisting hpositional hscan value
      simp only [hexisting, hclosed, hmade, hnext, Option.bind_some]
      refine ⟨next, rfl, ?_⟩
      show Represents hash next (entries.modify place.1 fun entry => .inr (entry.key, value))
      rw [modify_of_getElem? hholds]
      exact hrepresents
    | none =>
      change (entries ++ [Sum.inr (key, value)]).length ≤ 2 ^ 31 at hroom
      rw [List.length_append, List.length_singleton] at hroom
      obtain ⟨made, next, hmade, hnext, hrepresents⟩ := hinvalid.appendPair rfl hroom hscan value
      simp only [hmade, hnext, Option.bind_some]
      exact ⟨next, rfl, hrepresents⟩
  · rw [hfind]
    simp only [hscan, hpair, Option.bind_eq_bind, Option.bind_some, ListSpec.pairValue, hentry]
    refine ⟨_, rfl, ?_⟩
    rw [modify_of_getElem? hentry]
    exact hinvalid.setPair rfl hslot hpair value

/-- The place of an association in the order. -/
theorem Settled.findAssociation (h : Settled hash list slots entries)
    (hslot : slots[place]? = some (.inr position)) :
    (list.order.findIdx? fun entry => entry.associativeIndex == some position) = some place := by
  have hsome (entry : ListOrder) (hentry : entry ∈ list.order) :
      (entry.associativeIndex == some position) = decide (entry.slot = .inr position) := by
    rw [Bool.eq_iff_iff, beq_iff_eq, decide_eq_true_eq]
    exact associativeIndex_eq (h.order.1 entry hentry)
  obtain ⟨hlt, hget⟩ := List.getElem?_eq_some_iff.1 hslot
  have hlt' : place < list.order.length := by rwa [h.order.length_eq]
  have hat (k : Nat) (hk : k < list.order.length) (hs : k < slots.length) :
      list.order[k].slot = slots[k] := by
    have hmap := h.order.2
    subst hmap
    rw [List.getElem_map]
  refine List.findIdx?_eq_some_iff_getElem.2 ⟨hlt', ?_, fun k hk => ?_⟩
  · rw [hsome _ (List.getElem_mem _), decide_eq_true_eq, hat place hlt' hlt, hget]
  · rw [hsome _ (List.getElem_mem _), decide_eq_true_eq, hat k (by omega) (by omega), ← hget]
    intro heq
    have hsame := (List.Nodup.getElem_inj_iff h.holds.nodup).1 heq
    omega

theorem removeKey_spec (h : Represents hash list entries) (key : Value) :
    ∃ next, list.removeKey hash key = some (next, (ListSpec.removeKey entries key).2) ∧
      Represents hash next (ListSpec.removeKey entries key).1 := by
  obtain ⟨settled, slots, hmaterialize, hsettled, -, -⟩ := materializePrefix_spec h
  have hinvalid := hsettled.invalidate
  rw [DmList.removeKey, hmaterialize, Option.bind_eq_bind, Option.bind_some, ListSpec.removeKey]
  rcases hinvalid.scan key with ⟨hscan, hfind⟩ |
    ⟨position, place, pair, hscan, hfind, hslot, hpair, hentry⟩
  · simp only [hscan, hfind]
    exact ⟨_, rfl, hinvalid.represents rfl⟩
  · have hpools := hinvalid.positional_le
    have hbound := hinvalid.bound
    obtain ⟨closed, hclosed, hclosedAre⟩ :=
      (hinvalid.order.eraseIdx place).closeAssociative position
    obtain ⟨index, hrebuild, hindex⟩ := @rebuildAssociativeIndex_spec hash
      { settled.invalidatePositionalRemoveIndex with
        associative := settled.invalidatePositionalRemoveIndex.associative.eraseIdx position
        order := closed }
      (Nat.le_trans (List.length_eraseIdx_le ..) (by omega))
    simp only [hscan, hfind, hinvalid.findAssociation hslot, hpair, hclosed, hrebuild,
      Option.bind_eq_bind, Option.bind_some, ListSpec.pairValue, hentry]
    refine ⟨_, rfl, Settled.represents ⟨hinvalid.head, hclosedAre, hinvalid.holds.eraseRight hslot,
      hinvalid.distinct.eraseIdx position, hindex, ?_⟩ rfl⟩
    show closed.length ≤ 2 ^ 31
    rw [hclosedAre.length_eq, List.length_map, ← (hinvalid.order.eraseIdx place).length_eq]
    exact Nat.le_trans (List.length_eraseIdx_le ..) hbound

end Dream64
