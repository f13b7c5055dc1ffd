import Dream64.Value.ListRemovals

/-!
# Reading a whole list

The keys of a list in order, the value of a key and whether a key is there are
what the sequence says, and the loop around `remove_last` leaves the entries
that are not equal to its value.
-/

namespace Dream64

open DmList Pools ListOrder

variable {hash : SemanticKey → Nat} {list next : DmList} {entries : List Entry} {slots : List Slot}

namespace DmList

/-- The keys in order. -/
def positions (list : DmList) : Option (List Value) :=
  (list.order.drop list.prefixHead).mapM list.keyAt

/-- The loop around `remove_last`. Every turn but the last one takes an entry of the order. -/
def removeAll (hash : SemanticKey → Nat) (value : Value) :
    Nat → DmList → Option (DmList × Nat)
  | 0, _ => none
  | turns + 1, list => do
    let (list, removed) ← list.removeLast hash value
    match removed with
    | none => some (list, 0)
    | some _ => do
      let (list, count) ← removeAll hash value turns list
      some (list, count + 1)

end DmList

namespace ListSpec

/-- The value of the first association of a key. -/
def associated (entries : List Entry) (key : Value) : Option Value :=
  (entries.findIdx? (isAssociation key)).bind (pairValue entries)

def contains (entries : List Entry) (value : Value) : Bool :=
  entries.any fun entry => entry.key.semanticEq value

def removeAll (entries : List Entry) (value : Value) : List Entry :=
  entries.filter fun entry => !entry.key.semanticEq value

end ListSpec

/-! ## Reads -/

theorem OrderReads.mapM_keyAt {order : List ListOrder} (h : OrderReads list order entries) :
    order.mapM list.keyAt = some (entries.map Entry.key) := by
  induction entries generalizing order with
  | nil =>
    rw [List.map_eq_nil_iff.1 h]
    rfl
  | cons entry entries ih =>
    obtain ⟨first, rest, rfl, hfirst, hrest⟩ := List.map_eq_cons_iff.1 h
    rw [List.mapM_cons, keyAt_eq, hfirst, Option.map_some, Option.bind_eq_bind, Option.bind_some,
      ih hrest]
    rfl

section

variable (h : Represents hash list entries)

include h

theorem positions_spec : list.positions = some (entries.map Entry.key) := h.reads.mapM_keyAt

/-- The position of a key among the associations, and its place in the sequence. -/
theorem Represents.scan (key : Value) : (list.associationPositionForKey hash key = none ∧
      entries.findIdx? (ListSpec.isAssociation key) = none) ∨
    ∃ position place pair, list.associationPositionForKey hash key = some position ∧
      entries.findIdx? (ListSpec.isAssociation key) = some place ∧
      list.associative[position]? = some pair ∧ entries[place]? = some (.inr pair) := by
  rcases h.storage with ⟨slots, hsettled⟩ | hqueued
  · rw [associationPositionForKey_eq hsettled.index hsettled.distinct]
    rcases hsettled.scan key with hnone | ⟨position, place, pair, hscan, hfind, -, hpair, hentry⟩
    · exact Or.inl hnone
    · exact Or.inr ⟨position, place, pair, hscan, hfind, hpair, hentry⟩
  · refine Or.inl ⟨?_, ?_⟩
    · rw [associationPositionForKey, hqueued.index, DmList.scanAssociations, hqueued.associative]
      rfl
    · rw [hqueued.entries, List.findIdx?_eq_none_iff]
      intro entry hentry
      obtain ⟨value, -, rfl⟩ := List.mem_map.1 hentry
      rfl

theorem getKey_spec (key : Value) :
    (list.getKey hash key).toOption = ListSpec.associated entries key := by
  rw [DmList.getKey, ListSpec.associated]
  rcases h.scan key with ⟨hnone, hfind⟩ | ⟨position, place, pair, hposition, hfind, hpair, hentry⟩
  · rw [hnone, hfind]
    rfl
  · rw [hposition, hfind, Option.bind_some, Option.bind_some, hpair, ListSpec.pairValue, hentry]
    rfl

/-- The values that are not keys. -/
theorem Represents.mem_positional (value : Value) :
    value ∈ list.positional.drop list.prefixHead ↔ .inl value ∈ entries := by
  rcases h.storage with ⟨slots, hsettled⟩ | hqueued
  · rw [hsettled.head, List.drop_zero]
    constructor
    · intro hmem
      obtain ⟨position, hposition⟩ := List.mem_iff_getElem?.1 hmem
      have hslot := hsettled.holds.left_mem position (List.getElem?_eq_some_iff.1 hposition).1
      obtain ⟨entry, hentry, hlookup⟩ := hsettled.holds.lookup_of_mem hslot
      rw [lookup, hposition, Option.map_some, Option.some.injEq] at hlookup
      rwa [hlookup]
    · intro hmem
      obtain ⟨place, hplace⟩ := List.mem_iff_getElem?.1 hmem
      obtain ⟨entry, slot, -, -, -, hlookup⟩ :=
        hsettled.slot_at (List.getElem?_eq_some_iff.1 hplace).1
      rw [hplace] at hlookup
      cases slot with
      | inl position =>
        obtain ⟨found, hfound, heq⟩ := Option.map_eq_some_iff.1 hlookup
        rw [Sum.inl.injEq] at heq
        exact heq ▸ List.mem_of_getElem? hfound
      | inr position =>
        obtain ⟨found, -, heq⟩ := Option.map_eq_some_iff.1 hlookup
        cases heq
  · rw [hqueued.entries, List.mem_map]
    constructor
    · exact fun hmem => ⟨value, hmem, rfl⟩
    · rintro ⟨other, hmem, heq⟩
      rw [Sum.inl.injEq] at heq
      rwa [← heq]

theorem contains_spec (value : Value) :
    list.contains hash value = ListSpec.contains entries value := by
  rw [DmList.contains, ListSpec.contains, Bool.eq_iff_iff, Bool.or_eq_true, List.any_eq_true,
    List.any_eq_true]
  constructor
  · rintro (hassociation | ⟨candidate, hmem, heq⟩)
    · rcases h.scan value with ⟨hnone, -⟩ | ⟨position, place, pair, -, hfind, -, hentry⟩
      · rw [hnone] at hassociation
        cases hassociation
      · obtain ⟨hplace, hkey, -⟩ := List.findIdx?_eq_some_iff_getElem.1 hfind
        have hget := (List.getElem?_eq_some_iff.1 hentry).2
        rw [hget] at hkey
        exact ⟨_, List.mem_of_getElem? hentry, hkey⟩
    · exact ⟨_, (h.mem_positional candidate).1 hmem, heq⟩
  · rintro ⟨entry, hmem, heq⟩
    cases entry with
    | inl candidate => exact Or.inr ⟨candidate, (h.mem_positional candidate).2 hmem, heq⟩
    | inr pair =>
      refine Or.inl ?_
      rcases h.scan value with ⟨-, hfind⟩ | ⟨position, place, other, hposition, -, -, -⟩
      · have hnot := List.findIdx?_eq_none_iff.1 hfind _ hmem
        rw [ListSpec.isAssociation] at hnot
        rw [Entry.key, hnot] at heq
        cases heq
      · rw [hposition]
        rfl

end

/-! ## The removed prefix -/

theorem materializePrefix_head (h : list.materializePrefix = some next) : next.prefixHead = 0 := by
  rw [materializePrefix] at h
  split at h
  · rename_i hzero
    rw [Option.some.injEq] at h
    rwa [← h]
  · split at h
    · cases h
    · rw [Option.bind_eq_bind, Option.bind_eq_some_iff] at h
      obtain ⟨order, -, h⟩ := h
      rw [Option.some.injEq] at h
      rw [← h]

theorem remove_head {index : Nat} {result : Except ListError Value}
    (h : list.remove hash index = some (next, result)) : next.prefixHead = 0 := by
  rw [DmList.remove, Option.bind_eq_bind, Option.bind_eq_some_iff] at h
  obtain ⟨settled, hsettled, h⟩ := h
  have hhead := materializePrefix_head hsettled
  simp only at h
  split at h
  · rw [Option.some.injEq, Prod.mk.injEq] at h
    rwa [← h.1]
  · rw [Option.bind_eq_bind, Option.bind_eq_some_iff] at h
    obtain ⟨entry, -, h⟩ := h
    split at h
    · simp only [Option.bind_eq_bind, Option.bind_eq_some_iff] at h
      obtain ⟨order, -, value, -, h⟩ := h
      rw [Option.some.injEq, Prod.mk.injEq] at h
      rwa [← h.1]
    · simp only [Option.bind_eq_bind, Option.bind_eq_some_iff] at h
      obtain ⟨pair, -, order, -, rebuilt, hrebuilt, h⟩ := h
      rw [Option.some.injEq, Prod.mk.injEq] at h
      obtain ⟨index, hindex, -⟩ := rebuildAssociativeIndex_of_some hrebuilt
      rw [← h.1, hindex]
      exact hhead

theorem buildPositionalRemoveIndex_head (list : DmList) :
    list.buildPositionalRemoveIndex.prefixHead = list.prefixHead := by
  rw [DmList.buildPositionalRemoveIndex]
  split <;> rfl

theorem removeLast_head {value : Value} {result : Option Value}
    (h : list.removeLast hash value = some (next, result)) : next.prefixHead = 0 := by
  rw [DmList.removeLast, Option.bind_eq_bind, Option.bind_eq_some_iff] at h
  obtain ⟨settled, hsettled, h⟩ := h
  have hhead := (buildPositionalRemoveIndex_head settled).trans (materializePrefix_head hsettled)
  simp only at h
  split at h
  · split at h
    · rw [Option.some.injEq, Prod.mk.injEq] at h
      rwa [← h.1]
    · simp only [Option.bind_eq_bind, Option.bind_eq_some_iff] at h
      obtain ⟨before, -, current, -, removed, -, h⟩ := h
      rw [Option.some.injEq, Prod.mk.injEq] at h
      rwa [← h.1]
  · rw [Option.bind_eq_bind, Option.bind_eq_some_iff] at h
    obtain ⟨found, -, h⟩ := h
    split at h
    · rw [Option.some.injEq, Prod.mk.injEq] at h
      rwa [← h.1]
    · rw [DmList.removeFound, Option.bind_eq_bind, Option.bind_eq_some_iff] at h
      obtain ⟨⟨removed, value⟩, hremoved, h⟩ := h
      rw [Option.some.injEq, Prod.mk.injEq] at h
      rw [← h.1]
      exact remove_head hremoved

theorem indexLastAssociation_head (h : list.indexLastAssociation hash = some next) :
    next.prefixHead = list.prefixHead := by
  rw [DmList.indexLastAssociation] at h
  split at h
  · obtain ⟨index, rfl, -⟩ := rebuildAssociativeIndex_of_some h
    rfl
  · split at h
    · rw [Option.some.injEq] at h
      rw [h]
    · split at h
      · rw [Option.some.injEq] at h
        rw [h]
      · rw [Option.bind_eq_bind, Option.bind_eq_some_iff] at h
        obtain ⟨index, -, h⟩ := h
        rw [Option.some.injEq] at h
        rw [← h]

theorem setKey_head {key value : Value} {result : Option Value}
    (h : list.setKey hash key value = some (next, result)) : next.prefixHead = 0 := by
  rw [DmList.setKey, Option.bind_eq_bind, Option.bind_eq_some_iff] at h
  obtain ⟨settled, hsettled, h⟩ := h
  have hhead := materializePrefix_head hsettled
  simp only at h
  split at h
  · rw [Option.bind_eq_bind, Option.bind_eq_some_iff] at h
    obtain ⟨pair, -, h⟩ := h
    rw [Option.some.injEq, Prod.mk.injEq] at h
    rwa [← h.1]
  · rw [Option.bind_eq_bind, Option.bind_eq_some_iff] at h
    obtain ⟨found, -, h⟩ := h
    split at h
    · simp only [Option.bind_eq_bind, Option.bind_eq_some_iff] at h
      obtain ⟨existing, -, order, -, entry, -, indexed, hindexed, h⟩ := h
      rw [Option.some.injEq, Prod.mk.injEq] at h
      rw [← h.1, indexLastAssociation_head hindexed]
      exact hhead
    · simp only [Option.bind_eq_bind, Option.bind_eq_some_iff] at h
      obtain ⟨entry, -, indexed, hindexed, h⟩ := h
      rw [Option.some.injEq, Prod.mk.injEq] at h
      rw [← h.1, indexLastAssociation_head hindexed]
      exact hhead

/-! ## Removing all -/

theorem findLast_none {value : Value} (h : ListSpec.findLast value entries = none) :
    ListSpec.removeAll entries value = entries := by
  rw [ListSpec.findLast, Option.map_eq_none_iff, ListSpec.findFirst, List.findIdx?_eq_none_iff] at h
  refine List.filter_eq_self.2 fun entry hentry => ?_
  rw [h entry (List.mem_reverse.2 hentry)]
  rfl

theorem findLast_some {value : Value} {place : Nat}
    (h : ListSpec.findLast value entries = some place) : ∃ entry, entries[place]? = some entry ∧
      entry.key.semanticEq value = true := by
  rw [ListSpec.findLast, Option.map_eq_some_iff] at h
  obtain ⟨found, hfound, rfl⟩ := h
  obtain ⟨hlt, hkey, -⟩ := List.findIdx?_eq_some_iff_getElem.1 hfound
  rw [List.length_reverse] at hlt
  rw [List.getElem_reverse] at hkey
  exact ⟨_, List.getElem?_eq_getElem (by omega), hkey⟩

theorem removeAll_eraseIdx {value : Value} {place : Nat} {entry : Entry}
    (hentry : entries[place]? = some entry) (heq : entry.key.semanticEq value = true) :
    ListSpec.removeAll (entries.eraseIdx place) value = ListSpec.removeAll entries value := by
  induction entries generalizing place with
  | nil => rfl
  | cons first rest ih =>
    cases place with
    | zero =>
      rw [List.getElem?_cons_zero, Option.some.injEq] at hentry
      rw [List.eraseIdx_cons_zero, ListSpec.removeAll, ListSpec.removeAll,
        List.filter_cons_of_neg (by rw [hentry, heq]; decide)]
    | succ place =>
      rw [List.getElem?_cons_succ] at hentry
      rw [List.eraseIdx_cons_succ, ListSpec.removeAll, ListSpec.removeAll, List.filter_cons,
        List.filter_cons]
      have hrest := ih hentry
      rw [ListSpec.removeAll, ListSpec.removeAll] at hrest
      rw [hrest]

theorem removeAll_spec (h : Represents hash list entries) (value : Value) {turns : Nat}
    (hturns : entries.length < turns) : ∃ next count,
      list.removeAll hash value turns = some (next, count) ∧
        Represents hash next (ListSpec.removeAll entries value) ∧ next.prefixHead = 0 := by
  induction turns generalizing list entries with
  | zero => exact absurd hturns (Nat.not_lt_zero _)
  | succ turns ih =>
    obtain ⟨removed, hremoved, hrepresents⟩ := removeLast_spec h value
    have hhead := removeLast_head hremoved
    rw [DmList.removeAll, hremoved, Option.bind_eq_bind, Option.bind_some]
    cases hfind : ListSpec.findLast value entries with
    | none =>
      rw [hfind] at hrepresents
      refine ⟨removed, 0, rfl, ?_, hhead⟩
      rw [findLast_none hfind]
      exact hrepresents
    | some place =>
      rw [hfind] at hrepresents
      obtain ⟨entry, hentry, heq⟩ := findLast_some hfind
      have hplace := (List.getElem?_eq_some_iff.1 hentry).1
      have hlength := List.length_eraseIdx_of_lt hplace
      obtain ⟨last, count, hlast, hrest, hlastHead⟩ := ih hrepresents (by
        show (entries.eraseIdx place).length < turns
        omega)
      refine ⟨last, count + 1, ?_, ?_, hlastHead⟩
      · simp only [ListSpec.removeFound, hentry, Option.map_some, hlast, Option.bind_eq_bind,
          Option.bind_some]
      · rwa [← removeAll_eraseIdx hentry heq]

end Dream64
