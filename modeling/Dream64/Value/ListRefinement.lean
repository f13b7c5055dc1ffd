import Dream64.Value.AssociativeIndex
import Dream64.Value.ListSpec

/-!
# What a list holds

A list is settled when nothing of its front is cut off: its order of slots
holds the entries in the two vectors. A list that is used as a queue has only
values, in their own order, and a front that is gone. The operations that take
a single entry are those of the sequence.
-/

namespace Dream64

open DmList Pools ListOrder

variable {hash : SemanticKey → Nat} {list : DmList} {entries : List Entry} {slots : List Slot}

/-- A list without a removed prefix, and the slots of its order. -/
structure Settled (hash : SemanticKey → Nat) (list : DmList) (slots : List Slot)
    (entries : List Entry) : Prop where
  head : list.prefixHead = 0
  order : Are list.order slots
  holds : Holds slots list.positional list.associative entries
  distinct : Distinct list.associative
  index : IndexOf hash list.associativeIndex list.associative
  bound : list.order.length ≤ 2 ^ 31

/-- A list of values in their own order. -/
structure Queued (list : DmList) (entries : List Entry) : Prop where
  associative : list.associative = []
  index : list.associativeIndex = none
  order : Are list.order ((List.range list.positional.length).map .inl)
  head : list.prefixHead ≤ list.positional.length
  entries : entries = (list.positional.drop list.prefixHead).map .inl
  bound : list.order.length ≤ 2 ^ 31

/-- The values that are left of those a remove index was built for, with the places they had. The
tree counts those that are gone. -/
structure Removable (list : DmList) (index : PositionalRemoveIndex)
    (alive : List (Nat × Value)) (count : Nat → Nat) : Prop where
  head : list.prefixHead = 0
  associative : list.associative = []
  order : Are list.order ((List.range list.positional.length).map .inl)
  positional : alive.map (·.2) = list.positional
  sorted : alive.Pairwise fun a b => a.1 < b.1
  inside : ∀ entry ∈ alive, entry.1 + 1 < index.removed.length
  word : index.removed.length ≤ 2 ^ 64
  positions : ∀ key, index.positions key =
    (alive.filter fun entry => semanticKey entry.2 = some key).map (·.1)
  counts : Fenwick.Counts index.removed count
  gone : ∀ place < index.removed.length,
    Finset.sum (Finset.Ioc 0 place) count + alive.countP (fun entry => entry.1 < place) = place

structure Represents (hash : SemanticKey → Nat) (list : DmList) (entries : List Entry) : Prop where
  storage : (∃ slots, Settled hash list slots entries) ∨ Queued list entries
  removable : ∀ index, list.positionalRemoveIndex = some index →
    ∃ alive count, Removable list index alive count

theorem Settled.length_eq (h : Settled hash list slots entries) :
    list.order.length = entries.length := by
  rw [h.order.length_eq, h.holds.length_eq]

theorem Settled.positional_le (h : Settled hash list slots entries) :
    list.positional.length + list.associative.length = list.order.length := by
  rw [h.holds.length_add, h.order.length_eq]

theorem Settled.invalidate (h : Settled hash list slots entries) :
    Settled hash list.invalidatePositionalRemoveIndex slots entries :=
  ⟨h.head, h.order, h.holds, h.distinct, h.index, h.bound⟩

theorem Settled.represents (h : Settled hash list slots entries)
    (hnone : list.positionalRemoveIndex = none) : Represents hash list entries := by
  refine ⟨Or.inl ⟨slots, h⟩, fun index hsome => ?_⟩
  rw [hnone] at hsome
  cases hsome

theorem Queued.represents (h : Queued list entries) (hnone : list.positionalRemoveIndex = none) :
    Represents hash list entries := by
  refine ⟨Or.inr h, fun index hsome => ?_⟩
  rw [hnone] at hsome
  cases hsome

theorem Queued.length_eq (h : Queued list entries) :
    list.order.length = list.positional.length := by
  rw [h.order.length_eq, List.length_map, List.length_range]

theorem Queued.invalidate (h : Queued list entries) :
    Queued list.invalidatePositionalRemoveIndex entries :=
  ⟨h.associative, h.index, h.order, h.head, h.entries, h.bound⟩

/-- Values in their own order, and nothing is cut off. -/
theorem Queued.settled (h : Queued list entries) (hhead : list.prefixHead = 0) :
    Settled hash list ((List.range list.positional.length).map .inl) entries where
  head := hhead
  order := h.order
  holds := by
    rw [h.entries, h.associative, hhead, List.drop_zero]
    exact Holds.range list.positional
  distinct := by
    rw [h.associative]
    exact List.Pairwise.nil
  index := by
    rw [h.index]
    exact IndexOf.none hash _
  bound := h.bound

theorem Represents.bound (h : Represents hash list entries) : list.order.length ≤ 2 ^ 31 := by
  rcases h.storage with ⟨slots, hsettled⟩ | hqueued
  · exact hsettled.bound
  · exact hqueued.bound

theorem Represents.len_eq (h : Represents hash list entries) : list.len = entries.length := by
  rw [DmList.len]
  rcases h.storage with ⟨slots, hsettled⟩ | hqueued
  · rw [hsettled.head, hsettled.length_eq, Nat.sub_zero]
  · rw [hqueued.length_eq, hqueued.entries, List.length_map, List.length_drop]

/-- The live part of the order, slot by slot. -/
theorem Represents.view (h : Represents hash list entries) : ∃ slots, Are list.order slots ∧
    (slots.drop list.prefixHead).map (lookup list.positional list.associative) =
      entries.map some := by
  rcases h.storage with ⟨slots, hsettled⟩ | hqueued
  · refine ⟨slots, hsettled.order, ?_⟩
    rw [hsettled.head, List.drop_zero]
    exact hsettled.holds.lookups
  · refine ⟨_, hqueued.order, ?_⟩
    have hlookups := (Holds.range (β := Value × Value) list.positional).lookups
    rw [List.map_drop, hqueued.associative, hlookups, hqueued.entries, List.map_drop, List.map_drop]

theorem empty_represents : Represents hash DmList.empty [] := by
  refine Queued.represents ⟨rfl, rfl, ⟨fun entry hentry => ?_, rfl⟩, Nat.le_refl 0, rfl, ?_⟩ rfl
  · exact absurd hentry List.not_mem_nil
  · exact Nat.zero_le _

/-! ## Reading -/

theorem keyAt_eq (list : DmList) (entry : ListOrder) :
    list.keyAt entry = (lookup list.positional list.associative entry.slot).map Entry.key := by
  rw [DmList.keyAt]
  cases entry.slot with
  | inl position =>
    show _ = (list.positional[position]?.map Sum.inl).map Entry.key
    rw [Option.map_map]
    exact Option.map_id'.symm
  | inr association =>
    show _ = (list.associative[association]?.map Sum.inr).map Entry.key
    rw [Option.map_map]
    rfl

/-- Places whose slots hold some entries. -/
def OrderReads (list : DmList) (order : List ListOrder) (entries : List Entry) : Prop :=
  order.map (fun entry => lookup list.positional list.associative entry.slot) = entries.map some

theorem Represents.reads (h : Represents hash list entries) :
    OrderReads list (list.order.drop list.prefixHead) entries := by
  obtain ⟨slots, hare, hview⟩ := h.view
  rw [OrderReads, ← hview, ← (hare.drop list.prefixHead).2, List.map_map]
  rfl

theorem OrderReads.reverse {order : List ListOrder} (h : OrderReads list order entries) :
    OrderReads list order.reverse entries.reverse := by
  rw [OrderReads, List.map_reverse, List.map_reverse, h]

theorem OrderReads.findKey {order : List ListOrder} (h : OrderReads list order entries) (value : Value) :
    list.findKey value order = some (ListSpec.findFirst value entries) := by
  induction entries generalizing order with
  | nil =>
    rw [List.map_eq_nil_iff.1 h]
    rfl
  | cons entry entries ih =>
    obtain ⟨first, rest, rfl, hfirst, hrest⟩ := List.map_eq_cons_iff.1 h
    rw [DmList.findKey, keyAt_eq, hfirst, Option.map_some, Option.bind_eq_bind, Option.bind_some,
      ih hrest, ListSpec.findFirst, ListSpec.findFirst, List.findIdx?_cons]
    split <;> rfl

/-- The entry at a place of the order. -/
theorem Settled.slot_at (h : Settled hash list slots entries) {place : Nat}
    (hplace : place < entries.length) : ∃ entry slot, list.order[place]? = some entry ∧
      entry.Is slot ∧ slots[place]? = some slot ∧
        lookup list.positional list.associative slot = entries[place]? := by
  have hlt : place < slots.length := by rwa [h.holds.length_eq]
  have hslot := List.getElem?_eq_getElem hlt
  obtain ⟨entry, hentry, his⟩ := h.order.getElem? hslot
  obtain ⟨found, hfound, hlookup⟩ := h.holds.lookup_of_slot hslot
  exact ⟨entry, _, hentry, his, hslot, hlookup.trans hfound.symm⟩

theorem checkedIndex_ok {index len place : Nat} (h : checkedIndex index len = .ok place) :
    place < len ∧ index = place + 1 := by
  rw [checkedIndex] at h
  split at h
  · cases h
  · split at h
    · cases h
    · cases h
      omega

theorem checkedIndex_succ {place len : Nat} (h : place < len) :
    checkedIndex (place + 1) len = .ok place := by
  rw [checkedIndex, if_neg (Nat.succ_ne_zero _), if_neg (by omega), Nat.add_sub_cancel]

theorem checkedBoundary_ok {index len place : Nat} (h : checkedBoundary index len = .ok place) :
    place ≤ len ∧ index = place + 1 := by
  rw [checkedBoundary] at h
  split at h
  · cases h
  · split at h
    · cases h
    · cases h
      omega

/-! ## The removed prefix -/

theorem mapM_pred {values : List Value} {head : Nat} {order : List ListOrder}
    (h : Are order ((List.range' head values.length).map .inl)) :
    ∃ made, order.mapM (fun entry => do
      let index ← entry.positionalIndex
      let index ← checkedSub index head
      ListOrder.positional index) = some made ∧
        Are made ((List.range values.length).map .inl) := by
  have hmade := h.mapM (f := fun entry => do
      let index ← entry.positionalIndex
      let index ← checkedSub index head
      ListOrder.positional index)
    (g := fun slot => slot.map (· - head) id) fun entry hentry => ?_
  · rw [List.map_map] at hmade
    obtain ⟨made, hmapM, hare⟩ := hmade
    refine ⟨made, hmapM, ?_⟩
    rw [List.range'_eq_map_range, List.map_map] at hare
    have heq : (List.range values.length).map ((Sum.map (· - head) id ∘ Sum.inl) ∘ (head + ·)) =
        (List.range values.length).map (Sum.inl : Nat → Slot) := by
      refine List.map_congr_left fun index _ => ?_
      show Sum.inl (head + index - head) = _
      rw [Nat.add_sub_cancel_left]
    rwa [heq] at hare
  · have hmem : entry.slot ∈ (List.range' head values.length).map Sum.inl := by
      rw [← h.2]
      exact List.mem_map_of_mem hentry
    obtain ⟨position, hposition, hslot⟩ := List.mem_map.1 hmem
    have hle := (List.mem_range'_1.1 hposition).1
    have hlt := (slot_lt_bound (h.1 entry hentry)).1 position hslot.symm
    rw [(positionalIndex_eq (h.1 entry hentry)).2 hslot.symm]
    show ∃ made, ((checkedSub position head).bind ListOrder.positional) = some made ∧ _
    rw [checkedSub, if_pos hle, ← hslot]
    exact positional_is (by omega)

theorem materializePrefix_spec (h : Represents hash list entries) :
    ∃ next slots, list.materializePrefix = some next ∧ Settled hash next slots entries ∧
      next.positionalRemoveIndex = list.positionalRemoveIndex ∧ Represents hash next entries := by
  rw [DmList.materializePrefix]
  split
  · rename_i hhead
    rcases h.storage with ⟨slots, hsettled⟩ | hqueued
    · exact ⟨list, slots, rfl, hsettled, rfl, h⟩
    · exact ⟨list, _, rfl, hqueued.settled hhead, rfl, h⟩
  · rename_i hhead
    rcases h.storage with ⟨slots, hsettled⟩ | hqueued
    · exact absurd hsettled.head hhead
    · have hlength := hqueued.length_eq
      have hle := hqueued.head
      have hdrop := hqueued.order.drop list.prefixHead
      rw [← List.map_drop, List.range_eq_range', List.drop_range', Nat.zero_add,
        Nat.mul_one] at hdrop
      obtain ⟨made, hmade, hare⟩ := @mapM_pred (list.positional.drop list.prefixHead) _ _
        (by rwa [List.length_drop])
      have hnone : list.positionalRemoveIndex = none := by
        by_contra hsome
        obtain ⟨index, hindex⟩ := Option.ne_none_iff_exists'.1 hsome
        obtain ⟨alive, count, hremovable⟩ := h.removable index hindex
        exact hhead hremovable.head
      have hnext : Queued { list with
          positional := list.positional.drop list.prefixHead
          order := made
          prefixHead := 0 } entries := by
        refine ⟨hqueued.associative, hqueued.index, hare, Nat.zero_le _, hqueued.entries, ?_⟩
        show made.length ≤ 2 ^ 31
        have hbound := hqueued.bound
        rw [hare.length_eq, List.length_map, List.length_range, List.length_drop]
        omega
      rw [if_neg (by omega), hmade]
      exact ⟨_, _, rfl, hnext.settled rfl, rfl, hnext.represents hnone⟩

/-! ## Adding and replacing -/

theorem extendPositional_spec (h : Represents hash list entries) {values : List Value}
    (hroom : list.order.length + values.length ≤ 2 ^ 31) : ∃ next,
      list.extendPositional values = some (next, entries.length + values.length) ∧
        Represents hash next (entries ++ values.map .inl) ∧
          next.order.length = list.order.length + values.length ∧
            next.prefixHead = list.prefixHead := by
  have hpositional : list.positional.length ≤ list.order.length := by
    rcases h.storage with ⟨slots, hsettled⟩ | hqueued
    · have hpools := hsettled.positional_le
      omega
    · exact hqueued.length_eq.ge
  obtain ⟨made, hmade, hare⟩ := 
    @ListOrder.are_range' list.positional.length values.length (by omega)
  have hlength : made.length = values.length := by
    rw [hare.length_eq, List.length_map, List.length_range']
  have hnext : Represents hash { list.invalidatePositionalRemoveIndex with
      order := list.order ++ made
      positional := list.positional ++ values } (entries ++ values.map .inl) := by
    rcases h.storage with ⟨slots, hsettled⟩ | hqueued
    · refine Settled.represents ⟨hsettled.head, hsettled.order.append hare,
        hsettled.holds.extend values, hsettled.distinct, hsettled.index, ?_⟩ rfl
      rw [List.length_append, hlength]
      exact hroom
    · refine Queued.represents ⟨hqueued.associative, hqueued.index, ?_, ?_, ?_, ?_⟩ rfl
      · have happend := hqueued.order.append hare
        have hrange := List.range'_append_1 (s := 0) (m := list.positional.length)
          (n := values.length)
        rw [Nat.zero_add] at hrange
        rwa [← List.map_append, List.range_eq_range', hrange, ← List.range_eq_range',
          ← List.length_append] at happend
      · show list.prefixHead ≤ (list.positional ++ values).length
        have hhead := hqueued.head
        rw [List.length_append]
        omega
      · show _ = ((list.positional ++ values).drop list.prefixHead).map Sum.inl
        rw [List.drop_append_of_le_length hqueued.head, List.map_append, hqueued.entries]
      · rw [List.length_append, hlength]
        exact hroom
  refine ⟨_, ?_, hnext, by rw [List.length_append, hlength], rfl⟩
  have hlen := hnext.len_eq
  rw [List.length_append, List.length_map] at hlen
  rw [DmList.extendPositional, hmade, ← hlen]
  rfl

theorem add_eq_extendPositional (list : DmList) (value : Value) :
    list.add value = list.extendPositional [value] := by
  rw [DmList.add, DmList.extendPositional, List.length_singleton, List.range'_one, List.mapM_cons,
    List.mapM_nil]
  cases ListOrder.positional list.positional.length <;> rfl

theorem add_spec (h : Represents hash list entries) (hroom : list.order.length + 1 ≤ 2 ^ 31)
    (value : Value) : ∃ next, list.add value = some (next, entries.length + 1) ∧
      Represents hash next (entries ++ [.inl value]) ∧
        next.order.length = list.order.length + 1 ∧ next.prefixHead = list.prefixHead := by
  rw [add_eq_extendPositional]
  exact @extendPositional_spec _ _ _ h [value] hroom

theorem insert_spec (h : Represents hash list entries) (index : Nat) (value : Value)
    (hroom : (ListSpec.insert entries index value).1.length ≤ 2 ^ 31) :
    ∃ next, list.insert index value = some (next, (ListSpec.insert entries index value).2) ∧
      Represents hash next (ListSpec.insert entries index value).1 := by
  obtain ⟨settled, slots, hmaterialize, hsettled, -, hrepresents⟩ := materializePrefix_spec h
  rw [DmList.insert, hmaterialize, Option.bind_eq_bind, Option.bind_some, hsettled.length_eq]
  rw [ListSpec.insert] at hroom ⊢
  cases hcheck : checkedBoundary index entries.length with
  | error error => exact ⟨settled, rfl, hrepresents⟩
  | ok place =>
    obtain ⟨hplace, -⟩ := checkedBoundary_ok hcheck
    rw [hcheck] at hroom
    change (entries.insertIdx place (Sum.inl value)).length ≤ 2 ^ 31 at hroom
    rw [List.length_insertIdx_of_le_length hplace] at hroom
    have hpools := hsettled.positional_le
    have hlength := hsettled.length_eq
    obtain ⟨made, hmade, his⟩ :=
      positional_is (show settled.positional.length < 2 ^ 31 by omega)
    have hle : place ≤ slots.length := by rwa [hsettled.holds.length_eq]
    simp only [hmade, Option.bind_eq_bind, Option.bind_some]
    refine ⟨_, rfl, Settled.represents ⟨hsettled.head, hsettled.order.insertIdx place his,
      hsettled.holds.insertLeft value hle, hsettled.distinct, hsettled.index, ?_⟩ rfl⟩
    show (settled.order.insertIdx place made).length ≤ 2 ^ 31
    rw [List.length_insertIdx_of_le_length (by omega)]
    omega

theorem keyAt_spec {place : Nat} {entry : Entry} (h : entries[place]? = some entry) :
    ListSpec.keyAt entries place = .ok entry.key := by
  rw [ListSpec.keyAt, h]
  rfl

theorem Distinct.eraseIdx {associative : List (Value × Value)} (h : Distinct associative)
    (k : Nat) : Distinct (associative.eraseIdx k) :=
  List.Pairwise.sublist (List.eraseIdx_sublist associative k) h

theorem Settled.set (h : Settled hash list slots entries) {place : Nat}
    (hplace : place < entries.length) (value : Value) :
    ∃ next, list.set hash (place + 1) value = some (next, ListSpec.keyAt entries place) ∧
      Represents hash next (entries.set place (.inl value)) := by
  have hget := List.getElem?_eq_getElem hplace
  have hlen : list.len = entries.length := by
    rw [DmList.len, h.head, h.length_eq, Nat.sub_zero]
  obtain ⟨entry, slot, hentry, ⟨hbits, his⟩, hslot, hlookup⟩ := h.slot_at hplace
  rw [hget] at hlookup
  rw [DmList.set, hlen, checkedIndex_succ hplace, keyAt_spec hget]
  simp only [h.head, Nat.add_zero, hentry, Option.bind_eq_bind, Option.bind_some, his]
  cases slot with
  | inl position =>
    obtain ⟨previous, hprevious, heq⟩ := Option.map_eq_some_iff.1 hlookup
    simp only [hprevious, Option.bind_some]
    rw [← heq]
    refine ⟨_, rfl, Settled.represents ⟨h.head, h.order, h.holds.setLeft hslot value, h.distinct,
      h.index, h.bound⟩ rfl⟩
  | inr association =>
    obtain ⟨previous, hprevious, heq⟩ := Option.map_eq_some_iff.1 hlookup
    obtain ⟨closed, hclosed, hclosedAre⟩ := h.order.closeAssociative association
    have hpools := h.positional_le
    have hassociation := (List.getElem?_eq_some_iff.1 hprevious).1
    have hbound := h.bound
    obtain ⟨made, hmade, hmadeIs⟩ := positional_is (show list.positional.length < 2 ^ 31 by omega)
    obtain ⟨index, hrebuild, hindex⟩ := @rebuildAssociativeIndex_spec hash
      { list.invalidatePositionalRemoveIndex with
        associative := list.associative.eraseIdx association
        positional := list.positional ++ [value]
        order := closed.set place made }
      (show (list.associative.eraseIdx association).length ≤ 2 ^ 31 by
        rw [List.length_eraseIdx_of_lt hassociation]
        omega)
    simp only [hprevious, Option.bind_some, hclosed, hmade, hrebuild]
    rw [← heq]
    refine ⟨_, rfl, Settled.represents ⟨h.head, hclosedAre.set place hmadeIs,
      h.holds.moveLeft hslot value, h.distinct.eraseIdx association, hindex, ?_⟩ rfl⟩
    show (closed.set place made).length ≤ 2 ^ 31
    rw [List.length_set, hclosedAre.length_eq, List.length_map, ← h.order.length_eq]
    exact hbound

theorem Queued.set (h : Queued list entries) {place : Nat} (hplace : place < entries.length)
    (value : Value) :
    ∃ next, list.set hash (place + 1) value = some (next, ListSpec.keyAt entries place) ∧
      Represents hash next (entries.set place (.inl value)) := by
  have hlength := h.length_eq
  have hentries := h.entries
  have hlen : list.len = entries.length := by
    rw [DmList.len, hlength, hentries, List.length_map, List.length_drop]
  have hlt : place + list.prefixHead < list.positional.length := by
    rw [hentries, List.length_map, List.length_drop] at hplace
    omega
  have hslot : ((List.range list.positional.length).map (Sum.inl : Nat → Slot))[place +
      list.prefixHead]? = some (.inl (place + list.prefixHead)) := by
    rw [List.getElem?_map, List.getElem?_range hlt]
    rfl
  obtain ⟨entry, hentry, -, his⟩ := h.order.getElem? hslot
  have hprevious := List.getElem?_eq_getElem hlt
  have hold : entries[place]? = some (.inl list.positional[place + list.prefixHead]) := by
    rw [hentries, List.getElem?_map, List.getElem?_drop, Nat.add_comm, hprevious]
    rfl
  rw [DmList.set, hlen, checkedIndex_succ hplace, keyAt_spec hold]
  simp only [hentry, Option.bind_eq_bind, Option.bind_some, his, hprevious]
  refine ⟨_, rfl, Queued.represents ⟨h.associative, h.index, ?_, ?_, ?_, h.bound⟩ rfl⟩
  · rw [List.length_set]
    exact h.order
  · rw [List.length_set]
    exact h.head
  · show entries.set place (Sum.inl value) = _
    rw [hentries, ← List.map_set, List.set_drop, Nat.add_comm]
    rfl

theorem set_spec (h : Represents hash list entries) (index : Nat) (value : Value) :
    ∃ next, list.set hash index value = some (next, (ListSpec.set entries index value).2) ∧
      Represents hash next (ListSpec.set entries index value).1 := by
  rw [ListSpec.set]
  cases hcheck : checkedIndex index entries.length with
  | error error =>
    refine ⟨list, ?_, h⟩
    rw [DmList.set, h.len_eq, hcheck]
  | ok place =>
    obtain ⟨hplace, rfl⟩ := checkedIndex_ok hcheck
    rcases h.storage with ⟨slots, hsettled⟩ | hqueued
    · exact hsettled.set hplace value
    · exact hqueued.set hplace value

/-! ## Removing one entry -/

theorem remove_spec (h : Represents hash list entries) (index : Nat) :
    ∃ next, list.remove hash index = some (next, (ListSpec.remove entries index).2) ∧
      Represents hash next (ListSpec.remove entries index).1 := by
  obtain ⟨settled, slots, hmaterialize, hsettled, -, -⟩ := materializePrefix_spec h
  have hinvalid := hsettled.invalidate
  rw [DmList.remove, hmaterialize, Option.bind_eq_bind, Option.bind_some, ListSpec.remove]
  simp only [hinvalid.length_eq]
  cases hcheck : checkedIndex index entries.length with
  | error error => exact ⟨_, rfl, hinvalid.represents rfl⟩
  | ok place =>
    obtain ⟨hplace, -⟩ := checkedIndex_ok hcheck
    have hget := List.getElem?_eq_getElem hplace
    obtain ⟨entry, slot, hentry, ⟨hbits, his⟩, hslot, hlookup⟩ := hinvalid.slot_at hplace
    rw [hget] at hlookup
    simp only [hentry, Option.bind_eq_bind, Option.bind_some, his, keyAt_spec hget]
    have hbound := hinvalid.bound
    have herased := hinvalid.order.eraseIdx place
    have hshort : (slots.eraseIdx place).length ≤ 2 ^ 31 := by
      rw [← herased.length_eq]
      exact Nat.le_trans (List.length_eraseIdx_le ..) hbound
    cases slot with
    | inl position =>
      obtain ⟨value, hvalue, heq⟩ := Option.map_eq_some_iff.1 hlookup
      obtain ⟨closed, hclosed, hclosedAre⟩ := herased.closePositional position
      simp only [hclosed, hvalue, Option.bind_some]
      rw [← heq]
      refine ⟨_, rfl, Settled.represents ⟨hinvalid.head, hclosedAre, hinvalid.holds.eraseLeft hslot,
        hinvalid.distinct, hinvalid.index, ?_⟩ rfl⟩
      show closed.length ≤ 2 ^ 31
      rwa [hclosedAre.length_eq, List.length_map]
    | inr association =>
      obtain ⟨pair, hpair, heq⟩ := Option.map_eq_some_iff.1 hlookup
      obtain ⟨closed, hclosed, hclosedAre⟩ := herased.closeAssociative association
      have hpools := hinvalid.positional_le
      obtain ⟨index, hrebuild, hindex⟩ := @rebuildAssociativeIndex_spec hash
        { settled.invalidatePositionalRemoveIndex with
          order := closed
          associative := settled.invalidatePositionalRemoveIndex.associative.eraseIdx association }
        (Nat.le_trans (List.length_eraseIdx_le ..) (by omega))
      simp only [hpair, Option.bind_some, hclosed, hrebuild]
      rw [← heq]
      refine ⟨_, rfl, Settled.represents ⟨hinvalid.head, hclosedAre,
        hinvalid.holds.eraseRight hslot, hinvalid.distinct.eraseIdx association, hindex, ?_⟩ rfl⟩
      show closed.length ≤ 2 ^ 31
      rwa [hclosedAre.length_eq, List.length_map]

/-- `remove(..).ok()` at a place that is there. -/
theorem removeFound_spec (h : Represents hash list entries) {place : Nat}
    (hplace : place < entries.length) :
    ∃ next, list.removeFound hash (place + 1) =
        some (next, (ListSpec.removeFound entries (some place)).2) ∧
      Represents hash next (ListSpec.removeFound entries (some place)).1 := by
  have hget := List.getElem?_eq_getElem hplace
  obtain ⟨next, hnext, hrepresents⟩ := remove_spec h (place + 1)
  rw [ListSpec.remove, checkedIndex_succ hplace] at hnext hrepresents
  refine ⟨next, ?_, hrepresents⟩
  rw [DmList.removeFound, hnext, ListSpec.removeFound, hget]
  show some (next, (ListSpec.keyAt entries place).toOption) = _
  rw [keyAt_spec hget]
  rfl

theorem removeFirst_spec (h : Represents hash list entries) (value : Value) :
    ∃ next, list.removeFirst hash value = some (next,
        (ListSpec.removeFound entries (ListSpec.findFirst value entries)).2) ∧
      Represents hash next
        (ListSpec.removeFound entries (ListSpec.findFirst value entries)).1 := by
  rw [DmList.removeFirst, h.reads.findKey value]
  cases hfound : ListSpec.findFirst value entries with
  | none => exact ⟨list, rfl, h⟩
  | some place =>
    have hplace := (List.findIdx?_eq_some_iff_getElem.1 hfound).1
    exact removeFound_spec h hplace

theorem swap_spec (h : Represents hash list entries) (first second : Nat) :
    ∃ next, list.swap first second = some (next, (ListSpec.swap entries first second).2) ∧
      Represents hash next (ListSpec.swap entries first second).1 := by
  obtain ⟨settled, slots, hmaterialize, hsettled, -, hrepresents⟩ := materializePrefix_spec h
  rw [DmList.swap, hmaterialize, Option.bind_eq_bind, Option.bind_some, hsettled.length_eq,
    ListSpec.swap]
  cases hfirst : checkedIndex first entries.length with
  | error error => exact ⟨settled, rfl, hrepresents⟩
  | ok i =>
    cases hsecond : checkedIndex second entries.length with
    | error error => exact ⟨settled, rfl, hrepresents⟩
    | ok j =>
      have hi := (checkedIndex_ok hfirst).1
      have hj := (checkedIndex_ok hsecond).1
      have hx := List.getElem?_eq_getElem hi
      have hy := List.getElem?_eq_getElem hj
      obtain ⟨one, slot, hone, honeIs, hslot, -⟩ := hsettled.slot_at hi
      obtain ⟨other, slot', hother, hotherIs, hslot', -⟩ := hsettled.slot_at hj
      simp only [hone, hother, hx, hy, Option.bind_eq_bind, Option.bind_some]
      refine ⟨_, rfl, Settled.represents ⟨hsettled.head, (hsettled.order.set i hotherIs).set j honeIs,
        hsettled.holds.exchange hslot hslot' hx hy, hsettled.distinct, hsettled.index, ?_⟩ rfl⟩
      show ((settled.order.set i other).set j one).length ≤ 2 ^ 31
      rw [List.length_set, List.length_set]
      exact hsettled.bound

end Dream64
