import Dream64.Value.HeapReaders
import Dream64.Value.ListRefinement

/-!
# Restored heaps

A heap that is restored from the snapshot of another one has that snapshot
again. A list is restored entry by entry, and its order then reads the same
entries; the slots of an arena keep their generations, so the free list of the
snapshot is accepted.
-/

namespace Dream64

open Codec SlotIndex Pools

/-! ## Values and datums -/

mutual

theorem intoValue_ofValue : ∀ value : Value, (HeapSnapshotValue.ofValue value).intoValue = .ok value
  | .null | .number _ | .text _ | .file _ | .datum _ | .list _ => rfl
  | .typePath path => by
    rw [HeapSnapshotValue.ofValue, HeapSnapshotValue.intoValue, TypePath.parse, dif_pos path.valid]
    rfl
  | .modifiedTypePath base overrides => by
    rw [HeapSnapshotValue.ofValue, HeapSnapshotValue.intoValue, restoreOverrides_snapshot overrides,
      TypePath.parse, dif_pos base.valid]
    rfl

theorem restoreOverrides_snapshot : ∀ overrides : List (FieldName × Value),
    restoreOverrides (snapshotOverrides overrides) = .ok overrides
  | [] => rfl
  | entry :: overrides => by
    rw [snapshotOverrides, restoreOverrides, restoreOverride_snapshot entry,
      restoreOverrides_snapshot overrides]
    rfl

theorem restoreOverride_snapshot : ∀ entry : FieldName × Value,
    restoreOverride (snapshotOverride entry) = .ok entry
  | (name, value) => by
    rw [snapshotOverride, restoreOverride, FieldName.parse, dif_pos name.valid,
      intoValue_ofValue value]
    rfl

end

theorem mapM_map_ok {ε α β : Type} {f : β → Except ε α} {g : α → β} (h : ∀ a, f (g a) = .ok a)
    (values : List α) : (values.map g).mapM f = .ok values := by
  induction values with
  | nil => rfl
  | cons a values ih =>
    rw [List.map_cons, List.mapM_cons, h, ih]
    rfl

/-- The fields of a datum, each name with its value. -/
def DatumRecord.pairs (datum : DatumRecord) : List (FieldName × Value) :=
  datum.fields.names.zip datum.fields.values

/-- The datum that is restored from a snapshot of this one. -/
def DatumRecord.restored (datum : DatumRecord) : DatumRecord where
  typePath := datum.typePath
  fields := .owned datum.pairs
  fieldIndex := if datumFieldIndexThreshold ≤ datum.pairs.length then
    some (insertFrom (fun _ => none) 0 (datum.pairs.map (·.1))) else none

theorem restoreSnapshotDatum_snapshot (datum : DatumRecord) :
    restoreSnapshotDatum (snapshotDatum datum) = .ok datum.restored := by
  have hfield (field : FieldName × Value) :
      restoreField (field.1.name, HeapSnapshotValue.ofValue field.2) = .ok field := by
    rw [restoreField, FieldName.parse, dif_pos field.1.valid, intoValue_ofValue]
    rfl
  have hfields := mapM_map_ok (g := fun field : FieldName × Value =>
    (field.1.name, HeapSnapshotValue.ofValue field.2)) hfield datum.pairs
  show valueError ((TypePath.parse datum.typePath.path).bind fun typePath =>
    ((datum.pairs.map fun field => (field.1.name, HeapSnapshotValue.ofValue field.2)).mapM
      restoreField).bind _) = _
  rw [TypePath.parse, dif_pos datum.typePath.valid, hfields]
  rfl

theorem zip_map_fst_snd {α β : Type} (pairs : List (α × β)) :
    (pairs.map (·.1)).zip (pairs.map (·.2)) = pairs := by
  induction pairs with
  | nil => rfl
  | cons pair pairs ih => rw [List.map_cons, List.map_cons, List.zip_cons_cons, ih]

theorem snapshotDatum_restored (datum : DatumRecord) :
    snapshotDatum datum.restored = snapshotDatum datum := by
  rw [snapshotDatum, snapshotDatum]
  show HeapSnapshotDatum.mk _ (List.map _ ((datum.pairs.map (·.1)).zip (datum.pairs.map (·.2)))) = _
  rw [zip_map_fst_snd]
  rfl

theorem snapshotDatum_compactRestored (datum : DatumRecord) :
    snapshotDatum datum.compactRestored = snapshotDatum datum := by
  rw [DatumRecord.compactRestored]
  split
  · rfl
  · rfl

/-! ## Lists -/

def snapshotEntry : Entry → HeapSnapshotListEntry
  | .inl value => .positional (.ofValue value)
  | .inr pair => .associative (.ofValue pair.1) (.ofValue pair.2)

theorem snapshotListEntry_eq (list : DmList) (entry : ListOrder) : snapshotListEntry list entry =
    (lookup list.positional list.associative entry.slot).map snapshotEntry := by
  rw [snapshotListEntry, ListOrder.slot]
  cases hindex : entry.positionalIndex with
  | some index =>
    show _ = (list.positional[index]?.map Sum.inl).map snapshotEntry
    rw [Option.map_map]
    rfl
  | none =>
    have hassociative : entry.associativeIndex =
        some (entry.bits &&& (ListOrder.associativeBit - 1)) := by
      rw [ListOrder.positionalIndex] at hindex
      rw [ListOrder.associativeIndex]
      split at hindex
      · cases hindex
      · rename_i hne
        rw [if_pos hne]
    show (entry.associativeIndex.bind _) = _
    rw [hassociative]
    show (list.associative[_]?.bind _) = (list.associative[_]?.map Sum.inr).map snapshotEntry
    cases list.associative[entry.bits &&& (ListOrder.associativeBit - 1)]? <;> rfl

theorem mapM_eq_some {α β : Type} {f : α → Option β} {values : List α} {results : List β} :
    values.mapM f = some results ↔ values.map f = results.map some := by
  induction values generalizing results with
  | nil => cases results <;> simp
  | cons a values ih =>
    rw [List.mapM_cons]
    cases results with
    | nil => cases f a <;> cases values.mapM f <;> simp
    | cons b results =>
      rw [List.map_cons, List.map_cons, List.cons.injEq, ← ih]
      cases f a <;> cases values.mapM f <;> simp

/-- The snapshot of a list has the entries that its order reads. -/
theorem snapshotListEntries_eq_some {list : DmList} {records : List HeapSnapshotListEntry} :
    snapshotListEntries list = some records ↔
      ∃ entries, OrderReads list (list.order.drop list.prefixHead) entries ∧
        records = entries.map snapshotEntry := by
  have hfun : snapshotListEntry list = fun entry =>
      (lookup list.positional list.associative entry.slot).map snapshotEntry :=
    funext (snapshotListEntry_eq list)
  rw [snapshotListEntries, hfun, mapM_map_option]
  unfold OrderReads
  generalize list.order.drop list.prefixHead = order
  constructor
  · intro h
    obtain ⟨entries, hentries, rfl⟩ := Option.map_eq_some_iff.1 h
    exact ⟨entries, mapM_eq_some.1 hentries, rfl⟩
  · rintro ⟨entries, hentries, rfl⟩
    rw [mapM_eq_some.2 hentries]
    rfl

/-- A slot of the pools is one of the longer pools. -/
theorem lookup_append {α β : Type} {left left' : List α} {right right' : List β} {slot : Slot}
    {entry : α ⊕ β} (h : lookup left right slot = some entry) :
    lookup (left ++ left') (right ++ right') slot = some entry := by
  cases slot with
  | inl i =>
    obtain ⟨a, ha, rfl⟩ := Option.map_eq_some_iff.1 h
    exact Option.map_eq_some_iff.2 ⟨a, (List.getElem?_append_left (List.getElem?_eq_some_iff.1 ha).1).trans ha, rfl⟩
  | inr j =>
    obtain ⟨b, hb, rfl⟩ := Option.map_eq_some_iff.1 h
    exact Option.map_eq_some_iff.2 ⟨b, (List.getElem?_append_left (List.getElem?_eq_some_iff.1 hb).1).trans hb, rfl⟩

/-- A list whose order reads some entries from the start, with no more of them in its vectors. -/
structure Restored (list : DmList) (entries : List Entry) : Prop where
  reads : OrderReads list list.order entries
  head : list.prefixHead = 0
  count : list.positional.length + list.associative.length = entries.length

theorem restored_empty : Restored DmList.empty [] := ⟨rfl, rfl, rfl⟩

/-- One more entry. -/
theorem Restored.push {list : DmList} {entries : List Entry} (h : Restored list entries)
    (entry : Entry) (hroom : entries.length < 2 ^ 31) :
    ∃ next, restoreListEntry list (snapshotEntry entry) = .ok next ∧
      Restored next (entries ++ [entry]) := by
  have hcount := h.count
  have hpositional : list.positional.length < 2 ^ 31 := by omega
  have hassociative : list.associative.length < 2 ^ 31 := by omega
  have hlength : (entries ++ [entry]).length = entries.length + 1 := by
    rw [List.length_append, List.length_singleton]
  -- the entries before keep their places in the longer vectors
  have hbefore (left : List Value) (right : List (Value × Value)) :
      list.order.map (fun place => lookup (list.positional ++ left) (list.associative ++ right)
        place.slot) = entries.map some := by
    rw [← h.reads]
    refine List.map_congr_left fun place hplace => ?_
    have hmem : lookup list.positional list.associative place.slot ∈ entries.map some := by
      rw [← h.reads]
      exact List.mem_map_of_mem hplace
    obtain ⟨found, -, hfound⟩ := List.mem_map.1 hmem
    rw [← hfound, lookup_append hfound.symm]
  cases entry with
  | inl value =>
    obtain ⟨place, hplace, hslot⟩ := ListOrder.positional_is hpositional
    refine ⟨{ list with
      order := list.order ++ [place]
      positional := list.positional ++ [value] }, ?_, ?_, h.head, ?_⟩
    · rw [snapshotEntry, restoreListEntry, hplace, intoValue_ofValue]
      rfl
    · have hall := hbefore [value] []
      rw [List.append_nil] at hall
      rw [OrderReads, List.map_append, List.map_append, hall, List.map_singleton, List.map_singleton,
        hslot.2]
      simp [lookup]
    · show (list.positional ++ [value]).length + list.associative.length = _
      rw [List.length_append, List.length_singleton, hlength]
      omega
  | inr pair =>
    obtain ⟨place, hplace, hslot⟩ := ListOrder.associative_is hassociative
    refine ⟨{ list with
      order := list.order ++ [place]
      associative := list.associative ++ [pair] }, ?_, ?_, h.head, ?_⟩
    · rw [snapshotEntry, restoreListEntry, hplace, intoValue_ofValue, intoValue_ofValue]
      rfl
    · have hall := hbefore [] [pair]
      rw [List.append_nil] at hall
      rw [OrderReads, List.map_append, List.map_append, hall, List.map_singleton, List.map_singleton,
        hslot.2]
      simp [lookup]
    · show list.positional.length + (list.associative ++ [pair]).length = _
      rw [List.length_append, List.length_singleton, hlength]
      omega

theorem Restored.extend {list : DmList} {entries : List Entry} (h : Restored list entries)
    (more : List Entry) (hroom : entries.length + more.length ≤ 2 ^ 31) :
    ∃ last, (more.map snapshotEntry).foldlM restoreListEntry list = .ok last ∧
      Restored last (entries ++ more) := by
  induction more generalizing list entries with
  | nil => exact ⟨list, rfl, by rwa [List.append_nil]⟩
  | cons entry more ih =>
    rw [List.length_cons] at hroom
    obtain ⟨next, hnext, hrestored⟩ := h.push entry (by omega)
    obtain ⟨last, hlast, hall⟩ := ih hrestored (by
      rw [List.length_append, List.length_singleton]
      omega)
    refine ⟨last, ?_, by rwa [List.append_assoc] at hall⟩
    rw [List.map_cons, List.foldlM_cons, hnext]
    exact hlast

/-- A list that is restored from a snapshot has this snapshot again. -/
theorem restoreListEntries_snapshot (hash : SemanticKey → Nat) {list : DmList}
    {records : List HeapSnapshotListEntry} (hsnapshot : snapshotListEntries list = some records)
    (hroom : records.length ≤ 2 ^ 31) : ∃ restored, restoreListEntries hash records = .ok restored ∧
      snapshotListEntries restored = some records := by
  obtain ⟨entries, -, rfl⟩ := snapshotListEntries_eq_some.1 hsnapshot
  rw [List.length_map] at hroom
  rw [restoreListEntries]
  split
  · rename_i hnil
    exact ⟨DmList.empty, rfl, by rw [hnil]; rfl⟩
  · obtain ⟨last, hlast, hrestored⟩ := restored_empty.extend entries (by simpa using hroom)
    have hcount := hrestored.count
    rw [List.nil_append] at hcount hrestored
    obtain ⟨index, hrebuild, -⟩ := @rebuildAssociativeIndex_spec hash last (by omega)
    refine ⟨{ last with associativeIndex := index }, ?_, ?_⟩
    · rw [hlast]
      show orPanic (last.rebuildAssociativeIndex hash) = _
      rw [hrebuild]
      rfl
    · refine snapshotListEntries_eq_some.2 ⟨entries, ?_, rfl⟩
      show OrderReads last (last.order.drop last.prefixHead) entries
      rw [hrestored.head, List.drop_zero]
      exact hrestored.reads

/-! ## Arenas -/

section

variable {α β : Type} {slots : List (ArenaSlot α)} {free : List Nat}

/-- A free list of different vacant places is accepted, and all of them are seen. -/
theorem seeFree_ok {kind : String} {lookup : Nat → Option (ArenaSlot α)} {slotLen : Nat}
    {seen : List Bool} (hlength : seen.length = slotLen) (hnodup : free.Nodup)
    (hfree : ∀ index ∈ free, index < slotLen ∧ seen[index]? ≠ some true ∧
      ∀ slot, lookup index = some slot → slot.value = none) :
    ∃ last, Arena.seeFree kind lookup slotLen seen free = .ok last ∧
      ∀ index, index ∈ free ∨ seen[index]? = some true → last[index]? = some true := by
  induction free generalizing seen with
  | nil => exact ⟨seen, rfl, fun index h => h.resolve_left List.not_mem_nil⟩
  | cons index free ih =>
    obtain ⟨hlt, hunseen, hvacant⟩ := hfree index List.mem_cons_self
    obtain ⟨hnew, hrest⟩ := List.nodup_cons.1 hnodup
    have hset (other : Nat) : (seen.set index true)[other]? =
        if index = other then some true else seen[other]? := by
      rw [List.getElem?_set, hlength, if_pos hlt]
    obtain ⟨last, hlast, hseen⟩ := @ih (seen.set index true)
      (by rw [List.length_set, hlength]) hrest fun other hmem => by
        obtain ⟨hother, hotherUnseen, hotherVacant⟩ := hfree other (List.mem_cons_of_mem index hmem)
        have hne : index ≠ other := fun heq => hnew (heq ▸ hmem)
        exact ⟨hother, by rwa [hset, if_neg hne], hotherVacant⟩
    refine ⟨last, ?_, fun other hother => ?_⟩
    · have hfine : ¬ (slotLen ≤ index ∨ seen[index]? = some true ∨
          (lookup index).any (fun slot => slot.value.isSome) = true) := by
        rintro (hge | htrue | hsome)
        · omega
        · exact hunseen htrue
        · obtain ⟨slot, hslot, hvalue⟩ := (Option.any_eq_true _ _).1 hsome
          rw [hvacant slot hslot] at hvalue
          cases hvalue
      rw [Arena.seeFree, if_neg hfine]
      exact hlast
    · apply hseen other
      rw [hset]
      by_cases heq : index = other
      · exact Or.inr (if_pos heq)
      · rw [if_neg heq]
        rcases hother with hmem | htrue
        · exact Or.inl ((List.mem_cons.1 hmem).resolve_left fun h => heq h.symm)
        · exact Or.inr htrue

/-- The slots are vacant where the free list says, and nowhere else but where no generation is
left. -/
structure FreeIs (slots : List (ArenaSlot α)) (free : List Nat) : Prop where
  nodup : free.Nodup
  vacant : ∀ index ∈ free, ∃ slot, slots[index]? = some slot ∧ slot.value = none
  listed : ∀ (index : Nat) (slot : ArenaSlot α), slots[index]? = some slot → slot.value = none →
    slot.generation ≠ Arena.maxGeneration → index ∈ free

theorem FreeIs.checkFree (h : FreeIs slots free) (kind : String) :
    Arena.checkFree kind (slots[·]?) slots.length free = .ok () := by
  obtain ⟨seen, hseen, hall⟩ := @seeFree_ok _ _ kind (fun index => slots[index]?) _
    (List.replicate slots.length false) List.length_replicate h.nodup fun index hmem => by
      obtain ⟨slot, hslot, hvalue⟩ := h.vacant index hmem
      have hlt := (List.getElem?_eq_some_iff.1 hslot).1
      refine ⟨hlt, by rw [List.getElem?_replicate, if_pos hlt]; simp, fun found hfound => ?_⟩
      rw [hslot] at hfound
      cases hfound
      exact hvalue
  have hnone : (List.range slots.length).find? (Arena.absent (slots[·]?) seen) = none := by
    refine List.find?_eq_none.2 fun index _ habsent => ?_
    rw [Arena.absent, Bool.and_eq_true] at habsent
    obtain ⟨hany, hunseen⟩ := habsent
    obtain ⟨slot, hslot, hvacant⟩ := (Option.any_eq_true _ _).1 hany
    rw [Bool.and_eq_true] at hvacant
    obtain ⟨hvalue, hgeneration⟩ := hvacant
    have hmem := h.listed index slot hslot (Option.isNone_iff_eq_none.1 hvalue)
      (bne_iff_ne.1 hgeneration)
    exact (bne_iff_ne.1 hunseen) (hall index (Or.inl hmem))
  rw [Arena.checkFree, hseen]
  dsimp only [bind, Except.bind]
  rw [hnone]

theorem SlotInv.freeIs {history : ArenaHistory α} (h : SlotInv slots free history) :
    FreeIs slots free where
  nodup := h.free_nodup
  vacant index hmem := by
    obtain ⟨slot, hslot, hvalue, -⟩ := (h.free_iff index).1 hmem
    exact ⟨slot, hslot, hvalue⟩
  listed index slot hslot hvalue hgeneration := (h.free_iff index).2 ⟨slot, hslot, hvalue,
    fun hreturned => hgeneration ((h.facts hslot).retired hvalue hreturned)⟩

/-- Slots of the same generations, vacant at the same places. -/
def Alike (slots : List (ArenaSlot α)) (others : List (ArenaSlot β)) : Prop :=
  List.Forall₂ (fun slot other => other.generation = slot.generation ∧
    (other.value = none ↔ slot.value = none)) slots others

theorem FreeIs.alike (h : FreeIs slots free) {others : List (ArenaSlot β)} (halike : Alike slots others) :
    FreeIs others free := by
  have hlength := halike.length_eq
  refine ⟨h.nodup, fun index hmem => ?_, fun index other hother hvalue hgeneration => ?_⟩
  · obtain ⟨slot, hslot, hvalue⟩ := h.vacant index hmem
    obtain ⟨hlt, rfl⟩ := List.getElem?_eq_some_iff.1 hslot
    have hfound := List.getElem?_eq_getElem (hlength ▸ hlt)
    exact ⟨_, hfound, ((halike.get hlt (hlength ▸ hlt)).2).2 hvalue⟩
  · obtain ⟨hlt, rfl⟩ := List.getElem?_eq_some_iff.1 hother
    have hslot := List.getElem?_eq_getElem (hlength.symm ▸ hlt)
    obtain ⟨hsame, hnone⟩ := halike.get (hlength.symm ▸ hlt) hlt
    exact h.listed index _ hslot (hnone.1 hvalue) fun heq => hgeneration (hsame.trans heq)

theorem freeIs_fromSnapshotSlots (h : FreeIs slots free) (kind : String) : ∃ arena,
    Arena.fromSnapshotSlots slots free kind = .ok arena ∧ arena.Valid ∧ arena.slots = slots ∧
      arena.free = free := by
  have hok : ∃ arena, Arena.fromSnapshotSlots slots free kind = .ok arena := by
    rw [Arena.fromSnapshotSlots, h.checkFree]
    exact ⟨_, rfl⟩
  obtain ⟨arena, harena⟩ := hok
  obtain ⟨hvalid, -, hslots, hfree⟩ := fromSnapshotSlots_ok harena
  exact ⟨arena, harena, hvalid, hslots, hfree⟩

/-- Records that can be restored are restored slot by slot. -/
theorem restored_slots {snap : α → Option β} {restore : β → Except HeapError α} {valid : β → Prop}
    (hrestore : ∀ value record, snap value = some record → valid record →
      ∃ restored, restore record = .ok restored ∧ snap restored = some record)
    {records : List (ArenaSlot β)} (hrecords : slots.mapM (mapSlot snap) = some records)
    (hvalid : ∀ slot ∈ records, ∀ record, slot.value = some record → valid record) :
    ∃ restored, records.mapM (mapSlot restore) = .ok restored ∧
      restored.mapM (mapSlot snap) = some records ∧ Alike slots restored := by
  induction slots generalizing records with
  | nil =>
    cases hrecords
    exact ⟨[], rfl, rfl, List.Forall₂.nil⟩
  | cons slot slots ih =>
    rw [List.mapM_cons] at hrecords
    obtain ⟨record, hrecord, hrest⟩ := Option.bind_eq_some_iff.1 hrecords
    obtain ⟨rest, hslots, heq⟩ := Option.bind_eq_some_iff.1 hrest
    cases heq
    obtain ⟨others, hmade, hsnap, halike⟩ := ih hslots fun other hother =>
      hvalid other (List.mem_cons_of_mem _ hother)
    have hfirst : ∃ first, mapSlot restore record = .ok first ∧ mapSlot snap first = some record ∧
        first.generation = slot.generation ∧ (first.value = none ↔ slot.value = none) := by
      rw [mapSlot] at hrecord
      cases hvalue : slot.value with
      | none =>
        rw [hvalue] at hrecord
        cases hrecord
        exact ⟨⟨slot.generation, none⟩, rfl, rfl, rfl, by simp⟩
      | some value =>
        rw [hvalue] at hrecord
        obtain ⟨taken, htaken, heq⟩ := Option.bind_eq_some_iff.1 hrecord
        cases heq
        obtain ⟨back, hback, hsame⟩ := hrestore value taken htaken
          (hvalid _ List.mem_cons_self taken rfl)
        refine ⟨⟨slot.generation, some back⟩, ?_, ?_, rfl, by simp⟩
        · show (restore taken).bind _ = _
          rw [hback]
          rfl
        · show (snap back).bind _ = _
          rw [hsame]
          rfl
    obtain ⟨first, hfirstMade, hfirstSnap, hsame⟩ := hfirst
    refine ⟨first :: others, ?_, ?_, List.Forall₂.cons hsame halike⟩
    · rw [List.mapM_cons, hfirstMade, hmade]
      rfl
    · rw [List.mapM_cons, hfirstSnap, hsnap]
      rfl

theorem Arena.Valid.mapValues {arena : Arena α} (h : arena.Valid) (f : α → α) :
    (arena.mapValues f).Valid ∧ (arena.mapValues f).slots =
      arena.slots.map fun slot => ⟨slot.generation, slot.value.map f⟩ := by
  have hslots : (arena.mapValues f).slots =
      arena.slots.map fun slot => ⟨slot.generation, slot.value.map f⟩ := by
    show (arena.chunks.map _).flatten = _
    rw [← List.map_flatten]
    rfl
  refine ⟨⟨h.chunked.map _, ?_⟩, hslots⟩
  rw [hslots, List.length_map]
  exact h.length

end

/-! ## Heaps -/

/-- The arenas of a heap are vectors of their slots, with the free lists that they should have. -/
structure ValueHeap.Sound (heap : ValueHeap) : Prop where
  datums : heap.datums.Valid
  datumFree : FreeIs heap.datums.slots heap.datums.free
  lists : heap.lists.Valid
  listFree : FreeIs heap.lists.slots heap.lists.free

theorem mapM_mapSlot_some {α β : Type} (f : α → β) (slots : List (ArenaSlot α)) :
    slots.mapM (mapSlot fun value => some (f value)) =
      some (slots.map fun slot => ⟨slot.generation, slot.value.map f⟩) := by
  have hslot : (mapSlot fun value => some (f value)) =
      fun slot : ArenaSlot α => some (⟨slot.generation, slot.value.map f⟩ : ArenaSlot β) := by
    funext slot
    obtain ⟨generation, value⟩ := slot
    cases value <;> rfl
  rw [hslot]
  exact mapM_eq_some.2 (List.map_map).symm

/-- There is a snapshot when the lists of the heap are in order. -/
theorem ValueHeap.Sound.exists_snapshot {hash : SemanticKey → Nat} {heap : ValueHeap} (h : heap.Sound)
    (hlists : ∀ slot ∈ heap.lists.slots, ∀ list, slot.value = some list →
      ∃ entries, Represents hash list entries) : ∃ snapshot, heap.snapshot = some snapshot := by
  have hslot : ∀ slot ∈ heap.lists.slots, ∃ record, mapSlot snapshotListEntries slot = some record := by
    intro slot hslot
    rw [mapSlot]
    cases hvalue : slot.value with
    | none => exact ⟨_, rfl⟩
    | some list =>
      obtain ⟨entries, hentries⟩ := hlists slot hslot list hvalue
      have hrecords := snapshotListEntries_eq_some.2 ⟨entries, hentries.reads, rfl⟩
      refine ⟨⟨slot.generation, some (entries.map snapshotEntry)⟩, ?_⟩
      show (snapshotListEntries list).bind _ = _
      rw [hrecords]
      rfl
  have hall : ∀ slots : List (ArenaSlot DmList), (∀ slot ∈ slots, ∃ record,
      mapSlot snapshotListEntries slot = some record) →
      ∃ records, slots.mapM (mapSlot snapshotListEntries) = some records := by
    intro slots hslots
    induction slots with
    | nil => exact ⟨[], rfl⟩
    | cons slot slots ih =>
      obtain ⟨record, hrecord⟩ := hslots slot List.mem_cons_self
      obtain ⟨records, hrecords⟩ := ih fun other hother => hslots other (List.mem_cons_of_mem _ hother)
      exact ⟨record :: records, by rw [List.mapM_cons, hrecord, hrecords]; rfl⟩
  obtain ⟨records, hrecords⟩ := hall heap.lists.slots hslot
  rw [ValueHeap.snapshot, h.datums.snapshotSlots, h.lists.snapshotSlots]
  show ∃ snapshot, (heap.lists.slots.mapM (mapSlot snapshotListEntries)).bind _ = some snapshot
  rw [hrecords]
  exact ⟨_, rfl⟩

/-- A snapshot whose lists are not too long is restored to a heap that has it. -/
theorem ValueHeap.Sound.restore (hash : SemanticKey → Nat) {heap : ValueHeap} (h : heap.Sound)
    {snapshot : ValueHeapSnapshot} (hsnapshot : heap.snapshot = some snapshot)
    (hroom : ∀ slot ∈ snapshot.lists, ∀ records, slot.value = some records →
      records.length ≤ 2 ^ 31) :
    ∃ restored, ValueHeap.fromSnapshot hash snapshot = .ok restored ∧
      restored.snapshot = some snapshot := by
  rw [ValueHeap.snapshot, h.datums.snapshotSlots, h.lists.snapshotSlots] at hsnapshot
  change (heap.lists.slots.mapM (mapSlot snapshotListEntries)).bind _ = _ at hsnapshot
  obtain ⟨lists, hlists, heq⟩ := Option.bind_eq_some_iff.1 hsnapshot
  cases heq
  obtain ⟨datumSlots, hmadeDatums, hsnapDatums, halikeDatums⟩ :=
    @restored_slots _ _ _ (fun datum => some (snapshotDatum datum)) restoreSnapshotDatum
      (fun _ => True) (fun datum record hrecord _ => by
        cases hrecord
        exact ⟨datum.restored, restoreSnapshotDatum_snapshot datum,
          congrArg some (snapshotDatum_restored datum)⟩)
      _ (mapM_mapSlot_some snapshotDatum heap.datums.slots) fun _ _ _ _ => trivial
  obtain ⟨listSlots, hmadeLists, hsnapLists, halikeLists⟩ :=
    restored_slots (fun _ _ hrecord hvalid => restoreListEntries_snapshot hash hrecord hvalid)
      hlists hroom
  obtain ⟨datums, hdatums, hdatumsValid, hdatumSlots, hdatumFree⟩ :=
    freeIs_fromSnapshotSlots (h.datumFree.alike halikeDatums) "datum"
  obtain ⟨restoredLists, hrestoredLists, hlistsValid, hlistSlots, hlistFree⟩ :=
    freeIs_fromSnapshotSlots (h.listFree.alike halikeLists) "list"
  obtain ⟨hcompactValid, hcompactSlots⟩ := hdatumsValid.mapValues DatumRecord.compactRestored
  refine ⟨ValueHeap.compactRestored ⟨datums, restoredLists⟩, ?_, ?_⟩
  · rw [ValueHeap.fromSnapshot]
    show ((heap.datums.slots.map _).mapM (mapSlot restoreSnapshotDatum)).bind _ = _
    rw [hmadeDatums]
    show (lists.mapM (mapSlot (restoreListEntries hash))).bind _ = _
    rw [hmadeLists]
    show (valueError (Arena.fromSnapshotSlots datumSlots heap.datums.free "datum")).bind _ = _
    rw [hdatums]
    show (valueError (Arena.fromSnapshotSlots listSlots heap.lists.free "list")).bind _ = _
    rw [hrestoredLists]
    rfl
  · rw [ValueHeap.snapshot]
    show ((datums.mapValues DatumRecord.compactRestored).snapshotSlots).bind _ = _
    rw [hcompactValid.snapshotSlots, hcompactSlots, hdatumSlots]
    show (restoredLists.snapshotSlots).bind _ = _
    rw [hlistsValid.snapshotSlots, hlistSlots]
    show (listSlots.mapM (mapSlot snapshotListEntries)).bind _ = _
    rw [hsnapLists]
    have hrecords : (datumSlots.map fun slot =>
          (⟨slot.generation, slot.value.map DatumRecord.compactRestored⟩ : ArenaSlot _)).map
          (fun slot => (⟨slot.generation, slot.value.map snapshotDatum⟩ : ArenaSlot _)) =
        heap.datums.slots.map fun slot => ⟨slot.generation, slot.value.map snapshotDatum⟩ := by
      rw [mapM_mapSlot_some, Option.some.injEq] at hsnapDatums
      rw [← hsnapDatums, List.map_map]
      refine List.map_congr_left fun slot _ => ?_
      show ArenaSlot.mk slot.generation _ = _
      rw [Option.map_map]
      refine congrArg _ (congrFun (congrArg Option.map (funext fun datum => ?_)) slot.value)
      exact snapshotDatum_compactRestored datum
    show some (ValueHeapSnapshot.mk _ datums.free lists restoredLists.free) = _
    rw [hrecords, hdatumFree, hlistFree]

end Dream64
