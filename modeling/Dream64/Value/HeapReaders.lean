import Dream64.Library.Restoring
import Dream64.Value.ArenaRuns
import Dream64.Value.HeapCodes

/-!
# One meaning of the heap section

The two writers write the same bytes. The reader that restores the records as
they come accepts what the reader of records accepts and `from_snapshot`
restores, and makes the same heap of it.
-/

namespace Dream64

open Codec SlotIndex

/-! ## Writers -/

namespace HeapCodec

mutual

theorem writeRuntimeValue_eq : ∀ value : Value, writeRuntimeValue value = writeValue (.ofValue value)
  | .null | .number _ | .text _ | .file _ | .typePath _ | .datum _ | .list _ => rfl
  | .modifiedTypePath base overrides => by
    rw [writeRuntimeValue, HeapSnapshotValue.ofValue, writeValue,
      writeRuntimeOverrides_eq overrides, length_snapshotOverrides overrides]

theorem writeRuntimeOverrides_eq : ∀ overrides : List (FieldName × Value),
    writeRuntimeOverrides overrides = writeOverrides (snapshotOverrides overrides)
  | [] => rfl
  | entry :: overrides => by
    rw [writeRuntimeOverrides, snapshotOverrides, writeOverrides, writeRuntimeOverride_eq entry,
      writeRuntimeOverrides_eq overrides]

theorem writeRuntimeOverride_eq : ∀ entry : FieldName × Value,
    writeRuntimeOverride entry = writeOverride (snapshotOverride entry)
  | (name, value) => by
    rw [writeRuntimeOverride, snapshotOverride, writeOverride, writeRuntimeValue_eq value]

theorem length_snapshotOverrides : ∀ overrides : List (FieldName × Value),
    (snapshotOverrides overrides).length = overrides.length
  | [] => rfl
  | entry :: overrides => by
    rw [snapshotOverrides, List.length_cons, List.length_cons, length_snapshotOverrides overrides]

end

theorem writeRuntimeDatum_eq {datum : DatumRecord}
    (h : datum.fields.names.length = datum.fields.values.length) :
    writeRuntimeDatum datum = writeDatum (snapshotDatum datum) := by
  have hlength : (datum.fields.names.zip datum.fields.values).length = datum.fields.length := by
    rw [List.length_zip, h, min_self, DatumFields.length_values]
  rw [writeRuntimeDatum, writeDatum, snapshotDatum, List.length_map, hlength, List.flatMap_map]
  refine congrArg _ (congrArg _ (List.flatMap_congr fun field _ => ?_))
  rw [writeField, writeRuntimeValue_eq]

theorem writeRuntimeEntry_eq (list : DmList) (entry : ListOrder) :
    writeRuntimeEntry list entry = (snapshotListEntry list entry).map writeEntry := by
  rw [writeRuntimeEntry, snapshotListEntry]
  cases entry.positionalIndex with
  | some index =>
    show (list.positional[index]?).map _ = ((list.positional[index]?).map _).map _
    cases list.positional[index]? with
    | none => rfl
    | some value =>
      show some (0 :: writeRuntimeValue value) = some (0 :: writeValue (.ofValue value))
      rw [writeRuntimeValue_eq]
  | none =>
    cases entry.associativeIndex with
    | none => rfl
    | some index =>
      show (list.associative[index]?.bind _) = (list.associative[index]?.bind _).map _
      cases list.associative[index]? with
      | none => rfl
      | some pair =>
        show some (1 :: (writeRuntimeValue pair.1 ++ writeRuntimeValue pair.2)) =
          some (1 :: (writeValue (.ofValue pair.1) ++ writeValue (.ofValue pair.2)))
        rw [writeRuntimeValue_eq, writeRuntimeValue_eq]

end HeapCodec

/-- What may be missing of some values, and what is made of it. -/
theorem mapM_map_option {α β γ : Type} (f : α → Option β) (g : β → γ) (values : List α) :
    (values.mapM fun a => (f a).map g) = (values.mapM f).map (List.map g) := by
  induction values with
  | nil => rfl
  | cons a values ih =>
    rw [List.mapM_cons, List.mapM_cons, ih]
    cases f a with
    | none => rfl
    | some b => cases values.mapM f <;> rfl

theorem length_mapM_option {α β : Type} {f : α → Option β} {values : List α} {results : List β}
    (h : values.mapM f = some results) : results.length = values.length := by
  induction values generalizing results with
  | nil =>
    cases h
    rfl
  | cons a values ih =>
    rw [List.mapM_cons] at h
    obtain ⟨b, -, hrest⟩ := Option.bind_eq_some_iff.1 h
    obtain ⟨rest, hvalues, heq⟩ := Option.bind_eq_some_iff.1 hrest
    cases heq
    rw [List.length_cons, List.length_cons, ih hvalues]

namespace HeapCodec

theorem writeRuntimeList_eq (list : DmList) :
    writeRuntimeList list = (snapshotListEntries list).map writeList := by
  have hentry : writeRuntimeEntry list = fun entry => (snapshotListEntry list entry).map writeEntry :=
    funext (writeRuntimeEntry_eq list)
  rw [writeRuntimeList, hentry, snapshotListEntries]
  simp only [mapM_map_option]
  cases hentries : (list.order.drop list.prefixHead).mapM (snapshotListEntry list) with
  | none => rfl
  | some entries =>
    show some _ = some _
    rw [writeList, length_mapM_option hentries, List.flatMap_def]

theorem writeRuntimeSlot_eq (slot : ArenaSlot DmList) :
    writeRuntimeSlot slot = (mapSlot snapshotListEntries slot).map (writeSlot writeList) := by
  rw [writeRuntimeSlot, mapSlot]
  cases slot.value with
  | none => rfl
  | some list =>
    show (writeRuntimeList list).bind _ = ((snapshotListEntries list).bind _).map _
    rw [writeRuntimeList_eq]
    cases snapshotListEntries list <;> rfl

/-- The records of the datums have a value for each of their names. -/
def RecordsPaired (slots : List (ArenaSlot DatumRecord)) : Prop :=
  ∀ slot ∈ slots, ∀ datum, slot.value = some datum →
    datum.fields.names.length = datum.fields.values.length

theorem writeRuntimeDatums_eq {slots : List (ArenaSlot DatumRecord)} (h : RecordsPaired slots) :
    writeSlots writeRuntimeDatum slots = writeSlots writeDatum
      (slots.map fun slot => ⟨slot.generation, slot.value.map snapshotDatum⟩) := by
  rw [writeSlots, writeSlots, List.length_map, List.flatMap_map]
  refine congrArg _ (List.flatMap_congr fun slot hslot => ?_)
  cases hvalue : slot.value with
  | none => simp [writeSlot, hvalue, writeOption]
  | some datum =>
    simp [writeSlot, hvalue, writeOption, writeRuntimeDatum_eq (h slot hslot datum hvalue)]

/-- Both writers write the same bytes, or neither writes. -/
theorem writeHeap_eq {heap : ValueHeap}
    (h : ∀ slots, heap.datums.snapshotSlots = some slots → RecordsPaired slots) :
    writeHeap heap = heap.snapshot.map writeSnapshot := by
  have hslot : writeRuntimeSlot =
      fun slot => (mapSlot snapshotListEntries slot).map (writeSlot writeList) :=
    funext writeRuntimeSlot_eq
  rw [writeHeap, ValueHeap.snapshot]
  cases hdatums : heap.datums.snapshotSlots with
  | none => rfl
  | some datums =>
    cases hlists : heap.lists.snapshotSlots with
    | none => rfl
    | some lists =>
      show (lists.mapM writeRuntimeSlot).bind _ = ((lists.mapM (mapSlot snapshotListEntries)).bind _).map _
      rw [hslot, mapM_map_option]
      cases hentries : lists.mapM (mapSlot snapshotListEntries) with
      | none => rfl
      | some entries =>
        have hsection : writeLen lists.length ++ (entries.map (writeSlot writeList)).flatten =
            writeSlots writeList entries := by
          rw [writeSlots, length_mapM_option hentries, List.flatMap_def]
        show some _ = some _
        rw [writeSnapshot, writeRuntimeDatums_eq (h datums hdatums), ← hsection]

end HeapCodec

/-! ## Readers -/

/-- The two ways to make an arena of the slots of a snapshot are one. -/
theorem readSnapshotSlots_eq {α : Type} (slots : List (ArenaSlot α)) (free : List Nat) (kind : String) :
    Arena.readSnapshotSlots slots free kind = Arena.fromSnapshotSlots slots free kind := by
  obtain ⟨hvalid, hslots, hlive⟩ :=
    @foldl_pushSnapshotSlot _ Arena.empty slots ⟨trivial, rfl⟩ rfl
  rw [Arena.readSnapshotSlots, Arena.installSnapshotFree, Arena.fromSnapshotSlots]
  generalize slots.foldl Arena.pushSnapshotSlot Arena.empty = pushed at hvalid hslots hlive ⊢
  have hall : pushed.slots = slots := hslots
  have hslot : pushed.slot = fun index => slots[index]? := by
    funext index
    rw [hvalid.slot_eq, hall]
  have hlength : pushed.slotLen = slots.length := by
    rw [hvalid.length, hall]
  have hchunks : pushed.chunks = Chunks.chunksOf Arena.chunkSlots slots :=
    hvalid.chunked.eq_of_flatten Arena.chunkSlots_pos
      (Chunks.chunked_chunksOf Arena.chunkSlots_pos slots)
      (hall.trans (Chunks.chunksOf_flatten Arena.chunkSlots_pos slots).symm)
  rw [hslot, hlength]
  cases Arena.checkFree kind (fun index => slots[index]?) slots.length free with
  | error message => rfl
  | ok checked =>
    have hcount : pushed.live = (slots.filter fun slot => slot.value.isSome).length := by
      rw [hlive, ← List.countP_eq_length_filter]
      rfl
    show Except.ok (⟨pushed.chunks, slots.length, free, pushed.live⟩ : Arena α) = _
    rw [hchunks, hcount]
    rfl

namespace HeapCodec

section

variable {α β : Type} {read : HeapReader α} {restore : α → Except HeapError β}

theorem makes_slot (what rawWhat : String) : Makes (readSlot what read restore)
    (readSlot rawWhat read pure) (mapSlot restore) := by
  refine Makes.behind fun generation => Makes.behind fun tag => ?_
  generalize tag.toNat = n
  match n with
  | 0 =>
    intro bytes slot rest
    constructor
    · intro hread
      cases hread
      exact ⟨⟨generation, none⟩, rfl, rfl⟩
    · rintro ⟨raw, hraw, hmade⟩
      cases hraw
      cases hmade
      rfl
  | 1 =>
    simp only [readPayload, bind_assoc, pure_bind]
    refine Makes.behind fun a bytes slot rest => ?_
    have hmade : mapSlot restore ⟨generation, some a⟩ =
        (restore a).map fun b => (⟨generation, some b⟩ : HeapSnapshotSlot β) := by
      show (restore a).bind _ = _
      cases restore a <;> rfl
    rw [bind_apply, Makes.lift_apply]
    constructor
    · intro hread
      obtain ⟨⟨b, rest'⟩, hb, hlast⟩ := bind_eq_ok hread
      obtain ⟨b', hrestore, heq⟩ := bind_eq_ok hb
      cases heq
      cases hlast
      refine ⟨⟨generation, some a⟩, rfl, ?_⟩
      rw [hmade, hrestore]
      rfl
    · rintro ⟨raw, hraw, hraw'⟩
      cases hraw
      rw [hmade] at hraw'
      cases hrestore : restore a with
      | error error =>
        rw [hrestore] at hraw'
        cases hraw'
      | ok b =>
        rw [hrestore] at hraw'
        cases hraw'
        rfl
  | n + 2 =>
    intro bytes slot rest
    constructor
    · intro hread
      cases hread
    · rintro ⟨raw, hraw, -⟩
      cases hraw

theorem makes_slots (what rawWhat : String) : Makes (readSlots what read restore)
    (readSlots rawWhat read pure) (List.mapM (mapSlot restore)) :=
  Makes.behind fun count => Makes.many (fun _ => makes_slot what rawWhat) 0 count

end

/-- The reader that restores the records as they come makes of a section what `from_snapshot` makes
of its records. -/
theorem makes_heap (hash : SemanticKey → Nat) :
    Makes (readHeap hash) readSnapshot (ValueHeap.fromSnapshot hash) := by
  have hslots := @makes_slots _ _ readDatum restoreSnapshotDatum
    "datum-slot presence" "arena-presence"
  have hlistSlots := @makes_slots _ _ readList (restoreListEntries hash)
    "list-slot presence" "arena-presence"
  refine Makes.behind fun _ => Makes.behind fun _ => ?_
  intro bytes heap rest
  constructor
  · intro hread
    obtain ⟨⟨datumSlots, afterDatums⟩, hdatumSlots, hread⟩ := bind_eq_ok hread
    obtain ⟨⟨datumFree, afterFree⟩, hdatumFree, hread⟩ := bind_eq_ok hread
    obtain ⟨⟨datums, afterArena⟩, hdatums, hread⟩ := bind_eq_ok hread
    obtain ⟨⟨listSlots, afterLists⟩, hlistSlots', hread⟩ := bind_eq_ok hread
    obtain ⟨⟨listFree, afterListFree⟩, hlistFree, hread⟩ := bind_eq_ok hread
    obtain ⟨⟨lists, afterListArena⟩, hlists, hread⟩ := bind_eq_ok hread
    rw [Makes.lift_apply] at hdatums hlists
    obtain ⟨datums', hmakeDatums, heq⟩ := bind_eq_ok hdatums
    cases heq
    obtain ⟨lists', hmakeLists, heq⟩ := bind_eq_ok hlists
    cases heq
    cases hread
    obtain ⟨rawDatums, hrawDatums, hmadeDatums⟩ := (hslots _ _ _).1 hdatumSlots
    obtain ⟨rawLists, hrawLists, hmadeLists⟩ := (hlistSlots _ _ _).1 hlistSlots'
    refine ⟨⟨rawDatums, datumFree, rawLists, listFree⟩, ?_, ?_⟩
    · rw [bind_apply, hrawDatums]
      show ((readU32Vec >>= _) afterDatums) = _
      rw [bind_apply, hdatumFree]
      show ((readSlots "arena-presence" readList pure >>= _) afterFree) = _
      rw [bind_apply, hrawLists]
      show ((readU32Vec >>= _) afterLists) = _
      rw [bind_apply, hlistFree]
      rfl
    · rw [readSnapshotSlots_eq] at hmakeDatums hmakeLists
      rw [ValueHeap.fromSnapshot, hmadeDatums]
      show (rawLists.mapM (mapSlot (restoreListEntries hash))).bind _ = _
      rw [hmadeLists]
      show (valueError (Arena.fromSnapshotSlots datumSlots datumFree "datum")).bind _ = _
      rw [hmakeDatums]
      show (valueError (Arena.fromSnapshotSlots listSlots listFree "list")).bind _ = _
      rw [hmakeLists]
      rfl
  · rintro ⟨snapshot, hread, hmade⟩
    obtain ⟨⟨rawDatums, afterDatums⟩, hrawDatums, hread⟩ := bind_eq_ok hread
    obtain ⟨⟨datumFree, afterFree⟩, hdatumFree, hread⟩ := bind_eq_ok hread
    obtain ⟨⟨rawLists, afterLists⟩, hrawLists, hread⟩ := bind_eq_ok hread
    obtain ⟨⟨listFree, afterListFree⟩, hlistFree, hread⟩ := bind_eq_ok hread
    cases hread
    obtain ⟨datumSlots, hmadeDatums, hmade⟩ := bind_eq_ok hmade
    obtain ⟨listSlots, hmadeLists, hmade⟩ := bind_eq_ok hmade
    obtain ⟨datums, hmakeDatums, hmade⟩ := bind_eq_ok hmade
    obtain ⟨lists, hmakeLists, hmade⟩ := bind_eq_ok hmade
    cases hmade
    rw [← readSnapshotSlots_eq] at hmakeDatums hmakeLists
    have hdatumSlots := (hslots _ _ _).2 ⟨rawDatums, hrawDatums, hmadeDatums⟩
    have hlistSlots' := (hlistSlots _ _ _).2 ⟨rawLists, hrawLists, hmadeLists⟩
    rw [bind_apply, hdatumSlots]
    show ((readU32Vec >>= _) afterDatums) = _
    rw [bind_apply, hdatumFree]
    show (((liftM (valueError (Arena.readSnapshotSlots datumSlots datumFree "datum")) :
      HeapReader _) >>= _) afterFree) = _
    rw [bind_apply, Makes.lift_apply, hmakeDatums]
    show ((readSlots "list-slot presence" readList (restoreListEntries hash) >>= _) afterFree) = _
    rw [bind_apply, hlistSlots']
    show ((readU32Vec >>= _) afterLists) = _
    rw [bind_apply, hlistFree]
    show (((liftM (valueError (Arena.readSnapshotSlots listSlots listFree "list")) :
      HeapReader _) >>= _) rest) = _
    rw [bind_apply, Makes.lift_apply, hmakeLists]
    rfl

end HeapCodec

end Dream64
