import Dream64.Value.HeapRestored
import Dream64.Value.ListRuns

/-!
# Snapshots of the heaps of a run

A heap is what operations on its two arenas have made of an empty one. They may
write anything into a list, and into a datum anything that leaves it a value
for each of its names. Whatever the run, the heap's section is written in one
way and read in one way, and a section within the limits of the readers comes
back as a heap with the same snapshot. A heap whose lists were written by list
operations can always be written.
-/

namespace Dream64

open Codec HeapCodec

/-! ## Properties of the records -/

section

variable {α : Type} {arena : Arena α} {history : ArenaHistory α} {p : α → Prop}

/-- An operation that puts only values with a property into an arena of them. -/
def ArenaOp.Keeps (p : α → Prop) : ArenaOp α → Prop
  | .allocate value => p value
  | .copy _ | .destroy _ => True
  | .update _ write => ∀ value, p value → p (write value)
  | .collect _ visitRetained => ∀ index value, p value → p (visitRetained index value)
  | .restore _ _ restoreRecord =>
    ∀ value restored, p value → restoreRecord value = .ok restored → p restored

def ArenaHistory.All (p : α → Prop) (history : ArenaHistory α) : Prop :=
  ∀ handle value, history.records handle = some value → p value

/-- An operation that does so with the live values, which have the property. -/
def ArenaOp.KeepsIn (p : α → Prop) (history : ArenaHistory α) : ArenaOp α → Prop
  | .allocate value => p value
  | .copy _ | .destroy _ => True
  | .update handle write =>
    ∀ value, history.records handle = some value → p value → p (write value)
  | .collect _ visitRetained => ∀ handle value, history.records handle = some value → p value →
    p (visitRetained handle.1 value)
  | .restore _ _ restoreRecord => ∀ handle value restored, history.records handle = some value →
    p value → restoreRecord value = .ok restored → p restored

theorem ArenaOp.Keeps.keepsIn {op : ArenaOp α} (h : op.Keeps p) : op.KeepsIn p history := by
  cases op with
  | update handle write => exact fun value _ => h value
  | collect marked visitRetained => exact fun handle value _ => h handle.1 value
  | restore streamed kind restoreRecord => exact fun _ value restored _ => h value restored
  | _ => exact h

theorem ArenaHistory.All.allocate (h : history.All p) {value : α} (hvalue : p value)
    (handle : Handle) : (history.allocate handle value).All p := by
  intro other found hfound
  change Function.update history.records handle (some value) other = some found at hfound
  rw [Function.update_apply] at hfound
  split at hfound
  · cases hfound
    exact hvalue
  · exact h other found hfound

theorem ArenaHistory.All.step (h : history.All p) (hinv : ArenaInv arena history) {op : ArenaOp α}
    (hkeeps : op.KeepsIn p history) {next : Arena α} {after : ArenaHistory α}
    (hstep : op.step arena history = some (next, after)) : after.All p := by
  cases op with
  | allocate value =>
    obtain ⟨⟨inserted, handle⟩, -, heq⟩ := Option.bind_eq_some_iff.1 hstep
    cases heq
    exact h.allocate hkeeps handle
  | copy source =>
    rw [ArenaOp.step] at hstep
    cases hsource : arena.get source with
    | none =>
      rw [hsource] at hstep
      cases hstep
      exact h
    | some value =>
      rw [hsource] at hstep
      obtain ⟨⟨inserted, handle⟩, -, heq⟩ := Option.bind_eq_some_iff.1 hstep
      cases heq
      have hrecord : history.records source = some value := by
        rw [← hinv.ids.resolves, ← hinv.valid.get_eq, hsource]
      exact h.allocate (h source value hrecord) handle
  | update handle write =>
    cases hstep
    intro other found hfound
    change Function.update history.records handle _ other = some found at hfound
    rw [Function.update_apply] at hfound
    split at hfound
    · obtain ⟨value, hvalue, rfl⟩ := Option.map_eq_some_iff.1 hfound
      exact hkeeps value hvalue (h handle value hvalue)
    · exact h other found hfound
  | destroy handle =>
    obtain ⟨⟨left, removed⟩, -, heq⟩ := Option.bind_eq_some_iff.1 hstep
    cases heq
    split
    · intro other found hfound
      change Function.update history.records handle none other = some found at hfound
      rw [Function.update_apply] at hfound
      split at hfound
      · cases hfound
      · exact h other found hfound
    · exact h
  | collect marked visitRetained =>
    obtain ⟨⟨swept, reclaimed⟩, -, heq⟩ := Option.bind_eq_some_iff.1 hstep
    cases heq
    intro handle found hfound
    change (if marked[handle.1]? = some true then _ else none) = some found at hfound
    split at hfound
    · obtain ⟨value, hvalue, rfl⟩ := Option.map_eq_some_iff.1 hfound
      exact hkeeps handle value hvalue (h handle value hvalue)
    · cases hfound
  | restore streamed kind restoreRecord =>
    obtain ⟨restored, -, heq⟩ := Option.bind_eq_some_iff.1 hstep
    cases restored with
    | ok restored =>
      cases heq
      intro handle found hfound
      obtain ⟨value, hvalue, hrestored⟩ := Option.bind_eq_some_iff.1 hfound
      have hok : restoreRecord value = .ok found := by
        cases hresult : restoreRecord value with
        | ok result =>
          rw [hresult] at hrestored
          cases hrestored
          rfl
        | error message =>
          rw [hresult] at hrestored
          cases hrestored
      exact hkeeps handle value found hvalue (h handle value hvalue) hok
    | error message =>
      cases heq
      exact h

end

/-! ## Operations -/

namespace DatumRecord

/-- The datum has a value for each of its names. -/
def Paired (datum : DatumRecord) : Prop := datum.fields.names.length = datum.fields.values.length

theorem paired_owned (typePath : TypePath) (fields : List (FieldName × Value))
    (index : Option DatumFieldIndex) : Paired ⟨typePath, .owned fields, index⟩ :=
  (List.length_map _).trans (List.length_map _).symm

variable {datum : DatumRecord}

theorem Paired.setField (h : datum.Paired) (name : FieldName) (value : Value) :
    (datum.setField name value).Paired := by
  rw [DatumRecord.setField]
  split
  · split
    · show (datum.fields.setValue _ value).names.length = (datum.fields.setValue _ value).values.length
      rw [DatumFields.names_setValue, DatumFields.length_values_setValue]
      exact h
    · exact paired_owned _ _ _
  · exact paired_owned _ _ _

theorem Paired.deleteField (h : datum.Paired) (name : FieldName) :
    (datum.deleteField name).Paired := by
  rw [DatumRecord.deleteField]
  split
  · exact h
  · exact paired_owned _ _ _

theorem Paired.compactLayout (h : datum.Paired) (indexed : Bool) :
    (datum.compactLayout indexed).Paired := h

end DatumRecord

/-- An operation of a heap. -/
inductive HeapOp where
  | datums (op : ArenaOp DatumRecord) (paired : op.Keeps DatumRecord.Paired)
  | lists (op : ArenaOp DmList)

namespace HeapOp

def allocateDatum (typePath : TypePath) : HeapOp :=
  .datums (.allocate ⟨typePath, .owned [], none⟩) (DatumRecord.paired_owned _ _ _)

def setDatumField (id : DatumId) (name : FieldName) (value : Value) : HeapOp :=
  .datums (.update (id.index, id.generation) (·.setField name value)) fun _ h => h.setField name value

def deleteDatumField (id : DatumId) (name : FieldName) : HeapOp :=
  .datums (.update (id.index, id.generation) (·.deleteField name)) fun _ h => h.deleteField name

/-- `compact_datum_layout` -/
def compactDatumLayout (id : DatumId) (indexed : Bool) : HeapOp :=
  .datums (.update (id.index, id.generation) (·.compactLayout indexed)) fun _ h =>
    h.compactLayout indexed

def allocateList : HeapOp := .lists (.allocate DmList.empty)

/-- What is written through `list_mut`. -/
def changeList (id : ListId) (write : DmList → DmList) : HeapOp :=
  .lists (.update (id.index, id.generation) write)

/-- A list operation through `list_mut`; one that panics ends the run. -/
def applyList (hash : SemanticKey → Nat) (id : ListId) (op : ListOp) : HeapOp :=
  changeList id fun list => ((op.apply hash list).map (·.1)).getD list

end HeapOp

structure HeapHistory where
  datums : ArenaHistory DatumRecord
  lists : ArenaHistory DmList

def HeapOp.step (heap : ValueHeap) (history : HeapHistory) :
    HeapOp → Option (ValueHeap × HeapHistory)
  | .datums op _ => (op.step heap.datums history.datums).map fun next =>
    ({ heap with datums := next.1 }, { history with datums := next.2 })
  | .lists op => (op.step heap.lists history.lists).map fun next =>
    ({ heap with lists := next.1 }, { history with lists := next.2 })

def runHeap (heap : ValueHeap) (history : HeapHistory) : List HeapOp → Option (ValueHeap × HeapHistory)
  | [] => some (heap, history)
  | op :: ops => do
    let (heap, history) ← op.step heap history
    runHeap heap history ops

def ValueHeap.empty : ValueHeap := ⟨.empty, .empty⟩

def HeapHistory.empty : HeapHistory := ⟨.empty, .empty⟩

/-! ## Runs -/

structure HeapInv (heap : ValueHeap) (history : HeapHistory) : Prop where
  datums : ArenaInv heap.datums history.datums
  lists : ArenaInv heap.lists history.lists
  paired : history.datums.All DatumRecord.Paired

theorem heapInv_empty : HeapInv ValueHeap.empty HeapHistory.empty where
  datums := arenaInv_empty
  lists := arenaInv_empty
  paired handle datum hdatum := by cases hdatum

variable {heap : ValueHeap} {history after : HeapHistory}

theorem HeapInv.step (h : HeapInv heap history) {op : HeapOp} {next : ValueHeap}
    (hstep : op.step heap history = some (next, after)) : HeapInv next after := by
  cases op with
  | datums op paired =>
    obtain ⟨⟨arena, middle⟩, hop, heq⟩ := Option.map_eq_some_iff.1 hstep
    cases heq
    exact ⟨h.datums.step hop, h.lists, h.paired.step h.datums paired.keepsIn hop⟩
  | lists op =>
    obtain ⟨⟨arena, middle⟩, hop, heq⟩ := Option.map_eq_some_iff.1 hstep
    cases heq
    exact ⟨h.datums, h.lists.step hop, h.paired⟩

theorem HeapInv.run (h : HeapInv heap history) {ops : List HeapOp} {last : ValueHeap}
    (hrun : runHeap heap history ops = some (last, after)) : HeapInv last after := by
  induction ops generalizing heap history with
  | nil =>
    cases hrun
    exact h
  | cons op ops ih =>
    rw [runHeap] at hrun
    obtain ⟨⟨next, middle⟩, hstep, hrest⟩ := Option.bind_eq_some_iff.1 hrun
    exact ih (h.step hstep) hrest

theorem HeapInv.sound (h : HeapInv heap history) : heap.Sound where
  datums := h.datums.valid
  datumFree := h.datums.ids.freeIs
  lists := h.lists.valid
  listFree := h.lists.ids.freeIs

theorem HeapInv.recordsPaired (h : HeapInv heap history) : RecordsPaired heap.datums.slots := by
  intro slot hslot datum hdatum
  obtain ⟨index, hindex⟩ := List.mem_iff_getElem?.1 hslot
  exact h.paired _ datum ((h.datums.ids.facts hindex).record.trans hdatum)

/-- In every run the two writers write the same bytes. A section within the limits of the readers is
read back by both of them, as a heap with the same snapshot. On any bytes they accept the same and
make the same heap of it. -/
theorem heap_section_faithful (hash : SemanticKey → Nat) {ops : List HeapOp} {heap : ValueHeap}
    {after : HeapHistory}
    (hrun : runHeap ValueHeap.empty HeapHistory.empty ops = some (heap, after)) :
    writeHeap heap = heap.snapshot.map writeSnapshot ∧
    (∀ snapshot, heap.snapshot = some snapshot → FitsSnapshot snapshot → ∀ rest, ∃ restored,
      readHeap hash (writeSnapshot snapshot ++ rest) = .ok (restored, rest) ∧
      readSnapshot (writeSnapshot snapshot ++ rest) = .ok (snapshot, rest) ∧
      ValueHeap.fromSnapshot hash snapshot = .ok restored ∧
      restored.snapshot = some snapshot) ∧
    ∀ (bytes : Bytes) (read : ValueHeap) (rest : Bytes),
      readHeap hash bytes = .ok (read, rest) ↔ ∃ snapshot,
        readSnapshot bytes = .ok (snapshot, rest) ∧ ValueHeap.fromSnapshot hash snapshot = .ok read := by
  have hinv := heapInv_empty.run hrun
  refine ⟨writeHeap_eq fun slots hslots => ?_, fun snapshot hsnapshot hfits rest => ?_, makes_heap hash⟩
  · rw [hinv.datums.valid.snapshotSlots] at hslots
    cases hslots
    exact hinv.recordsPaired
  · have hread := codes_snapshot.read_write snapshot rest hfits
    obtain ⟨restored, hrestored, hsame⟩ := hinv.sound.restore hash hsnapshot
      fun slot hslot records hrecords => by
        have hcount := ((hfits.lists.2 slot hslot).2 records hrecords).1
        rw [maxEntries] at hcount
        omega
    exact ⟨restored, (makes_heap hash _ _ _).2 ⟨snapshot, hread, hrestored⟩, hread, hrestored, hsame⟩

/-- A datum with a field, and a list with a value and a value for the datum. -/
def smallHeapOps : List HeapOp :=
  [.allocateDatum ⟨"/obj", by decide⟩, .setDatumField ⟨0, 0⟩ ⟨"name", rfl⟩ (.text "box"),
    .allocateList, .applyList (fun _ => 0) ⟨0, 0⟩ (.add .null),
    .applyList (fun _ => 0) ⟨0, 0⟩ (.setKey (.datum ⟨0, 0⟩) (.list ⟨0, 0⟩))]

def smallHeapSnapshot : ValueHeapSnapshot where
  datums := [⟨0, some ⟨"/obj", [("name", .text "box")]⟩⟩]
  datumFree := []
  lists := [⟨0, some [.positional .null, .associative (.datum 0 0) (.list 0 0)]⟩]
  listFree := []

theorem smallHeap_run : ∃ heap after,
    runHeap ValueHeap.empty HeapHistory.empty smallHeapOps = some (heap, after) ∧
      heap.snapshot = some smallHeapSnapshot := by
  have hsome : (runHeap ValueHeap.empty HeapHistory.empty smallHeapOps).isSome = true := rfl
  have hsnapshots : (runHeap ValueHeap.empty HeapHistory.empty smallHeapOps).bind
      (fun last => last.1.snapshot) = some smallHeapSnapshot := rfl
  obtain ⟨⟨heap, after⟩, hrun⟩ := Option.isSome_iff_exists.1 hsome
  rw [hrun] at hsnapshots
  exact ⟨heap, after, hrun, hsnapshots⟩

theorem smallHeap_fits : FitsSnapshot smallHeapSnapshot := by
  refine ⟨⟨by decide, fun slot hslot => ?_⟩, ⟨by decide, fun index hmem => ?_⟩,
    ⟨by decide, fun slot hslot => ?_⟩, ⟨by decide, fun index hmem => ?_⟩⟩
  · rw [List.mem_singleton.1 hslot]
    refine ⟨show 0 < 256 ^ 4 by decide, fun datum hdatum => ?_⟩
    cases hdatum
    refine ⟨show (utf8 "/obj").length ≤ maxStringBytes by decide, by decide, fun field hfield => ?_⟩
    rw [List.mem_singleton.1 hfield]
    exact ⟨show (utf8 "name").length ≤ maxStringBytes by decide,
      show (utf8 "box").length ≤ maxStringBytes by decide⟩
  · exact absurd hmem List.not_mem_nil
  · rw [List.mem_singleton.1 hslot]
    refine ⟨show 0 < 256 ^ 4 by decide, fun records hrecords => ?_⟩
    cases hrecords
    refine ⟨by decide, fun entry hentry => ?_⟩
    rcases List.mem_pair.1 hentry with rfl | rfl
    · trivial
    · exact ⟨⟨Nat.two_pow_pos 32, Nat.two_pow_pos 32⟩, Nat.two_pow_pos 32, Nat.two_pow_pos 32⟩
  · exact absurd hmem List.not_mem_nil

theorem smallHeap_faithful : ∃ heap after,
    runHeap ValueHeap.empty HeapHistory.empty smallHeapOps = some (heap, after) ∧
      writeHeap heap = some (writeSnapshot smallHeapSnapshot) ∧
      ∃ restored, readHeap (fun _ => 0) (writeSnapshot smallHeapSnapshot ++ []) = .ok (restored, []) ∧
        restored.snapshot = some smallHeapSnapshot := by
  obtain ⟨heap, after, hrun, hsnapshot⟩ := smallHeap_run
  obtain ⟨hwrite, hread, -⟩ := heap_section_faithful (fun _ => 0) hrun
  obtain ⟨restored, hheap, -, -, hsame⟩ := hread smallHeapSnapshot hsnapshot smallHeap_fits []
  refine ⟨heap, after, hrun, ?_, restored, hheap, hsame⟩
  rw [hwrite, hsnapshot]
  rfl

/-! ## Every heap can be written -/

/-- An operation that puts only lists with a property into the heap. -/
def HeapOp.ListsKeep (p : DmList → Prop) (history : HeapHistory) : HeapOp → Prop
  | .datums _ _ => True
  | .lists op => op.KeepsIn p history.lists

/-- A run whose operations do so with the lists that they come to. -/
def RunListsKeep (p : DmList → Prop) : ValueHeap → HeapHistory → List HeapOp → Prop
  | _, _, [] => True
  | heap, history, op :: ops => op.ListsKeep p history ∧
    ∀ next after, op.step heap history = some (next, after) → RunListsKeep p next after ops

theorem ArenaHistory.All.run {p : DmList → Prop} {last : ValueHeap} {ops : List HeapOp}
    (h : history.lists.All p) (hinv : HeapInv heap history)
    (hkeeps : RunListsKeep p heap history ops)
    (hrun : runHeap heap history ops = some (last, after)) : after.lists.All p := by
  induction ops generalizing heap history with
  | nil =>
    cases hrun
    exact h
  | cons op ops ih =>
    obtain ⟨⟨next, middle⟩, hstep, hrest⟩ := Option.bind_eq_some_iff.1 hrun
    refine ih ?_ (hinv.step hstep) (hkeeps.2 next middle hstep) hrest
    have hop := hkeeps.1
    cases op with
    | datums op paired =>
      obtain ⟨_, -, heq⟩ := Option.map_eq_some_iff.1 hstep
      cases heq
      exact h
    | lists op =>
      obtain ⟨⟨arena, lists⟩, hlists, heq⟩ := Option.map_eq_some_iff.1 hstep
      cases heq
      exact h.step hinv.lists hop hlists

/-- The list is a sequence of entries. -/
def IsSequence (hash : SemanticKey → Nat) (list : DmList) : Prop :=
  ∃ entries, Represents hash list entries

/-- A list operation with room on a sequence of entries leaves one. -/
theorem isSequence_apply {hash : SemanticKey → Nat} {list : DmList} {op : ListOp}
    {entries : List Entry} (h : Represents hash list entries) (hroom : op.HasRoom list)
    (hbelow : (op.spec entries).1.length < 2 ^ 31) :
    IsSequence hash (((op.apply hash list).map (·.1)).getD list) := by
  obtain ⟨next, hnext, hrepresents⟩ := step_refines h hroom hbelow
  rw [hnext]
  exact ⟨_, hrepresents⟩

/-- A run whose lists are sequences of entries ends in a heap that is written, as its snapshot. -/
theorem run_written {hash : SemanticKey → Nat} {ops : List HeapOp} {heap : ValueHeap}
    {after : HeapHistory}
    (hkeeps : RunListsKeep (IsSequence hash) ValueHeap.empty HeapHistory.empty ops)
    (hrun : runHeap ValueHeap.empty HeapHistory.empty ops = some (heap, after)) :
    ∃ snapshot, heap.snapshot = some snapshot ∧ writeHeap heap = some (writeSnapshot snapshot) := by
  have hinv := heapInv_empty.run hrun
  have hall := ArenaHistory.All.run (fun _ _ h => by cases h) heapInv_empty hkeeps hrun
  obtain ⟨snapshot, hsnapshot⟩ := hinv.sound.exists_snapshot fun slot hslot list hlist => by
    obtain ⟨index, hindex⟩ := List.mem_iff_getElem?.1 hslot
    exact hall _ list ((hinv.lists.ids.facts hindex).record.trans hlist)
  refine ⟨snapshot, hsnapshot, ?_⟩
  rw [writeHeap_eq fun slots hslots => ?_, hsnapshot]
  · rfl
  · rw [hinv.datums.valid.snapshotSlots] at hslots
    cases hslots
    exact hinv.recordsPaired

theorem smallHeap_written : ∃ heap after,
    runHeap ValueHeap.empty HeapHistory.empty smallHeapOps = some (heap, after) ∧
      ∃ snapshot, heap.snapshot = some snapshot ∧ writeHeap heap = some (writeSnapshot snapshot) := by
  have hkeeps : RunListsKeep (IsSequence fun _ => 0) ValueHeap.empty HeapHistory.empty
      smallHeapOps := by
    refine ⟨trivial, fun _ _ hdatum => ?_⟩
    cases hdatum
    refine ⟨trivial, fun _ _ hfield => ?_⟩
    cases hfield
    refine ⟨⟨[], empty_represents⟩, fun _ _ hlist => ?_⟩
    cases hlist
    refine ⟨fun list hrecord _ => ?_, fun _ _ hadd => ?_⟩
    · cases hrecord
      exact isSequence_apply empty_represents Nat.one_le_two_pow (Nat.one_lt_two_pow (by decide))
    · cases hadd
      refine ⟨fun list hrecord _ => ?_, fun _ _ _ => trivial⟩
      cases hrecord
      obtain ⟨next, hnext, hrepresents⟩ := @step_refines (fun _ => 0) _ _ empty_represents
        (.add .null) Nat.one_le_two_pow (Nat.one_lt_two_pow (by decide))
      cases hnext
      exact isSequence_apply hrepresents trivial (by decide)
  obtain ⟨heap, after, hrun, -⟩ := smallHeap_run
  exact ⟨heap, after, hrun, run_written hkeeps hrun⟩

end Dream64
