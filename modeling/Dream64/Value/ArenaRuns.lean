import Dream64.Value.Arena

/-!
# Identities of an arena

Over a whole run an arena gives every handle at most once. The invariant is
about the slots one behind the other, and about the history of the run: a slot
has had handles up to its generation, and it is free when its next handle has
not been given.
-/

namespace Dream64

namespace Arena

variable {α : Type} {arena : Arena α} {index : Nat}

/-! ## The slots one behind the other -/

def slots (arena : Arena α) : List (ArenaSlot α) := arena.chunks.flatten

/-- The chunks are a vector of so many slots. -/
structure Valid (arena : Arena α) : Prop where
  chunked : Chunks.Chunked chunkSlots arena.chunks
  length : arena.slotLen = arena.slots.length

theorem chunkSlots_pos : 0 < chunkSlots := by decide

theorem Valid.slot_eq (h : arena.Valid) (index : Nat) : arena.slot index = arena.slots[index]? :=
  Chunks.get_eq_flatten chunkSlots_pos h.chunked index

theorem Valid.slots_setSlot (h : arena.Valid) (index : Nat) (slot : ArenaSlot α) :
    (arena.setSlot index slot).slots = arena.slots.set index slot := by
  show (Chunks.modify chunkSlots arena.chunks index fun _ => slot).flatten = _
  rw [Chunks.modify_flatten chunkSlots_pos h.chunked]
  apply List.ext_getElem?
  intro i
  rw [List.getElem?_modify, List.getElem?_set]
  show _ = if index = i then if index < arena.chunks.flatten.length then some slot else none
    else arena.chunks.flatten[i]?
  by_cases heq : index = i
  · subst heq
    rcases Nat.lt_or_ge index arena.chunks.flatten.length with hlt | hge
    · rw [List.getElem?_eq_getElem hlt, if_pos rfl, if_pos hlt]
      simp
    · rw [List.getElem?_eq_none hge, if_pos rfl, if_neg (by omega)]
      rfl
  · simp [heq]

theorem Valid.setSlot (h : arena.Valid) (index : Nat) (slot : ArenaSlot α) :
    (arena.setSlot index slot).Valid := by
  refine ⟨h.chunked.modify index _, ?_⟩
  rw [h.slots_setSlot, List.length_set]
  exact h.length

theorem slots_pushSlot (arena : Arena α) (slot : ArenaSlot α) :
    (arena.pushSlot slot).slots = arena.slots ++ [slot] :=
  Chunks.push_flatten chunkSlots slot arena.chunks

theorem Valid.pushSlot (h : arena.Valid) (slot : ArenaSlot α) : (arena.pushSlot slot).Valid := by
  refine ⟨h.chunked.push chunkSlots_pos slot, ?_⟩
  rw [slots_pushSlot, List.length_append, List.length_singleton, ← h.length]
  rfl

/-- What a handle resolves to. -/
def resolve (slots : List (ArenaSlot α)) (handle : Handle) : Option α :=
  slots[handle.1]?.bind fun slot => if slot.generation = handle.2 then slot.value else none

theorem Valid.get_eq (h : arena.Valid) (handle : Handle) :
    arena.get handle = resolve arena.slots handle := by
  rw [get, resolve, h.slot_eq]

theorem resolve_set {slots : List (ArenaSlot α)} (hlt : index < slots.length) (slot : ArenaSlot α)
    (handle : Handle) : resolve (slots.set index slot) handle =
      if index = handle.1 then if slot.generation = handle.2 then slot.value else none
      else resolve slots handle := by
  rw [resolve, List.getElem?_set]
  by_cases heq : index = handle.1
  · rw [if_pos heq, if_pos heq, if_pos hlt]
    rfl
  · rw [if_neg heq, if_neg heq]
    rfl

theorem resolve_append (slots : List (ArenaSlot α)) (slot : ArenaSlot α) (handle : Handle) :
    resolve (slots ++ [slot]) handle =
      if slots.length = handle.1 then if slot.generation = handle.2 then slot.value else none
      else resolve slots handle := by
  rw [resolve, resolve]
  rcases Nat.lt_trichotomy handle.1 slots.length with hlt | heq | hgt
  · rw [List.getElem?_append_left hlt, if_neg (by omega)]
  · rw [heq, List.getElem?_concat_length, if_pos rfl]
    rfl
  · rw [List.getElem?_eq_none (by rw [List.length_append, List.length_singleton]; omega),
      List.getElem?_eq_none (by omega), if_neg (by omega)]

/-- Slots with a value. -/
def occupied (slots : List (ArenaSlot α)) : Nat := slots.countP fun slot => slot.value.isSome

theorem occupied_set {slots : List (ArenaSlot α)} {old : ArenaSlot α} (hold : slots[index]? = some old)
    (slot : ArenaSlot α) :
    occupied (slots.set index slot) + (if old.value.isSome then 1 else 0) =
      occupied slots + if slot.value.isSome then 1 else 0 := by
  obtain ⟨hlt, rfl⟩ := List.getElem?_eq_some_iff.1 hold
  have hpos : slots[index].value.isSome = true → 0 < slots.countP fun slot => slot.value.isSome :=
    fun hsome => List.countP_pos_iff.2 ⟨_, List.getElem_mem hlt, hsome⟩
  rw [occupied, occupied, List.countP_set hlt]
  by_cases hsome : slots[index].value.isSome = true
  · have hcount := hpos hsome
    simp only [hsome, if_true]
    omega
  · simp only [hsome, Bool.false_eq_true, if_false]
    omega

end Arena

/-! ## Histories -/

/-- What a run has given: the handles that were returned, those that were removed, and the records of
the others. -/
structure ArenaHistory (α : Type) where
  returned : List Handle
  removed : Set Handle
  records : Handle → Option α

namespace ArenaHistory

variable {α : Type}

def empty : ArenaHistory α := ⟨[], ∅, fun _ => none⟩

def allocate (history : ArenaHistory α) (handle : Handle) (value : α) : ArenaHistory α :=
  { history with
    returned := history.returned ++ [handle]
    records := Function.update history.records handle (some value) }

def update (history : ArenaHistory α) (handle : Handle) (write : α → α) : ArenaHistory α :=
  { history with
    records := Function.update history.records handle ((history.records handle).map write) }

def remove (history : ArenaHistory α) (handle : Handle) : ArenaHistory α :=
  { history with
    removed := insert handle history.removed
    records := Function.update history.records handle none }

/-- What is not marked is removed. -/
def collect (history : ArenaHistory α) (marked : List Bool) (visitRetained : Nat → α → α) : ArenaHistory α :=
  { history with
    removed := history.removed ∪
      {handle | history.records handle ≠ none ∧ marked[handle.1]? ≠ some true}
    records := fun handle => if marked[handle.1]? = some true then
      (history.records handle).map (visitRetained handle.1) else none }

def restore (history : ArenaHistory α) (restoreRecord : α → Except String α) : ArenaHistory α :=
  { history with
    records := fun handle => (history.records handle).bind fun value =>
      (restoreRecord value).toOption }

end ArenaHistory

variable {α : Type} {arena : Arena α} {history : ArenaHistory α} {index : Nat}

inductive ArenaOp (α : Type) where
  | allocate (value : α)
  | copy (source : Handle)
  | update (handle : Handle) (write : α → α)
  | destroy (handle : Handle)
  | collect (marked : List Bool) (visitRetained : Nat → α → α)
  | restore (streamed : Bool) (kind : String) (restoreRecord : α → Except String α)

/-- An operation, with what it adds to the history. A restore that fails leaves the arena. -/
def ArenaOp.step (arena : Arena α) (history : ArenaHistory α) :
    ArenaOp α → Option (Arena α × ArenaHistory α)
  | .allocate value => do
    let (arena, handle) ← arena.insert value
    some (arena, history.allocate handle value)
  | .copy source =>
    match arena.get source with
    | none => some (arena, history)
    | some value => do
      let (arena, handle) ← arena.insert value
      some (arena, history.allocate handle value)
  | .update handle write => some (arena.update handle write, history.update handle write)
  | .destroy handle => do
    let (arena, removed) ← arena.remove handle
    some (arena, if removed.isSome then history.remove handle else history)
  | .collect marked visitRetained => do
    let (arena, _) ← arena.sweepUnmarkedWith marked visitRetained
    some (arena, history.collect marked visitRetained)
  | .restore streamed kind restoreRecord => do
    let restored ← arena.restore streamed kind restoreRecord
    match restored with
    | .ok arena => some (arena, history.restore restoreRecord)
    | .error _ => some (arena, history)

def runArena (arena : Arena α) (history : ArenaHistory α) :
    List (ArenaOp α) → Option (Arena α × ArenaHistory α)
  | [] => some (arena, history)
  | op :: ops => do
    let (arena, history) ← op.step arena history
    runArena arena history ops

/-! ## The invariant -/

/-- What a slot and the free list say about the handles of its index. -/
structure SlotFacts (history : ArenaHistory α) (free : List Nat) (index : Nat) (slot : ArenaSlot α) :
    Prop where
  small : slot.generation ≤ Arena.maxGeneration
  record : history.records (index, slot.generation) = slot.value
  stale : ∀ generation, generation ≠ slot.generation → history.records (index, generation) = none
  /-- A slot has had handles up to its generation. -/
  bounded : ∀ generation, (index, generation) ∈ history.returned → generation ≤ slot.generation
  occupied : slot.value ≠ none → (index, slot.generation) ∈ history.returned
  retired : slot.value = none → (index, slot.generation) ∈ history.returned →
    slot.generation = Arena.maxGeneration
  free_iff : index ∈ free ↔ slot.value = none ∧ (index, slot.generation) ∉ history.returned
  removed : ∀ generation, (index, generation) ∈ history.removed ↔
    (index, generation) ∈ history.returned ∧ history.records (index, generation) = none

/-- An index without a slot has no handles. -/
structure Unused (history : ArenaHistory α) (free : List Nat) (index : Nat) : Prop where
  returned : ∀ generation, (index, generation) ∉ history.returned
  removed : ∀ generation, (index, generation) ∉ history.removed
  records : ∀ generation, history.records (index, generation) = none
  free : index ∉ free

def SlotAt (history : ArenaHistory α) (free : List Nat) (index : Nat) :
    Option (ArenaSlot α) → Prop
  | none => Unused history free index
  | some slot => SlotFacts history free index slot

/-- The history of a run, slot by slot. -/
structure SlotInv (slots : List (ArenaSlot α)) (free : List Nat) (history : ArenaHistory α) :
    Prop where
  nodup : history.returned.Nodup
  free_nodup : free.Nodup
  at_index : ∀ index, SlotAt history free index slots[index]?

structure ArenaInv (arena : Arena α) (history : ArenaHistory α) : Prop where
  valid : arena.Valid
  live : arena.live = Arena.occupied arena.slots
  ids : SlotInv arena.slots arena.free history

theorem arenaInv_empty : ArenaInv (Arena.empty : Arena α) ArenaHistory.empty where
  valid := ⟨trivial, rfl⟩
  live := rfl
  ids :=
    { nodup := List.nodup_nil
      free_nodup := List.nodup_nil
      at_index := fun _ => ⟨fun _ => List.not_mem_nil, fun _ => Set.notMem_empty _,
        fun _ => rfl, List.not_mem_nil⟩ }

variable {slots : List (ArenaSlot α)} {free : List Nat} {slot new : ArenaSlot α} {handle : Handle}

section

variable (h : SlotInv slots free history)

include h

theorem SlotInv.facts (hslot : slots[index]? = some slot) : SlotFacts history free index slot := by
  have hat := h.at_index index
  rwa [hslot] at hat

theorem SlotInv.unused (hslot : slots[index]? = none) : Unused history free index := by
  have hat := h.at_index index
  rwa [hslot] at hat

theorem SlotInv.resolves (handle : Handle) :
    Arena.resolve slots handle = history.records handle := by
  rw [Arena.resolve]
  cases hslot : slots[handle.1]? with
  | none => exact ((h.unused hslot).records handle.2).symm
  | some slot =>
    rw [Option.bind_some]
    split
    · rename_i heq
      rw [← (h.facts hslot).record, heq]
    · rename_i hne
      exact ((h.facts hslot).stale _ (Ne.symm hne)).symm

/-- What was never given is not recorded. -/
theorem SlotInv.records_fresh (hfresh : handle ∉ history.returned) :
    history.records handle = none := by
  obtain ⟨index, generation⟩ := handle
  cases hslot : slots[index]? with
  | none => exact (h.unused hslot).records generation
  | some slot =>
    have hfacts := h.facts hslot
    by_cases heq : generation = slot.generation
    · subst heq
      by_contra hsome
      exact hfresh (hfacts.occupied (hfacts.record ▸ hsome))
    · exact hfacts.stale generation heq

theorem SlotInv.removed_iff (handle : Handle) : handle ∈ history.removed ↔
    handle ∈ history.returned ∧ history.records handle = none := by
  cases hslot : slots[handle.1]? with
  | none =>
    have hunused := h.unused hslot
    exact ⟨fun hmem => absurd hmem (hunused.removed handle.2),
      fun hmem => absurd hmem.1 (hunused.returned handle.2)⟩
  | some slot => exact (h.facts hslot).removed handle.2

theorem SlotInv.free_iff (index : Nat) : index ∈ free ↔ ∃ slot, slots[index]? = some slot ∧
    slot.value = none ∧ (index, slot.generation) ∉ history.returned := by
  cases hslot : slots[index]? with
  | none =>
    refine ⟨fun hmem => absurd hmem (h.unused hslot).free, ?_⟩
    rintro ⟨slot, hsome, -⟩
    cases hsome
  | some slot =>
    rw [(h.facts hslot).free_iff]
    simp only [Option.some.injEq, exists_eq_left']

end

/-! ## What a step leaves alone -/

/-- The histories agree on the handles of an index. -/
structure ArenaHistory.SameAt (history other : ArenaHistory α) (index : Nat) : Prop where
  returned : ∀ generation,
    (index, generation) ∈ other.returned ↔ (index, generation) ∈ history.returned
  removed : ∀ generation,
    (index, generation) ∈ other.removed ↔ (index, generation) ∈ history.removed
  records : ∀ generation, other.records (index, generation) = history.records (index, generation)

variable {other : ArenaHistory α} {free' : List Nat}

namespace ArenaHistory.SameAt

theorem refl : history.SameAt history index :=
  ⟨fun _ => Iff.rfl, fun _ => Iff.rfl, fun _ => rfl⟩

theorem trans {last : ArenaHistory α} (h : history.SameAt other index)
    (h' : other.SameAt last index) : history.SameAt last index :=
  ⟨fun g => (h'.returned g).trans (h.returned g), fun g => (h'.removed g).trans (h.removed g),
    fun g => (h'.records g).trans (h.records g)⟩

theorem symm (h : history.SameAt other index) : other.SameAt history index :=
  ⟨fun g => (h.returned g).symm, fun g => (h.removed g).symm, fun g => (h.records g).symm⟩

section

variable (hne : index ≠ handle.1)

include hne

theorem allocate (value : α) : history.SameAt (history.allocate handle value) index := by
  have hother (g : Nat) : (index, g) ≠ handle := fun heq => hne (congrArg Prod.fst heq)
  refine ⟨fun g => ?_, fun _ => Iff.rfl, fun g => Function.update_of_ne (hother g) ..⟩
  show _ ∈ history.returned ++ [handle] ↔ _
  rw [List.mem_append, List.mem_singleton, or_iff_left (hother g)]

theorem update (write : α → α) : history.SameAt (history.update handle write) index :=
  ⟨fun _ => Iff.rfl, fun _ => Iff.rfl,
    fun _ => Function.update_of_ne (fun heq => hne (congrArg Prod.fst heq)) ..⟩

theorem remove : history.SameAt (history.remove handle) index := by
  have hother (g : Nat) : (index, g) ≠ handle := fun heq => hne (congrArg Prod.fst heq)
  refine ⟨fun _ => Iff.rfl, fun g => ?_, fun g => Function.update_of_ne (hother g) ..⟩
  show _ ∈ insert handle history.removed ↔ _
  rw [Set.mem_insert_iff, or_iff_right (hother g)]

end

end ArenaHistory.SameAt

theorem SlotAt.frame {found : Option (ArenaSlot α)} (h : SlotAt history free index found)
    (hsame : history.SameAt other index) (hfree : index ∈ free' ↔ index ∈ free) :
    SlotAt other free' index found := by
  cases found with
  | none =>
    exact ⟨fun g => mt (hsame.returned g).1 (h.returned g),
      fun g => mt (hsame.removed g).1 (h.removed g),
      fun g => (hsame.records g).trans (h.records g), mt hfree.1 h.free⟩
  | some slot =>
    exact {
      small := h.small
      record := (hsame.records _).trans h.record
      stale := fun g hne => (hsame.records g).trans (h.stale g hne)
      bounded := fun g hmem => h.bounded g ((hsame.returned g).1 hmem)
      occupied := fun hvalue => (hsame.returned _).2 (h.occupied hvalue)
      retired := fun hvalue hmem => h.retired hvalue ((hsame.returned _).1 hmem)
      free_iff := by rw [hfree, hsame.returned]; exact h.free_iff
      removed := fun g => by rw [hsame.removed, hsame.returned, hsame.records]; exact h.removed g }

/-- A step on one slot. -/
theorem SlotInv.replace {slots' : List (ArenaSlot α)} (h : SlotInv slots free history)
    (hnodup : other.returned.Nodup) (hfree : free'.Nodup)
    (hslots : ∀ i, i ≠ index → slots'[i]? = slots[i]?) (hslot : slots'[index]? = some new)
    (hsame : ∀ i, i ≠ index → history.SameAt other i) (hmem : ∀ i, i ≠ index → (i ∈ free' ↔ i ∈ free))
    (hat : SlotFacts other free' index new) : SlotInv slots' free' other where
  nodup := hnodup
  free_nodup := hfree
  at_index i := by
    by_cases heq : i = index
    · rw [heq, hslot]
      exact hat
    · rw [hslots i heq]
      exact (h.at_index i).frame (hsame i heq) (hmem i heq)

/-- A step on one of the slots there are. -/
theorem SlotInv.set (h : SlotInv slots free history) (hold : slots[index]? = some slot)
    (hnodup : other.returned.Nodup) (hfree : free'.Nodup)
    (hsame : ∀ i, i ≠ index → history.SameAt other i) (hmem : ∀ i, i ≠ index → (i ∈ free' ↔ i ∈ free))
    (hat : SlotFacts other free' index new) : SlotInv (slots.set index new) free' other :=
  h.replace hnodup hfree (fun _ hne => List.getElem?_set_ne (Ne.symm hne))
    (List.getElem?_set_self (List.getElem?_eq_some_iff.1 hold).1) hsame hmem hat

theorem SlotInv.nodup_allocate (h : SlotInv slots free history) (hnew : handle ∉ history.returned) :
    (history.returned ++ [handle]).Nodup := by
  rw [← List.concat_eq_append]
  exact h.nodup.concat hnew

/-! ## Steps on the slots -/

/-- A handle that was never given, with its first value. -/
theorem slotFacts_allocate {generation : Nat} (hsmall : generation ≤ Arena.maxGeneration)
    (hnew : (index, generation) ∉ history.returned)
    (hrecords : ∀ g, history.records (index, g) = none)
    (hbounded : ∀ g, (index, g) ∈ history.returned → g ≤ generation) (hfree : index ∉ free)
    (hremoved : ∀ g, (index, g) ∈ history.removed ↔ (index, g) ∈ history.returned) (value : α) :
    SlotFacts (history.allocate (index, generation) value) free index ⟨generation, some value⟩ where
  small := hsmall
  record := Function.update_self ..
  stale g hne := by
    have hother : (index, g) ≠ (index, generation) := fun heq => hne (congrArg Prod.snd heq)
    exact (Function.update_of_ne hother ..).trans (hrecords g)
  bounded g hmem := by
    rcases List.mem_append.1 hmem with hmem | hmem
    · exact hbounded g hmem
    · exact (congrArg Prod.snd (List.mem_singleton.1 hmem)).le
  occupied _ := List.mem_append_right _ (List.mem_singleton_self _)
  retired hnone := by cases hnone
  free_iff := ⟨fun hmem => absurd hmem hfree, fun hand => by cases hand.1⟩
  removed g := by
    show (index, g) ∈ history.removed ↔ (index, g) ∈ history.returned ++ [(index, generation)] ∧
      Function.update history.records (index, generation) (some value) (index, g) = none
    rw [hremoved]
    by_cases heq : (index, g) = (index, generation)
    · rw [heq, Function.update_self]
      exact ⟨fun hmem => absurd hmem hnew, fun hmem => by cases hmem.2⟩
    · rw [Function.update_of_ne heq, List.mem_append, List.mem_singleton, or_iff_left heq,
        and_iff_left (hrecords g)]

/-- A free slot takes a value, under a handle that was never given. -/
theorem SlotInv.reuse (h : SlotInv slots (free ++ [index]) history)
    (hslot : slots[index]? = some slot) (value : α) :
    SlotInv (slots.set index ⟨slot.generation, some value⟩) free
      (history.allocate (index, slot.generation) value) := by
  have hold := h.facts hslot
  obtain ⟨hfree, -, hdisjoint⟩ := List.nodup_append.1 h.free_nodup
  obtain ⟨hvacant, hnew⟩ :=
    hold.free_iff.1 (List.mem_append_right _ (List.mem_singleton_self index))
  have hrecords (g : Nat) : history.records (index, g) = none := by
    by_cases heq : g = slot.generation
    · rw [heq, hold.record, hvacant]
    · exact hold.stale g heq
  refine h.set hslot (h.nodup_allocate hnew) hfree (fun i hne => .allocate hne value)
    (fun i hne => ?_) (slotFacts_allocate hold.small hnew hrecords hold.bounded ?_ ?_ value)
  · rw [List.mem_append, List.mem_singleton, or_iff_left hne]
  · exact fun hmem => hdisjoint index hmem index (List.mem_singleton_self index) rfl
  · exact fun g => (hold.removed g).trans (and_iff_left (hrecords g))

/-- A new slot, with its first handle. -/
theorem SlotInv.grow (h : SlotInv slots free history) (value : α) :
    SlotInv (slots ++ [⟨0, some value⟩]) free (history.allocate (slots.length, 0) value) := by
  have hunused := h.unused (List.getElem?_eq_none (Nat.le_refl slots.length))
  refine h.replace (h.nodup_allocate (hunused.returned 0)) h.free_nodup (fun i hne => ?_)
    List.getElem?_concat_length (fun i hne => .allocate hne value) (fun _ _ => Iff.rfl)
    (slotFacts_allocate (Nat.zero_le _) (hunused.returned 0) hunused.records
      (fun g hmem => absurd hmem (hunused.returned g)) hunused.free (fun g => ?_) value)
  · rcases Nat.lt_or_gt_of_ne hne with hlt | hgt
    · exact List.getElem?_append_left hlt
    · rw [List.getElem?_eq_none (by rw [List.length_append, List.length_singleton]; omega),
        List.getElem?_eq_none (Nat.le_of_lt hgt)]
  · exact iff_of_false (hunused.removed g) (hunused.returned g)

/-- The record of a slot changes. -/
theorem SlotInv.write (h : SlotInv slots free history) (hslot : slots[index]? = some slot)
    (write : α → α) : SlotInv (slots.set index ⟨slot.generation, slot.value.map write⟩) free
      (history.update (index, slot.generation) write) := by
  have hold := h.facts hslot
  have hnone : slot.value.map write = none ↔ slot.value = none := Option.map_eq_none_iff
  have hrecord : (history.update (index, slot.generation) write).records (index, slot.generation) =
      slot.value.map write := (Function.update_self ..).trans (by rw [hold.record])
  have hother {g : Nat} (hne : g ≠ slot.generation) :
      (history.update (index, slot.generation) write).records (index, g) =
        history.records (index, g) :=
    Function.update_of_ne (fun heq => hne (congrArg Prod.snd heq)) ..
  refine h.set hslot h.nodup h.free_nodup (fun i hne => .update hne write) (fun _ _ => Iff.rfl) ?_
  exact {
    small := hold.small
    record := hrecord
    stale := fun g hne => (hother hne).trans (hold.stale g hne)
    bounded := hold.bounded
    occupied := fun hvalue => hold.occupied (mt hnone.2 hvalue)
    retired := fun hvalue => hold.retired (hnone.1 hvalue)
    free_iff := hold.free_iff.trans (and_congr_left fun _ => hnone.symm)
    removed := fun g => by
      refine (hold.removed g).trans (and_congr_right fun _ => ?_)
      by_cases heq : g = slot.generation
      · rw [heq, hrecord, hnone, hold.record]
      · rw [hother heq] }

/-- The value of a slot goes, and its handle is stale from now on. -/
theorem SlotInv.vacate (h : SlotInv slots free history) (hslot : slots[index]? = some slot)
    (hvalue : slot.value ≠ none) :
    SlotInv (slots.set index (Arena.vacate slot.generation).1)
      (if (Arena.vacate slot.generation : ArenaSlot α × Bool).2 then free ++ [index] else free)
      (history.remove (index, slot.generation)) := by
  have hold := h.facts hslot
  have hreturned := hold.occupied hvalue
  have hnot : index ∉ free := fun hmem => hvalue (hold.free_iff.1 hmem).1
  have hrecords (g : Nat) : (history.remove (index, slot.generation)).records (index, g) = none := by
    by_cases heq : g = slot.generation
    · rw [heq]
      exact Function.update_self ..
    · exact (Function.update_of_ne (fun hsame => heq (congrArg Prod.snd hsame)) ..).trans
        (hold.stale g heq)
  have hremoved (g : Nat) : (index, g) ∈ (history.remove (index, slot.generation)).removed ↔
      (index, g) ∈ history.returned ∧
        (history.remove (index, slot.generation)).records (index, g) = none := by
    show (index, g) ∈ insert (index, slot.generation) history.removed ↔ _
    rw [Set.mem_insert_iff, hold.removed, and_iff_left (hrecords g)]
    by_cases heq : g = slot.generation
    · rw [heq]
      exact iff_of_true (Or.inl rfl) hreturned
    · rw [hold.stale g heq, and_iff_left rfl, or_iff_right fun hsame => heq (congrArg Prod.snd hsame)]
  rw [Arena.vacate]
  split
  · rename_i hlt
    -- the next handle of the slot is new
    have hnext : (index, slot.generation + 1) ∉ history.returned := fun hmem =>
      Nat.not_succ_le_self _ (hold.bounded _ hmem)
    refine h.set hslot h.nodup ?_ (fun i hne => .remove hne) (fun i hne => ?_) ?_
    · rw [if_pos rfl, ← List.concat_eq_append]
      exact h.free_nodup.concat hnot
    · rw [if_pos rfl, List.mem_append, List.mem_singleton, or_iff_left hne]
    · exact {
        small := hlt
        record := hrecords _
        stale := fun g _ => hrecords g
        bounded := fun g hmem => Nat.le_succ_of_le (hold.bounded g hmem)
        occupied := fun hsome => absurd rfl hsome
        retired := fun _ hmem => absurd hmem hnext
        free_iff := iff_of_true (List.mem_append_right _ (List.mem_singleton_self index)) ⟨rfl, hnext⟩
        removed := hremoved }
  · rename_i hge
    refine h.set hslot h.nodup h.free_nodup (fun i hne => .remove hne) (fun _ _ => Iff.rfl) ?_
    exact {
      small := hold.small
      record := hrecords _
      stale := fun g _ => hrecords g
      bounded := hold.bounded
      occupied := fun hsome => absurd rfl hsome
      retired := fun _ _ => Nat.le_antisymm hold.small (Nat.le_of_not_lt hge)
      free_iff := iff_of_false hnot fun hand => hand.2 hreturned
      removed := hremoved }

/-! ## Steps of the arena -/

variable {next : Arena α}

theorem ArenaInv.insert (h : ArenaInv arena history) {value : α}
    (hinsert : arena.insert value = some (next, handle)) :
    ArenaInv next (history.allocate handle value) := by
  have hids := h.ids
  rw [Arena.insert] at hinsert
  cases hfree : arena.free.getLast? with
  | some index =>
    obtain ⟨init, hinit⟩ := List.getLast?_eq_some_iff.1 hfree
    rw [hfree] at hinsert
    simp only [Option.bind_eq_bind] at hinsert
    obtain ⟨slot, hslot, heq⟩ := Option.bind_eq_some_iff.1 hinsert
    cases heq
    rw [h.valid.slot_eq] at hslot
    rw [hinit] at hids
    have hvacant : slot.value = none :=
      ((hids.facts hslot).free_iff.1 (List.mem_append_right _ (List.mem_singleton_self index))).1
    have hset := h.valid.setSlot index ⟨slot.generation, some value⟩
    have hslots := h.valid.slots_setSlot index ⟨slot.generation, some value⟩
    refine ⟨⟨hset.chunked, hset.length⟩, ?_, ?_⟩
    · show arena.live + 1 = Arena.occupied (arena.setSlot index ⟨slot.generation, some value⟩).slots
      have hcount := Arena.occupied_set hslot ⟨slot.generation, some value⟩
      rw [hvacant] at hcount
      rw [hslots, h.live]
      exact hcount.symm
    · show SlotInv (arena.setSlot index _).slots arena.free.dropLast _
      rw [hslots, hinit, List.dropLast_concat]
      exact hids.reuse hslot value
  | none =>
    rw [hfree] at hinsert
    simp only at hinsert
    split at hinsert
    · cases hinsert
      have hpush := h.valid.pushSlot ⟨0, some value⟩
      have hslots := Arena.slots_pushSlot arena ⟨0, some value⟩
      refine ⟨⟨hpush.chunked, hpush.length⟩, ?_, ?_⟩
      · show arena.live + 1 = Arena.occupied (arena.pushSlot ⟨0, some value⟩).slots
        rw [hslots, Arena.occupied, List.countP_append, h.live]
        rfl
      · show SlotInv (arena.pushSlot ⟨0, some value⟩).slots arena.free
          (history.allocate (arena.slotLen, 0) value)
        rw [hslots, h.valid.length]
        exact hids.grow value
    · cases hinsert

/-- A slot that is written. -/
theorem ArenaInv.setSlot (h : ArenaInv arena history) (hslot : arena.slots[index]? = some slot)
    (write : α → α) :
    ArenaInv (arena.setSlot index ⟨slot.generation, slot.value.map write⟩)
      (history.update (index, slot.generation) write) := by
  have hslots := h.valid.slots_setSlot index ⟨slot.generation, slot.value.map write⟩
  refine ⟨h.valid.setSlot index _, ?_, ?_⟩
  · show arena.live = _
    have hcount := Arena.occupied_set hslot ⟨slot.generation, slot.value.map write⟩
    rw [Option.isSome_map] at hcount
    rw [hslots, h.live]
    omega
  · rw [hslots]
    exact h.ids.write hslot write

theorem ArenaHistory.update_none (hnone : history.records handle = none) (write : α → α) :
    history.update handle write = history := by
  rw [ArenaHistory.update, hnone]
  show ArenaHistory.mk _ _ (Function.update history.records handle none) = _
  rw [← hnone, Function.update_eq_self]

theorem ArenaInv.update (h : ArenaInv arena history) (handle : Handle) (write : α → α) :
    ArenaInv (arena.update handle write) (history.update handle write) := by
  rw [Arena.update, h.valid.slot_eq]
  cases hslot : arena.slots[handle.1]? with
  | none =>
    rwa [ArenaHistory.update_none ((h.ids.unused hslot).records handle.2)]
  | some slot =>
    simp only
    split
    · rename_i heq
      have hset := h.setSlot hslot write
      rwa [heq] at hset ⊢
    · rename_i hne
      rwa [ArenaHistory.update_none ((h.ids.facts hslot).stale _ (Ne.symm hne))]

/-- A removal does nothing, or the record of the handle goes. -/
theorem ArenaInv.remove (h : ArenaInv arena history) {removed : Option α}
    (hremove : arena.remove handle = some (next, removed)) :
    removed = history.records handle ∧ next.slotLen = arena.slotLen ∧
      ArenaInv next (if removed.isSome then history.remove handle else history) := by
  rw [Arena.remove, h.valid.slot_eq] at hremove
  cases hslot : arena.slots[handle.1]? with
  | none =>
    rw [hslot] at hremove
    cases hremove
    exact ⟨((h.ids.unused hslot).records handle.2).symm, rfl, h⟩
  | some slot =>
    rw [hslot] at hremove
    simp only at hremove
    by_cases hgeneration : slot.generation = handle.2
    · rw [if_pos hgeneration] at hremove
      have hrecord := (h.ids.facts hslot).record
      rw [hgeneration] at hrecord
      cases hvalue : slot.value with
      | none =>
        rw [hvalue] at hremove hrecord
        cases hremove
        exact ⟨hrecord.symm, rfl, h⟩
      | some value =>
        rw [hvalue] at hremove hrecord
        simp only at hremove
        split at hremove
        · cases hremove
        · cases hremove
          have hset := h.valid.setSlot handle.1 (Arena.vacate slot.generation).1
          have hslots := h.valid.slots_setSlot handle.1 (Arena.vacate slot.generation).1
          refine ⟨hrecord.symm, rfl, ⟨hset.chunked, hset.length⟩, ?_, ?_⟩
          · show arena.live - 1 =
              Arena.occupied (arena.setSlot handle.1 (Arena.vacate slot.generation).1).slots
            have hcount := Arena.occupied_set hslot (Arena.vacate slot.generation).1
            have hvacant : (Arena.vacate slot.generation : ArenaSlot α × Bool).1.value = none := by
              rw [Arena.vacate]
              split <;> rfl
            rw [hvalue, hvacant] at hcount
            simp only [Option.isSome_some, if_true, Option.isSome_none, Bool.false_eq_true,
              if_false] at hcount
            rw [hslots, h.live]
            omega
          · show SlotInv (arena.setSlot handle.1 (Arena.vacate slot.generation).1).slots _
              (history.remove handle)
            rw [hslots]
            have hvacate := h.ids.vacate hslot (by rw [hvalue]; exact Option.some_ne_none value)
            rwa [hgeneration] at hvacate ⊢
    · rw [if_neg hgeneration] at hremove
      cases hremove
      exact ⟨((h.ids.facts hslot).stale _ (Ne.symm hgeneration)).symm, rfl, h⟩

/-! ## Sweeps -/

/-- A history that is collected below an index. -/
structure ArenaHistory.Swept (history middle : ArenaHistory α) (marked : List Bool)
    (visitRetained : Nat → α → α) (count : Nat) : Prop where
  returned : middle.returned = history.returned
  below : ∀ i, i < count → (history.collect marked visitRetained).SameAt middle i
  above : ∀ i, count ≤ i → history.SameAt middle i

variable {marked : List Bool} {visitRetained : Nat → α → α} {count : Nat} {middle : ArenaHistory α}

theorem ArenaHistory.Swept.succ (h : history.Swept middle marked visitRetained count)
    (hreturned : other.returned = middle.returned) (hother : ∀ i, i ≠ count → middle.SameAt other i)
    (hat : (history.collect marked visitRetained).SameAt other count) :
    history.Swept other marked visitRetained (count + 1) where
  returned := hreturned.trans h.returned
  below i hlt := by
    rcases Nat.lt_succ_iff_lt_or_eq.1 hlt with hlt | rfl
    · exact (h.below i hlt).trans (hother i hlt.ne)
    · exact hat
  above i hle := (h.above i (Nat.le_of_lt hle)).trans (hother i (Nat.ne_of_gt hle))

/-- Nothing is recorded at an index. -/
theorem sameAt_collect (hnone : ∀ g, history.records (index, g) = none) :
    (history.collect marked visitRetained).SameAt history index where
  returned _ := Iff.rfl
  removed g := ⟨Or.inl, fun hmem => hmem.resolve_right fun hand => hand.1 (hnone g)⟩
  records g := by
    show _ = if _ then (history.records (index, g)).map _ else none
    rw [hnone]
    exact (ite_self _).symm

theorem ArenaInv.sweepSlot (h : ArenaInv arena middle)
    (hswept : history.Swept middle marked visitRetained count) {reclaimed : Nat}
    {next : Arena α × Nat}
    (hsweep : Arena.sweepSlot marked visitRetained (arena, reclaimed) count = some next) :
    ∃ other, ArenaInv next.1 other ∧ history.Swept other marked visitRetained (count + 1) ∧
      next.1.slotLen = arena.slotLen := by
  have hsame := hswept.above count (Nat.le_refl count)
  -- an index without a record stays as it is
  have hkept (hnone : ∀ g, middle.records (count, g) = none) :
      history.Swept middle marked visitRetained (count + 1) :=
    hswept.succ rfl (fun _ _ => .refl)
      ((sameAt_collect fun g => (hsame.records g).symm.trans (hnone g)).trans hsame)
  rw [Arena.sweepSlot, h.valid.slot_eq] at hsweep
  simp only [Option.bind_eq_bind] at hsweep
  obtain ⟨mark, hmark, hsweep⟩ := Option.bind_eq_some_iff.1 hsweep
  cases hslot : arena.slots[count]? with
  | none =>
    rw [hslot] at hsweep
    cases hsweep
    exact ⟨middle, h, hkept (h.ids.unused hslot).records, rfl⟩
  | some slot =>
    rw [hslot] at hsweep
    have hold := h.ids.facts hslot
    simp only at hsweep
    cases mark with
    | true =>
      rw [if_pos rfl] at hsweep
      cases hsweep
      refine ⟨_, h.setSlot hslot (visitRetained count), hswept.succ rfl (fun i hne => .update hne _)
        ⟨hsame.returned, fun g => (hsame.removed g).trans ?_, fun g => ?_⟩, rfl⟩
      · exact ⟨Or.inl, fun hmem => hmem.resolve_right fun hand => hand.2 hmark⟩
      · show _ = if marked[count]? = some true then (history.records (count, g)).map _ else none
        rw [if_pos hmark, ← hsame.records]
        by_cases heq : g = slot.generation
        · rw [heq]
          exact Function.update_self ..
        · rw [hold.stale g heq]
          exact (Function.update_of_ne (fun hand => heq (congrArg Prod.snd hand)) ..).trans
            (hold.stale g heq)
    | false =>
      have hunmarked : marked[count]? ≠ some true := by
        rw [hmark]
        simp
      rw [if_neg Bool.false_ne_true] at hsweep
      cases hvalue : slot.value with
      | none =>
        rw [hvalue] at hsweep
        cases hsweep
        refine ⟨middle, h, hkept fun g => ?_, rfl⟩
        by_cases heq : g = slot.generation
        · rw [heq, hold.record, hvalue]
        · exact hold.stale g heq
      | some value =>
        rw [hvalue] at hsweep
        rw [if_neg (by simp)] at hsweep
        split at hsweep
        · obtain ⟨⟨swept, removed⟩, hremoved, heq⟩ := Option.bind_eq_some_iff.1 hsweep
          cases heq
          obtain ⟨hfound, hlen, hinv⟩ := h.remove hremoved
          rw [hfound, hold.record, hvalue] at hinv
          refine ⟨_, hinv, hswept.succ rfl (fun i hne => .remove hne)
            ⟨hsame.returned, fun g => ?_, fun g => ?_⟩, hlen⟩
          · refine Set.mem_insert_iff.trans ?_
            show _ ∨ _ ↔ _ ∈ history.removed ∨
              history.records (count, g) ≠ none ∧ marked[count]? ≠ some true
            rw [hsame.removed, ← hsame.records, and_iff_left hunmarked, or_comm]
            refine or_congr_right ⟨fun heq => ?_, fun hsome => ?_⟩
            · rw [heq, hold.record, hvalue]
              exact Option.some_ne_none value
            · by_contra hne
              exact hsome (hold.stale g fun heq => hne (by rw [heq]))
          · show _ = if marked[count]? = some true then _ else none
            rw [if_neg hunmarked]
            by_cases heq : g = slot.generation
            · rw [heq]
              exact Function.update_self ..
            · exact (Function.update_of_ne (fun hand => heq (congrArg Prod.snd hand)) ..).trans
                (hold.stale g heq)
        · cases hsweep

theorem ArenaInv.sweep (h : ArenaInv arena history) {swept : Arena α} {reclaimed : Nat}
    (hsweep : arena.sweepUnmarkedWith marked visitRetained = some (swept, reclaimed)) :
    ArenaInv swept (history.collect marked visitRetained) := by
  have hbelow (count : Nat) (next : Arena α × Nat)
      (hfold : (List.range count).foldlM (Arena.sweepSlot marked visitRetained) (arena, 0) =
        some next) : ∃ middle, ArenaInv next.1 middle ∧
        history.Swept middle marked visitRetained count ∧ next.1.slotLen = arena.slotLen := by
    induction count generalizing next with
    | zero =>
      cases hfold
      exact ⟨history, h, ⟨rfl, fun i hlt => absurd hlt (Nat.not_lt_zero i), fun _ _ => .refl⟩, rfl⟩
    | succ count ih =>
      rw [List.range_succ, List.foldlM_append] at hfold
      obtain ⟨state, hstate, hlast⟩ := Option.bind_eq_some_iff.1 hfold
      obtain ⟨middle, hinv, hswept, hlen⟩ := ih state hstate
      rw [List.foldlM_cons] at hlast
      obtain ⟨next', hnext, heq⟩ := Option.bind_eq_some_iff.1 hlast
      cases heq
      obtain ⟨other, hinv', hswept', hlen'⟩ := hinv.sweepSlot hswept hnext
      exact ⟨other, hinv', hswept', hlen'.trans hlen⟩
  obtain ⟨middle, hinv, hswept, -⟩ := hbelow arena.slotLen _ hsweep
  refine ⟨hinv.valid, hinv.live, h.ids.nodup, hinv.ids.free_nodup, fun index => ?_⟩
  refine (hinv.ids.at_index index).frame ?_ Iff.rfl
  rcases Nat.lt_or_ge index arena.slotLen with hlt | hge
  · exact (hswept.below index hlt).symm
  · have hunused := h.ids.unused (List.getElem?_eq_none (h.valid.length ▸ hge))
    exact (hswept.above index hge).symm.trans (sameAt_collect hunused.records).symm

/-! ## Restores -/

theorem mapM_range_getElem? {values : List α} {count : Nat} (hcount : count ≤ values.length) :
    (List.range count).mapM (fun i => values[i]?) = some (values.take count) := by
  induction count with
  | zero => rfl
  | succ count ih =>
    have hlt : count < values.length := hcount
    rw [List.range_succ, List.mapM_append, ih (Nat.le_of_lt hlt), List.mapM_cons, List.mapM_nil,
      List.getElem?_eq_getElem hlt, List.take_add_one, List.getElem?_eq_getElem hlt]
    rfl

theorem Arena.Valid.snapshotSlots (h : arena.Valid) : arena.snapshotSlots = some arena.slots := by
  have hslot : arena.slot = fun index => arena.slots[index]? := funext h.slot_eq
  rw [Arena.snapshotSlots, hslot, mapM_range_getElem? h.length.le, h.length, List.take_length]

/-- A slot after its record is restored. -/
structure RestoredSlot (restoreRecord : α → Except String α) (slot new : ArenaSlot α) : Prop where
  generation : new.generation = slot.generation
  none_iff : new.value = none ↔ slot.value = none
  value : new.value = slot.value.bind fun value => (restoreRecord value).toOption

variable {restoreRecord : α → Except String α}

theorem restoreSlot_ok (h : Arena.restoreSlot restoreRecord slot = .ok new) :
    RestoredSlot restoreRecord slot new := by
  rw [Arena.restoreSlot] at h
  cases hvalue : slot.value with
  | none =>
    rw [hvalue] at h
    cases h
    exact ⟨rfl, by rw [hvalue], by rw [hvalue]; rfl⟩
  | some value =>
    rw [hvalue] at h
    simp only at h
    cases hrestored : restoreRecord value with
    | error message =>
      rw [hrestored] at h
      cases h
    | ok restored =>
      rw [hrestored] at h
      cases h
      refine ⟨rfl, by simp [hvalue], ?_⟩
      rw [hvalue, Option.bind_some, hrestored]
      rfl

variable {restored : List (ArenaSlot α)}

theorem mapM_restoreSlot {slots : List (ArenaSlot α)}
    (h : slots.mapM (Arena.restoreSlot restoreRecord) = .ok restored) (index : Nat) :
    Option.Rel (RestoredSlot restoreRecord) slots[index]? restored[index]? := by
  induction slots generalizing restored index with
  | nil =>
    cases h
    exact .none
  | cons slot slots ih =>
    rw [List.mapM_cons] at h
    cases hnew : Arena.restoreSlot restoreRecord slot with
    | error message =>
      rw [hnew] at h
      cases h
    | ok new =>
      cases hrest : slots.mapM (Arena.restoreSlot restoreRecord) with
      | error message =>
        rw [hnew, hrest] at h
        cases h
      | ok rest =>
        rw [hnew, hrest] at h
        cases h
        cases index with
        | zero => exact .some (restoreSlot_ok hnew)
        | succ index => exact ih hrest index

theorem SlotAt.restore {old found : Option (ArenaSlot α)} (h : SlotAt history free index old)
    (hrestored : Option.Rel (RestoredSlot restoreRecord) old found) :
    SlotAt (history.restore restoreRecord) free index found := by
  cases hrestored with
  | none =>
    exact ⟨h.returned, h.removed, fun g => by
      show (history.records (index, g)).bind _ = none
      rw [h.records]
      rfl, h.free⟩
  | some hslot =>
    rename_i slot new
    have hrecord : (history.restore restoreRecord).records (index, new.generation) = new.value := by
      show (history.records (index, new.generation)).bind _ = _
      rw [hslot.generation, h.record, hslot.value]
    have hstale (g : Nat) (hne : g ≠ new.generation) :
        (history.restore restoreRecord).records (index, g) = none := by
      show (history.records (index, g)).bind _ = none
      rw [h.stale g (hslot.generation ▸ hne)]
      rfl
    exact {
      small := by rw [hslot.generation]; exact h.small
      record := hrecord
      stale := hstale
      bounded := by rw [hslot.generation]; exact h.bounded
      occupied := fun hsome => by
        rw [hslot.generation]
        exact h.occupied (mt hslot.none_iff.2 hsome)
      retired := by rw [hslot.generation, hslot.none_iff]; exact h.retired
      free_iff := by rw [hslot.generation, hslot.none_iff]; exact h.free_iff
      removed := fun g => by
        refine (h.removed g).trans (and_congr_right fun _ => ?_)
        by_cases heq : g = new.generation
        · rw [heq, hrecord, hslot.none_iff, hslot.generation, h.record]
        · rw [hstale g heq, h.stale g (hslot.generation ▸ heq)] }

theorem SlotInv.restore (h : SlotInv slots free history)
    (hrestored : ∀ index : Nat,
      Option.Rel (RestoredSlot restoreRecord) slots[index]? restored[index]?) :
    SlotInv restored free (history.restore restoreRecord) :=
  ⟨h.nodup, h.free_nodup, fun index => (h.at_index index).restore (hrestored index)⟩

theorem foldl_pushSnapshotSlot (pushed : List (ArenaSlot α)) (h : arena.Valid)
    (hlive : arena.live = Arena.occupied arena.slots) :
    (pushed.foldl Arena.pushSnapshotSlot arena).Valid ∧
      (pushed.foldl Arena.pushSnapshotSlot arena).slots = arena.slots ++ pushed ∧
      (pushed.foldl Arena.pushSnapshotSlot arena).live = Arena.occupied (arena.slots ++ pushed) := by
  induction pushed generalizing arena with
  | nil => exact ⟨h, (List.append_nil _).symm, by rwa [List.append_nil]⟩
  | cons slot pushed ih =>
    have hpush := h.pushSlot slot
    have hslots := Arena.slots_pushSlot arena slot
    have hcount : (arena.pushSnapshotSlot slot).live =
        Arena.occupied (arena.pushSnapshotSlot slot).slots := by
      show arena.live + _ = Arena.occupied (arena.pushSlot slot).slots
      rw [hslots, hlive, Arena.occupied, Arena.occupied, List.countP_append, List.countP_singleton]
    obtain ⟨hvalid, hall, hliveAll⟩ :=
      @ih (arena.pushSnapshotSlot slot) ⟨hpush.chunked, hpush.length⟩ hcount
    have hpushed : (arena.pushSnapshotSlot slot).slots ++ pushed = arena.slots ++ slot :: pushed := by
      show (arena.pushSlot slot).slots ++ pushed = _
      rw [hslots, List.append_assoc]
      rfl
    rw [hpushed] at hall hliveAll
    exact ⟨hvalid, hall, hliveAll⟩

variable {kind : String}

/-- Both readers make an arena of the slots, with the free list. -/
theorem fromSnapshotSlots_ok (h : Arena.fromSnapshotSlots slots free kind = .ok next) :
    next.Valid ∧ next.live = Arena.occupied next.slots ∧ next.slots = slots ∧ next.free = free := by
  rw [Arena.fromSnapshotSlots] at h
  cases hcheck : Arena.checkFree kind (slots[·]?) slots.length free with
  | error message =>
    rw [hcheck] at h
    cases h
  | ok checked =>
    rw [hcheck] at h
    cases h
    have hflatten := Chunks.chunksOf_flatten Arena.chunkSlots_pos slots
    refine ⟨⟨Chunks.chunked_chunksOf Arena.chunkSlots_pos slots, ?_⟩, ?_, hflatten, rfl⟩
    · exact (congrArg List.length hflatten).symm
    · show (slots.filter _).length = (Chunks.chunksOf Arena.chunkSlots slots).flatten.countP _
      rw [hflatten, List.countP_eq_length_filter]

theorem readSnapshotSlots_ok (h : Arena.readSnapshotSlots slots free kind = .ok next) :
    next.Valid ∧ next.live = Arena.occupied next.slots ∧ next.slots = slots ∧ next.free = free := by
  obtain ⟨hvalid, hslots, hlive⟩ :=
    @foldl_pushSnapshotSlot _ Arena.empty slots ⟨trivial, rfl⟩ rfl
  rw [Arena.readSnapshotSlots, Arena.installSnapshotFree] at h
  generalize hpushed : slots.foldl Arena.pushSnapshotSlot Arena.empty = pushed at h hvalid hslots hlive
  cases hcheck : Arena.checkFree kind pushed.slot pushed.slotLen free with
  | error message =>
    rw [hcheck] at h
    cases h
  | ok checked =>
    rw [hcheck] at h
    cases h
    refine ⟨⟨hvalid.chunked, hvalid.length⟩, ?_, hslots, rfl⟩
    show pushed.live = Arena.occupied pushed.slots
    rw [hlive, hslots]

theorem ArenaInv.restore (h : ArenaInv arena history) {streamed : Bool}
    (hrestore : arena.restore streamed kind restoreRecord = some (.ok next)) :
    ArenaInv next (history.restore restoreRecord) := by
  rw [Arena.restore, h.valid.snapshotSlots] at hrestore
  have hread := Option.some.inj hrestore
  cases hslots : arena.slots.mapM (Arena.restoreSlot restoreRecord) with
  | error message =>
    rw [hslots] at hread
    cases hread
  | ok restored =>
    rw [hslots] at hread
    change (if streamed then Arena.readSnapshotSlots restored arena.free kind
      else Arena.fromSnapshotSlots restored arena.free kind) = .ok next at hread
    have hids := h.ids.restore (mapM_restoreSlot hslots)
    have hnext : next.Valid ∧ next.live = Arena.occupied next.slots ∧ next.slots = restored ∧
        next.free = arena.free := by
      cases streamed with
      | true => exact readSnapshotSlots_ok hread
      | false => exact fromSnapshotSlots_ok hread
    obtain ⟨hvalid, hlive, hnextSlots, hnextFree⟩ := hnext
    refine ⟨hvalid, hlive, ?_⟩
    rw [hnextSlots, hnextFree]
    exact hids

/-! ## Runs -/

theorem ArenaInv.step (h : ArenaInv arena history) {op : ArenaOp α} {after : ArenaHistory α}
    (hstep : op.step arena history = some (next, after)) : ArenaInv next after := by
  cases op with
  | allocate value =>
    obtain ⟨⟨inserted, handle⟩, hinsert, heq⟩ := Option.bind_eq_some_iff.1 hstep
    cases heq
    exact h.insert hinsert
  | copy source =>
    rw [ArenaOp.step] at hstep
    cases hsource : arena.get source with
    | none =>
      rw [hsource] at hstep
      cases hstep
      exact h
    | some value =>
      rw [hsource] at hstep
      obtain ⟨⟨inserted, handle⟩, hinsert, heq⟩ := Option.bind_eq_some_iff.1 hstep
      cases heq
      exact h.insert hinsert
  | update handle write =>
    cases hstep
    exact h.update handle write
  | destroy handle =>
    obtain ⟨⟨left, removed⟩, hremove, heq⟩ := Option.bind_eq_some_iff.1 hstep
    cases heq
    exact (h.remove hremove).2.2
  | collect marked visitRetained =>
    obtain ⟨⟨swept, reclaimed⟩, hsweep, heq⟩ := Option.bind_eq_some_iff.1 hstep
    cases heq
    exact h.sweep hsweep
  | restore streamed kind restoreRecord =>
    obtain ⟨restored, hrestore, heq⟩ := Option.bind_eq_some_iff.1 hstep
    cases restored with
    | ok restored =>
      cases heq
      exact h.restore hrestore
    | error message =>
      cases heq
      exact h

theorem ArenaInv.run (h : ArenaInv arena history) {ops : List (ArenaOp α)} {last : Arena α}
    {after : ArenaHistory α} (hrun : runArena arena history ops = some (last, after)) :
    ArenaInv last after := by
  induction ops generalizing arena history with
  | nil =>
    cases hrun
    exact h
  | cons op ops ih =>
    rw [runArena] at hrun
    obtain ⟨⟨next, middle⟩, hstep, hrest⟩ := Option.bind_eq_some_iff.1 hrun
    exact ih (h.step hstep) hrest

/-- A vacant slot whose last handle, that of the last generation, was removed. -/
def Retired (arena : Arena α) (history : ArenaHistory α) (index : Nat) : Prop :=
  ∃ slot, arena.slot index = some slot ∧ slot.value = none ∧
    slot.generation = Arena.maxGeneration ∧ (index, Arena.maxGeneration) ∈ history.removed

/-- What holds of the handles of an arena and of its free list. -/
structure Identities (arena : Arena α) (history : ArenaHistory α) : Prop where
  returned_once : history.returned.Nodup
  removed_stale : ∀ handle ∈ history.removed, arena.get handle = none
  resolves : ∀ handle ∈ history.returned, handle ∉ history.removed →
    ∃ value, history.records handle = some value ∧ arena.get handle = some value
  others_stale : ∀ handle, handle ∉ history.returned → arena.get handle = none
  live : arena.live = ((List.range arena.slotLen).filter fun index =>
    (arena.slot index).any fun slot => slot.value.isSome).length
  free_once : arena.free.Nodup
  free_iff : ∀ index, index ∈ arena.free ↔
    (∃ slot, arena.slot index = some slot ∧ slot.value = none) ∧ ¬ Retired arena history index

theorem countP_range_getElem? {values : List α} (p : α → Bool) {count : Nat}
    (hcount : count ≤ values.length) :
    (List.range count).countP (fun i => values[i]?.any p) = (values.take count).countP p := by
  induction count with
  | zero => rfl
  | succ count ih =>
    have hlt : count < values.length := hcount
    rw [List.range_succ, List.countP_append, ih (Nat.le_of_lt hlt), List.take_add_one,
      List.countP_append, List.getElem?_eq_getElem hlt, List.countP_singleton,
      List.getElem?_eq_getElem hlt]
    show _ + (if p values[count] = true then 1 else 0) = _ + List.countP p [values[count]]
    rw [List.countP_singleton]

theorem ArenaInv.identities (h : ArenaInv arena history) : Identities arena history := by
  have hids := h.ids
  have hget (handle : Handle) : arena.get handle = history.records handle := by
    rw [h.valid.get_eq, hids.resolves]
  refine ⟨hids.nodup, fun handle hremoved => ?_, fun handle hreturned hnot => ?_,
    fun handle hnot => ?_, ?_, hids.free_nodup, fun index => ?_⟩
  · rw [hget]
    exact ((hids.removed_iff handle).1 hremoved).2
  · rw [hget]
    cases hrecord : history.records handle with
    | none => exact absurd ((hids.removed_iff handle).2 ⟨hreturned, hrecord⟩) hnot
    | some value => exact ⟨value, rfl, rfl⟩
  · rw [hget]
    exact hids.records_fresh hnot
  · have hcount := @countP_range_getElem? _ arena.slots
      (fun slot => slot.value.isSome) _ (Nat.le_refl _)
    rw [List.take_length] at hcount
    rw [h.live, Arena.occupied, ← hcount, ← h.valid.length, List.countP_eq_length_filter]
    refine congrArg List.length (List.filter_congr fun index _ => ?_)
    rw [h.valid.slot_eq]
  · rw [hids.free_iff, h.valid.slot_eq]
    constructor
    · rintro ⟨slot, hslot, hvalue, hnew⟩
      refine ⟨⟨slot, hslot, hvalue⟩, ?_⟩
      rintro ⟨found, hfound, -, hgeneration, hremoved⟩
      rw [h.valid.slot_eq, hslot, Option.some.injEq] at hfound
      rw [← hfound] at hgeneration
      rw [hgeneration] at hnew
      exact hnew ((hids.removed_iff _).1 hremoved).1
    · rintro ⟨⟨slot, hslot, hvalue⟩, hretired⟩
      have hfacts := hids.facts hslot
      refine ⟨slot, hslot, hvalue, fun hreturned => hretired ?_⟩
      have hgeneration := hfacts.retired hvalue hreturned
      have hrecord := hfacts.record
      rw [hgeneration] at hreturned hrecord
      rw [hvalue] at hrecord
      exact ⟨slot, by rw [h.valid.slot_eq, hslot], hvalue, hgeneration,
        (hids.removed_iff _).2 ⟨hreturned, hrecord⟩⟩

/-- In a run from an empty arena no handle comes back, and none that was removed resolves again. -/
theorem arena_identities {ops : List (ArenaOp α)} {last : Arena α} {after : ArenaHistory α}
    (hrun : runArena Arena.empty ArenaHistory.empty ops = some (last, after)) :
    Identities last after :=
  (arenaInv_empty.run hrun).identities

/-- A slot is used again under its next generation, also behind a snapshot. -/
theorem reusedSlot_identities : ∃ last after, runArena (Arena.empty : Arena Nat) ArenaHistory.empty
    [.allocate 5, .allocate 6, .destroy (0, 0), .restore true "list" .ok, .allocate 7,
      .collect [true, false] fun _ value => value] = some (last, after) ∧
      after.returned = [(0, 0), (1, 0), (0, 1)] ∧ Identities last after := by
  have hrun : (runArena (Arena.empty : Arena Nat) ArenaHistory.empty
      [.allocate 5, .allocate 6, .destroy (0, 0), .restore true "list" .ok, .allocate 7,
        .collect [true, false] fun _ value => value]).map (fun state => state.2.returned) =
      some [(0, 0), (1, 0), (0, 1)] := rfl
  obtain ⟨⟨last, after⟩, hlast, hreturned⟩ := Option.map_eq_some_iff.1 hrun
  exact ⟨last, after, hlast, hreturned, arena_identities hlast⟩

/-! ## Arenas with one value -/

/-- The arena in which only this value was allocated. -/
def loneArena (value : α) : Arena α := ⟨[[⟨0, some value⟩]], 1, [], 1⟩

def loneHistory (value : α) : ArenaHistory α := ArenaHistory.empty.allocate (0, 0) value

theorem loneArena_reached (value : α) :
    runArena Arena.empty ArenaHistory.empty [.allocate value] =
      some (loneArena value, loneHistory value) := rfl

theorem loneArena_get {value found : α} (h : (loneArena value).get handle = some found) :
    value = found := by
  have hinv := arenaInv_empty.run (loneArena_reached value)
  rw [hinv.valid.get_eq, hinv.ids.resolves, loneHistory, ArenaHistory.allocate] at h
  by_cases hhandle : handle = (0, 0)
  · rw [hhandle] at h
    exact Option.some.inj h
  · have hnone : Function.update (fun _ => none) (0, 0) (some value) handle = (none : Option α) :=
      Function.update_of_ne hhandle ..
    exact absurd (hnone.symm.trans h) (fun heq => by cases heq)

end Dream64
