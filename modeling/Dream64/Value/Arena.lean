import Dream64.Library.Chunks

/-!
# Arenas

An arena keeps its values in slots, and a handle is the index of a slot with the
generation it had when the value came. Removing a value makes the next
generation, so that old handles are stale, until there is no next one. Free
slots are used again, the last one first. Where the code panics the functions
give `none`.
-/

namespace Dream64

structure ArenaSlot (α : Type) where
  generation : Nat
  value : Option α

structure Arena (α : Type) where
  chunks : List (List (ArenaSlot α))
  slotLen : Nat
  /-- The last one is popped first. -/
  free : List Nat
  live : Nat

/-- The index of a slot and its generation. -/
abbrev Handle := Nat × Nat

namespace Arena

variable {α : Type}

def chunkSlots : Nat := 16 * 1024

/-- `u32::MAX` -/
def maxGeneration : Nat := 2 ^ 32 - 1

def empty : Arena α := ⟨[], 0, [], 0⟩

def slot (arena : Arena α) (index : Nat) : Option (ArenaSlot α) :=
  Chunks.get chunkSlots arena.chunks index

def setSlot (arena : Arena α) (index : Nat) (slot : ArenaSlot α) : Arena α :=
  { arena with chunks := Chunks.modify chunkSlots arena.chunks index fun _ => slot }

def pushSlot (arena : Arena α) (slot : ArenaSlot α) : Arena α :=
  { arena with
    chunks := Chunks.push chunkSlots slot arena.chunks
    slotLen := arena.slotLen + 1 }

def insert (arena : Arena α) (value : α) : Option (Arena α × Handle) :=
  match arena.free.getLast? with
  | some index => do
    let slot ← arena.slot index
    some ({ arena.setSlot index ⟨slot.generation, some value⟩ with
      free := arena.free.dropLast
      live := arena.live + 1 }, (index, slot.generation))
  | none =>
    if arena.slotLen < 2 ^ 32 then
      some ({ arena.pushSlot ⟨0, some value⟩ with live := arena.live + 1 }, (arena.slotLen, 0))
    else none

def get (arena : Arena α) (handle : Handle) : Option α :=
  (arena.slot handle.1).bind fun slot =>
    if slot.generation = handle.2 then slot.value else none

/-- What is written through `get_mut`. -/
def update (arena : Arena α) (handle : Handle) (write : α → α) : Arena α :=
  match arena.slot handle.1 with
  | some slot =>
    if slot.generation = handle.2 then
      arena.setSlot handle.1 ⟨slot.generation, slot.value.map write⟩
    else arena
  | none => arena

/-- The slot after its value is gone, and whether it may be used again. -/
def vacate (generation : Nat) : ArenaSlot α × Bool :=
  if generation < maxGeneration then (⟨generation + 1, none⟩, true) else (⟨generation, none⟩, false)

def remove (arena : Arena α) (handle : Handle) : Option (Arena α × Option α) :=
  match arena.slot handle.1 with
  | none => some (arena, none)
  | some slot =>
    if slot.generation = handle.2 then
      match slot.value with
      | none => some (arena, none)
      | some value =>
        let vacated : ArenaSlot α × Bool := vacate slot.generation
        if arena.live = 0 then none
        else some ({ arena.setSlot handle.1 vacated.1 with
          live := arena.live - 1
          free := if vacated.2 then arena.free ++ [handle.1] else arena.free }, some value)
    else some (arena, none)

/-- One slot of a sweep, with the number of values that were reclaimed. What is done to a value that
is retained may depend on those before it. -/
def sweepSlot (marked : List Bool) (visitRetained : Nat → α → α) (state : Arena α × Nat) (index : Nat) :
    Option (Arena α × Nat) := do
  let mark ← marked[index]?
  match state.1.slot index with
  | none => some state
  | some slot =>
    if mark then
      some (state.1.setSlot index ⟨slot.generation, slot.value.map (visitRetained index)⟩, state.2)
    else if slot.value.isNone then some state
    else if index < 2 ^ 32 then do
      let (arena, removed) ← state.1.remove (index, slot.generation)
      some (arena, if removed.isSome then state.2 + 1 else state.2)
    else none

def sweepUnmarkedWith (arena : Arena α) (marked : List Bool) (visitRetained : Nat → α → α) :
    Option (Arena α × Nat) :=
  (List.range arena.slotLen).foldlM (sweepSlot marked visitRetained) (arena, 0)

/-! ## Snapshots -/

/-- The slots for a snapshot. -/
def snapshotSlots (arena : Arena α) : Option (List (ArenaSlot α)) :=
  (List.range arena.slotLen).mapM arena.slot

/-- Marks the places of a free list as seen, each of them a vacant slot. -/
def seeFree (kind : String) (slots : Nat → Option (ArenaSlot α)) (slotLen : Nat) :
    List Bool → List Nat → Except String (List Bool)
  | seen, [] => .ok seen
  | seen, index :: free =>
    if slotLen ≤ index ∨ seen[index]? = some true ∨
        (slots index).any fun slot => slot.value.isSome then
      .error s!"{kind} free list contains invalid slot {index}"
    else seeFree kind slots slotLen (seen.set index true) free

/-- A vacant slot that the free list must have and has not. -/
def absent (slots : Nat → Option (ArenaSlot α)) (seen : List Bool) (index : Nat) : Bool :=
  ((slots index).any fun slot => slot.value.isNone && slot.generation != maxGeneration) &&
    seen[index]? != some true

def checkFree (kind : String) (slots : Nat → Option (ArenaSlot α)) (slotLen : Nat)
    (free : List Nat) : Except String Unit := do
  let seen ← seeFree kind slots slotLen (List.replicate slotLen false) free
  match (List.range slotLen).find? (absent slots seen) with
  | some index => .error s!"{kind} vacant slot {index} is absent from its free list"
  | none => .ok ()

def pushSnapshotSlot (arena : Arena α) (slot : ArenaSlot α) : Arena α :=
  { arena.pushSlot slot with live := arena.live + if slot.value.isSome then 1 else 0 }

def installSnapshotFree (arena : Arena α) (free : List Nat) (kind : String) :
    Except String (Arena α) := do
  checkFree kind arena.slot arena.slotLen free
  .ok { arena with free := free }

/-- `arena_from_snapshot_slots` -/
def fromSnapshotSlots (slots : List (ArenaSlot α)) (free : List Nat) (kind : String) :
    Except String (Arena α) := do
  checkFree kind (slots[·]?) slots.length free
  .ok
    { chunks := Chunks.chunksOf chunkSlots slots
      slotLen := slots.length
      free := free
      live := (slots.filter fun slot => slot.value.isSome).length }

/-- What the streaming reader does with the slots. -/
def readSnapshotSlots (slots : List (ArenaSlot α)) (free : List Nat) (kind : String) :
    Except String (Arena α) :=
  (slots.foldl pushSnapshotSlot empty).installSnapshotFree free kind

/-- A slot whose record is restored. -/
def restoreSlot (restoreRecord : α → Except String α) (slot : ArenaSlot α) :
    Except String (ArenaSlot α) :=
  match slot.value with
  | none => .ok ⟨slot.generation, none⟩
  | some value => do
    let value ← restoreRecord value
    .ok ⟨slot.generation, some value⟩

/-- A snapshot, and the arena that either reader makes of it. -/
def restore (arena : Arena α) (streamed : Bool) (kind : String)
    (restoreRecord : α → Except String α) : Option (Except String (Arena α)) := do
  let slots ← arena.snapshotSlots
  some do
    let slots ← slots.mapM (restoreSlot restoreRecord)
    if streamed then readSnapshotSlots slots arena.free kind
    else fromSnapshotSlots slots arena.free kind

end Arena

end Dream64
