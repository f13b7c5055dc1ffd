import Mathlib

/-!
# Planning the cells of a map template

A template is a list of columns. The planner walks the columns, and the lines
of each that are within its rows, and appends an event for every cell. Workers
plan slices of the columns, and `merge` puts their plans one behind the other:
adding a plan is adding its events one by one (`Plan.append_pushAll`).
-/

namespace Dream64.Vm.Tgm

/-- A sum of coordinates, in the 32 bits of an `i32`. -/
def i32 (n : Int) : Int := n.bmod (2 ^ 32)

/-- One column, with its keys from top to bottom. -/
structure GridSet where
  x : Int
  y : Int
  z : Int
  lines : List String

structure Config where
  xOffset : Int
  yOffset : Int
  zOffset : Int
  cropMap : Bool
  noChangeturf : Bool
  xLower : Int
  xUpper : Int
  yLower : Int
  yUpper : Int
  zLower : Option Int
  zUpper : Option Int
  worldMaxX : Int
  worldMaxY : Int
  worldMaxZ : Int
  spaceKey : Option String
  modelKeys : List String

structure Ordinal where
  grid : Nat
  line : Nat
deriving DecidableEq

structure Cell where
  ordinal : Ordinal
  x : Int
  y : Int
  z : Int
  modelKey : String
  noAfterchange : Bool
deriving DecidableEq

structure Bounds where
  minX : Int
  minY : Int
  minZ : Int
  maxX : Int
  maxY : Int
  maxZ : Int
deriving DecidableEq

structure MissingModel where
  ordinal : Ordinal
  modelKey : String
  x : Int
  y : Int
  z : Int
deriving DecidableEq

inductive CommitEvent where
  | cell (cell : Cell)
  | safepointOnly (ordinal : Ordinal)
  | missingModel (missing : MissingModel)
deriving DecidableEq

structure Plan where
  cells : List Cell
  bounds : Option Bounds
  missingModels : List MissingModel
  events : List CommitEvent
deriving DecidableEq

def Plan.empty : Plan := ⟨[], none, [], []⟩

def extend (x y z : Int) : Option Bounds → Option Bounds
  | some b => some ⟨min b.minX x, min b.minY y, min b.minZ z, max b.maxX x, max b.maxY y, max b.maxZ z⟩
  | none => some ⟨x, y, z, x, y, z⟩

structure Geometry where
  skipStart : Nat
  skipEnd : Nat
  lineCount : Nat
  highestY : Int
  finalX : Int
  lowestX : Int
  xr : Int
  zShift : Int

/-- The rows are those of the first column. -/
def Geometry.new (first last : GridSet) (c : Config) : Geometry :=
  let xr := i32 (c.xOffset - 1)
  let yr := i32 (c.yOffset - 1)
  let relativeY := first.y
  let highest := min (min (i32 (c.worldMaxY - yr)) c.yUpper) relativeY
  let skipStart := (max (i32 (relativeY - highest)) 0).toNat
  let lineCount := first.lines.length
  let lowestY := i32 (relativeY - i32 ((lineCount - 1 : Nat) : Int))
  { skipStart := skipStart
    skipEnd := (max (i32 (max c.yLower (i32 (1 - yr)) - lowestY)) 0).toNat
    lineCount := lineCount
    highestY := i32 (i32 (relativeY + yr) - i32 skipStart)
    finalX := min (i32 (last.x + xr)) (if c.cropMap then min c.xUpper c.worldMaxX else c.xUpper)
    lowestX := max c.xLower (i32 (1 - xr))
    xr := xr
    zShift := i32 (i32 (c.zOffset - 1) - c.zLower.elim 0 fun lower => i32 (lower - 1)) }

/-- The event of one cell: default space that is not changed, an unknown key, or a cell. -/
def lineEvent (c : Config) (ordinal : Ordinal) (key : String) (x y z : Int) : CommitEvent :=
  let noAfterchange := c.noChangeturf || decide (z > c.worldMaxZ)
  if noAfterchange && c.spaceKey == some key then .safepointOnly ordinal
  else if key ∉ c.modelKeys then .missingModel ⟨ordinal, key, x, y, z⟩
  else .cell ⟨ordinal, x, y, z, key, noAfterchange⟩

def Plan.push (plan : Plan) (event : CommitEvent) : Plan :=
  match event with
  | .safepointOnly _ => { plan with events := plan.events ++ [event] }
  | .missingModel missing =>
    { plan with
      missingModels := plan.missingModels ++ [missing]
      events := plan.events ++ [event] }
  | .cell cell =>
    { plan with
      cells := plan.cells ++ [cell]
      events := plan.events ++ [event]
      bounds := extend cell.x cell.y cell.z plan.bounds }

def planLines (c : Config) (geometry : Geometry) (grid : GridSet) (index : Nat) (plan : Plan) : Plan :=
  let start := min geometry.skipStart grid.lines.length
  let stop := min (geometry.lineCount - geometry.skipEnd) grid.lines.length
  ((grid.lines.take stop).zipIdx.drop start).foldl
    (fun plan line => plan.push (lineEvent c ⟨index, line.2⟩ line.1 (i32 (grid.x + geometry.xr))
      (i32 (geometry.highestY - i32 ((line.2 - start : Nat) : Int)))
      (i32 (grid.z + geometry.zShift)))) plan

/-- The lower threshold is compared with the column's own coordinate. -/
def skips (c : Config) (geometry : Geometry) (grid : GridSet) : Bool :=
  c.zLower.any (grid.z < ·) || c.zUpper.any (grid.z > ·) ||
    decide (geometry.finalX < i32 (grid.x + geometry.xr)) || decide (geometry.lowestX > grid.x)

def planRange (grids : List GridSet) (c : Config) (base : Nat) (geometry : Geometry) : Plan :=
  (grids.zipIdx base).foldl (fun plan grid =>
    if skips c geometry grid.1 then plan else planLines c geometry grid.1 grid.2 plan) .empty

def geometryOf (c : Config) : List GridSet → Option Geometry
  | [] => none
  | first :: rest => some (Geometry.new first (rest.getLastD first) c)

def sequential (grids : List GridSet) (c : Config) (base : Nat) : Plan :=
  match geometryOf c grids with
  | none => .empty
  | some geometry => planRange grids c base geometry

def Plan.append (out plan : Plan) : Plan where
  cells := out.cells ++ plan.cells
  missingModels := out.missingModels ++ plan.missingModels
  events := out.events ++ plan.events
  bounds := plan.bounds.elim out.bounds fun b =>
    extend b.maxX b.maxY b.maxZ (extend b.minX b.minY b.minZ out.bounds)

def merge (plans : List Plan) : Plan := plans.foldl Plan.append .empty

/-- The slices of the columns with their first index, and what their workers return. -/
def workerPlans (grids : List GridSet) (c : Config) (geometry : Geometry) (chunk : Nat) :
    List (Nat × Plan) :=
  (List.range ((grids.length + chunk - 1) / chunk)).map fun i =>
    (i * chunk, planRange ((grids.drop (i * chunk)).take chunk) c (i * chunk) geometry)

def withWorkers (grids : List GridSet) (c : Config) (workers : Nat) : Plan :=
  let workers := min (max workers 1) (max grids.length 1)
  if workers = 1 || grids.isEmpty then sequential grids c 0
  else
    match geometryOf c grids with
    | none => .empty
    | some geometry =>
      let chunk := (grids.length + workers - 1) / workers
      let indexed := (workerPlans grids c geometry chunk).mergeSort fun a b => a.1 ≤ b.1
      merge (indexed.map (·.2))

/-! ## The cells of a box -/

/-- Where a cell of the template goes. -/
def targetX (c : Config) (grid : GridSet) : Int := grid.x + c.xOffset - 1

def targetY (c : Config) (grid : GridSet) (line : Nat) : Int := grid.y - line + c.yOffset - 1

def targetZ (c : Config) (grid : GridSet) : Int :=
  grid.z + c.zOffset - 1 - c.zLower.elim 0 (· - 1)

/-- The clip box and the world; the upper bound for x is one of the world's coordinates. -/
def Inside (c : Config) (grid : GridSet) (line : Nat) : Prop :=
  (∀ bound ∈ c.zLower, bound ≤ grid.z) ∧ (∀ bound ∈ c.zUpper, grid.z ≤ bound) ∧
    (c.xLower ≤ grid.x ∧ 1 ≤ targetX c grid) ∧
    (targetX c grid ≤ c.xUpper ∧ (c.cropMap = true → targetX c grid ≤ c.worldMaxX)) ∧
    (c.yLower ≤ grid.y - line ∧ 1 ≤ targetY c grid line) ∧
    (grid.y - line ≤ c.yUpper ∧ targetY c grid line ≤ c.worldMaxY)

instance (c : Config) (grid : GridSet) (line : Nat) : Decidable (Inside c grid line) := by
  unfold Inside
  infer_instance

/-- The events of the cells in the box, in the order of the template. -/
def boxEvents (grids : List GridSet) (c : Config) : List CommitEvent :=
  grids.zipIdx.flatMap fun grid => grid.1.lines.zipIdx.filterMap fun line =>
    if Inside c grid.1 line.2 then
      some (lineEvent c ⟨grid.2, line.2⟩ line.1 (targetX c grid.1) (targetY c grid.1 line.2)
        (targetZ c grid.1))
    else none

/-- The columns have the rows of the first one, and none is behind the last. -/
structure Rectangular (grids : List GridSet) : Prop where
  rows : ∀ a ∈ grids, ∀ b ∈ grids, a.y = b.y ∧ a.lines.length = b.lines.length
  last : ∀ last ∈ grids.getLast?, ∀ grid ∈ grids, grid.x ≤ last.x

/-- The coordinates and bounds that are added are so small that no sum leaves the 32 bits. -/
structure InRange (grids : List GridSet) (c : Config) : Prop where
  grid : ∀ grid ∈ grids, |grid.x| ≤ 2 ^ 28 ∧ |grid.y| ≤ 2 ^ 28 ∧ |grid.z| ≤ 2 ^ 28 ∧
    grid.lines.length ≤ 2 ^ 28
  offset : |c.xOffset| ≤ 2 ^ 28 ∧ |c.yOffset| ≤ 2 ^ 28 ∧ |c.zOffset| ≤ 2 ^ 28
  world : |c.worldMaxY| ≤ 2 ^ 28
  upper : -2 ^ 28 ≤ c.yUpper
  lower : c.yLower ≤ 2 ^ 28 ∧ ∀ bound ∈ c.zLower, |bound| ≤ 2 ^ 28

def CommitEvent.ordinal : CommitEvent → Ordinal
  | .cell placed => placed.ordinal
  | .safepointOnly skipped => skipped
  | .missingModel missing => missing.ordinal

/-- Source order. -/
def Ordinal.Before (a b : Ordinal) : Prop := a.grid < b.grid ∨ a.grid = b.grid ∧ a.line < b.line

def CommitEvent.cell? : CommitEvent → Option Cell
  | .cell placed => some placed
  | _ => none

def CommitEvent.missing? : CommitEvent → Option MissingModel
  | .missingModel missing => some missing
  | _ => none

/-- The smallest box around some cells. -/
def boundsOf (cells : List Cell) : Option Bounds := do
  some ⟨← (cells.map (·.x)).min?, ← (cells.map (·.y)).min?, ← (cells.map (·.z)).min?,
    ← (cells.map (·.x)).max?, ← (cells.map (·.y)).max?, ← (cells.map (·.z)).max?⟩

/-- The summaries of a plan say what its events say, which are in source order. -/
structure Plan.Consistent (plan : Plan) : Prop where
  ordinals : plan.events.Pairwise fun a b => a.ordinal.Before b.ordinal
  cells : plan.cells = plan.events.filterMap CommitEvent.cell?
  missingModels : plan.missingModels = plan.events.filterMap CommitEvent.missing?
  bounds : plan.bounds = boundsOf plan.cells

/-! ## Plans as their events -/

variable {c : Config} {geometry : Geometry} {plan out : Plan} {events : List CommitEvent}
  {slot : Option Bounds} {x y z : Int}

def Plan.pushAll (plan : Plan) (events : List CommitEvent) : Plan := events.foldl Plan.push plan

theorem Plan.pushAll_concat (plan : Plan) (events : List CommitEvent) (event : CommitEvent) :
    plan.pushAll (events ++ [event]) = (plan.pushAll events).push event := by
  rw [pushAll, List.foldl_append]
  rfl

def Ordered (slot : Option Bounds) : Prop :=
  ∀ b ∈ slot, b.minX ≤ b.maxX ∧ b.minY ≤ b.maxY ∧ b.minZ ≤ b.maxZ

theorem Ordered.extend (h : Ordered slot) : Ordered (extend x y z slot) := by
  cases slot with
  | none =>
    rintro b ⟨⟩
    exact ⟨le_rfl, le_rfl, le_rfl⟩
  | some old =>
    obtain ⟨hx, hy, hz⟩ := h old rfl
    rintro b ⟨⟩
    dsimp only
    omega

theorem min_merged {lo hi : Int} (h : lo ≤ hi) : min lo (min x (max hi x)) = min lo (min hi x) := by
  omega

theorem max_merged {lo hi : Int} (h : lo ≤ hi) : max (min lo x) (max hi x) = max lo (max hi x) := by
  omega

/-- A cell adds the same to the bounds of a plan before and after these are merged. -/
theorem extend_merged (h : Ordered slot) (outer : Option Bounds) :
    (extend x y z slot).elim outer (fun b =>
        extend b.maxX b.maxY b.maxZ (extend b.minX b.minY b.minZ outer)) =
      extend x y z (slot.elim outer fun b =>
        extend b.maxX b.maxY b.maxZ (extend b.minX b.minY b.minZ outer)) := by
  cases slot with
  | none =>
    cases outer <;>
      simp only [extend, Option.elim_some, Option.elim_none, Int.min_assoc, Int.max_assoc,
        Int.min_self, Int.max_self]
  | some b =>
    obtain ⟨hx, hy, hz⟩ := h b rfl
    cases outer <;>
      simp only [extend, Option.elim_some, Int.min_assoc, Int.max_assoc, min_merged hx, min_merged hy,
        min_merged hz, max_merged hx, max_merged hy, max_merged hz]

/-- Appending the plan of some events is pushing them. -/
theorem Plan.append_pushAll (out : Plan) (events : List CommitEvent) :
    out.append (Plan.empty.pushAll events) = out.pushAll events ∧
      Ordered (Plan.empty.pushAll events).bounds := by
  induction events using List.reverseRecOn with
  | nil =>
    refine ⟨?_, fun b hb => by cases hb⟩
    show (⟨out.cells ++ [], out.bounds, out.missingModels ++ [], out.events ++ []⟩ : Plan) = out
    rw [List.append_nil, List.append_nil, List.append_nil]
  | append_singleton events event ih =>
    obtain ⟨ih, hordered⟩ := ih
    rw [Plan.pushAll_concat, Plan.pushAll_concat, ← ih]
    cases event with
    | safepointOnly ordinal => exact ⟨by simp [Plan.push, Plan.append], hordered⟩
    | missingModel missing => exact ⟨by simp [Plan.push, Plan.append], hordered⟩
    | cell cell =>
      refine ⟨?_, hordered.extend⟩
      simp only [Plan.push, Plan.append, extend_merged hordered, List.append_assoc]

theorem foldl_append_pushAll (out : Plan) (slices : List (List CommitEvent)) :
    (slices.map Plan.empty.pushAll).foldl Plan.append out = out.pushAll slices.flatten := by
  induction slices generalizing out with
  | nil => rfl
  | cons events slices ih =>
    rw [List.map_cons, List.foldl_cons, (Plan.append_pushAll out events).1, ih, List.flatten_cons,
      Plan.pushAll, Plan.pushAll, Plan.pushAll, List.foldl_append]

/-- The events of one column. -/
def gridEvents (c : Config) (geometry : Geometry) (grid : GridSet × Nat) : List CommitEvent :=
  let start := min geometry.skipStart grid.1.lines.length
  let stop := min (geometry.lineCount - geometry.skipEnd) grid.1.lines.length
  if skips c geometry grid.1 then []
  else ((grid.1.lines.take stop).zipIdx.drop start).map fun line =>
    lineEvent c ⟨grid.2, line.2⟩ line.1 (i32 (grid.1.x + geometry.xr))
      (i32 (geometry.highestY - i32 ((line.2 - start : Nat) : Int)))
      (i32 (grid.1.z + geometry.zShift))

theorem planRange_eq (grids : List GridSet) (base : Nat) :
    planRange grids c base geometry =
      Plan.empty.pushAll ((grids.zipIdx base).flatMap (gridEvents c geometry)) := by
  rw [planRange, Plan.pushAll, List.foldl_flatMap]
  congr 1
  funext plan grid
  rw [gridEvents]
  split
  · rfl
  · rw [planLines, List.foldl_map]

/-! ## Workers -/

theorem flatten_slices (grids : List GridSet) (chunk count : Nat) (f : GridSet × Nat → List CommitEvent) :
    ((List.range count).map fun i =>
        (((grids.drop (i * chunk)).take chunk).zipIdx (i * chunk)).flatMap f).flatten =
      ((grids.take (count * chunk)).zipIdx).flatMap f := by
  induction count with
  | zero => simp
  | succ count ih =>
    rw [List.range_succ, List.map_append, List.flatten_append, ih, Nat.succ_mul, List.take_add,
      List.zipIdx_append, List.flatMap_append, List.map_singleton, List.flatten_singleton,
      Nat.zero_add, List.length_take]
    rcases Nat.le_total (count * chunk) grids.length with hle | hge
    · rw [Nat.min_eq_left hle]
    · rw [List.drop_eq_nil_of_le hge, List.take_nil, List.zipIdx_nil, List.zipIdx_nil]

theorem le_ceil_mul (n : Nat) {chunk : Nat} (h : 0 < chunk) : n ≤ (n + chunk - 1) / chunk * chunk := by
  have hdiv := Nat.div_add_mod (n + chunk - 1) chunk
  have hmod := Nat.mod_lt (n + chunk - 1) h
  rw [Nat.mul_comm] at hdiv
  omega

/-- However many workers there are, they plan what one plans. -/
theorem withWorkers_eq (grids : List GridSet) (c : Config) (workers : Nat) :
    withWorkers grids c workers = sequential grids c 0 := by
  rw [withWorkers]
  dsimp only
  split
  · rfl
  · rw [sequential]
    cases hgeometry : geometryOf c grids with
    | none => rfl
    | some geometry =>
      have hpos : 0 < grids.length := by
        cases grids with
        | nil => cases hgeometry
        | cons grid grids => exact Nat.succ_pos _
      have hcount : 0 < min (max workers 1) (max grids.length 1) := by omega
      generalize min (max workers 1) (max grids.length 1) = count at hcount ⊢
      have hchunked : 0 < (grids.length + count - 1) / count := Nat.div_pos (by omega) hcount
      generalize (grids.length + count - 1) / count = chunk at hchunked ⊢
      have hsorted : (workerPlans grids c geometry chunk).Pairwise fun a b => decide (a.1 ≤ b.1) = true := by
        rw [workerPlans, List.pairwise_map]
        refine List.pairwise_lt_range.imp fun hlt => decide_eq_true ?_
        exact Nat.mul_le_mul_right _ (Nat.le_of_lt hlt)
      dsimp only
      rw [List.mergeSort_of_pairwise hsorted, merge, workerPlans, List.map_map]
      have hplans : (fun i => planRange ((grids.drop (i * chunk)).take chunk) c (i * chunk) geometry) =
          Plan.empty.pushAll ∘ fun i =>
            (((grids.drop (i * chunk)).take chunk).zipIdx (i * chunk)).flatMap (gridEvents c geometry) :=
        funext fun i => planRange_eq _ _
      show (List.map (fun i => planRange ((grids.drop (i * chunk)).take chunk) c (i * chunk) geometry) _).foldl
        _ _ = _
      rw [hplans, ← List.map_map, foldl_append_pushAll, flatten_slices,
        List.take_of_length_le (le_ceil_mul _ hchunked), planRange_eq]

/-! ## Summaries -/

theorem boundsOf_concat (cells : List Cell) (cell : Cell) :
    boundsOf (cells ++ [cell]) = extend cell.x cell.y cell.z (boundsOf cells) := by
  cases cells with
  | nil => rfl
  | cons first cells =>
    simp only [boundsOf, List.cons_append, List.map_cons, List.map_append, List.map_nil,
      List.min?_cons', List.max?_cons', List.foldl_append, List.foldl_cons, List.foldl_nil]
    rfl

theorem pushAll_summaries (events : List CommitEvent) :
    (Plan.empty.pushAll events).events = events ∧
      (Plan.empty.pushAll events).cells = events.filterMap CommitEvent.cell? ∧
      (Plan.empty.pushAll events).missingModels = events.filterMap CommitEvent.missing? ∧
      (Plan.empty.pushAll events).bounds = boundsOf (Plan.empty.pushAll events).cells := by
  induction events using List.reverseRecOn with
  | nil => exact ⟨rfl, rfl, rfl, rfl⟩
  | append_singleton events event ih =>
    obtain ⟨hevents, hcells, hmissing, hbounds⟩ := ih
    rw [Plan.pushAll_concat, List.filterMap_append, List.filterMap_append, ← hcells, ← hmissing]
    cases event with
    | safepointOnly ordinal =>
      exact ⟨congrArg (· ++ _) hevents, (List.append_nil _).symm, (List.append_nil _).symm, hbounds⟩
    | missingModel missing =>
      exact ⟨congrArg (· ++ _) hevents, (List.append_nil _).symm, rfl, hbounds⟩
    | cell cell =>
      refine ⟨congrArg (· ++ _) hevents, rfl, (List.append_nil _).symm, ?_⟩
      show extend _ _ _ _ = boundsOf (_ ++ [cell])
      rw [boundsOf_concat, hbounds]

theorem ordinal_lineEvent (c : Config) (ordinal : Ordinal) (key : String) (x y z : Int) :
    (lineEvent c ordinal key x y z).ordinal = ordinal := by
  rw [lineEvent]
  split
  · rfl
  · split <;> rfl

theorem zipIdx_pairwise {α : Type} (l : List α) (base : Nat) :
    (l.zipIdx base).Pairwise fun a b => a.2 < b.2 := by
  have hmap : ((l.zipIdx base).map Prod.snd).Pairwise (· < ·) := by
    rw [List.zipIdx_map_snd]
    exact List.pairwise_lt_range'
  exact List.pairwise_map.1 hmap

theorem gridEvents_ordinal {grid : GridSet × Nat} {event : CommitEvent}
    (h : event ∈ gridEvents c geometry grid) : event.ordinal.grid = grid.2 := by
  rw [gridEvents] at h
  split at h
  · cases h
  · obtain ⟨line, -, rfl⟩ := List.mem_map.1 h
    rw [ordinal_lineEvent]

theorem gridEvents_pairwise (grid : GridSet × Nat) :
    (gridEvents c geometry grid).Pairwise fun a b => a.ordinal.Before b.ordinal := by
  rw [gridEvents]
  split
  · exact List.Pairwise.nil
  · rw [List.pairwise_map]
    refine ((zipIdx_pairwise _ _).sublist (List.drop_sublist _ _)).imp fun hlt => ?_
    rw [ordinal_lineEvent, ordinal_lineEvent]
    exact .inr ⟨rfl, hlt⟩

theorem planRange_consistent (grids : List GridSet) :
    (planRange grids c 0 geometry).Consistent := by
  rw [planRange_eq]
  obtain ⟨hevents, hcells, hmissing, hbounds⟩ :=
    pushAll_summaries ((grids.zipIdx).flatMap (gridEvents c geometry))
  refine ⟨?_, by rw [hcells, hevents], by rw [hmissing, hevents], hbounds⟩
  rw [hevents, List.pairwise_flatMap]
  refine ⟨fun grid _ => gridEvents_pairwise grid, (zipIdx_pairwise _ _).imp fun hlt a ha b hb => ?_⟩
  exact .inl (by rw [gridEvents_ordinal ha, gridEvents_ordinal hb]; exact hlt)

/-! ## The cells inside the box -/

theorem i32_eq {n : Int} (hlow : -2 ^ 31 ≤ n) (hhigh : n < 2 ^ 31) : i32 n = n :=
  Int.bmod_eq_of_le_mul_two (by omega) (by omega)

/-- The numbers of a geometry where no sum leaves the 32 bits. -/
structure Measures (geometry : Geometry) (first last : GridSet) (c : Config) : Prop where
  xr : geometry.xr = c.xOffset - 1
  zShift : geometry.zShift = c.zOffset - 1 - c.zLower.elim 0 (· - 1)
  finalX : geometry.finalX = min (last.x + c.xOffset - 1)
    (if c.cropMap then min c.xUpper c.worldMaxX else c.xUpper)
  lowestX : geometry.lowestX = max c.xLower (2 - c.xOffset)
  skipStart : (geometry.skipStart : Int) =
    first.y - min (min (c.worldMaxY - c.yOffset + 1) c.yUpper) first.y
  skipEnd : (geometry.skipEnd : Int) =
    max (max c.yLower (2 - c.yOffset) - (first.y - (first.lines.length - 1 : Nat))) 0
  lineCount : geometry.lineCount = first.lines.length
  highestY : geometry.highestY = first.y + c.yOffset - 1 - geometry.skipStart

theorem measures_new {grids : List GridSet} (h : InRange grids c) {first last : GridSet}
    (hfirst : first ∈ grids) (hlast : last ∈ grids) : Measures (Geometry.new first last c) first last c := by
  obtain ⟨-, hy, -, hlines⟩ := h.grid first hfirst
  obtain ⟨hlastX, -⟩ := h.grid last hlast
  obtain ⟨hxo, hyo, hzo⟩ := h.offset
  have hworld := h.world
  have hupper := h.upper
  obtain ⟨hlower, hz⟩ := h.lower
  rw [abs_le] at hy hlastX hxo hyo hzo hworld
  have hxr : i32 (c.xOffset - 1) = c.xOffset - 1 := i32_eq (by omega) (by omega)
  have hyr : i32 (c.yOffset - 1) = c.yOffset - 1 := i32_eq (by omega) (by omega)
  have hzr : i32 (c.zOffset - 1) = c.zOffset - 1 := i32_eq (by omega) (by omega)
  have htop : i32 (c.worldMaxY - (c.yOffset - 1)) = c.worldMaxY - c.yOffset + 1 := by
    rw [i32_eq (by omega) (by omega)]
    omega
  have hskip : i32 (first.y - min (min (c.worldMaxY - c.yOffset + 1) c.yUpper) first.y) =
      first.y - min (min (c.worldMaxY - c.yOffset + 1) c.yUpper) first.y :=
    i32_eq (by omega) (by omega)
  have hstart : ((Geometry.new first last c).skipStart : Int) =
      first.y - min (min (c.worldMaxY - c.yOffset + 1) c.yUpper) first.y := by
    show ((max (i32 (first.y - min (min (i32 (c.worldMaxY - i32 (c.yOffset - 1))) c.yUpper) first.y))
      0).toNat : Int) = _
    rw [hyr, htop, hskip]
    omega
  refine ⟨hxr, ?_, ?_, ?_, hstart, ?_, rfl, ?_⟩
  · show i32 (i32 (c.zOffset - 1) - c.zLower.elim 0 fun lower => i32 (lower - 1)) = _
    rw [hzr]
    cases hbound : c.zLower with
    | none => exact i32_eq (by simp only [Option.elim_none]; omega) (by simp only [Option.elim_none]; omega)
    | some bound =>
      have hb := abs_le.1 (hz bound hbound)
      simp only [Option.elim_some]
      rw [@i32_eq (bound - 1) (by omega) (by omega)]
      exact i32_eq (by omega) (by omega)
  · show min (i32 (last.x + i32 (c.xOffset - 1))) _ = _
    rw [hxr, i32_eq (by omega) (by omega), ← Int.add_sub_assoc]
  · show max c.xLower (i32 (1 - i32 (c.xOffset - 1))) = _
    rw [hxr, i32_eq (by omega) (by omega)]
    omega
  · show ((max (i32 (max c.yLower (i32 (1 - i32 (c.yOffset - 1))) -
      i32 (first.y - i32 ((first.lines.length - 1 : Nat) : Int)))) 0).toNat : Int) = _
    rw [hyr, @i32_eq (1 - (c.yOffset - 1)) (by omega) (by omega),
      @i32_eq ((first.lines.length - 1 : Nat) : Int) (by omega) (by omega),
      @i32_eq (first.y - (first.lines.length - 1 : Nat)) (by omega) (by omega),
      i32_eq (by omega) (by omega)]
    omega
  · show i32 (i32 (first.y + i32 (c.yOffset - 1)) - i32 ((Geometry.new first last c).skipStart : Int)) = _
    rw [hyr, @i32_eq (first.y + (c.yOffset - 1)) (by omega) (by omega),
      @i32_eq ((Geometry.new first last c).skipStart : Int) (by omega) (by omega),
      i32_eq (by omega) (by omega)]
    omega

/-- The lines between two indices. -/
theorem drop_take_zipIdx {α : Type} (l : List α) (lo hi : Nat) :
    (l.take hi).zipIdx.drop lo = l.zipIdx.filter fun a => lo ≤ a.2 && a.2 < hi := by
  induction l using List.reverseRecOn with
  | nil => simp
  | append_singleton l a ih =>
    rw [List.zipIdx_append, List.filter_append, ← ih, Nat.zero_add, List.zipIdx_singleton]
    rcases Nat.lt_or_ge l.length hi with hlt | hge
    · rw [List.take_of_length_le (by rw [List.length_append, List.length_singleton]; omega),
        List.take_of_length_le (Nat.le_of_lt hlt), List.zipIdx_append, Nat.zero_add,
        List.zipIdx_singleton]
      rcases Nat.lt_or_ge l.length lo with hlo | hlo
      · rw [List.drop_eq_nil_of_le (by simp; omega), List.drop_eq_nil_of_le (by simp; omega),
          List.filter_cons_of_neg (by simp; omega)]
        rfl
      · rw [List.drop_append_of_le_length (by simpa using hlo), List.filter_cons_of_pos (by simp; omega)]
        rfl
    · rw [List.take_append_of_le_length hge, List.filter_cons_of_neg (by simp; omega)]
      exact (List.append_nil _).symm

theorem skips_eq_false {grid : GridSet} : skips c geometry grid = false ↔
    (∀ bound ∈ c.zLower, bound ≤ grid.z) ∧ (∀ bound ∈ c.zUpper, grid.z ≤ bound) ∧
      i32 (grid.x + geometry.xr) ≤ geometry.finalX ∧ geometry.lowestX ≤ grid.x := by
  rw [skips]
  cases c.zLower <;> cases c.zUpper <;> simp [and_assoc]

/-- The geometry leaves out the cells that are not in the box. -/
theorem inside_iff {first last grid : GridSet} (h : Measures geometry first last c)
    (hrows : grid.y = first.y ∧ grid.lines.length = first.lines.length) (hlast : grid.x ≤ last.x)
    (hx : i32 (grid.x + geometry.xr) = targetX c grid) {line : Nat} (hline : line < grid.lines.length) :
    Inside c grid line ↔ skips c geometry grid = false ∧ geometry.skipStart ≤ line ∧
      line < geometry.lineCount - geometry.skipEnd := by
  obtain ⟨hy, hlength⟩ := hrows
  have hstart : geometry.skipStart ≤ line ↔
      targetY c grid line ≤ c.worldMaxY ∧ grid.y - line ≤ c.yUpper := by
    have hskip := h.skipStart
    rw [targetY, hy]
    omega
  have hstop : line < geometry.lineCount - geometry.skipEnd ↔
      c.yLower ≤ grid.y - line ∧ 1 ≤ targetY c grid line := by
    have hskip := h.skipEnd
    rw [h.lineCount, targetY, hy]
    omega
  have hright : targetX c grid ≤ geometry.finalX ↔
      targetX c grid ≤ c.xUpper ∧ (c.cropMap = true → targetX c grid ≤ c.worldMaxX) := by
    rw [h.finalX, le_min_iff, and_iff_right (by rw [targetX]; omega)]
    cases hcrop : c.cropMap <;> simp
  have hleft : geometry.lowestX ≤ grid.x ↔ c.xLower ≤ grid.x ∧ 1 ≤ targetX c grid := by
    rw [h.lowestX, max_le_iff, targetX]
    omega
  rw [skips_eq_false, hx, hright, hleft, hstart, hstop, Inside]
  constructor
  · rintro ⟨hlow, hhigh, hxl, hxr, hyl, hyu, hyw⟩
    exact ⟨⟨hlow, hhigh, hxr, hxl⟩, ⟨hyw, hyu⟩, hyl⟩
  · rintro ⟨⟨hlow, hhigh, hxr, hxl⟩, ⟨hyw, hyu⟩, hyl⟩
    exact ⟨hlow, hhigh, hxl, hxr, hyl, hyu, hyw⟩

theorem gridEvents_eq {first last : GridSet} (hmeasures : Measures geometry first last c)
    {grids : List GridSet} (hrange : InRange grids c) {grid : GridSet} (hgrid : grid ∈ grids)
    (hrows : grid.y = first.y ∧ grid.lines.length = first.lines.length) (hlast : grid.x ≤ last.x)
    (index : Nat) :
    gridEvents c geometry (grid, index) = grid.lines.zipIdx.filterMap fun line =>
      if Inside c grid line.2 then
        some (lineEvent c ⟨index, line.2⟩ line.1 (targetX c grid) (targetY c grid line.2)
          (targetZ c grid))
      else none := by
  obtain ⟨hgx, hgy, hgz, hlines⟩ := hrange.grid grid hgrid
  obtain ⟨hxo, hyo, hzo⟩ := hrange.offset
  rw [abs_le] at hgx hgy hgz hxo hyo hzo
  have hx : i32 (grid.x + geometry.xr) = targetX c grid := by
    rw [hmeasures.xr, i32_eq (by omega) (by omega), targetX]
    omega
  have hz : i32 (grid.z + geometry.zShift) = targetZ c grid := by
    rw [hmeasures.zShift, targetZ]
    cases hbound : c.zLower with
    | none =>
      simp only [Option.elim_none]
      rw [i32_eq (by omega) (by omega)]
      omega
    | some bound =>
      have hb := abs_le.1 (hrange.lower.2 bound hbound)
      simp only [Option.elim_some]
      rw [i32_eq (by omega) (by omega)]
      omega
  have hinside {line : String × Nat} (hline : line ∈ grid.lines.zipIdx) :=
    inside_iff hmeasures hrows hlast hx (by simpa using List.snd_lt_of_mem_zipIdx hline)
  rw [gridEvents]
  dsimp only
  split
  · next hskips =>
    refine (List.filterMap_eq_nil_iff.2 fun line hline => if_neg fun h => ?_).symm
    rw [((hinside hline).1 h).1] at hskips
    exact Bool.false_ne_true hskips
  · next hskips =>
    rw [Bool.not_eq_true] at hskips
    rw [drop_take_zipIdx, ← List.filterMap_eq_map, List.filterMap_filter]
    refine List.filterMap_congr fun line hline => ?_
    have hlt : line.2 < grid.lines.length := by simpa using List.snd_lt_of_mem_zipIdx hline
    have hrow : (decide (min geometry.skipStart grid.lines.length ≤ line.2) &&
        decide (line.2 < min (geometry.lineCount - geometry.skipEnd) grid.lines.length)) = true ↔
        Inside c grid line.2 := by
      rw [hinside hline, hskips, Bool.and_eq_true, decide_eq_true_iff, decide_eq_true_iff]
      simp only [true_and]
      omega
    by_cases hin : Inside c grid line.2
    · rw [if_pos hin, if_pos (hrow.2 hin)]
      obtain ⟨-, hstart, hstop⟩ := (hinside hline).1 hin
      have hskipped := hmeasures.skipStart
      have hy : i32 (geometry.highestY -
          i32 ((line.2 - min geometry.skipStart grid.lines.length : Nat) : Int)) =
          targetY c grid line.2 := by
        rw [hmeasures.highestY, @i32_eq ((line.2 - _ : Nat) : Int) (by omega) (by omega), targetY,
          i32_eq (by omega) (by omega)]
        omega
      dsimp only [Function.comp]
      rw [hx, hz, hy]
    · rw [if_neg hin, if_neg fun h => hin (hrow.1 h)]

theorem sequential_events {grids : List GridSet} (hrange : InRange grids c)
    (hrectangular : Rectangular grids) : (sequential grids c 0).events = boxEvents grids c := by
  cases grids with
  | nil => rfl
  | cons first rest =>
    have hfirst : first ∈ first :: rest := List.mem_cons_self
    have hlast : (first :: rest).getLast? = some (rest.getLastD first) := by
      rw [List.getLastD_eq_getLast?, List.getLast?_cons]
    have hmem := List.mem_of_getLast? hlast
    have hmeasures := measures_new hrange hfirst hmem
    show (planRange _ _ _ _).events = _
    rw [planRange_eq, (pushAll_summaries _).1, boxEvents]
    refine List.flatMap_congr fun grid hgrid => ?_
    have hin : grid.1 ∈ first :: rest := List.fst_mem_of_mem_zipIdx hgrid
    exact gridEvents_eq hmeasures hrange hin (hrectangular.rows _ hin _ hfirst)
      (hrectangular.last _ hlast _ hin) grid.2

/--
Workers plan what one plans. Its events are in source order and its summaries are theirs; of a
rectangular template with small coordinates the events are those of the cells in the box.
-/
theorem plan_exact (grids : List GridSet) (c : Config) (workers : Nat) :
    withWorkers grids c workers = sequential grids c 0 ∧ (sequential grids c 0).Consistent ∧
      (Rectangular grids → InRange grids c → (sequential grids c 0).events = boxEvents grids c) := by
  refine ⟨withWorkers_eq grids c workers, ?_, fun hrectangular hrange =>
    sequential_events hrange hrectangular⟩
  cases grids with
  | nil => exact ⟨List.Pairwise.nil, rfl, rfl, rfl⟩
  | cons first rest => exact planRange_consistent _

/-- A load of one level without an offset into a world of 10 by 10. -/
def plainConfig : Config where
  xOffset := 1
  yOffset := 1
  zOffset := 1
  cropMap := false
  noChangeturf := false
  xLower := 1
  xUpper := 10
  yLower := 1
  yUpper := 10
  zLower := none
  zUpper := none
  worldMaxX := 10
  worldMaxY := 10
  worldMaxZ := 1
  spaceKey := none
  modelKeys := ["a"]

def twoColumns : List GridSet := [⟨1, 2, 1, ["a", "b"]⟩, ⟨2, 2, 1, ["b", "a"]⟩]

theorem twoColumns_exact : withWorkers twoColumns plainConfig 2 = sequential twoColumns plainConfig 0 ∧
    (sequential twoColumns plainConfig 0).events = boxEvents twoColumns plainConfig := by
  have h := plan_exact twoColumns plainConfig 2
  exact ⟨h.1, h.2.2 ⟨by decide, by decide⟩ ⟨by decide, by decide, by decide, by decide, by decide⟩⟩

/-- A column that begins one row below the first is moved up to it. -/
theorem loweredColumn_not_exact : ∃ grids, InRange grids plainConfig ∧
    (sequential grids plainConfig 0).events ≠ boxEvents grids plainConfig := by
  refine ⟨[⟨1, 2, 1, ["a", "a"]⟩, ⟨2, 1, 1, ["a"]⟩], ⟨by decide, by decide, by decide, by decide, by decide⟩, ?_⟩
  decide

end Dream64.Vm.Tgm
