import Dream64.Vm.NumericOperators

/-!
# Ruin candidates

The native scan for a place of a ruin: the turfs of a box around the candidate
are visited, and the first turf with the flag against ruins rejects it. A turf
that rejected a candidate stays behind as a witness, and rejects later ones
whose box it lies in, as long as it still has the flag. The scan runs to its end
at once; what it asks of the world is a `Host`.
-/

namespace Dream64.Vm.Ruin

@[ext] structure Cell where
  x : Int
  y : Int
  z : Int
deriving DecidableEq, Repr

structure Host (σ : Type) where
  turfAt : σ → Cell → Option DatumId
  /-- `datum_field_or_initial(..).ok()` -/
  fieldOrInitial : σ → DatumId → String → Option Value
  typePath : σ → DatumId → Option TypePath
  valuesEqual : σ → Value → Value → Bool
  sameValue : Value → Value → Bool
  isTruthy : σ → Value → Bool
  /-- `read_list_value`, where it gives a value. -/
  readList : σ → ListId → Value → Option Value
  /-- New lists of turfs and of areas; none where an area cannot be written. -/
  materialize : σ → List DatumId → List Value → Option (ListId × ListId × σ)
  /-- `round() as i32` of a number, and of half of a size. -/
  roundToI32 : DmNumberBits → Int
  halfRounded : Int → Int
  /-- The procedures of the frame are the known ones. -/
  trusted : σ → Bool

structure Frame where
  locals : List Value
  stack : List Value
  instruction : Nat
  src : Value

/-- By `z`, then by `(y, x)`. -/
abbrev Witnesses := List (Int × List ((Int × Int) × DatumId))

structure State (σ : Type) where
  world : σ
  witnesses : Witnesses

inductive TgmDrive (σ : Type) where
  | none (frame : Frame) (state : State σ)
  | continue (frame : Frame) (state : State σ)
  | error (message : String)

variable {σ : Type} (host : Host σ)

/-! ## Witnesses -/

def witnessesAt (witnesses : Witnesses) (z : Int) : List ((Int × Int) × DatumId) :=
  (witnesses.lookup z).getD []

def insertAt {κ α : Type} [DecidableEq κ] (before : κ → κ → Bool) (key : κ) (value : α) :
    List (κ × α) → List (κ × α)
  | [] => [(key, value)]
  | entry :: entries =>
    if entry.1 = key then (key, value) :: entries
    else if before key entry.1 then (key, value) :: entry :: entries
    else entry :: insertAt before key value entries

def keyBefore (left right : Int × Int) : Bool :=
  left.1 < right.1 || left.1 == right.1 && left.2 < right.2

def insertWitness (witnesses : Witnesses) (cell : Cell) (turf : DatumId) : Witnesses :=
  let count := (witnesses.map fun level => level.2.length).sum
  let witnesses := if 131072 ≤ count then [] else witnesses
  insertAt (fun left right => left < right) cell.z
    (insertAt keyBefore (cell.y, cell.x) turf (witnessesAt witnesses cell.z)) witnesses

def removeWitness (witnesses : Witnesses) (cell : Cell) : Witnesses :=
  witnesses.map fun level =>
    if level.1 = cell.z then
      (level.1, level.2.filter fun entry => entry.1 ≠ (cell.y, cell.x))
    else level

def forbids (flags : DmNumberBits) : Bool := (flags.toI32 % 2 ^ 32).toNat.testBit 4

def flagged (world : σ) (turf : DatumId) : Bool :=
  match (host.fieldOrInitial world turf "turf_flags").bind Value.asNumber with
  | some flags => forbids flags
  | none => false

/-- The turf of a witness is still in its place, and still rejects. -/
def stillRejects (world : σ) (cell : Cell) (witness : DatumId) : Bool :=
  host.turfAt world cell == some witness && flagged host world witness

def candidates (witnesses : Witnesses) (low high : Cell) : List (Cell × DatumId) :=
  (witnessesAt witnesses low.z).filterMap fun entry =>
    if low.y ≤ entry.1.1 ∧ entry.1.1 ≤ high.y ∧ low.x ≤ entry.1.2 ∧ entry.1.2 ≤ high.x then
      some (⟨entry.1.2, entry.1.1, low.z⟩, entry.2)
    else none

def revalidate (world : σ) : List (Cell × DatumId) → Witnesses → Bool × Witnesses
  | [], witnesses => (false, witnesses)
  | (cell, witness) :: rest, witnesses =>
    if stillRejects host world cell witness then (true, witnesses)
    else revalidate world rest (removeWitness witnesses cell)

def revalidatedRuinRejection (state : State σ) (low high : Cell) : Bool × Witnesses :=
  if high.x < low.x ∨ high.y < low.y then (false, state.witnesses)
  else revalidate host state.world (candidates state.witnesses low high) state.witnesses

/-! ## The scan -/

/-- `advance_ruin_scan_coordinate`; behind the last cell there is none. -/
def advanceRuinScanCoordinate (low high next : Cell) : Option Cell :=
  if next.x < high.x then some { next with x := next.x + 1 }
  else if next.y < high.y then some { next with x := low.x, y := next.y + 1 }
  else if next.z < high.z then some { next with x := low.x, y := low.y, z := next.z + 1 }
  else none

/-- What the turfs of the box say. -/
inductive Visited where
  | forbidden (cell : Cell) (turf : DatumId)
  | allowed (turfs : List DatumId) (areas : List Value)

def addArea (world : σ) (areas : List Value) (area : Value) : List Value :=
  if areas.any fun existing => host.valuesEqual world existing area then areas else areas ++ [area]

def remaining (high next : Cell) : Nat × Nat × Nat :=
  ((high.z - next.z).toNat, (high.y - next.y).toNat, (high.x - next.x).toNat)

theorem advance_decreases {low high next next' : Cell}
    (h : advanceRuinScanCoordinate low high next = some next') :
    Prod.Lex (· < ·) (Prod.Lex (· < ·) (· < ·)) (remaining high next') (remaining high next) := by
  rw [advanceRuinScanCoordinate] at h
  split_ifs at h with hx hy hz
  · cases h
    exact .right _ (.right _ (by dsimp only; omega))
  · cases h
    exact .right _ (.left _ _ (by dsimp only; omega))
  · cases h
    exact .left _ _ (by dsimp only; omega)

def visit (world : σ) (low high next : Cell) (turfs : List DatumId) (areas : List Value) :
    Visited :=
  let turf := host.turfAt world next
  if turf.any (flagged host world) then .forbidden next (turf.getD ⟨0, 0⟩)
  else
    let area := turf.map fun turf => (host.fieldOrInitial world turf "loc").getD .null
    let areas := (area.map (addArea host world areas)).getD areas
    match _hadvance : advanceRuinScanCoordinate low high next with
    | some next => visit world low high next (turfs ++ turf.toList) areas
    | none => .allowed (turfs ++ turf.toList) areas
termination_by remaining high next
decreasing_by exact advance_decreases _hadvance

def areaType (world : σ) : Value → Value
  | .datum area => ((host.typePath world area).map Value.typePath).getD .null
  | _ => .null

def allowedAreas (frame : Frame) : Option ListId :=
  match (frame.locals[1]? : Option Value) with
  | some (.list allowed) => some allowed
  | _ => none

/-- Whether the type of each area is among the allowed ones; none without a list of them. -/
def validate (world : σ) (frame : Frame) : List Value → Option Bool
  | [] => some true
  | area :: areas =>
    (allowedAreas frame).bind fun allowed =>
      if host.isTruthy world
          ((host.readList world allowed (areaType host world area)).getD .null) then
        validate world frame areas
      else some false

namespace Frame

def rejected (frame : Frame) : Frame :=
  { frame with locals := frame.locals.set 9 (.number .zero), instruction := 14 }

def accepted (frame : Frame) (turfs areas : ListId) : Frame :=
  { frame with
    locals := ((frame.locals.set 9 (.number .one)).set 10 (.list turfs)).set 11 (.list areas)
    instruction := 145 }

/-- The arguments of the call that is not made any more. -/
def takeOver (frame : Frame) (atCall : Bool) : Frame :=
  if atCall then { frame with stack := [] } else frame

end Frame

def finishScan (state : State σ) (frame : Frame) (visited : Visited) : TgmDrive σ :=
  match visited with
  | .forbidden cell turf =>
    .continue frame.rejected { state with witnesses := insertWitness state.witnesses cell turf }
  | .allowed turfs areas =>
    match validate host state.world frame areas with
    | none => .none { frame with instruction := 63 } state
    | some false => .continue frame.rejected state
    | some true =>
      match host.materialize state.world turfs areas with
      | some (turfs, areas, world) => .continue (frame.accepted turfs areas) { state with world }
      | none => .error "ruin affected-area materialization failed"

/-- The complete scan; a box whose far corner is no turf is empty. -/
def scan (state : State σ) (frame : Frame) (low high : Cell) : TgmDrive σ :=
  finishScan host state frame
    (if (host.turfAt state.world high).isNone then .allowed [] []
      else visit host state.world low high low [] [])

/-! ## Candidates -/

def ruinScanAttachAtCall (frame : Frame) : Option Bool :=
  if frame.instruction = 63 ∧ frame.stack = [] then some false
  else
    match frame.stack with
    | [one, center] =>
      -- The top of the stack is its head.
      if frame.instruction = 65 ∧ frame.locals[8]?.any (host.sameValue center) = true ∧
          one.asNumber = some .one then some true
      else none
    | _ => none

/-- Arithmetic of `i32` without overflow checks. -/
def wrapI32 (i : Int) : Int := (i + 2 ^ 31) % 2 ^ 32 - 2 ^ 31

def number (world : σ) (datum : DatumId) (name : String) : Option DmNumberBits :=
  (host.fieldOrInitial world datum name).bind Value.asNumber

def datumOf : Value → Option DatumId
  | .datum id => some id
  | _ => none

/-- The box around a center, from a corner that is a turf. -/
def boxAround (world : σ) (center : Cell) (width height : Int) : Option (Cell × Cell) :=
  let requested : Cell :=
    ⟨wrapI32 (center.x - host.halfRounded width), wrapI32 (center.y - host.halfRounded height),
      center.z⟩
  let low := if (host.turfAt world requested).isSome then requested else center
  let high : Cell := ⟨wrapI32 (low.x + width - 1), wrapI32 (low.y + height - 1), low.z⟩
  if high.x < low.x ∨ high.y < low.y then none else some (low, high)

/-- The box of the candidate in the frame, unless the frame is left to the interpreter. -/
def attach (world : σ) (frame : Frame) : Option (Bool × Cell × Cell) :=
  if host.trusted world then do
    let atCall ← ruinScanAttachAtCall host frame
    let center ← frame.locals[8]?.bind datumOf
    let x ← number host world center "x"
    let y ← number host world center "y"
    let z ← number host world center "z"
    let src ← datumOf frame.src
    let width ← number host world src "width"
    let height ← number host world src "height"
    let box ← boxAround host world ⟨x.toI32, y.toI32, z.toI32⟩ (host.roundToI32 width)
      (host.roundToI32 height)
    pure (atCall, box)
  else none

/-- `drive_ruin_candidate_scan` -/
def driveRuinCandidateScan (frame : Frame) (state : State σ) : TgmDrive σ :=
  match attach host state.world frame with
  | none => .none frame state
  | some (atCall, low, high) =>
    let (hit, witnesses) := revalidatedRuinRejection host state low high
    if hit then .continue (frame.takeOver atCall).rejected { state with witnesses }
    else scan host { state with witnesses } (frame.takeOver atCall) low high

/-! ## The cache -/

/-- The decision without the witnesses. -/
def driveUncached (frame : Frame) (state : State σ) : TgmDrive σ :=
  match attach host state.world frame with
  | none => .none frame state
  | some (atCall, low, high) => scan host state (frame.takeOver atCall) low high

/-- What can be observed: all but the witnesses. -/
def TgmDrive.observed : TgmDrive σ → TgmDrive σ
  | .none frame state => .none frame { state with witnesses := [] }
  | .continue frame state => .continue frame { state with witnesses := [] }
  | .error message => .error message

/-- A witness in the box that still rejects. -/
def Alive (state : State σ) (low high : Cell) : Prop :=
  ∃ candidate ∈ candidates state.witnesses low high,
    stillRejects host state.world candidate.1 candidate.2 = true

def InBox (low high cell : Cell) : Prop :=
  low.x ≤ cell.x ∧ cell.x ≤ high.x ∧ low.y ≤ cell.y ∧ cell.y ≤ high.y ∧
    low.z ≤ cell.z ∧ cell.z ≤ high.z

/-- The cell is visited from `next` on, by `z`, `y` and `x`. -/
def From (next cell : Cell) : Prop :=
  next.z < cell.z ∨ next.z = cell.z ∧ (next.y < cell.y ∨ next.y = cell.y ∧ next.x ≤ cell.x)

variable {host} {world : σ} {state : State σ} {frame : Frame} {low high next cell : Cell}

theorem revalidate_eq_any (entries : List (Cell × DatumId)) (witnesses : Witnesses) :
    (revalidate host world entries witnesses).1 =
      entries.any fun entry => stillRejects host world entry.1 entry.2 := by
  induction entries generalizing witnesses with
  | nil => rfl
  | cons entry entries ih =>
    rw [revalidate, List.any_cons]
    split_ifs with hrejects
    · rw [hrejects]
      rfl
    · rw [ih, Bool.eq_false_iff.2 hrejects, Bool.false_or]

theorem revalidated_iff (hbox : ¬ (high.x < low.x ∨ high.y < low.y)) :
    (revalidatedRuinRejection host state low high).1 = true ↔ Alive host state low high := by
  rw [revalidatedRuinRejection, if_neg hbox, revalidate_eq_any, List.any_eq_true]
  rfl

theorem inBox_of_candidate {entry : Cell × DatumId} {witnesses : Witnesses}
    (h : entry ∈ candidates witnesses low high) (hz : low.z ≤ high.z) :
    InBox low high entry.1 := by
  obtain ⟨witness, -, hwitness⟩ := List.mem_filterMap.1 h
  split_ifs at hwitness with hin
  cases hwitness
  exact ⟨hin.2.2.1, hin.2.2.2, hin.1, hin.2.1, le_rfl, hz⟩

/-- The next cell is the first one behind. -/
theorem from_advance (hin : InBox low high cell) (hfrom : From next cell) :
    cell = next ∨ ∃ next', advanceRuinScanCoordinate low high next = some next' ∧
      From next' cell := by
  obtain ⟨hx, hx', hy, hy', hz, hz'⟩ := hin
  rw [advanceRuinScanCoordinate]
  by_cases heq : cell = next
  · exact .inl heq
  · have hne : ¬ (next.z = cell.z ∧ next.y = cell.y ∧ next.x = cell.x) := by
      rintro ⟨hz, hy, hx⟩
      exact heq (Cell.ext hx.symm hy.symm hz.symm)
    rw [From] at hfrom
    refine .inr ?_
    split_ifs with hx hy hz
    · refine ⟨_, rfl, ?_⟩
      rw [From]
      dsimp only
      omega
    · refine ⟨_, rfl, ?_⟩
      rw [From]
      dsimp only
      omega
    · refine ⟨_, rfl, ?_⟩
      rw [From]
      dsimp only
      omega
    · omega

/-- A box that is allowed has no turf with the flag. -/
theorem not_flagged_of_allowed {turfs turfs' : List DatumId} {areas areas' : List Value}
    (h : visit host world low high next turfs areas = .allowed turfs' areas')
    (hin : InBox low high cell) (hfrom : From next cell) :
    (host.turfAt world cell).any (flagged host world) = false := by
  induction next, turfs, areas using visit.induct host world low high with
  | case1 next turfs areas turf hflagged =>
    rw [visit, if_pos hflagged] at h
    cases h
  | case2 next turfs areas turf hflagged area areas'' next' hadvance ih =>
    rcases from_advance hin hfrom with rfl | ⟨next'', hnext, hfrom'⟩
    · exact Bool.eq_false_iff.2 hflagged
    · rw [hadvance] at hnext
      cases hnext
      rw [visit, if_neg hflagged] at h
      refine ih ?_ hfrom'
      dsimp only at h
      split at h
      · rename_i next'' hagain
        rw [hadvance] at hagain
        cases hagain
        exact h
      · rename_i hagain
        rw [hadvance] at hagain
        cases hagain
  | case3 next turfs areas turf hflagged hadvance =>
    rcases from_advance hin hfrom with rfl | ⟨next'', hnext, -⟩
    · exact Bool.eq_false_iff.2 hflagged
    · rw [hadvance] at hnext
      cases hnext

/-- The complete scan comes to the turf of the witness, unless another one rejects before. -/
theorem forbidden_of_alive (h : Alive host state low high) (hz : low.z ≤ high.z) :
    ∃ cell turf, visit host state.world low high low [] [] = .forbidden cell turf := by
  obtain ⟨entry, hentry, hrejects⟩ := h
  obtain ⟨hturf, hflagged⟩ := (Bool.and_eq_true _ _).mp hrejects
  have hin := inBox_of_candidate hentry hz
  have hfrom : From low entry.1 := by
    obtain ⟨hx, -, hy, -, hz, -⟩ := hin
    rw [From]
    omega
  cases hvisit : visit host state.world low high low [] [] with
  | forbidden cell turf => exact ⟨cell, turf, rfl⟩
  | allowed turfs areas =>
    have hnone := not_flagged_of_allowed hvisit hin hfrom
    rw [eq_of_beq hturf, Option.any_some, hflagged] at hnone
    cases hnone

/-- What can be observed of a scan does not depend on the witnesses. -/
theorem observed_scan (state : State σ) (witnesses : Witnesses) (frame : Frame) (low high : Cell) :
    (scan host { state with witnesses } frame low high).observed =
      (scan host state frame low high).observed := by
  have hfinish (visited : Visited) :
      (finishScan host { state with witnesses } frame visited).observed =
        (finishScan host state frame visited).observed := by
    cases visited with
    | forbidden cell turf => rfl
    | allowed turfs areas =>
      rw [finishScan, finishScan]
      cases validate host state.world frame areas with
      | none => rfl
      | some valid =>
        cases valid with
        | false => rfl
        | true => cases host.materialize state.world turfs areas <;> rfl
  exact hfinish _

variable (frame) in
/-- An empty box is accepted, or its lists cannot be written. -/
theorem scan_empty (hempty : host.turfAt state.world high = none) :
    (∃ turfs areas world, (scan host state frame low high).observed =
      .continue (frame.accepted turfs areas) ⟨world, []⟩) ∨
    ∃ message, (scan host state frame low high).observed = .error message := by
  rw [scan, hempty]
  show (∃ turfs areas world, (finishScan host state frame (.allowed [] [])).observed = _) ∨ _
  cases hlists : host.materialize state.world [] [] with
  | none =>
    refine .inr ⟨"ruin affected-area materialization failed", ?_⟩
    show (finishScan host state frame (.allowed [] [])).observed = _
    rw [finishScan, validate, hlists]
    rfl
  | some lists =>
    obtain ⟨turfs, areas, world⟩ := lists
    refine .inl ⟨turfs, areas, world, ?_⟩
    rw [finishScan, validate, hlists]
    rfl

theorem box_of_attach {atCall : Bool} (h : attach host world frame = some (atCall, low, high)) :
    ¬ (high.x < low.x ∨ high.y < low.y) ∧ low.z ≤ high.z := by
  rw [attach] at h
  split_ifs at h
  simp only [Option.bind_eq_bind, Option.bind_eq_some_iff] at h
  obtain ⟨_, -, _, -, _, -, _, -, _, -, _, -, _, -, _, -, box, hbox, h⟩ := h
  cases h
  rw [boxAround] at hbox
  dsimp only at hbox
  split_ifs at hbox with _ hordered hordered
  all_goals
    cases hbox
    exact ⟨hordered, le_rfl⟩

/--
With the witnesses a candidate is decided as by the complete scan, exactly if no witness in
its box still rejects when the far corner of the box is off the map.
-/
theorem driveRuinCandidateScan_iff (host : Host σ) (frame : Frame) (state : State σ) :
    (driveRuinCandidateScan host frame state).observed =
        (driveUncached host frame state).observed ↔
      ∀ atCall low high, attach host state.world frame = some (atCall, low, high) →
        Alive host state low high → (host.turfAt state.world high).isSome := by
  rw [driveRuinCandidateScan, driveUncached]
  cases hattach : attach host state.world frame with
  | none => exact ⟨fun _ _ _ _ h => (by cases h), fun _ => rfl⟩
  | some attached =>
    obtain ⟨atCall, low, high⟩ := attached
    obtain ⟨hbox, hz⟩ := box_of_attach hattach
    have hhit : (revalidatedRuinRejection host state low high).1 = true ↔
        Alive host state low high := revalidated_iff hbox
    dsimp only
    by_cases halive : Alive host state low high
    · rw [if_pos (hhit.2 halive)]
      constructor
      · intro h _ _ _ heq _
        cases heq
        by_contra hnone
        rw [Option.not_isSome_iff_eq_none] at hnone
        rcases scan_empty (frame.takeOver atCall) hnone with
          ⟨turfs, areas, world, hscan⟩ | ⟨message, hscan⟩
        · -- The frame goes on behind the scan instead of at the next candidate.
          rw [hscan] at h
          have hframe := (TgmDrive.continue.inj h).1
          exact absurd (congrArg Frame.instruction hframe) (show (14 : Nat) ≠ 145 by decide)
        · rw [hscan] at h
          cases h
      · intro h
        obtain ⟨cell, turf, hvisit⟩ := forbidden_of_alive halive hz
        have hhigh := h _ _ _ rfl halive
        have hsome : ¬ (host.turfAt state.world high).isNone = true := by
          rw [Option.isNone_iff_eq_none]
          exact Option.isSome_iff_ne_none.1 hhigh
        rw [scan, hvisit, if_neg hsome]
        rfl
    · rw [if_neg fun h => halive (hhit.1 h), observed_scan]
      refine ⟨fun _ _ _ _ heq h => ?_, fun _ => rfl⟩
      cases heq
      exact absurd h halive

/-! ## A box that leaves the map -/

/-- Two turfs in a row, both with the flag, and a template three cells wide. -/
def rowHost : Host Unit where
  turfAt _ cell := if 1 ≤ cell.x ∧ cell.x ≤ 2 ∧ cell.y = 1 ∧ cell.z = 1 then some ⟨0, 0⟩ else none
  fieldOrInitial _ _ name :=
    if name = "turf_flags" then some (.number 0x41800000#32)
    else if name = "width" then some (.number 0x40400000#32) else some (.number .one)
  typePath _ _ := none
  valuesEqual _ _ _ := false
  sameValue _ _ := false
  isTruthy _ _ := false
  readList _ _ _ := none
  materialize _ _ _ := some (⟨0, 0⟩, ⟨1, 0⟩, ())
  roundToI32 := DmNumberBits.toI32
  halfRounded _ := 0
  trusted _ := true

def rowFrame : Frame where
  locals := .replicate 8 .null ++ [.datum ⟨0, 0⟩, .null, .null, .null]
  stack := []
  instruction := 63
  src := .datum ⟨0, 0⟩

/-- The complete scan takes the box for empty; the witness of the first turf rejects it. -/
theorem row_not_invisible :
    ¬ ∀ (host : Host Unit) (frame : Frame) (state : State Unit),
      (driveRuinCandidateScan host frame state).observed =
        (driveUncached host frame state).observed := by
  intro h
  have hrow := h rowHost rowFrame ⟨(), [(1, [((1, 1), ⟨0, 0⟩)])]⟩
  have hcached : (driveRuinCandidateScan rowHost rowFrame
      ⟨(), [(1, [((1, 1), ⟨0, 0⟩)])]⟩).observed = .continue rowFrame.rejected ⟨(), []⟩ := rfl
  have huncached : (driveUncached rowHost rowFrame ⟨(), [(1, [((1, 1), ⟨0, 0⟩)])]⟩).observed =
      .continue (rowFrame.accepted ⟨0, 0⟩ ⟨1, 0⟩) ⟨(), []⟩ := rfl
  rw [hcached, huncached] at hrow
  have hframe := (TgmDrive.continue.inj hrow).1
  exact absurd (congrArg Frame.instruction hframe) (show (14 : Nat) ≠ 145 by decide)

end Dream64.Vm.Ruin
