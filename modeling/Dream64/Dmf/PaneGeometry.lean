import Dream64.Dmf.UiState

/-!
# The layout of panes

Where the client puts the controls of its windows. A window is laid out in a
rectangle; its `CHILD` controls split theirs between two other windows, which
are laid out in the parts. A window that is being laid out is not entered
again. Additions of 32-bit and 64-bit integers that overflow panic. The splits
that are made are noted beside the rectangles.
-/

namespace Dream64.Dmf

open Preprocess (Text trim)
open Words (splitOnce)

def dmfTruthy (value : Text) : Bool :=
  let word := toAsciiLowercase (trim value)
  word == "true".toList || word == "yes".toList || word == "1".toList

def dmfFalse (value : Text) : Bool :=
  let word := toAsciiLowercase (trim value)
  word == "false".toList || word == "no".toList || word == "0".toList

/-! ## Arithmetic -/

def addU32 (a b : BitVec 32) : Fuelled (BitVec 32) :=
  if a.toNat + b.toNat < 2 ^ 32 then .value (a + b) else .panic

def saturatingAdd (a b : BitVec 32) : BitVec 32 :=
  BitVec.ofNat 32 (min (a.toNat + b.toNat) (2 ^ 32 - 1))

def saturatingMul (a : BitVec 32) (n : Nat) : Nat := min (a.toNat * n) (2 ^ 32 - 1)

/-- The result of an operation on 64-bit integers. -/
def i64 (n : Int) : Fuelled Int :=
  if -2 ^ 63 ≤ n ∧ n < 2 ^ 63 then .value n else .panic

/-- The number that a 64-bit integer is in 32 bits, and 0 if it has none. -/
def u32OrZero (n : Int) : BitVec 32 :=
  if 0 ≤ n ∧ n < 2 ^ 32 then BitVec.ofNat 32 n.toNat else 0

/-! ## Rectangles -/

/-- Two numbers around a separator. -/
def parsePairAt (separator : Char) (value : Text) : Option (BitVec 32 × BitVec 32) :=
  (splitOnce separator (trim value)).bind fun parts =>
    (parseU32 (trim parts.1)).bind fun x => (parseU32 (trim parts.2)).map fun y => (x, y)

def parseAnchor (value : Text) : Option (BitVec 32 × BitVec 32) :=
  (splitOnce ',' value).bind fun parts =>
    (Numerals.parseInt 31 (trim parts.1)).bind fun x =>
      (Numerals.parseInt 31 (trim parts.2)).map fun y => (x, y)

/-- How far an edge goes with the size of its window; negative anchors are none. -/
def anchorDelta (delta : Int) (anchor : Option (BitVec 32)) : Fuelled Int :=
  match anchor.filter fun value => decide (0 ≤ value.toInt) with
  | none => .value 0
  | some value => (i64 (delta * value.toInt)).bind fun product => i64 (product.tdiv 100)

/-- An edge and how far it goes. -/
def movedEdge (edge : BitVec 32) (delta : Int) (anchor : Option (BitVec 32)) : Fuelled Int :=
  (anchorDelta delta anchor).bind fun moved => i64 (edge.toNat + moved)

def anchoredRect (first second : Option (BitVec 32 × BitVec 32)) (base source target : PixelRect) :
    Fuelled PixelRect :=
  (i64 (target.width.toNat - source.width.toNat)).bind fun dx =>
  (i64 (target.height.toNat - source.height.toNat)).bind fun dy =>
  (movedEdge base.x dx (first.map (·.1))).bind fun left =>
  (movedEdge base.y dy (first.map (·.2))).bind fun top =>
  (addU32 base.x base.width).bind fun farX =>
  (movedEdge farX dx (second.map (·.1))).bind fun right =>
  (addU32 base.y base.height).bind fun farY =>
  (movedEdge farY dy (second.map (·.2))).bind fun bottom =>
  (i64 (right - left)).bind fun width =>
  (i64 (bottom - top)).bind fun height =>
  .value
    { x := saturatingAdd target.x (u32OrZero (max left 0))
      y := saturatingAdd target.y (u32OrZero (max top 0))
      width := u32OrZero (max width 0)
      height := u32OrZero (max height 0) }

/-- What the first child of a split takes of an extent. -/
def firstShare (extent : BitVec 32) (percent : Nat) : BitVec 32 :=
  BitVec.ofNat 32 (saturatingMul extent percent / 100)

/-- `rect.width - first` has no check here: a share is at most the extent (`firstShare_le`). -/
def splitRect (rect : PixelRect) (vertical : Bool) (percent : Nat) (onlyOne : Bool) :
    Fuelled (PixelRect × PixelRect) :=
  if onlyOne then
    (addU32 rect.x rect.width).map fun x => (rect, { rect with x := x, width := 0 })
  else if vertical then
    let first := firstShare rect.width percent
    (addU32 rect.x first).map fun x =>
      ({ rect with width := first }, { rect with x := x, width := rect.width - first })
  else
    let first := firstShare rect.height percent
    (addU32 rect.y first).map fun y =>
      ({ rect with height := first }, { rect with y := y, height := rect.height - first })

/-! ## Windows -/

/-- A split that was made. -/
structure PaneSplit where
  rect : PixelRect
  vertical : Bool
  percent : Nat
  left : Text
  right : Text
  parts : PixelRect × PixelRect
deriving DecidableEq, Repr

structure Panes where
  controls : Text → Option PixelRect
  splits : List PaneSplit

def Panes.empty : Panes := ⟨fun _ => none, []⟩

def Panes.insert (panes : Panes) (address : Text) (rect : PixelRect) : Panes :=
  { panes with controls := Function.update panes.controls address (some rect) }

def Panes.note (panes : Panes) (split : PaneSplit) : Panes :=
  { panes with splits := panes.splits ++ [split] }

structure ResolvedPaneLayout where
  root : PixelRect
  panes : Panes

/-- A text that was read, and the empty text where the control is unknown. -/
def orDefault (result : Except UiStateError Text) : Text :=
  match result with
  | .ok value => value
  | .error _ => []

def hides (result : Except UiStateError Text) : Bool :=
  match result with
  | .ok value => dmfFalse value
  | .error _ => false

/-- The rectangle of the skin with what `pos` and `size` say now. -/
def effectiveRect (pos size : Except UiStateError Text) (rect : PixelRect) : PixelRect :=
  let placed :=
    match pos.toOption.bind (parsePairAt ',') with
    | some position => { rect with x := position.1, y := position.2 }
    | none => rect
  match size.toOption.bind (parsePairAt 'x') with
  | some extent => { placed with width := extent.1, height := extent.2 }
  | none => placed

def splitterPercent (result : Except UiStateError Text) : Nat :=
  min (((result.toOption.bind parseU32).map BitVec.toNat).getD 50) 100

def isChild (control : ControlNode) : Bool :=
  (control.property "type".toList).any fun kind => eqIgnoreAsciiCase kind "CHILD".toList

def mainRect (window : WindowNode) : Option PixelRect :=
  (window.controls.find? fun control => control.controlType == .main).bind (·.pixelRect)

/-- The rectangle for which the positions in a window are given. -/
def sourceRect (window : WindowNode) (viewport : PixelRect) : PixelRect :=
  (mainRect window).getD ⟨0, 0, viewport.width, viewport.height⟩

def effectivePixelRect (ui : UiState) (fuel : Nat) (address : Text) (fallback : Option PixelRect) :
    Fuelled (Option PixelRect) :=
  match fallback with
  | none => .value none
  | some rect =>
    (ui.winget fuel address "pos".toList).bind fun pos =>
    (ui.winget fuel address "size".toList).map fun size => some (effectiveRect pos size rect)

def anchoredPane (ui : UiState) (fuel : Nat) (address : Text) (base source target : PixelRect) :
    Fuelled PixelRect :=
  (ui.winget fuel address "anchor1".toList).bind fun first =>
  (ui.winget fuel address "anchor2".toList).bind fun second =>
  anchoredRect (first.toOption.bind parseAnchor) (second.toOption.bind parseAnchor) base source
    target

/-- The windows in the parts of a split, without those that have no name. -/
def PaneSplit.children (split : PaneSplit) : List (Text × PixelRect) :=
  [(split.left, split.parts.1), (split.right, split.parts.2)].filter fun child =>
    !child.1.isEmpty

/-- The split of a `CHILD` control. -/
def paneSplit (ui : UiState) (fuel : Nat) (address : Text) (rect : PixelRect) :
    Fuelled PaneSplit :=
  (ui.winget fuel address "left".toList).bind fun left =>
  (ui.winget fuel address "right".toList).bind fun right =>
  (ui.winget fuel address "is-vert".toList).bind fun vertical =>
  (ui.winget fuel address "splitter".toList).bind fun splitter =>
  (splitRect rect (dmfTruthy (orDefault vertical)) (splitterPercent splitter)
    (orDefault right).isEmpty).map fun parts =>
      { rect := rect, vertical := dmfTruthy (orDefault vertical)
        percent := splitterPercent splitter, left := orDefault left, right := orDefault right
        parts := parts }

/-- A control that is shown; `resolve` lays out a window that a split opens. -/
def resolveShown (ui : UiState) (fuel : Nat) (resolve : Panes → Text × PixelRect → Fuelled Panes)
    (address : Text) (source viewport : PixelRect) (resolved : Panes) (control : ControlNode)
    (base : PixelRect) : Fuelled Panes :=
  (anchoredPane ui fuel address base source viewport).bind fun rect =>
  if isChild control then
    (paneSplit ui fuel address rect).bind fun split =>
      Fallible.fold resolve (resolved.note split) split.children
  else .value (resolved.insert address rect)

/-- One control of a window. -/
def resolvePane (ui : UiState) (fuel : Nat) (resolve : Panes → Text × PixelRect → Fuelled Panes)
    (windowId : Text) (source viewport : PixelRect) (resolved : Panes) (control : ControlNode) :
    Fuelled Panes :=
  if control.controlType = .main then .value resolved
  else
    match control.id with
    | none => .value resolved
    | some id =>
      let address := UiState.qualified windowId id
      (ui.winget fuel address "is-visible".toList).bind fun visible =>
      if hides visible then .value resolved
      else
        (effectivePixelRect ui fuel address control.pixelRect).bind fun shown =>
        match shown with
        | none => .value resolved
        | some base => resolveShown ui fuel resolve address source viewport resolved control base

def resolvePaneWindow (ui : UiState) :
    Nat → List Text → Panes → Text × PixelRect → Fuelled Panes
  | 0, _, _, _ => .error .outOfFuel
  | fuel + 1, active, resolved, opened =>
    if opened.1 ∈ active then .value resolved
    else
      match ui.tree.windows.find? fun window => window.id == opened.1 with
      | none => .value resolved
      | some window =>
        Fallible.fold
          (resolvePane ui fuel (resolvePaneWindow ui fuel (opened.1 :: active)) opened.1
            (sourceRect window opened.2) opened.2)
          resolved window.controls

/-! ## The root -/

def isDefaultMain (ui : UiState) (fuel : Nat) (window : WindowNode) (control : ControlNode) :
    Fuelled Bool :=
  if control.controlType = .main then
    (ui.winget fuel (UiState.qualified window.id (control.id.getD [])) "is-default".toList).map
      fun value => value.toOption.any dmfTruthy
  else .value false

/-- The first window with a default main control, or else the first window. -/
def rootWindow (ui : UiState) (fuel : Nat) : Fuelled (Option WindowNode) :=
  (Fallible.find (fun window => Fallible.any (isDefaultMain ui fuel window) window.controls)
    ui.tree.windows).map fun found => found.or ui.tree.windows.head?

def rootViewport (root : Option WindowNode) (viewportSize : Option (BitVec 32 × BitVec 32)) :
    PixelRect :=
  let rect := (root.bind mainRect).getD ⟨0, 0, 1024, 768⟩
  ⟨0, 0, (viewportSize.map (·.1)).getD rect.width, (viewportSize.map (·.2)).getD rect.height⟩

def resolveRoot (ui : UiState) (viewport : PixelRect) (fuel : Nat) (root : Option WindowNode) :
    Fuelled Panes :=
  match root with
  | none => .value Panes.empty
  | some window => resolvePaneWindow ui fuel [] Panes.empty (window.id, viewport)

def resolvePaneLayoutIn (ui : UiState) (viewportSize : Option (BitVec 32 × BitVec 32))
    (fuel : Nat) : Fuelled ResolvedPaneLayout :=
  (rootWindow ui fuel).bind fun root =>
  (resolveRoot ui (rootViewport root viewportSize) fuel root).map fun panes =>
    ⟨rootViewport root viewportSize, panes⟩

/-!
# Rectangles of panes

What the checked arithmetic of the layout computes. Anchoring overflows only
where the far edges of a control lie beyond 32 bits (`anchoredRect_eq`): the
products with anchors stay within 64 bits. A split overflows only at the edge
between its parts (`splitRect_eq`); if it does not, its parts partition the
rectangle, and the first has the percentage of it unless the multiplication
saturates (`splitParts_partition`).
-/

/-! ## Anchors -/

/-- How far an edge goes, over the integers. -/
def edgeDelta (delta : Int) (anchor : Option (BitVec 32)) : Int :=
  match anchor.filter fun value => decide (0 ≤ value.toInt) with
  | none => 0
  | some value => (delta * value.toInt).tdiv 100

/-- Where the edges of a control come to lie, over the integers. -/
structure Edges where
  left : Int
  top : Int
  right : Int
  bottom : Int

def movedEdges (first second : Option (BitVec 32 × BitVec 32)) (base source target : PixelRect) :
    Edges :=
  let dx : Int := target.width.toNat - source.width.toNat
  let dy : Int := target.height.toNat - source.height.toNat
  { left := base.x.toNat + edgeDelta dx (first.map (·.1))
    top := base.y.toNat + edgeDelta dy (first.map (·.2))
    right := (base.x.toNat + base.width.toNat : Nat) + edgeDelta dx (second.map (·.1))
    bottom := (base.y.toNat + base.height.toNat : Nat) + edgeDelta dy (second.map (·.2)) }

def placedRect (first second : Option (BitVec 32 × BitVec 32)) (base source target : PixelRect) :
    PixelRect :=
  let edges := movedEdges first second base source target
  { x := saturatingAdd target.x (u32OrZero (max edges.left 0))
    y := saturatingAdd target.y (u32OrZero (max edges.top 0))
    width := u32OrZero (max (edges.right - edges.left) 0)
    height := u32OrZero (max (edges.bottom - edges.top) 0) }

/-- The far edges of a control lie within 32 bits. -/
def PixelRect.Fits (rect : PixelRect) : Prop :=
  rect.x.toNat + rect.width.toNat < 2 ^ 32 ∧ rect.y.toNat + rect.height.toNat < 2 ^ 32

instance (rect : PixelRect) : Decidable rect.Fits := inferInstanceAs (Decidable (_ ∧ _))

theorem i64_eq {n : Int} (hlow : -2 ^ 63 ≤ n) (hhigh : n < 2 ^ 63) : i64 n = .value n :=
  if_pos ⟨hlow, hhigh⟩

theorem mul_anchor_bounds {delta a : Int} (hlow : -2 ^ 32 < delta) (hhigh : delta < 2 ^ 32)
    (ha : 0 ≤ a) (ha' : a < 2 ^ 31) : -2 ^ 63 < delta * a ∧ delta * a < 2 ^ 63 := by
  have habs : |delta * a| < 2 ^ 32 * 2 ^ 31 := by
    rw [abs_mul, abs_of_nonneg ha]
    exact mul_lt_mul'' (abs_lt.2 ⟨hlow, hhigh⟩) ha' (abs_nonneg delta) ha
  have hpow : (2 : Int) ^ 32 * 2 ^ 31 = 2 ^ 63 := by norm_num
  rw [hpow] at habs
  exact abs_lt.1 habs

theorem anchorDelta_eq {delta : Int} (hlow : -2 ^ 32 < delta) (hhigh : delta < 2 ^ 32)
    (anchor : Option (BitVec 32)) :
    anchorDelta delta anchor = .value (edgeDelta delta anchor) ∧
      -2 ^ 57 < edgeDelta delta anchor ∧ edgeDelta delta anchor < 2 ^ 57 := by
  rw [anchorDelta, edgeDelta]
  cases hanchor : anchor.filter fun value => decide (0 ≤ value.toInt) with
  | none => exact ⟨rfl, by norm_num, by norm_num⟩
  | some value =>
    have hnonneg : 0 ≤ value.toInt := of_decide_eq_true (Option.filter_eq_some_iff.1 hanchor).2
    have hlt : value.toInt < 2 ^ 31 := BitVec.toInt_lt
    obtain ⟨hprodLow, hprodHigh⟩ := mul_anchor_bounds hlow hhigh hnonneg hlt
    simp only
    rw [i64_eq hprodLow.le hprodHigh, Fallible.value_bind]
    have hquot : -2 ^ 57 < (delta * value.toInt).tdiv 100 ∧
        (delta * value.toInt).tdiv 100 < 2 ^ 57 := by
      have hsign : Int.sign 100 = 1 := rfl
      rw [Int.tdiv_eq_ediv, hsign]
      split <;> omega
    exact ⟨i64_eq (by omega) (by omega), hquot⟩

theorem movedEdge_eq {delta : Int} (hlow : -2 ^ 32 < delta) (hhigh : delta < 2 ^ 32)
    (edge : BitVec 32) (anchor : Option (BitVec 32)) :
    movedEdge edge delta anchor = .value (edge.toNat + edgeDelta delta anchor) := by
  obtain ⟨hanchor, hdeltaLow, hdeltaHigh⟩ := anchorDelta_eq hlow hhigh anchor
  have hedge := edge.isLt
  rw [movedEdge, hanchor, Fallible.value_bind]
  exact i64_eq (by omega) (by omega)

theorem anchoredRect_eq (first second : Option (BitVec 32 × BitVec 32))
    (base source target : PixelRect) :
    anchoredRect first second base source target =
      if base.Fits then .value (placedRect first second base source target) else .panic := by
  have hsw := source.width.isLt
  have hsh := source.height.isLt
  have htw := target.width.isLt
  have hth := target.height.isLt
  have hdxLow : -2 ^ 32 < (target.width.toNat - source.width.toNat : Int) := by omega
  have hdxHigh : (target.width.toNat - source.width.toNat : Int) < 2 ^ 32 := by omega
  have hdyLow : -2 ^ 32 < (target.height.toNat - source.height.toNat : Int) := by omega
  have hdyHigh : (target.height.toNat - source.height.toNat : Int) < 2 ^ 32 := by omega
  rw [anchoredRect, i64_eq (by omega) (by omega), Fallible.value_bind,
    i64_eq (by omega) (by omega), Fallible.value_bind, movedEdge_eq hdxLow hdxHigh,
    Fallible.value_bind, movedEdge_eq hdyLow hdyHigh, Fallible.value_bind, addU32]
  by_cases hx : base.x.toNat + base.width.toNat < 2 ^ 32
  · rw [if_pos hx, Fallible.value_bind, movedEdge_eq hdxLow hdxHigh, Fallible.value_bind, addU32]
    by_cases hy : base.y.toNat + base.height.toNat < 2 ^ 32
    · have hfirstX := anchorDelta_eq hdxLow hdxHigh (first.map (·.1))
      have hfirstY := anchorDelta_eq hdyLow hdyHigh (first.map (·.2))
      have hsecondX := anchorDelta_eq hdxLow hdxHigh (second.map (·.1))
      have hsecondY := anchorDelta_eq hdyLow hdyHigh (second.map (·.2))
      rw [if_pos hy, Fallible.value_bind, movedEdge_eq hdyLow hdyHigh, Fallible.value_bind,
        if_pos ⟨hx, hy⟩, BitVec.toNat_add, BitVec.toNat_add, Nat.mod_eq_of_lt hx,
        Nat.mod_eq_of_lt hy, i64_eq (by omega) (by omega), Fallible.value_bind,
        i64_eq (by omega) (by omega), Fallible.value_bind]
      rfl
    · rw [if_neg hy, Fallible.panic_bind, if_neg fun h => hy h.2]
  · rw [if_neg hx, Fallible.panic_bind, if_neg fun h => hx h.1]

/-! ## Splits -/

/-- The edge behind the first part of a split, over the natural numbers. -/
def splitEdge (rect : PixelRect) (vertical : Bool) (percent : Nat) (onlyOne : Bool) : Nat :=
  if onlyOne then rect.x.toNat + rect.width.toNat
  else if vertical then rect.x.toNat + (firstShare rect.width percent).toNat
  else rect.y.toNat + (firstShare rect.height percent).toNat

/-- The parts of a split whose edge lies within 32 bits. -/
def splitParts (rect : PixelRect) (vertical : Bool) (percent : Nat) (onlyOne : Bool) :
    PixelRect × PixelRect :=
  let edge := BitVec.ofNat 32 (splitEdge rect vertical percent onlyOne)
  if onlyOne then (rect, { rect with x := edge, width := 0 })
  else if vertical then
    let first := firstShare rect.width percent
    ({ rect with width := first }, { rect with x := edge, width := rect.width - first })
  else
    let first := firstShare rect.height percent
    ({ rect with height := first }, { rect with y := edge, height := rect.height - first })

theorem addU32_eq (a b : BitVec 32) :
    addU32 a b =
      if a.toNat + b.toNat < 2 ^ 32 then .value (BitVec.ofNat 32 (a.toNat + b.toNat))
      else .panic := by
  rw [addU32, BitVec.ofNat_add, BitVec.ofNat_toNat, BitVec.ofNat_toNat, BitVec.setWidth_eq,
    BitVec.setWidth_eq]

theorem splitRect_eq (rect : PixelRect) (vertical : Bool) (percent : Nat) (onlyOne : Bool) :
    splitRect rect vertical percent onlyOne =
      if splitEdge rect vertical percent onlyOne < 2 ^ 32 then
        .value (splitParts rect vertical percent onlyOne)
      else .panic := by
  rw [splitRect, splitEdge, splitParts, splitEdge]
  simp only [addU32_eq]
  cases onlyOne with
  | true =>
    simp only [if_true]
    split <;> rfl
  | false =>
    cases vertical with
    | true =>
      simp only [if_true, Bool.false_eq_true, if_false]
      split <;> rfl
    | false =>
      simp only [Bool.false_eq_true, if_false]
      split <;> rfl

/-! ## Partitions -/

def PixelRect.cells (rect : PixelRect) : Set (Nat × Nat) :=
  {cell | rect.x.toNat ≤ cell.1 ∧ cell.1 < rect.x.toNat + rect.width.toNat ∧
    rect.y.toNat ≤ cell.2 ∧ cell.2 < rect.y.toNat + rect.height.toNat}

def PixelRect.area (rect : PixelRect) : Nat := rect.width.toNat * rect.height.toNat

/-- The extent that a split divides. -/
def splitExtent (rect : PixelRect) (vertical : Bool) : BitVec 32 :=
  if vertical then rect.width else rect.height

/-- Two rectangles take a rectangle apart. -/
structure Partitions (rect first second : PixelRect) : Prop where
  disjoint : Disjoint first.cells second.cells
  covers : first.cells ∪ second.cells = rect.cells
  area : first.area + second.area = rect.area

/-- The first part has the percentage of the extent, rounded down. -/
def HasShare (rect first : PixelRect) (vertical : Bool) (percent : Nat) : Prop :=
  (splitExtent first vertical).toNat = (splitExtent rect vertical).toNat * percent / 100

theorem firstShare_toNat (extent : BitVec 32) (percent : Nat) :
    (firstShare extent percent).toNat = min (extent.toNat * percent) (2 ^ 32 - 1) / 100 := by
  rw [firstShare, saturatingMul, BitVec.toNat_ofNat, Nat.mod_eq_of_lt]
  omega

theorem firstShare_le (extent : BitVec 32) {percent : Nat} (h : percent ≤ 100) :
    (firstShare extent percent).toNat ≤ extent.toNat := by
  have hmul : extent.toNat * percent ≤ extent.toNat * 100 := Nat.mul_le_mul_left _ h
  rw [firstShare_toNat]
  omega

theorem firstShare_exact (extent : BitVec 32) (percent : Nat) :
    (firstShare extent percent).toNat = extent.toNat * percent / 100 ↔
      extent.toNat * percent < 4294967300 := by
  rw [firstShare_toNat]
  generalize extent.toNat * percent = product
  omega

theorem partitions_vertical {rect first second : PixelRect} {share : BitVec 32}
    (hshare : share.toNat ≤ rect.width.toNat) (hfirst : first = { rect with width := share })
    (hx : second.x.toNat = rect.x.toNat + share.toNat) (hy : second.y = rect.y)
    (hwidth : second.width = rect.width - share) (hheight : second.height = rect.height) :
    Partitions rect first second := by
  have hrest : second.width.toNat = rect.width.toNat - share.toNat := by
    rw [hwidth, BitVec.toNat_sub_of_le (BitVec.le_def.2 hshare)]
  subst hfirst
  refine ⟨Set.disjoint_left.2 fun cell hc hc' => ?_, Set.ext fun cell => ?_, ?_⟩
  · simp only [PixelRect.cells, Set.mem_ofPred_eq] at hc hc'
    omega
  · simp only [PixelRect.cells, Set.mem_union, Set.mem_ofPred_eq, hx, hy, hrest, hheight]
    omega
  · simp only [PixelRect.area, hrest, hheight]
    rw [← Nat.add_mul]
    congr 1
    omega

theorem partitions_horizontal {rect first second : PixelRect} {share : BitVec 32}
    (hshare : share.toNat ≤ rect.height.toNat) (hfirst : first = { rect with height := share })
    (hy : second.y.toNat = rect.y.toNat + share.toNat) (hx : second.x = rect.x)
    (hheight : second.height = rect.height - share) (hwidth : second.width = rect.width) :
    Partitions rect first second := by
  have hrest : second.height.toNat = rect.height.toNat - share.toNat := by
    rw [hheight, BitVec.toNat_sub_of_le (BitVec.le_def.2 hshare)]
  subst hfirst
  refine ⟨Set.disjoint_left.2 fun cell hc hc' => ?_, Set.ext fun cell => ?_, ?_⟩
  · simp only [PixelRect.cells, Set.mem_ofPred_eq] at hc hc'
    omega
  · simp only [PixelRect.cells, Set.mem_union, Set.mem_ofPred_eq, hx, hy, hrest, hwidth]
    omega
  · simp only [PixelRect.area, hrest, hwidth]
    rw [← Nat.mul_add]
    congr 1
    omega

theorem splitParts_partition {rect : PixelRect} {vertical : Bool} {percent : Nat}
    (hedge : splitEdge rect vertical percent false < 2 ^ 32) (hpercent : percent ≤ 100) :
    Partitions rect (splitParts rect vertical percent false).1
      (splitParts rect vertical percent false).2 := by
  have hofNat : (BitVec.ofNat 32 (splitEdge rect vertical percent false)).toNat =
      splitEdge rect vertical percent false := by
    rw [BitVec.toNat_ofNat, Nat.mod_eq_of_lt hedge]
  cases vertical with
  | true => exact partitions_vertical (firstShare_le rect.width hpercent) rfl hofNat rfl rfl rfl
  | false => exact partitions_horizontal (firstShare_le rect.height hpercent) rfl hofNat rfl rfl rfl

theorem splitParts_share (rect : PixelRect) (vertical : Bool) (percent : Nat) :
    HasShare rect (splitParts rect vertical percent false).1 vertical percent ↔
      (splitExtent rect vertical).toNat * percent < 4294967300 := by
  cases vertical with
  | true => exact firstShare_exact rect.width percent
  | false => exact firstShare_exact rect.height percent

end Dream64.Dmf
