import Dream64.Dmf.PaneGeometry

/-!
# Layouts that end

The panes that a layout comes to (`Reached`), and what each of them has to
satisfy: its address is read to an end, its far edges and the edge of its split
lie within 32 bits, and the product that gives a share does not saturate
(`PaneFits`). The layout of a client ends, with splits that partition their
rectangles by the stated share, exactly if every pane that is reached fits
(`pane_layout_total`). The window graph itself is no obstacle: a path of open
windows has no window twice.
-/

namespace Dream64.Dmf

open Preprocess (Text)
open Fuelled

/-! ## What is laid out -/

/-- A control that is laid out, under its name. -/
def IsPane (control : ControlNode) (id : Text) : Prop :=
  control.controlType ≠ .main ∧ control.id = some id

/-- The rectangle of a control in the coordinates of the skin; a hidden control has none. -/
noncomputable def paneBase (ui : UiState) (address : Text) (control : ControlNode) :
    Option PixelRect :=
  if hides (ui.read address "is-visible".toList) then none
  else control.pixelRect.map
    (effectiveRect (ui.read address "pos".toList) (ui.read address "size".toList))

noncomputable def paneRect (ui : UiState) (address : Text) (base source viewport : PixelRect) :
    PixelRect :=
  placedRect ((ui.read address "anchor1".toList).toOption.bind parseAnchor)
    ((ui.read address "anchor2".toList).toOption.bind parseAnchor) base source viewport

/-- The split that a `CHILD` control makes of a rectangle. -/
noncomputable def splitOf (ui : UiState) (address : Text) (rect : PixelRect) : PaneSplit :=
  let vertical := dmfTruthy (orDefault (ui.read address "is-vert".toList))
  let percent := splitterPercent (ui.read address "splitter".toList)
  let right := orDefault (ui.read address "right".toList)
  { rect := rect, vertical := vertical, percent := percent
    left := orDefault (ui.read address "left".toList), right := right
    parts := splitParts rect vertical percent right.isEmpty }

/-- The edge of a split lies within 32 bits, and with two children its share does not saturate. -/
def PaneSplit.Fits (split : PaneSplit) : Prop :=
  splitEdge split.rect split.vertical split.percent split.right.isEmpty < 2 ^ 32 ∧
    (split.left ≠ [] → split.right ≠ [] →
      (splitExtent split.rect split.vertical).toNat * split.percent < 4294967300)

/-- A control at an address can be laid out. -/
def PaneFits (ui : UiState) (address : Text) (control : ControlNode)
    (source viewport : PixelRect) : Prop :=
  ui.ReadEnds address ∧ ∀ base, paneBase ui address control = some base →
    base.Fits ∧ (isChild control = true →
      (splitOf ui address (paneRect ui address base source viewport)).Fits)

/-- The windows that a layout comes to, each with its rectangle and with those it is inside of. -/
inductive Reached (ui : UiState) (root : Text × PixelRect) : List Text → Text × PixelRect → Prop
  | root : Reached ui root [] root
  | child {active : List Text} {pane next : Text × PixelRect} {window : WindowNode}
      {control : ControlNode} {id : Text} {base : PixelRect}
      (parent : Reached ui root active pane) (outside : pane.1 ∉ active)
      (named : (ui.tree.windows.find? fun window => window.id == pane.1) = some window)
      (within : control ∈ window.controls) (placed : IsPane control id)
      (shown : paneBase ui (UiState.qualified pane.1 id) control = some base)
      (splits : isChild control = true)
      (opened : next ∈ (splitOf ui (UiState.qualified pane.1 id)
        (paneRect ui (UiState.qualified pane.1 id) base (sourceRect window pane.2)
          pane.2)).children) :
      Reached ui root (pane.1 :: active) next

/-- Every pane that a layout comes to fits. -/
def ReachedFit (ui : UiState) (root : Text × PixelRect) : Prop :=
  ∀ active pane window control id, Reached ui root active pane → pane.1 ∉ active →
    (ui.tree.windows.find? fun window => window.id == pane.1) = some window →
    control ∈ window.controls → IsPane control id →
    PaneFits ui (UiState.qualified pane.1 id) control (sourceRect window pane.2) pane.2

/-! ## The root -/

def mainAddress (window : WindowNode) (control : ControlNode) : Text :=
  UiState.qualified window.id (control.id.getD [])

/-- A main control that says that its window is the default one. -/
def DefaultMain (ui : UiState) (window : WindowNode) (control : ControlNode) : Prop :=
  control.controlType = .main ∧ ui.ReadEnds (mainAddress window control) ∧
    (ui.read (mainAddress window control) "is-default".toList).toOption.any dmfTruthy = true

def HasDefaultMain (ui : UiState) (window : WindowNode) : Prop :=
  ∃ control ∈ window.controls, DefaultMain ui window control

/-- The main controls that are asked for a default window can be read. -/
def DefaultsEnd (ui : UiState) (window : WindowNode) : Prop :=
  SearchEnds (fun control => control.controlType = .main → ui.ReadEnds (mainAddress window control))
    (DefaultMain ui window) window.controls

def RootEnds (ui : UiState) : Prop :=
  SearchEnds (DefaultsEnd ui) (HasDefaultMain ui) ui.tree.windows

open Classical in
noncomputable def rootOf (ui : UiState) : Option WindowNode :=
  (ui.tree.windows.find? fun window => decide (HasDefaultMain ui window)).or
    ui.tree.windows.head?

/-- What the layout of a client needs in order to end with the stated splits. -/
def LayoutFits (ui : UiState) (viewportSize : Option (BitVec 32 × BitVec 32)) : Prop :=
  RootEnds ui ∧ ∀ window, rootOf ui = some window →
    ReachedFit ui (window.id, rootViewport (some window) viewportSize)

theorem grows_isDefaultMain (ui : UiState) (window : WindowNode) (control : ControlNode) :
    Grows fun fuel => isDefaultMain ui fuel window control := by
  intro fuel
  simp only [isDefaultMain]
  split
  · exact (ui.refines_winget fuel _ _).map _
  · exact .refl _

theorem grows_anyDefault (ui : UiState) (window : WindowNode) :
    Grows fun fuel => Fallible.any (isDefaultMain ui fuel window) window.controls :=
  fun fuel => (Refines.find (fun control => grows_isDefaultMain ui window control fuel) _).map _

theorem grows_rootWindow (ui : UiState) : Grows (rootWindow ui) :=
  fun fuel => (Refines.find (fun window => grows_anyDefault ui window fuel) _).map _

variable {ui : UiState}

theorem settles_isDefaultMain {window : WindowNode} {control : ControlNode} :
    Settles (fun fuel => isDefaultMain ui fuel window control) true ↔
      DefaultMain ui window control := by
  simp only [isDefaultMain, DefaultMain]
  by_cases hmain : control.controlType = .main
  · simp only [hmain, if_true, true_and]
    exact UiState.settles_read_bind.trans (and_congr_right fun _ => settles_value_iff)
  · simp only [hmain, if_false, false_and, iff_false]
    exact fun h => Bool.false_ne_true (settles_value_iff.1 h)

theorem ends_isDefaultMain {window : WindowNode} {control : ControlNode} :
    (Ends fun fuel => isDefaultMain ui fuel window control) ↔
      (control.controlType = .main → ui.ReadEnds (mainAddress window control)) := by
  simp only [isDefaultMain]
  by_cases hmain : control.controlType = .main
  · simp only [hmain, if_true, true_implies]
    constructor
    · rintro ⟨b, hb⟩
      exact (UiState.settles_read_bind.1 hb).1
    · intro h
      exact ⟨_, UiState.settles_read_bind.2 ⟨h, settles_value _⟩⟩
  · simp only [hmain, if_false, false_implies, iff_true]
    exact ⟨false, settles_value false⟩

theorem ends_anyDefault (ui : UiState) (window : WindowNode) :
    (Ends fun fuel => Fallible.any (isDefaultMain ui fuel window) window.controls) ↔
      DefaultsEnd ui window :=
  (ends_any (grows_isDefaultMain ui window)).trans
    (searchEnds_congr (fun _ => ends_isDefaultMain) fun _ _ => settles_isDefaultMain)

theorem settles_anyDefault (ui : UiState) (window : WindowNode)
    (h : Ends fun fuel => Fallible.any (isDefaultMain ui fuel window) window.controls) :
    Settles (fun fuel => Fallible.any (isDefaultMain ui fuel window) window.controls) true ↔
      HasDefaultMain ui window := by
  have hends := (ends_any (grows_isDefaultMain ui window)).1 h
  rw [settles_any_true (grows_isDefaultMain ui window)]
  refine (and_iff_right hends).trans ?_
  exact exists_congr fun control => and_congr_right fun _ => settles_isDefaultMain

theorem settles_rootWindow {root : Option WindowNode} :
    Settles (rootWindow ui) root ↔ RootEnds ui ∧ root = rootOf ui := by
  have hgrows : Grows fun fuel => Fallible.find
      (fun window => Fallible.any (isDefaultMain ui fuel window) window.controls)
      ui.tree.windows :=
    fun fuel => .find (fun window => grows_anyDefault ui window fuel) _
  have hends := searchEnds_congr (ends_anyDefault ui) (settles_anyDefault ui)
    (l := ui.tree.windows)
  rw [show rootWindow ui = fun fuel => (Fallible.find
      (fun window => Fallible.any (isDefaultMain ui fuel window) window.controls)
      ui.tree.windows).map fun found => found.or ui.tree.windows.head? from rfl,
    settles_map hgrows]
  constructor
  · rintro ⟨found, hfound, rfl⟩
    obtain ⟨hsearch, rfl⟩ := (settles_find (grows_anyDefault ui)).1 hfound
    refine ⟨hends.1 hsearch, ?_⟩
    rw [rootOf, hsearch.find?_congr (settles_anyDefault ui)]
  · rintro ⟨hroot, rfl⟩
    have hsearch := hends.2 hroot
    refine ⟨_, (settles_find (grows_anyDefault ui)).2 ⟨hsearch, rfl⟩, ?_⟩
    rw [rootOf, hsearch.find?_congr (settles_anyDefault ui)]

/-! ## One control -/

section

variable {ui : UiState}

theorem refines_effectivePixelRect (fuel : Nat) (address : Text) (fallback : Option PixelRect) :
    Refines (effectivePixelRect ui fuel address fallback)
      (effectivePixelRect ui (fuel + 1) address fallback) := by
  cases fallback with
  | none => exact .refl _
  | some rect =>
    exact (ui.refines_winget fuel address _).bind fun pos =>
      (ui.refines_winget fuel address _).map _

theorem refines_anchoredPane (fuel : Nat) (address : Text) (base source viewport : PixelRect) :
    Refines (anchoredPane ui fuel address base source viewport)
      (anchoredPane ui (fuel + 1) address base source viewport) :=
  (ui.refines_winget fuel address _).bind fun _ =>
    (ui.refines_winget fuel address _).bind fun _ => .refl _

theorem refines_paneSplit (fuel : Nat) (address : Text) (rect : PixelRect) :
    Refines (paneSplit ui fuel address rect) (paneSplit ui (fuel + 1) address rect) :=
  (ui.refines_winget fuel address _).bind fun _ =>
    (ui.refines_winget fuel address _).bind fun _ =>
      (ui.refines_winget fuel address _).bind fun _ =>
        (ui.refines_winget fuel address _).bind fun _ => .refl _

section

variable {resolve resolve' : Panes → Text × PixelRect → Fuelled Panes}
  (h : ∀ panes opened, Refines (resolve panes opened) (resolve' panes opened)) (fuel : Nat)

include h fuel

theorem refines_resolveShown (address : Text) (source viewport : PixelRect) (resolved : Panes)
    (control : ControlNode) (base : PixelRect) :
    Refines (resolveShown ui fuel resolve address source viewport resolved control base)
      (resolveShown ui (fuel + 1) resolve' address source viewport resolved control base) := by
  refine (refines_anchoredPane fuel address base source viewport).bind fun rect => ?_
  split
  · exact (refines_paneSplit fuel address rect).bind fun split => .fold h _ _
  · exact .refl _

theorem refines_resolvePane (windowId : Text) (source viewport : PixelRect) (resolved : Panes)
    (control : ControlNode) :
    Refines (resolvePane ui fuel resolve windowId source viewport resolved control)
      (resolvePane ui (fuel + 1) resolve' windowId source viewport resolved control) := by
  rw [resolvePane, resolvePane]
  split
  · exact .refl _
  · split
    · exact .refl _
    · refine (ui.refines_winget fuel _ _).bind fun visible => ?_
      split
      · exact .refl _
      · refine (refines_effectivePixelRect fuel _ _).bind fun shown => ?_
        cases shown with
        | none => exact .refl _
        | some base => exact refines_resolveShown h fuel _ source viewport resolved control base

end

theorem refines_resolvePaneWindow (fuel : Nat) (active : List Text) (resolved : Panes)
    (opened : Text × PixelRect) :
    Refines (resolvePaneWindow ui fuel active resolved opened)
      (resolvePaneWindow ui (fuel + 1) active resolved opened) := by
  induction fuel generalizing active resolved opened with
  | zero => exact .inl rfl
  | succ fuel ih =>
    rw [resolvePaneWindow, resolvePaneWindow]
    split
    · exact .refl _
    · split
      · exact .refl _
      · exact .fold (fun panes control => refines_resolvePane (ih _) fuel _ _ _ panes control) _ _

theorem grows_resolvePaneWindow (active : List Text) (resolved : Panes)
    (opened : Text × PixelRect) :
    Grows fun fuel => resolvePaneWindow ui fuel active resolved opened :=
  fun fuel => refines_resolvePaneWindow fuel active resolved opened

theorem grows_resolvePane (active : List Text) (windowId : Text) (source viewport : PixelRect)
    (resolved : Panes) (control : ControlNode) :
    Grows fun fuel => resolvePane ui fuel (resolvePaneWindow ui fuel active) windowId source
      viewport resolved control :=
  fun fuel => refines_resolvePane (refines_resolvePaneWindow fuel active) fuel windowId source
    viewport resolved control

theorem settles_effectivePixelRect {address : Text} (hends : ui.ReadEnds address)
    (fallback : Option PixelRect) :
    Settles (fun fuel => effectivePixelRect ui fuel address fallback)
      (fallback.map
        (effectiveRect (ui.read address "pos".toList) (ui.read address "size".toList))) := by
  cases fallback with
  | none => exact settles_value none
  | some rect =>
    refine UiState.settles_read_bind.2 ⟨hends, ?_⟩
    exact UiState.settles_read_bind.2 ⟨hends, settles_value _⟩

theorem settles_anchoredPane {address : Text} (hends : ui.ReadEnds address)
    {base source viewport rect : PixelRect} :
    Settles (fun fuel => anchoredPane ui fuel address base source viewport) rect ↔
      base.Fits ∧ rect = paneRect ui address base source viewport := by
  simp only [anchoredPane, UiState.settles_read_bind, hends, true_and, anchoredRect_eq]
  by_cases hfits : base.Fits
  · simp only [hfits, if_true, true_and, settles_value_iff]
    exact eq_comm
  · simp only [hfits, if_false, false_and, iff_false]
    exact not_settles_panic

theorem settles_paneSplit {address : Text} (hends : ui.ReadEnds address) {rect : PixelRect}
    {split : PaneSplit} :
    Settles (fun fuel => paneSplit ui fuel address rect) split ↔
      splitEdge split.rect split.vertical split.percent split.right.isEmpty < 2 ^ 32 ∧
        split = splitOf ui address rect := by
  simp only [paneSplit, UiState.settles_read_bind, hends, true_and, splitRect_eq]
  constructor
  · intro h
    split at h
    · rename_i hedge
      have heq : splitOf ui address rect = split := settles_value_iff.1 h
      subst heq
      exact ⟨hedge, rfl⟩
    · exact absurd h not_settles_panic
  · rintro ⟨hedge, rfl⟩
    rw [if_pos]
    · exact settles_value _
    · exact hedge

theorem settles_resolvePane_hidden {active : List Text} {windowId id : Text}
    {source viewport : PixelRect} {resolved result : Panes} {control : ControlNode}
    (hpane : IsPane control id)
    (hbase : paneBase ui (UiState.qualified windowId id) control = none) :
    Settles (fun fuel => resolvePane ui fuel (resolvePaneWindow ui fuel active) windowId source
        viewport resolved control) result ↔
      ui.ReadEnds (UiState.qualified windowId id) ∧ resolved = result := by
  simp only [resolvePane, hpane.1, if_false, hpane.2, UiState.settles_read_bind]
  refine and_congr_right fun hends => ?_
  by_cases hhides : hides (ui.read (UiState.qualified windowId id) "is-visible".toList) = true
  · simp only [hhides, if_true]
    exact settles_value_iff
  · rw [paneBase, if_neg hhides, Option.map_eq_none_iff] at hbase
    simp only [hhides, if_false, hbase, effectivePixelRect, Fallible.value_bind, Bool.false_eq_true]
    exact settles_value_iff

theorem settles_resolvePane_shown {active : List Text} {windowId id : Text}
    {source viewport base : PixelRect} {resolved result : Panes} {control : ControlNode}
    (hpane : IsPane control id)
    (hbase : paneBase ui (UiState.qualified windowId id) control = some base) :
    Settles (fun fuel => resolvePane ui fuel (resolvePaneWindow ui fuel active) windowId source
        viewport resolved control) result ↔
      ui.ReadEnds (UiState.qualified windowId id) ∧
        Settles (fun fuel => resolveShown ui fuel (resolvePaneWindow ui fuel active)
          (UiState.qualified windowId id) source viewport resolved control base) result := by
  simp only [resolvePane, hpane.1, if_false, hpane.2, UiState.settles_read_bind]
  refine and_congr_right fun hends => ?_
  by_cases hhides : hides (ui.read (UiState.qualified windowId id) "is-visible".toList) = true
  · rw [paneBase, if_pos hhides] at hbase
    cases hbase
  · rw [paneBase, if_neg hhides] at hbase
    have hshown := settles_effectivePixelRect hends control.pixelRect
    rw [hbase] at hshown
    simp only [hhides, if_false, Bool.false_eq_true]
    rw [settles_bind fun fuel => refines_effectivePixelRect fuel _ _]
    constructor
    · rintro ⟨shown, hshown', hresult⟩
      obtain rfl := hshown'.unique hshown
      exact hresult
    · intro hresult
      exact ⟨some base, hshown, hresult⟩

theorem settles_resolveShown_leaf {active : List Text} {address : Text}
    {source viewport base : PixelRect} {resolved result : Panes} {control : ControlNode}
    (hends : ui.ReadEnds address) (hchild : isChild control = false) :
    Settles (fun fuel => resolveShown ui fuel (resolvePaneWindow ui fuel active) address source
        viewport resolved control base) result ↔
      base.Fits ∧
        resolved.insert address (paneRect ui address base source viewport) = result := by
  simp only [resolveShown, hchild, Bool.false_eq_true, if_false]
  rw [settles_bind fun fuel => refines_anchoredPane fuel _ _ _ _]
  constructor
  · rintro ⟨rect, hrect, hresult⟩
    obtain ⟨hfits, rfl⟩ := (settles_anchoredPane hends).1 hrect
    exact ⟨hfits, settles_value_iff.1 hresult⟩
  · rintro ⟨hfits, hresult⟩
    exact ⟨_, (settles_anchoredPane hends).2 ⟨hfits, rfl⟩, settles_value_iff.2 hresult⟩

theorem settles_resolveShown_split {active : List Text} {address : Text}
    {source viewport base : PixelRect} {resolved result : Panes} {control : ControlNode}
    {split : PaneSplit} (hends : ui.ReadEnds address) (hchild : isChild control = true)
    (hsplit : split = splitOf ui address (paneRect ui address base source viewport)) :
    Settles (fun fuel => resolveShown ui fuel (resolvePaneWindow ui fuel active) address source
        viewport resolved control base) result ↔
      base.Fits ∧
        splitEdge split.rect split.vertical split.percent split.right.isEmpty < 2 ^ 32 ∧
        Settles (fun fuel => Fallible.fold (resolvePaneWindow ui fuel active)
          (resolved.note split) split.children) result := by
  simp only [resolveShown, hchild, if_true]
  rw [settles_bind fun fuel => refines_anchoredPane fuel _ _ _ _]
  constructor
  · rintro ⟨rect, hrect, hresult⟩
    obtain ⟨hfits, rfl⟩ := (settles_anchoredPane hends).1 hrect
    obtain ⟨split', hsplit', hresult⟩ :=
      (settles_bind fun fuel => refines_paneSplit fuel _ _).1 hresult
    obtain ⟨hedge, rfl⟩ := (settles_paneSplit hends).1 hsplit'
    subst hsplit
    exact ⟨hfits, hedge, hresult⟩
  · rintro ⟨hfits, hedge, hresult⟩
    refine ⟨_, (settles_anchoredPane hends).2 ⟨hfits, rfl⟩, ?_⟩
    refine (settles_bind fun fuel => refines_paneSplit fuel _ _).2 ⟨split, ?_, hresult⟩
    exact (settles_paneSplit hends).2 ⟨hedge, hsplit⟩

/-! ## Splits are only added -/

def SplitsGrow (panes panes' : Panes) : Prop := panes.splits ⊆ panes'.splits

theorem SplitsGrow.refl (panes : Panes) : SplitsGrow panes panes := List.Subset.refl _

theorem SplitsGrow.trans {panes panes' panes'' : Panes} (h : SplitsGrow panes panes')
    (h' : SplitsGrow panes' panes'') : SplitsGrow panes panes'' := List.Subset.trans h h'

theorem SplitsGrow.note (panes : Panes) (split : PaneSplit) :
    SplitsGrow panes (panes.note split) := List.subset_append_left _ _

section

variable {resolve : Panes → Text × PixelRect → Fuelled Panes}
  (h : ∀ panes opened panes', resolve panes opened = .value panes' → SplitsGrow panes panes')

include h

theorem resolveShown_grows {fuel : Nat} {address : Text} {source viewport base : PixelRect}
    {resolved result : Panes} {control : ControlNode}
    (hresult : resolveShown ui fuel resolve address source viewport resolved control base =
      .value result) :
    SplitsGrow resolved result := by
  obtain ⟨rect, -, hresult⟩ := Fallible.bind_eq_value.1 hresult
  split at hresult
  · obtain ⟨split, -, hresult⟩ := Fallible.bind_eq_value.1 hresult
    exact (SplitsGrow.note resolved split).trans (fold_le .refl .trans h hresult)
  · rw [← Fallible.value.inj hresult]
    exact .refl resolved

theorem resolvePane_grows {fuel : Nat} {windowId : Text} {source viewport : PixelRect}
    {resolved result : Panes} {control : ControlNode}
    (hresult : resolvePane ui fuel resolve windowId source viewport resolved control =
      .value result) :
    SplitsGrow resolved result := by
  have hdone : (Fallible.value resolved : Fuelled Panes) = .value result →
      SplitsGrow resolved result := fun heq => Fallible.value.inj heq ▸ .refl resolved
  rw [resolvePane] at hresult
  split at hresult
  · exact hdone hresult
  · split at hresult
    · exact hdone hresult
    · obtain ⟨visible, -, hresult⟩ := Fallible.bind_eq_value.1 hresult
      split at hresult
      · exact hdone hresult
      · obtain ⟨shown, -, hresult⟩ := Fallible.bind_eq_value.1 hresult
        cases shown with
        | none => exact hdone hresult
        | some base => exact resolveShown_grows h hresult

end

theorem resolvePaneWindow_grows {fuel : Nat} {active : List Text} {resolved result : Panes}
    {opened : Text × PixelRect}
    (hresult : resolvePaneWindow ui fuel active resolved opened = .value result) :
    SplitsGrow resolved result := by
  induction fuel generalizing active resolved result opened with
  | zero => cases hresult
  | succ fuel ih =>
    rw [resolvePaneWindow] at hresult
    split at hresult
    · exact Fallible.value.inj hresult ▸ .refl resolved
    · split at hresult
      · exact Fallible.value.inj hresult ▸ .refl resolved
      · refine fold_le .refl .trans (fun panes control panes' hpanes => ?_) hresult
        exact resolvePane_grows (fun panes opened panes' h => ih h) hpanes

/-! ## Windows -/

theorem settles_window_inside {active : List Text} {resolved result : Panes}
    {pane : Text × PixelRect} (hinside : pane.1 ∈ active) :
    Settles (fun fuel => resolvePaneWindow ui fuel active resolved pane) result ↔
      resolved = result := by
  rw [← settles_succ]
  simp only [resolvePaneWindow, hinside, if_true]
  exact settles_value_iff

theorem settles_window_unknown {active : List Text} {resolved result : Panes}
    {pane : Text × PixelRect} (houtside : pane.1 ∉ active)
    (hnone : (ui.tree.windows.find? fun window => window.id == pane.1) = none) :
    Settles (fun fuel => resolvePaneWindow ui fuel active resolved pane) result ↔
      resolved = result := by
  rw [← settles_succ]
  simp only [resolvePaneWindow, houtside, if_false, hnone]
  exact settles_value_iff

theorem settles_window {active : List Text} {resolved result : Panes} {pane : Text × PixelRect}
    {window : WindowNode} (houtside : pane.1 ∉ active)
    (hwindow : (ui.tree.windows.find? fun window => window.id == pane.1) = some window) :
    Settles (fun fuel => resolvePaneWindow ui fuel active resolved pane) result ↔
      Settles (fun fuel => Fallible.fold (resolvePane ui fuel
        (resolvePaneWindow ui fuel (pane.1 :: active)) pane.1 (sourceRect window pane.2) pane.2)
        resolved window.controls) result := by
  rw [← settles_succ]
  simp only [resolvePaneWindow, houtside, if_false, hwindow]

/-- The windows around a pane are different windows of the skin. -/
theorem Reached.active {root pane : Text × PixelRect} {active : List Text}
    (h : Reached ui root active pane) :
    active.Nodup ∧ ∀ id ∈ active, id ∈ ui.tree.windows.map (·.id) := by
  induction h with
  | root => exact ⟨List.nodup_nil, fun id hid => absurd hid List.not_mem_nil⟩
  | @child active pane next window control id base _ outside named _ _ _ _ _ ih =>
    refine ⟨List.nodup_cons.2 ⟨outside, ih.1⟩, fun other hother => ?_⟩
    rcases List.mem_cons.1 hother with rfl | hother
    · have hid := List.find?_some named
      rw [beq_iff_eq] at hid
      exact List.mem_map.2 ⟨window, List.mem_of_find?_eq_some named, hid⟩
    · exact ih.2 other hother

theorem Reached.length_le {root pane : Text × PixelRect} {active : List Text}
    (h : Reached ui root active pane) : active.length ≤ ui.tree.windows.length := by
  have hsub := (List.subperm_of_subset h.active.1 h.active.2).length_le
  rwa [List.length_map] at hsub

/-! ## Whole layouts -/

/-- A split with two children takes its rectangle apart by the stated share. -/
def PaneSplit.Holds (split : PaneSplit) : Prop :=
  split.left ≠ [] → split.right ≠ [] →
    Partitions split.rect split.parts.1 split.parts.2 ∧
      HasShare split.rect split.parts.1 split.vertical split.percent

def SplitsHold (panes : Panes) : Prop := ∀ split ∈ panes.splits, split.Holds

theorem splitterPercent_le (result : Except UiStateError Text) : splitterPercent result ≤ 100 :=
  Nat.min_le_right _ _

theorem splitOf_holds {address : Text} {rect : PixelRect} (h : (splitOf ui address rect).Fits) :
    (splitOf ui address rect).Holds := by
  intro hleft hright
  have hmany : (splitOf ui address rect).right.isEmpty = false := by
    rw [List.isEmpty_eq_false_iff]
    exact hright
  have hshare := h.2 hleft hright
  obtain ⟨hedge, -⟩ := h
  rw [hmany] at hedge
  rw [show (splitOf ui address rect).parts = splitParts rect (splitOf ui address rect).vertical
    (splitOf ui address rect).percent (splitOf ui address rect).right.isEmpty from rfl, hmany]
  exact ⟨splitParts_partition hedge (splitterPercent_le _), (splitParts_share _ _ _).2 hshare⟩

theorem splitOf_fits {address : Text} {rect : PixelRect} {split : PaneSplit}
    (hsplit : split = splitOf ui address rect)
    (hedge : splitEdge split.rect split.vertical split.percent split.right.isEmpty < 2 ^ 32)
    (h : split.Holds) : split.Fits := by
  refine ⟨hedge, fun hleft hright => ?_⟩
  have hmany : split.right.isEmpty = false := by
    rw [List.isEmpty_eq_false_iff]
    exact hright
  have hparts : split.parts = splitParts split.rect split.vertical split.percent false := by
    rw [← hmany, hsplit]
    rfl
  have hshare := (h hleft hright).2
  rw [hparts] at hshare
  exact (splitParts_share _ _ _).1 hshare

theorem pane_ends {root pane : Text × PixelRect} {active : List Text} {window : WindowNode}
    {control : ControlNode} (hreached : Reached ui root active pane) (houtside : pane.1 ∉ active)
    (hwindow : (ui.tree.windows.find? fun window => window.id == pane.1) = some window)
    (hcontrol : control ∈ window.controls) (hfit : ReachedFit ui root)
    (hopened : ∀ next, Reached ui root (pane.1 :: active) next → ∀ resolved, SplitsHold resolved →
      ∃ result, Settles (fun fuel => resolvePaneWindow ui fuel (pane.1 :: active) resolved next)
        result ∧ SplitsHold result)
    {resolved : Panes} (hresolved : SplitsHold resolved) :
    ∃ result, Settles (fun fuel => resolvePane ui fuel
      (resolvePaneWindow ui fuel (pane.1 :: active)) pane.1 (sourceRect window pane.2) pane.2
      resolved control) result ∧ SplitsHold result := by
  by_cases hmain : control.controlType = .main
  · refine ⟨resolved, ?_, hresolved⟩
    simp only [resolvePane, hmain, if_true]
    exact settles_value resolved
  · cases hid : control.id with
    | none =>
      refine ⟨resolved, ?_, hresolved⟩
      simp only [resolvePane, hmain, if_false, hid]
      exact settles_value resolved
    | some id =>
      have hpane : IsPane control id := ⟨hmain, hid⟩
      obtain ⟨hends, hshown⟩ :=
        hfit active pane window control id hreached houtside hwindow hcontrol hpane
      cases hbase : paneBase ui (UiState.qualified pane.1 id) control with
      | none =>
        exact ⟨resolved, (settles_resolvePane_hidden hpane hbase).2 ⟨hends, rfl⟩, hresolved⟩
      | some base =>
        obtain ⟨hfits, hsplitFits⟩ := hshown base hbase
        simp only [settles_resolvePane_shown hpane hbase]
        cases hchild : isChild control with
        | false =>
          exact ⟨_, ⟨hends, (settles_resolveShown_leaf hends hchild).2 ⟨hfits, rfl⟩⟩, hresolved⟩
        | true =>
          have hfit' := hsplitFits hchild
          have hnoted : SplitsHold (resolved.note (splitOf ui (UiState.qualified pane.1 id)
              (paneRect ui (UiState.qualified pane.1 id) base (sourceRect window pane.2)
                pane.2))) := by
            intro split hsplit
            rcases List.mem_append.1 hsplit with hsplit | hsplit
            · exact hresolved split hsplit
            · rw [List.mem_singleton.1 hsplit]
              exact splitOf_holds hfit'
          obtain ⟨result, hresult, hholds⟩ := ends_fold
            (fun panes opened => grows_resolvePaneWindow (pane.1 :: active) panes opened)
            (fun next hnext panes hpanes => hopened next
              (.child hreached houtside hwindow hcontrol hpane hbase hchild hnext) panes hpanes)
            hnoted
          exact ⟨result, ⟨hends, (settles_resolveShown_split hends hchild rfl).2
            ⟨hfits, hfit'.1, hresult⟩⟩, hholds⟩

/-- Panes that fit are laid out. Each window that is entered leaves fewer to enter. -/
theorem window_ends {root : Text × PixelRect} (hfit : ReachedFit ui root) {active : List Text}
    {pane : Text × PixelRect} (hreached : Reached ui root active pane) {resolved : Panes}
    (hresolved : SplitsHold resolved) :
    ∃ result, Settles (fun fuel => resolvePaneWindow ui fuel active resolved pane) result ∧
      SplitsHold result := by
  induction hleft : ui.tree.windows.length - active.length using Nat.strongRecOn generalizing
    active pane resolved with
  | ind left ih =>
    by_cases hinside : pane.1 ∈ active
    · exact ⟨resolved, (settles_window_inside hinside).2 rfl, hresolved⟩
    · cases hwindow : ui.tree.windows.find? fun window => window.id == pane.1 with
      | none => exact ⟨resolved, (settles_window_unknown hinside hwindow).2 rfl, hresolved⟩
      | some window =>
        simp only [settles_window hinside hwindow]
        refine ends_fold (fun panes control => grows_resolvePane _ _ _ _ panes control)
          (fun control hcontrol panes hpanes => ?_) hresolved
        refine pane_ends hreached hinside hwindow hcontrol hfit (fun next hnext panes hpanes => ?_)
          hpanes
        have hlength := hnext.length_le
        rw [List.length_cons] at hlength
        exact ih _ (by rw [List.length_cons]; omega) hnext hpanes rfl

/-- What the layout of a pane needed, if it ended. -/
theorem fits_of_settles {active : List Text} {windowId id : Text} {source viewport : PixelRect}
    {resolved result : Panes} {control : ControlNode} (hpane : IsPane control id)
    (hresult : Settles (fun fuel => resolvePane ui fuel (resolvePaneWindow ui fuel active) windowId
      source viewport resolved control) result) (hholds : SplitsHold result) :
    PaneFits ui (UiState.qualified windowId id) control source viewport := by
  cases hbase : paneBase ui (UiState.qualified windowId id) control with
  | none =>
    refine ⟨((settles_resolvePane_hidden hpane hbase).1 hresult).1, fun base hbase' => ?_⟩
    rw [hbase] at hbase'
    cases hbase'
  | some base =>
    obtain ⟨hends, hshown⟩ := (settles_resolvePane_shown hpane hbase).1 hresult
    refine ⟨hends, fun base' hbase' => ?_⟩
    rw [hbase, Option.some_inj] at hbase'
    subst hbase'
    cases hchild : isChild control with
    | false =>
      exact ⟨((settles_resolveShown_leaf hends hchild).1 hshown).1, fun h => absurd h.symm (by decide)⟩
    | true =>
      obtain ⟨hfits, hedge, hchildren⟩ := (settles_resolveShown_split hends hchild rfl).1 hshown
      refine ⟨hfits, fun _ => splitOf_fits rfl hedge (hholds _ ?_)⟩
      obtain ⟨fuel, hfuel⟩ := hchildren
      have hgrow := fold_le SplitsGrow.refl SplitsGrow.trans
        (fun panes opened panes' h => resolvePaneWindow_grows h) (hfuel fuel le_rfl)
      exact hgrow (List.mem_append_right _ (List.mem_singleton.2 rfl))

/-- Every pane that is reached has been laid out, if the layout ended. -/
theorem Reached.laid {root : Text × PixelRect} {start finish : Panes}
    (hroot : Settles (fun fuel => resolvePaneWindow ui fuel [] start root) finish)
    {active : List Text} {pane : Text × PixelRect} (h : Reached ui root active pane) :
    ∃ resolved result, Settles (fun fuel => resolvePaneWindow ui fuel active resolved pane) result ∧
      SplitsGrow result finish := by
  induction h with
  | root => exact ⟨start, finish, hroot, .refl finish⟩
  | @child active pane next window control id base _ outside named within placed shown splits
      opened ih =>
    obtain ⟨resolved, result, hresult, hgrow⟩ := ih
    rw [settles_window outside named] at hresult
    obtain ⟨before, after, hcontrol, hafter⟩ := Settles.fold_step
      (fun panes control => grows_resolvePane _ _ _ _ panes control) SplitsGrow.refl
      SplitsGrow.trans
      (fun fuel panes control panes' h => resolvePane_grows
        (fun panes opened panes' h => resolvePaneWindow_grows h) h) hresult within
    obtain ⟨hends, hcontrol⟩ := (settles_resolvePane_shown placed shown).1 hcontrol
    obtain ⟨-, -, hchildren⟩ := (settles_resolveShown_split hends splits rfl).1 hcontrol
    obtain ⟨inner, outer, hnext, houter⟩ := Settles.fold_step
      (fun panes opened => grows_resolvePaneWindow _ panes opened) SplitsGrow.refl
      SplitsGrow.trans (fun fuel panes opened panes' h => resolvePaneWindow_grows h) hchildren
      opened
    exact ⟨inner, outer, hnext, houter.trans (hafter.trans hgrow)⟩

theorem reachedFit_of_settles {root : Text × PixelRect} {start finish : Panes}
    (hroot : Settles (fun fuel => resolvePaneWindow ui fuel [] start root) finish)
    (hholds : SplitsHold finish) : ReachedFit ui root := by
  intro active pane window control id hreached houtside hwindow hcontrol hpane
  obtain ⟨resolved, result, hresult, hgrow⟩ := hreached.laid hroot
  rw [settles_window houtside hwindow] at hresult
  obtain ⟨before, after, hlaid, hafter⟩ := Settles.fold_step
    (fun panes control => grows_resolvePane _ _ _ _ panes control) SplitsGrow.refl
    SplitsGrow.trans
    (fun fuel panes control panes' h => resolvePane_grows
      (fun panes opened panes' h => resolvePaneWindow_grows h) h) hresult hcontrol
  exact fits_of_settles hpane hlaid fun split hsplit => hholds split (hgrow (hafter hsplit))

end

/-- The layout ends, and every split with two children partitions its rectangle by its share. -/
def LayoutHolds (ui : UiState) (viewportSize : Option (BitVec 32 × BitVec 32)) : Prop :=
  ∃ layout, Settles (resolvePaneLayoutIn ui viewportSize) layout ∧ SplitsHold layout.panes

variable {viewportSize : Option (BitVec 32 × BitVec 32)}

theorem settles_layout {layout : ResolvedPaneLayout} :
    Settles (resolvePaneLayoutIn ui viewportSize) layout ↔
      RootEnds ui ∧ layout.root = rootViewport (rootOf ui) viewportSize ∧
        Settles (fun fuel => resolveRoot ui (rootViewport (rootOf ui) viewportSize) fuel (rootOf ui))
          layout.panes := by
  have hgrows : ∀ root, Grows fun fuel =>
      resolveRoot ui (rootViewport root viewportSize) fuel root := by
    intro root
    cases root with
    | none => exact fun fuel => .refl _
    | some window => exact grows_resolvePaneWindow [] Panes.empty _
  rw [show resolvePaneLayoutIn ui viewportSize = fun fuel => (rootWindow ui fuel).bind fun root =>
      (resolveRoot ui (rootViewport root viewportSize) fuel root).map fun panes =>
        ⟨rootViewport root viewportSize, panes⟩ from rfl, settles_bind (grows_rootWindow ui)]
  constructor
  · rintro ⟨root, hroot, hlayout⟩
    obtain ⟨hends, rfl⟩ := settles_rootWindow.1 hroot
    obtain ⟨panes, hpanes, rfl⟩ := (settles_map (hgrows _)).1 hlayout
    exact ⟨hends, rfl, hpanes⟩
  · rintro ⟨hends, hroot, hpanes⟩
    refine ⟨rootOf ui, settles_rootWindow.2 ⟨hends, rfl⟩, (settles_map (hgrows _)).2 ⟨_, hpanes, ?_⟩⟩
    rw [← hroot]

theorem layoutFits_of_holds (h : LayoutHolds ui viewportSize) : LayoutFits ui viewportSize := by
  obtain ⟨layout, hlayout, hholds⟩ := h
  obtain ⟨hends, -, hpanes⟩ := settles_layout.1 hlayout
  refine ⟨hends, fun window hwindow => ?_⟩
  rw [hwindow] at hpanes
  exact reachedFit_of_settles hpanes hholds

theorem layoutHolds_of_fits (h : LayoutFits ui viewportSize) : LayoutHolds ui viewportSize := by
  obtain ⟨hends, hfit⟩ := h
  have hempty : SplitsHold Panes.empty := fun split hsplit => absurd hsplit List.not_mem_nil
  have hroot : ∃ panes, Settles (fun fuel =>
      resolveRoot ui (rootViewport (rootOf ui) viewportSize) fuel (rootOf ui)) panes ∧
      SplitsHold panes := by
    cases hwindow : rootOf ui with
    | none => exact ⟨Panes.empty, settles_value _, hempty⟩
    | some window => exact window_ends (hfit window hwindow) .root hempty
  obtain ⟨panes, hpanes, hholds⟩ := hroot
  exact ⟨⟨_, panes⟩, settles_layout.2 ⟨hends, rfl, hpanes⟩, hholds⟩

/-- The layout of every client is total, with exact splits, just if what it reaches fits. -/
theorem pane_layout_total (ui : UiState) (viewportSize : Option (BitVec 32 × BitVec 32)) :
    LayoutHolds ui viewportSize ↔ LayoutFits ui viewportSize :=
  ⟨layoutFits_of_holds, layoutHolds_of_fits⟩

/-- A window with a label at the last pixel of 32 bits, one pixel wide. -/
def farLabelTree : ControlTree where
  windows := [
    { id := "w".toList
      controls := [
        { id := some "w".toList, controlType := .main, properties := [⟨"type".toList, "MAIN".toList⟩] },
        { id := some "c".toList, controlType := .label
          properties := [⟨"type".toList, "LABEL".toList⟩, ⟨"pos".toList, "4294967295,0".toList⟩,
            ⟨"size".toList, "1x1".toList⟩] }] }]
  auxiliary := []

theorem far_label_overflows (fuel : Nat) :
    resolvePaneLayoutIn (UiState.new farLabelTree) none (fuel + 2) = .panic := rfl

theorem far_label_not_laid_out :
    ¬ ∀ (ui : UiState) (viewportSize : Option (BitVec 32 × BitVec 32)),
      LayoutHolds ui viewportSize := by
  intro h
  obtain ⟨layout, ⟨fuel, hfuel⟩, -⟩ := h (UiState.new farLabelTree) none
  have hvalue := hfuel (fuel + 2) (by omega)
  rw [far_label_overflows] at hvalue
  cases hvalue

end Dream64.Dmf
