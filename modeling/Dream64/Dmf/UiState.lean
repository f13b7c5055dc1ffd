import Dream64.Library.Fuel
import Dream64.Library.Numerals
import Dream64.Library.Words
import Dream64.Preprocess.Scan

/-!
# Addresses of controls

The skin of a client as a tree of named controls, the overrides and clones
that its commands leave, and how an address is resolved and read. An address
that lists others or that stands for all controls of a section is read by
reading those, without a bound: `winget` is given fuel.
-/

namespace Dream64.Dmf

open Preprocess (Text trim)
open Words (splitOnce)

def toAsciiLowercase (text : Text) : Text := text.map Char.toLower

def toAsciiUppercase (text : Text) : Text := text.map Char.toUpper

def eqIgnoreAsciiCase (first second : Text) : Bool :=
  toAsciiLowercase first == toAsciiLowercase second

/-! ## The skin -/

inductive ControlType where
  | main
  | map
  | browser
  | input
  | output
  | label
  | button
  | unknown
deriving DecidableEq, Repr

def ControlType.fromDmf (value : Text) : ControlType :=
  let name := toAsciiUppercase value
  if name = "MAIN".toList then .main
  else if name = "MAP".toList then .map
  else if name = "BROWSER".toList then .browser
  else if name = "INPUT".toList then .input
  else if name = "OUTPUT".toList then .output
  else if name = "LABEL".toList then .label
  else if name = "BUTTON".toList then .button
  else .unknown

structure Property where
  key : Text
  decoded : Text
deriving DecidableEq, Repr

structure PixelRect where
  x : BitVec 32
  y : BitVec 32
  width : BitVec 32
  height : BitVec 32
deriving DecidableEq, Repr

def parseU32 (text : Text) : Option (BitVec 32) :=
  (Numerals.parseNat 10 (2 ^ 32) text).map (BitVec.ofNat 32)

def parsePair (value : Text) : Option (BitVec 32 × BitVec 32) :=
  (splitOnce ',' value).bind fun parts =>
    (parseU32 (trim parts.1)).bind fun x => (parseU32 (trim parts.2)).map fun y => (x, y)

def parseSize (value : Text) : Option (BitVec 32 × BitVec 32) :=
  (splitOnce 'x' (toAsciiLowercase value)).bind fun parts =>
    (parseU32 (trim parts.1)).bind fun width =>
      (parseU32 (trim parts.2)).map fun height => (width, height)

structure ControlNode where
  id : Option Text
  controlType : ControlType
  properties : List Property
deriving DecidableEq, Repr

namespace ControlNode

/-- The value of the last property of this name. -/
def property (control : ControlNode) (name : Text) : Option Text :=
  (control.properties.reverse.find? fun property => eqIgnoreAsciiCase property.key name).map
    (·.decoded)

def pixelRect (control : ControlNode) : Option PixelRect :=
  ((control.property "pos".toList).bind parsePair).bind fun position =>
    ((control.property "size".toList).bind parseSize).map fun size =>
      ⟨position.1, position.2, size.1, size.2⟩

def isDefault (control : ControlNode) : Bool :=
  (control.property "is-default".toList).any fun value =>
    let word := toAsciiLowercase (trim value)
    word == "true".toList || word == "yes".toList || word == "1".toList

end ControlNode

structure WindowNode where
  id : Text
  controls : List ControlNode
deriving DecidableEq, Repr

namespace WindowNode

/-- A section is meant by its identifier, or by it without `macro:` or `menu:`. -/
def idMatches (id name : Text) : Bool :=
  id == name || id.dropPrefix? "macro:".toList == some name ||
    id.dropPrefix? "menu:".toList == some name

def isNamed (node : WindowNode) (name : Text) : Bool := idMatches node.id name

def control (node : WindowNode) (controlId : Text) : Option ControlNode :=
  node.controls.find? fun control => control.id == some controlId

end WindowNode

/-- The windows, and the sections of macro sets and menus. -/
structure ControlTree where
  windows : List WindowNode
  auxiliary : List WindowNode
deriving DecidableEq, Repr

namespace ControlTree

def sections (tree : ControlTree) : List WindowNode := tree.windows ++ tree.auxiliary

def control (tree : ControlTree) (windowId controlId : Text) : Option ControlNode :=
  (tree.windows.find? fun window => window.id == windowId).bind fun window =>
    window.control controlId

def addressableControl (tree : ControlTree) (namespaceId controlId : Text) :
    Option ControlNode :=
  (tree.control namespaceId controlId).or
    ((tree.auxiliary.find? fun node => node.isNamed namespaceId).bind fun node =>
      node.control controlId)

end ControlTree

/-! ## The state of a client -/

structure RuntimeProperty where
  name : Text
  value : Text
deriving DecidableEq, Repr

structure ControlOverride where
  windowId : Text
  controlId : Text
  properties : List RuntimeProperty
deriving DecidableEq, Repr

structure ClonedWindow where
  source : Text
  destination : Text
deriving DecidableEq, Repr

structure UiState where
  tree : ControlTree
  overrides : List ControlOverride
  clonedWindows : List ClonedWindow
deriving DecidableEq, Repr

inductive UiStateError where
  | unknownControl (control : Text)
  | ambiguousControl (control : Text)
  | malformedAssignment (source : Text)
  | unterminatedAssignmentQuote
deriving DecidableEq, Repr

namespace UiState

def new (tree : ControlTree) : UiState := ⟨tree, [], []⟩

def findClone (ui : UiState) (windowId : Text) : Option ClonedWindow :=
  ui.clonedWindows.find? fun clone => clone.destination == windowId

def findOverride (ui : UiState) (windowId controlId : Text) : Option ControlOverride :=
  ui.overrides.find? fun entry => entry.windowId == windowId && entry.controlId == controlId

/-- The main control of a clone is named after the clone. -/
def cloneControl (clone : ClonedWindow) (controlId : Text) : Text :=
  if controlId = clone.destination then clone.source else controlId

def sourceWindowId (ui : UiState) (windowId : Text) : Text :=
  ((ui.findClone windowId).map (·.source)).getD windowId

def sourceControlId (ui : UiState) (windowId controlId : Text) : Text :=
  ((ui.clonedWindows.find? fun clone =>
    clone.destination == windowId && controlId == clone.destination).map (·.source)).getD controlId

/-! ### Resolving an address -/

/-- The order in which `:TYPE` looks at controls: default ones first, then by window and name. -/
def typeOrder (first second : WindowNode × ControlNode) : Bool :=
  if first.2.isDefault ≠ second.2.isDefault then first.2.isDefault
  else if first.1.id = second.1.id then decide (first.2.id.getD [] ≤ second.2.id.getD [])
  else decide (first.1.id ≤ second.1.id)

/-- The control that an address of the form `:TYPE` stands for. -/
def resolveType (ui : UiState) (address : Text) : Option (Text × Text) :=
  (address.dropPrefix? [':']).bind fun selector =>
    let expected := ControlType.fromDmf selector
    if expected = .unknown then none
    else
      let found := ui.tree.sections.flatMap fun window =>
        (window.controls.filter fun control => control.controlType == expected).map (window, ·)
      (found.insertionSort fun first second => typeOrder first second).head?.bind fun entry =>
        entry.2.id.map fun controlId => (entry.1.id, controlId)

/-- The windows in which an address without a window names a control. -/
def windowsWith (ui : UiState) (address : Text) : List Text :=
  (ui.tree.sections.filter fun window =>
      window.controls.any fun control => control.id == some address).map (·.id) ++
    (ui.overrides.filter fun entry => entry.controlId == address).map (·.windowId) ++
    (ui.clonedWindows.filter fun clone =>
      (ui.tree.addressableControl clone.source (cloneControl clone address)).isSome).map
        (·.destination)

def resolveUnqualified (ui : UiState) (address : Text) : Except UiStateError (Text × Text) :=
  match (ui.windowsWith address).dedup with
  | [] => .error (.unknownControl address)
  | [windowId] => .ok (windowId, address)
  | _ => .error (.ambiguousControl address)

def resolvesInClone (ui : UiState) (windowId controlId : Text) : Bool :=
  (ui.findClone windowId).any fun clone =>
    (ui.tree.addressableControl clone.source (cloneControl clone controlId)).isSome

def resolveQualified (ui : UiState) (address windowId controlId : Text) :
    Except UiStateError (Text × Text) :=
  if ui.resolvesInClone windowId controlId then .ok (windowId, controlId)
  else
    match ui.overrides.find? fun entry =>
      WindowNode.idMatches entry.windowId windowId && entry.controlId == controlId with
    | some entry => .ok (entry.windowId, controlId)
    | none =>
      if (ui.tree.addressableControl windowId controlId).isSome then .ok (windowId, controlId)
      else .error (.unknownControl address)

def resolveControl (ui : UiState) (address : Text) : Except UiStateError (Text × Text) :=
  match ui.resolveType address with
  | some resolved => .ok resolved
  | none =>
    match splitOnce '.' address with
    | none => ui.resolveUnqualified address
    | some parts => ui.resolveQualified address parts.1 parts.2

/-! ### Reading a property -/

/-- The value of a property at a resolved control: an override in front of the skin. -/
def propertyAt (ui : UiState) (windowId controlId property : Text) : Text :=
  match (ui.findOverride windowId controlId).bind fun entry =>
    entry.properties.reverse.find? fun entry => eqIgnoreAsciiCase entry.name property with
  | some entry => entry.value
  | none =>
    ((ui.tree.addressableControl (ui.sourceWindowId windowId)
      (ui.sourceControlId windowId controlId)).bind fun control =>
        control.property property).getD []

/-- The controls that an address lists. -/
def listed (address : Text) : List Text :=
  ((address.splitOnP (· == ';')).map trim).filter fun control => !control.isEmpty

/-- The names of the controls in a section, those of its overrides included. -/
def sectionIds (ui : UiState) (node : WindowNode) : List Text :=
  let ids := node.controls.filterMap (·.id) ++
    (ui.overrides.filter fun entry => entry.windowId == node.id).map (·.controlId)
  (ids.insertionSort (· ≤ ·)).dedup

def qualified (windowId controlId : Text) : Text := windowId ++ '.' :: controlId

def reading (address property value : Text) : Text := address ++ '.' :: property ++ '=' :: value

def joinEntries (entries : List Text) : Text := [';'].intercalate entries

/-- The results up to the first error. -/
def collect (read : Text → Fuelled (Except UiStateError Text)) :
    List Text → Fuelled (Except UiStateError (List Text))
  | [] => .value (.ok [])
  | address :: rest => (read address).bind fun result =>
    match result with
    | .error e => .value (.error e)
    | .ok entry => (collect read rest).map fun entries => entries.map (entry :: ·)

def readEntries (read : Text → Fuelled (Except UiStateError Text)) (property : Text)
    (addresses : List Text) : Fuelled (Except UiStateError Text) :=
  (collect (fun address => (read address).map fun value =>
    value.map (reading address property)) addresses).map fun entries => entries.map joinEntries

def winget (ui : UiState) : Nat → Text → Text → Fuelled (Except UiStateError Text)
  | 0, _, _ => .error .outOfFuel
  | fuel + 1, control, property =>
    if ';' ∈ control then
      readEntries (fun address => winget ui fuel address property) property (listed control)
    else
      match control.dropSuffix? ".*".toList with
      | some namespaceId =>
        match ui.tree.sections.find? fun node => node.isNamed namespaceId with
        | none => .value (.error (.unknownControl control))
        | some node =>
          readEntries (fun address => winget ui fuel address property) property
            ((ui.sectionIds node).map (qualified namespaceId))
      | none =>
        .value ((ui.resolveControl control).map fun resolved =>
          ui.propertyAt resolved.1 resolved.2 property)

end UiState

end Dream64.Dmf

/-!
# Reads that end

An address that stands for a section of which one control is named `*`, or
that lists itself, is read without an end. Whether a read ends does not depend
on the property (`ReadEnds.reads`), and the read of an address that neither
lists nor stands for others always ends (`readEnds_of_plain`).
-/

namespace Dream64.Dmf

open Preprocess (Text trim)
open Fuelled

namespace UiState

/-! ## More fuel -/

theorem refines_collect {read read' : Text → Fuelled (Except UiStateError Text)}
    (h : ∀ address, Refines (read address) (read' address)) (addresses : List Text) :
    Refines (collect read addresses) (collect read' addresses) := by
  induction addresses with
  | nil => exact .refl _
  | cons address rest ih =>
    refine (h address).bind fun result => ?_
    cases result with
    | error e => exact .refl _
    | ok entry => exact ih.map _

theorem refines_readEntries {read read' : Text → Fuelled (Except UiStateError Text)}
    (h : ∀ address, Refines (read address) (read' address)) (property : Text)
    (addresses : List Text) :
    Refines (readEntries read property addresses) (readEntries read' property addresses) :=
  (refines_collect (fun address => (h address).map _) addresses).map _

theorem refines_winget (ui : UiState) (fuel : Nat) (address property : Text) :
    Refines (ui.winget fuel address property) (ui.winget (fuel + 1) address property) := by
  induction fuel generalizing address with
  | zero => exact .inl rfl
  | succ fuel ih =>
    rw [winget, winget]
    split
    · exact refines_readEntries ih property _
    · split
      · split
        · exact .refl _
        · exact refines_readEntries ih property _
      · exact .refl _

theorem grows_winget (ui : UiState) (address property : Text) :
    Grows fun fuel => ui.winget fuel address property :=
  fun fuel => ui.refines_winget fuel address property

/-! ## Another property -/

/-- The second read gives a value where the first does, and an error where the first does. -/
def EndsAlike {α β : Type} (first : Fuelled (Except UiStateError α))
    (second : Fuelled (Except UiStateError β)) : Prop :=
  ∀ result, first = .value result →
    ∃ result', second = .value result' ∧ result'.toBool = result.toBool

theorem EndsAlike.map {α β γ δ : Type} {first : Fuelled (Except UiStateError α)}
    {second : Fuelled (Except UiStateError β)} (h : EndsAlike first second) (f : α → γ)
    (g : β → δ) : EndsAlike (first.map fun r => r.map f) (second.map fun r => r.map g) := by
  intro result hresult
  obtain ⟨r, hr, rfl⟩ := Fallible.map_eq_value.1 hresult
  obtain ⟨r', hr', hsame⟩ := h r hr
  refine ⟨r'.map g, Fallible.map_eq_value.2 ⟨r', hr', rfl⟩, ?_⟩
  cases r' <;> cases r <;> first | rfl | cases hsame

theorem EndsAlike.collect {read read' : Text → Fuelled (Except UiStateError Text)}
    (h : ∀ address, EndsAlike (read address) (read' address)) (addresses : List Text) :
    EndsAlike (collect read addresses) (collect read' addresses) := by
  induction addresses with
  | nil =>
    intro result hresult
    exact ⟨result, hresult, rfl⟩
  | cons address rest ih =>
    intro result hresult
    obtain ⟨r, hr, hrest⟩ := Fallible.bind_eq_value.1 hresult
    obtain ⟨r', hr', hsame⟩ := h address r hr
    rw [UiState.collect, hr', Fallible.value_bind]
    cases r with
    | error e =>
      cases r' with
      | ok entry => cases hsame
      | error e' => exact ⟨.error e', rfl, (Fallible.value.inj hrest) ▸ rfl⟩
    | ok entry =>
      cases r' with
      | error e' => cases hsame
      | ok entry' => exact ih.map (entry :: ·) (entry' :: ·) result hrest

theorem EndsAlike.readEntries {read read' : Text → Fuelled (Except UiStateError Text)}
    (h : ∀ address, EndsAlike (read address) (read' address)) (property property' : Text)
    (addresses : List Text) :
    EndsAlike (readEntries read property addresses) (readEntries read' property' addresses) :=
  (EndsAlike.collect (fun address => (h address).map _ _) addresses).map _ _

theorem endsAlike_winget (ui : UiState) (fuel : Nat) (address property property' : Text) :
    EndsAlike (ui.winget fuel address property) (ui.winget fuel address property') := by
  induction fuel generalizing address with
  | zero =>
    intro result hresult
    cases hresult
  | succ fuel ih =>
    rw [winget, winget]
    split
    · exact .readEntries ih property property' _
    · split
      · split
        · intro result hresult
          exact ⟨result, hresult, rfl⟩
        · exact .readEntries ih property property' _
      · intro result hresult
        refine ⟨_, rfl, ?_⟩
        rw [← Fallible.value.inj hresult]
        cases ui.resolveControl address <;> rfl

/-! ## Reads -/

/-- The read of an address comes to an end. -/
def ReadEnds (ui : UiState) (address : Text) : Prop :=
  Ends fun fuel => ui.winget fuel address []

theorem readEnds_iff (ui : UiState) (address property : Text) :
    ui.ReadEnds address ↔ Ends fun fuel => ui.winget fuel address property := by
  have hends : ∀ p q, (Ends fun fuel => ui.winget fuel address p) →
      Ends fun fuel => ui.winget fuel address q := by
    rintro p q ⟨result, n, hn⟩
    obtain ⟨result', hresult', -⟩ := ui.endsAlike_winget n address p q result (hn n le_rfl)
    exact ⟨result', (ui.grows_winget address q).settles hresult'⟩
  exact ⟨hends [] property, hends property []⟩

open Classical in
/-- What a read gives, if it ends. -/
noncomputable def read (ui : UiState) (address property : Text) : Except UiStateError Text :=
  if h : Ends fun fuel => ui.winget fuel address property then h.choose
  else .error (.unknownControl address)

theorem ReadEnds.reads {ui : UiState} {address : Text} (h : ui.ReadEnds address)
    (property : Text) :
    Settles (fun fuel => ui.winget fuel address property) (ui.read address property) := by
  have hends := (ui.readEnds_iff address property).1 h
  rw [read, dif_pos hends]
  exact hends.choose_spec

theorem read_eq {ui : UiState} {address property : Text} {result : Except UiStateError Text}
    (h : Settles (fun fuel => ui.winget fuel address property) result) :
    ui.ReadEnds address ∧ ui.read address property = result := by
  have hends := (ui.readEnds_iff address property).2 ⟨result, h⟩
  exact ⟨hends, (hends.reads property).unique h⟩

/-- A computation that reads first settles on what it does with the text. -/
theorem settles_read_bind {ui : UiState} {address property : Text} {β : Type}
    {g : Nat → Except UiStateError Text → Fuelled β} {b : β} :
    Settles (fun fuel => (ui.winget fuel address property).bind (g fuel)) b ↔
      ui.ReadEnds address ∧ Settles (fun fuel => g fuel (ui.read address property)) b := by
  rw [settles_bind (ui.grows_winget address property)]
  constructor
  · rintro ⟨result, hresult, hb⟩
    obtain ⟨hends, rfl⟩ := read_eq hresult
    exact ⟨hends, hb⟩
  · rintro ⟨hends, hb⟩
    exact ⟨_, hends.reads property, hb⟩

end UiState

end Dream64.Dmf
