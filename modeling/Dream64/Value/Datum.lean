import Dream64.Core
import Dream64.Library.SlotIndex

/-!
# Values and datums

A datum keeps its materialized fields in the order of their first write, in one
vector of pairs or, once its layout is shared with other datums, in the shared
vector of names and a vector of its own of values. From sixteen fields on it
has an index from names to slots. `DatumRecord` is what the functions of
`dm-value` work on; a `Datum` is a record whose names are distinct and whose
index, if it has one, is that of the names, and every operation gives a `Datum`
again. A slot of such a datum that has the right name has the value of the
field (`fieldAtValidatedSlot_eq`).
-/

namespace Dream64

open SlotIndex

/-- The generation tells the objects apart that had one slot of the arena after each other. -/
structure DatumId where
  index : Nat
  generation : Nat
deriving DecidableEq, Repr

structure ListId where
  index : Nat
  generation : Nat
deriving DecidableEq, Repr

inductive Value where
  | null
  | number (bits : DmNumberBits)
  | text (text : String)
  | file (path : String)
  | typePath (path : TypePath)
  /-- A type path with the fields that a construction overrides. -/
  | modifiedTypePath (base : TypePath) (overrides : List (FieldName × Value))
  | datum (id : DatumId)
  | list (id : ListId)

/-! ## Fields -/

inductive DatumFields where
  | owned (fields : List (FieldName × Value))
  | shared (names : List FieldName) (values : List Value)

namespace DatumFields

def names : DatumFields → List FieldName
  | owned fields => fields.map (·.1)
  | shared names _ => names

def values : DatumFields → List Value
  | owned fields => fields.map (·.2)
  | shared _ values => values

def length : DatumFields → Nat
  | owned fields => fields.length
  | shared _ values => values.length

def position (fields : DatumFields) (name : FieldName) : Option Nat := fields.names.idxOf? name

/-- `value_mut` -/
def setValue (fields : DatumFields) (slot : Nat) (value : Value) : DatumFields :=
  match fields with
  | owned fields => .owned (fields.modify slot fun entry => (entry.1, value))
  | shared names values => .shared names (values.set slot value)

def materializeOwned : DatumFields → List (FieldName × Value)
  | owned fields => fields
  | shared names values => names.zip values

end DatumFields

/-- The index from names to slots, a hash map. -/
abbrev DatumFieldIndex := FieldName → Option Nat

/-- `set_named_field` -/
def setNamedField (name : FieldName) (value : Value) :
    List (FieldName × Value) → List (FieldName × Value)
  | [] => [(name, value)]
  | entry :: fields =>
    if entry.1 = name then (entry.1, value) :: fields else entry :: setNamedField name value fields

def datumFieldIndexThreshold : Nat := 16

structure DatumRecord where
  typePath : TypePath
  fields : DatumFields
  fieldIndex : Option DatumFieldIndex

namespace DatumRecord

def fieldSlot (datum : DatumRecord) (name : FieldName) : Option Nat :=
  match datum.fieldIndex with
  | some index => index name
  | none => datum.fields.position name

def fieldOptional (datum : DatumRecord) (name : FieldName) : Option Value :=
  (datum.fieldSlot name).bind (datum.fields.values[·]?)

/-- The value of a slot, if the slot still has the expected name. -/
def fieldAtValidatedSlot (datum : DatumRecord) (slot : Nat) (name : FieldName) : Option Value :=
  if slot < datum.fields.length ∧ datum.fields.names[slot]? = some name then
    datum.fields.values[slot]?
  else none

def setField (datum : DatumRecord) (name : FieldName) (value : Value) : DatumRecord :=
  match datum.fieldIndex with
  | some index =>
    match index name with
    | some slot => { datum with fields := datum.fields.setValue slot value }
    | none =>
      { datum with
        fields := .owned (datum.fields.materializeOwned ++ [(name, value)])
        fieldIndex := some (Function.update index name (some datum.fields.length)) }
  | none =>
    let fields := setNamedField name value datum.fields.materializeOwned
    let added := (datum.fields.position name).isNone
    { datum with
      fields := .owned fields
      fieldIndex := if added && fields.length == datumFieldIndexThreshold then
        some (insertFrom (fun _ => none) 0 (fields.map (·.1))) else none }

def deleteField (datum : DatumRecord) (name : FieldName) : DatumRecord :=
  match datum.fieldSlot name with
  | none => datum
  | some slot =>
    let fields := datum.fields.materializeOwned.eraseIdx slot
    { datum with
      fields := .owned fields
      fieldIndex := if fields.length < datumFieldIndexThreshold then none
        else datum.fieldIndex.map fun index =>
          insertFrom (Function.update index name none) slot
            ((fields.map (·.1)).drop slot) }

/-- The layout is shared: the names, and the index that another datum with these names has. -/
def compactLayout (datum : DatumRecord) (indexed : Bool) : DatumRecord :=
  { datum with
    fields := .shared datum.fields.names datum.fields.values
    fieldIndex := if indexed then
      some (insertFrom (fun _ => none) 0 datum.fields.names) else none }

structure WellFormed (datum : DatumRecord) : Prop where
  length_eq : datum.fields.names.length = datum.fields.values.length
  nodup : datum.fields.names.Nodup
  index_eq : ∀ index ∈ datum.fieldIndex, ∀ name, index name = datum.fields.position name

end DatumRecord

namespace DatumFields

variable {fields : DatumFields} {name : FieldName} {slot : Nat} {value : Value}

theorem length_values : fields.values.length = fields.length := by
  cases fields with
  | owned fields => simp [values, length]
  | shared names values => rfl

theorem names_setValue : (fields.setValue slot value).names = fields.names := by
  cases fields with
  | owned fields =>
    refine List.ext_getElem? fun i => ?_
    show ((fields.modify slot _).map (·.1))[i]? = (fields.map (·.1))[i]?
    rw [List.getElem?_map, List.getElem?_map, List.getElem?_modify]
    by_cases heq : slot = i
    · cases fields[i]? <;> simp [heq]
    · simp [heq]
  | shared names values => rfl

theorem length_values_setValue :
    (fields.setValue slot value).values.length = fields.values.length := by
  cases fields with
  | owned fields => simp [setValue, values]
  | shared names values => exact List.length_set

theorem names_materializeOwned (h : fields.names.length = fields.values.length) :
    fields.materializeOwned.map (·.1) = fields.names := by
  cases fields with
  | owned fields => rfl
  | shared names values => exact List.map_fst_zip h.le

end DatumFields

theorem map_setNamedField (name : FieldName) (value : Value) (fields : List (FieldName × Value)) :
    (setNamedField name value fields).map (·.1) =
      if name ∈ fields.map (·.1) then fields.map (·.1) else fields.map (·.1) ++ [name] := by
  induction fields with
  | nil => simp [setNamedField]
  | cons entry fields ih =>
    rw [setNamedField]
    by_cases heq : entry.1 = name
    · simp [heq]
    · have hne : ¬ name = entry.1 := fun h => heq h.symm
      simp only [heq, if_false, List.map_cons, ih, List.mem_cons, hne, false_or]
      split <;> rfl

/-! ## Well-formed records -/

namespace DatumRecord

variable {datum : DatumRecord} {name : FieldName} {slot : Nat} {value : Value}

theorem WellFormed.fieldSlot (h : datum.WellFormed) :
    datum.fieldSlot name = datum.fields.names.idxOf? name := by
  unfold DatumRecord.fieldSlot
  cases hindex : datum.fieldIndex with
  | none => rfl
  | some index => exact h.index_eq index hindex name

/-- A record with owned fields and an exact index, or none. -/
theorem wellFormed_owned {typePath : TypePath} {entries : List (FieldName × Value)}
    {index : Option DatumFieldIndex} (hnodup : (entries.map (·.1)).Nodup)
    (hindex : ∀ i ∈ index, i = (entries.map (·.1)).idxOf?) :
    WellFormed ⟨typePath, .owned entries, index⟩ where
  length_eq := by simp [DatumFields.names, DatumFields.values]
  nodup := hnodup
  index_eq i hi name := by rw [hindex i hi]; rfl

theorem WellFormed.setField (h : datum.WellFormed) : (datum.setField name value).WellFormed := by
  unfold DatumRecord.setField
  have hnames := DatumFields.names_materializeOwned h.length_eq
  cases hfield : datum.fieldIndex with
  | some index =>
    have hindex : index = datum.fields.names.idxOf? := funext (h.index_eq index hfield)
    cases hslot : index name with
    | some slot =>
      simp only [hslot]
      refine ⟨?_, ?_, fun i hi other => ?_⟩
      · show (datum.fields.setValue slot value).names.length = _
        rw [DatumFields.names_setValue, DatumFields.length_values_setValue]
        exact h.length_eq
      · show (datum.fields.setValue slot value).names.Nodup
        rw [DatumFields.names_setValue]
        exact h.nodup
      · show i other = (datum.fields.setValue slot value).names.idxOf? other
        rw [DatumFields.names_setValue]
        exact h.index_eq i (hfield ▸ hi) other
    | none =>
      simp only [hslot]
      rw [hindex, List.idxOf?_eq_none_iff] at hslot
      refine wellFormed_owned ?_ fun i hi => ?_
      · rw [List.map_append, hnames]
        exact nodup_concat h.nodup hslot
      · cases hi
        rw [List.map_append, hnames, hindex]
        show _ = (datum.fields.names ++ [name]).idxOf?
        rw [idxOf?_concat hslot, h.length_eq, DatumFields.length_values]
  | none =>
    simp only
    have hnodup : ((setNamedField name value datum.fields.materializeOwned).map (·.1)).Nodup := by
      rw [map_setNamedField, hnames]
      split
      · exact h.nodup
      · rename_i hmem
        exact nodup_concat h.nodup hmem
    refine wellFormed_owned hnodup fun i hi => ?_
    split at hi
    · cases hi
      exact insertFrom_all hnodup
    · cases hi

theorem WellFormed.deleteField (h : datum.WellFormed) : (datum.deleteField name).WellFormed := by
  unfold DatumRecord.deleteField
  rw [h.fieldSlot]
  cases hslot : datum.fields.names.idxOf? name with
  | none => exact h
  | some slot =>
    have hnames := DatumFields.names_materializeOwned h.length_eq
    have herase : (datum.fields.materializeOwned.eraseIdx slot).map (·.1) =
        datum.fields.names.eraseIdx slot := by
      rw [← List.eraseIdx_map, hnames]
    refine wellFormed_owned ?_ fun i hi => ?_
    · rw [herase]
      exact h.nodup.eraseIdx slot
    · split at hi
      · cases hi
      · obtain ⟨index, hindex, rfl⟩ := Option.map_eq_some_iff.1 hi
        rw [herase, show index = datum.fields.names.idxOf? from funext (h.index_eq index hindex)]
        exact insertFrom_eraseIdx h.nodup ((idxOf?_eq_some h.nodup).1 hslot)

theorem WellFormed.compactLayout (h : datum.WellFormed) (indexed : Bool) :
    (datum.compactLayout indexed).WellFormed where
  length_eq := h.length_eq
  nodup := h.nodup
  index_eq index hindex name := by
    unfold DatumRecord.compactLayout at hindex
    cases indexed with
    | false => cases hindex
    | true =>
      cases hindex
      rw [insertFrom_all h.nodup]
      rfl

end DatumRecord

/-- A live datum. -/
structure Datum extends DatumRecord where
  wellFormed : toDatumRecord.WellFormed

namespace Datum

/-- The datum that `allocate_datum` makes. -/
def empty (typePath : TypePath) : Datum where
  typePath := typePath
  fields := .owned []
  fieldIndex := none
  wellFormed := DatumRecord.wellFormed_owned List.nodup_nil fun _ hi => nomatch hi

def setField (datum : Datum) (name : FieldName) (value : Value) : Datum where
  toDatumRecord := datum.toDatumRecord.setField name value
  wellFormed := datum.wellFormed.setField

def deleteField (datum : Datum) (name : FieldName) : Datum where
  toDatumRecord := datum.toDatumRecord.deleteField name
  wellFormed := datum.wellFormed.deleteField

def compactLayout (datum : Datum) (indexed : Bool) : Datum where
  toDatumRecord := datum.toDatumRecord.compactLayout indexed
  wellFormed := datum.wellFormed.compactLayout indexed

/-- `allocate_datum_with_defaults`: the layers are those of the ancestors, oldest first. -/
def withDefaults (typePath : TypePath) (defaults : List (List (FieldName × Value))) : Datum :=
  defaults.flatten.foldl (fun datum entry => datum.setField entry.1 entry.2) (.empty typePath)

/-- A slot that still has the name has the value of the field. -/
theorem fieldAtValidatedSlot_eq {datum : Datum} {slot : Nat} {name : FieldName} {value : Value}
    (h : datum.fieldAtValidatedSlot slot name = some value) :
    datum.fieldOptional name = some value := by
  unfold DatumRecord.fieldAtValidatedSlot at h
  split at h
  · rename_i hslot
    rw [DatumRecord.fieldOptional, datum.wellFormed.fieldSlot,
      (idxOf?_eq_some datum.wellFormed.nodup).2 hslot.2]
    exact h
  · cases h

end Datum

/-!
# Engine-owned defaults

The engine gives the objects of its own types fields with initial values, which
an object has also when its concrete type is in no catalog. A type inherits
them from its engine roots, the most derived first.
-/

namespace DmNumberBits

/-! The binary32 numbers of the engine's defaults. -/

def two : DmNumberBits := 0x40000000#32
def five : DmNumberBits := 0x40a00000#32
def ten : DmNumberBits := 0x41200000#32
def thirtyTwo : DmNumberBits := 0x42000000#32
def hundred : DmNumberBits := 0x42c80000#32
def twoHundredFiftyFive : DmNumberBits := 0x437f0000#32

end DmNumberBits

/-- `path == root || path.starts_with("root/")` -/
def TypePath.isOrUnder (runtimeType : TypePath) (root : String) : Bool :=
  runtimeType.path == root || runtimeType.path.startsWith (root ++ "/")

def engineRootPaths (runtimeType : TypePath) : List String :=
  if runtimeType.path == "/world" then ["/world", "/datum"]
  else if runtimeType.isOrUnder "/obj" then ["/obj", "/atom/movable", "/atom", "/datum"]
  else if runtimeType.isOrUnder "/mob" then ["/mob", "/atom/movable", "/atom", "/datum"]
  else if runtimeType.isOrUnder "/turf" then ["/turf", "/atom", "/datum"]
  else if runtimeType.isOrUnder "/area" then ["/area", "/atom", "/datum"]
  else if runtimeType.isOrUnder "/atom/movable" then ["/atom/movable", "/atom", "/datum"]
  else if runtimeType.isOrUnder "/atom" then ["/atom", "/datum"]
  else if runtimeType.isOrUnder "/image" then ["/image", "/datum"]
  else if runtimeType.isOrUnder "/client" then ["/client", "/datum"]
  else if runtimeType.isOrUnder "/particles" then ["/particles", "/datum"]
  else if runtimeType.isOrUnder "/sound" then ["/sound", "/datum"]
  else ["/datum"]

def engineDatumFields : List String := ["datum_flags", "tag"]

def engineAtomFields : List String :=
  ["alpha", "appearance", "appearance_flags", "blend_mode", "color", "contents", "density", "desc",
    "dir", "gender", "filters", "icon", "icon_state", "invisibility", "layer", "loc", "luminosity",
    "maptext", "maptext_height", "maptext_width", "maptext_x", "maptext_y", "mouse_opacity",
    "mouse_over_pointer", "name", "opacity", "overlays", "particles", "plane", "pixel_x",
    "pixel_y", "pixel_w", "pixel_z", "render_source", "render_target", "suffix", "text",
    "transform", "underlays", "vis_contents", "vis_locs", "vis_flags", "verbs", "x", "y", "z"]

def engineMovableFields : List String :=
  ["animate_movement", "bound_height", "bound_width", "bound_x", "bound_y", "glide_size", "locs",
    "screen_loc", "step_x", "step_y", "step_size"]

def engineMobFields : List String :=
  ["ckey", "client", "eye", "key", "perspective", "see_in_dark", "see_infrared", "see_invisible",
    "sight"]

def engineWorldFields : List String := ["maxx", "maxy", "maxz"]

def engineClientFields : List String :=
  ["address", "ckey", "computer_id", "connection", "byond_build", "byond_version",
    "control_freak", "dir", "eye", "gender", "fps", "inactivity", "key", "mob",
    "mouse_pointer_icon", "perspective", "pixel_w", "pixel_x", "pixel_y", "pixel_z", "screen",
    "statobj", "view"]

def engineImageFields : List String :=
  ["alpha", "appearance", "appearance_flags", "blend_mode", "color", "dir", "icon", "icon_state",
    "layer", "loc", "name", "overlays", "plane", "pixel_x", "pixel_y", "pixel_w", "pixel_z",
    "transform", "underlays", "vis_contents"]

def engineParticleFields : List String :=
  ["color", "width", "height", "count", "spawning", "bound1", "bound2", "gravity", "gradient",
    "color_change", "transform", "icon", "icon_state", "lifespan", "fadein", "fade", "position",
    "velocity", "scale", "grow", "rotation", "spin", "friction", "drift"]

def engineSoundFields : List String :=
  ["file", "repeat", "wait", "channel", "volume", "frequency", "pan", "offset"]

def engineOwnerFieldNames (owner : String) : List String :=
  match owner with
  | "/datum" => engineDatumFields
  | "/atom" => engineAtomFields
  | "/atom/movable" => engineMovableFields
  | "/mob" => engineMobFields
  | "/world" => engineWorldFields
  | "/client" => engineClientFields
  | "/image" => engineImageFields
  | "/particles" => engineParticleFields
  | "/sound" => engineSoundFields
  | _ => []

/-- The fields of an owner whose default is a number, and those whose default is a text. -/
structure EngineDefaults where
  numbers : List (DmNumberBits × List String)
  texts : List (String × List String)

/-- A field that is in no group is null. -/
def EngineDefaults.value (defaults : EngineDefaults) (name : String) : Value :=
  match defaults.numbers.find? fun group => group.2.contains name with
  | some group => .number group.1
  | none =>
    match defaults.texts.find? fun group => group.2.contains name with
    | some group => .text group.1
    | none => .null

def engineOwnerDefaults (owner : String) : Option EngineDefaults :=
  match owner with
  | "/datum" => some ⟨[(.zero, ["datum_flags"])], []⟩
  | "/atom" => some
    ⟨[(.twoHundredFiftyFive, ["alpha"]), (.two, ["dir"]), (.one, ["layer", "mouse_opacity"]),
      (.thirtyTwo, ["maptext_height", "maptext_width"]),
      (.zero, ["appearance_flags", "blend_mode", "density", "invisibility", "luminosity",
        "maptext_x", "maptext_y", "opacity", "plane", "pixel_x", "pixel_y", "pixel_w", "pixel_z",
        "vis_flags", "x", "y", "z"])],
      [("neuter", ["gender"])]⟩
  | "/atom/movable" => some
    ⟨[(.thirtyTwo, ["bound_height", "bound_width", "step_size"]),
      (.zero, ["animate_movement", "bound_x", "bound_y", "glide_size", "step_x", "step_y"])], []⟩
  | "/mob" => some
    ⟨[(.two, ["see_in_dark"]),
      (.zero, ["perspective", "see_infrared", "see_invisible", "sight"])], []⟩
  | "/world" => some ⟨[(.zero, engineWorldFields)], []⟩
  | "/client" => some
    ⟨[(.two, ["dir"]), (.ten, ["fps"]), (.five, ["view"]),
      (.zero, ["control_freak", "inactivity", "perspective", "pixel_w", "pixel_x", "pixel_y",
        "pixel_z"])],
      [("neuter", ["gender"])]⟩
  | "/image" => some
    ⟨[(.twoHundredFiftyFive, ["alpha"]), (.two, ["dir"]),
      (.zero, ["appearance_flags", "blend_mode", "layer", "plane", "pixel_x", "pixel_y",
        "pixel_w", "pixel_z"])], []⟩
  | "/particles" => some ⟨[], []⟩
  | "/sound" => some ⟨[(.hundred, ["volume"]), (.zero, ["frequency", "pan"])], []⟩
  | _ => none

def engineOwnerInitialValue (owner : String) (field : FieldName) : Option Value :=
  if (engineOwnerFieldNames owner).contains field.name then
    (engineOwnerDefaults owner).map (·.value field.name)
  else none

def engineBuiltinInitialValue (runtimeType : TypePath) (field : FieldName) : Option Value :=
  (engineRootPaths runtimeType).findSome? fun owner => engineOwnerInitialValue owner field

end Dream64
