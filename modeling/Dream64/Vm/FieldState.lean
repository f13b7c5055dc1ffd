import Dream64.Value.Datum
import Dream64.Library.Memo
import Dream64.Library.ParentGraph
import Dream64.Library.Answers

/-!
# Type catalogs and effective initial values

The runtime catalogs give the types their parents, the initial values of their
fields and the storage of their shared fields. The initial value of a field is
that of the nearest ancestor that has one; the search follows the parents in a
loop, which takes fuel here. The effective initial value falls back to the
engine's roots, and is kept in a memo that every change of a catalog it comes
from empties.
-/

namespace Dream64.Vm

structure Catalog where
  typeParents : TypePath → Option (Option TypePath)
  initialValues : TypePath → Option (FieldName → Option Value)
  /-- The owner-qualified global of a shared field. -/
  sharedFields : TypePath → Option (FieldName → Option FieldName)

namespace Catalog

variable {catalog : Catalog} {path : TypePath} {field : FieldName} {fuel : Nat}
  {value : Option Value}

def typeParent (catalog : Catalog) (path : TypePath) : Option TypePath :=
  (catalog.typeParents path).join

def directInitialValue (catalog : Catalog) (path : TypePath) (field : FieldName) : Option Value :=
  (catalog.initialValues path).bind (· field)

/-- Nothing, if the climb to the ancestors does not end within the fuel. -/
def initialValue (catalog : Catalog) (field : FieldName) : Nat → TypePath → Option (Option Value)
  | 0, _ => none
  | fuel + 1, path =>
    match catalog.directInitialValue path field with
    | some value => some (some value)
    | none =>
      match catalog.typeParent path with
      | some parent => catalog.initialValue field fuel parent
      | none => some none

def engineRootInitialValue (catalog : Catalog) (runtimeType : TypePath) (field : FieldName) :
    Option Value :=
  (engineRootPaths runtimeType).findSome? fun root =>
    (TypePath.parse root).toOption.bind fun root => catalog.directInitialValue root field

/-- What `effective_initial_value` computes when its memo has no entry. -/
def effectiveInitialValue (catalog : Catalog) (fuel : Nat) (path : TypePath) (field : FieldName) :
    Option (Option Value) :=
  (catalog.initialValue field fuel path).map fun value =>
    (value.or (catalog.engineRootInitialValue path field)).or (engineBuiltinInitialValue path field)

def sharedStorage (catalog : Catalog) (path : TypePath) (field : FieldName) : Option FieldName :=
  (catalog.sharedFields path).bind (· field)

end Catalog

/-! ## The memo of effective initial values -/

abbrev InitialValueMemo := List ((TypePath × FieldName) × Option Value)

def maxEffectiveInitialValueCacheEntries : Nat := 524288
def maxEffectiveInitialValueCacheFieldsPerType : Nat := 128

/-- The memo has room for another field of the type. -/
def InitialValueMemo.admits (memo : InitialValueMemo) (key : TypePath × FieldName) : Bool :=
  memo.length < maxEffectiveInitialValueCacheEntries &&
    (memo.filter fun entry => entry.1.1 = key.1).length <
      maxEffectiveInitialValueCacheFieldsPerType

/-- Its entries are effective initial values of the catalog. -/
def InitialValueMemo.SoundFor (memo : InitialValueMemo) (fuel : Nat) (catalog : Catalog) : Prop :=
  Memo.Sound (fun key => catalog.effectiveInitialValue fuel key.1 key.2) memo

end Dream64.Vm

/-!
# Reading a field

A field read of the virtual machine, as it is without inline caches. The
functions are generic in the state: `ExecutionState` is that of the machine,
with a memo of effective initial values and a cache at every instruction, and
`Storage` is what is left without them. The reads of the machine are those of
the storage (`ExecutionState.answers_plainLoadField`): memo and caches have no
part in them.
-/

namespace Dream64.Vm

open Stepwise

/-! ## Storage -/

/-- The objects of a world; `World` is what only native reads look at. -/
structure Objects (World : Type) where
  datums : DatumId → Option Datum
  listLengths : ListId → Option Nat
  globals : FieldName → Option Value
  world : World

structure Storage (World : Type) where
  objects : Objects World
  catalog : Catalog

/-- The values of `dm-value`'s `ValueError` that a field read meets. -/
inductive ValueError where
  | missingField (name : FieldName)
  | staleDatum (id : DatumId)
  | staleList (id : ListId)

inductive FieldReadError where
  | value (error : ValueError)
  | message (message : String)
  | receivedNull
  | requiresDatum (received : Value)

/-- A stale handle reads as null. -/
def Objects.canonicalizeValue {World : Type} (objects : Objects World) : Value → Value
  | .datum id => if (objects.datums id).isNone then .null else .datum id
  | .list id => if (objects.listLengths id).isNone then .null else .list id
  | value => value

/-- A builtin in native code: a value or an error message, and the objects it leaves. -/
abbrev Native (World α : Type) := Storage World → Except String α × Objects World

inductive AtomListKind where
  | contents
  | locs
  | ordinary
  | visContents
  | visLocs

inductive SavefileField where
  | cd
  | eof
  | dir

/-- The native reads of the engine's own fields. -/
structure NativeReads (World : Type) where
  /-- `dm_list_length_number`, the conversion to binary32. -/
  listLengthNumber : Nat → DmNumberBits
  appearanceSnapshot : DatumId → Native World Value
  identityMatrix : Native World Value
  areaCoordinateField : DatumId → FieldName → Storage World → Option Value
  atomList : AtomListKind → DatumId → FieldName → Native World Value
  savefileField : SavefileField → DatumId → Native World Value

/-! ## The types with engine fields -/

def isAtomTypePath (path : TypePath) : Bool :=
  ["/atom", "/area", "/turf", "/obj", "/mob"].any path.isOrUnder

def isAppearanceTypePath (path : TypePath) : Bool :=
  path.isOrUnder "/image" || path.isOrUnder "/mutable_appearance"

def isAppearanceSource (path : TypePath) : Bool := isAppearanceTypePath path || isAtomTypePath path

/-- The fields whose reads have engine behaviour of their own. -/
def engineReadFields : List String :=
  ["type", "parent_type", "appearance", "transform", "x", "y", "z", "contents", "filters",
    "overlays", "underlays", "verbs", "vis_contents", "vis_locs", "locs"]

def datumFieldRequiresSpecialRead (runtimeType : TypePath) (field : FieldName) : Bool :=
  runtimeType.isOrUnder "/savefile" || engineReadFields.contains field.name

def atomListKind (field : FieldName) : Option AtomListKind :=
  match field.name with
  | "contents" => some .contents
  | "locs" => some .locs
  | "filters" | "overlays" | "underlays" | "verbs" => some .ordinary
  | "vis_contents" => some .visContents
  | "vis_locs" => some .visLocs
  | _ => none

def savefileField (field : FieldName) : Option SavefileField :=
  match field.name with
  | "cd" => some .cd
  | "eof" => some .eof
  | "dir" => some .dir
  | _ => none

/-! ## The reads -/

/-- A state that fields can be read from. -/
class FieldState (σ : Type) (World : outParam Type) where
  storage : σ → Storage World
  withObjects : σ → Objects World → σ
  effectiveInitialValue : Nat → TypePath → FieldName → σ → Option (Option Value × σ)

open FieldState

section

variable {σ World : Type} [FieldState σ World]

def runNative (native : Native World Value) (s : σ) : Except FieldReadError Value × σ :=
  ((native (storage s)).1.mapError .message, withObjects s (native (storage s)).2)

def orMissing (name : FieldName) : Option Value → Except ValueError Value
  | some value => .ok value
  | none => .error (.missingField name)

/-- `datum_field_or_initial_record` -/
def datumFieldOrInitial (fuel : Nat) (record : Datum) (name : FieldName) (s : σ) :
    Option (Except ValueError Value × σ) :=
  match record.fieldOptional name with
  | some value => some (.ok value, s)
  | none => (effectiveInitialValue fuel record.typePath name s).map fun r =>
    (orMissing name r.1, r.2)

/-- A missing field is looked up in the shared storage of the type. -/
def Storage.orShared (storage : Storage World) (runtimeType : TypePath) (name : FieldName) :
    Except ValueError Value → Except ValueError Value
  | .error (.missingField missing) =>
    match storage.catalog.sharedStorage runtimeType name with
    | none => .error (.missingField missing)
    | some global => .ok ((storage.objects.globals global).getD .null)
  | result => result

/-- `datum_field_or_shared_record` -/
def datumFieldOrShared (fuel : Nat) (record : Datum) (name : FieldName) (s : σ) :
    Option (Except ValueError Value × σ) :=
  (datumFieldOrInitial fuel record name s).map fun r =>
    ((storage r.2).orShared record.typePath name r.1, r.2)

/-- A field that is missing reads as null where it is known to be declared. -/
def missingAsNull (declared : Bool) : Except ValueError Value → Except FieldReadError Value
  | .ok value => .ok value
  | .error (.missingField name) =>
    if declared then .ok .null else .error (.value (.missingField name))
  | .error error => .error (.value error)

def isNullOrMissing : Except ValueError Value → Bool
  | .ok .null => true
  | .error (.missingField _) => true
  | _ => false

def Catalog.parentType (catalog : Catalog) (path : TypePath) : Value :=
  (catalog.typeParent path).elim .null .typePath

/-- Whether the read of an appearance or a transform is that of an object without one. -/
def readsUnsetAppearance (fuel : Nat) (record : Datum) (name : FieldName) (s : σ) :
    Option (Bool × σ) :=
  if (name.name == "appearance" || name.name == "transform") && isAppearanceSource record.typePath
  then (datumFieldOrInitial fuel record name s).map fun r => (isNullOrMissing r.1, r.2)
  else some (false, s)

def areaCoordinate (natives : NativeReads World) (record : Datum) (datum : DatumId)
    (name : FieldName) (s : σ) : Option Value :=
  if record.typePath.isOrUnder "/area" && ["x", "y", "z"].contains name.name then
    natives.areaCoordinateField datum name (storage s)
  else none

/-- `lazy_atom_list_field` -/
def lazyAtomListField (natives : NativeReads World) (record : Datum) (datum : DatumId)
    (name : FieldName) : Option (Native World Value) :=
  (atomListKind name).bind fun kind =>
    if isAtomTypePath record.typePath || isAppearanceTypePath record.typePath &&
        ["filters", "overlays", "underlays"].contains name.name then
      some (natives.atomList kind datum name)
    else none

/-- The read of a field other than the type, which may be an `unset` appearance or transform. -/
def richField (natives : NativeReads World) (fuel : Nat) (declared : Bool) (name : FieldName)
    (datum : DatumId) (record : Datum) (unset : Bool) (s : σ) :
    Option (Except FieldReadError Value × σ) :=
  if unset then
    some (runNative (if name.name = "appearance" then natives.appearanceSnapshot datum
      else natives.identityMatrix) s)
  else match areaCoordinate natives record datum name s with
  | some coordinate => some (.ok coordinate, s)
  | none =>
    match lazyAtomListField natives record datum name with
    | some list => some (runNative list s)
    | none =>
      if record.typePath.isOrUnder "/savefile" then
        match savefileField name with
        | some field => some (runNative (natives.savefileField field datum) s)
        | none =>
          some ((orMissing name (record.fieldOptional name)).mapError .value, s)
      else (datumFieldOrShared fuel record name s).map fun r => (missingAsNull declared r.1, r.2)

/-- The read of a field of a live datum with all engine behaviour. -/
def richRead (natives : NativeReads World) (fuel : Nat) (declared : Bool) (name : FieldName)
    (datum : DatumId) (record : Datum) (s : σ) : Option (Except FieldReadError Value × σ) :=
  if name.name = "type" then some (.ok (.typePath record.typePath), s)
  else if name.name = "parent_type" then
    some (.ok ((storage s).catalog.parentType record.typePath), s)
  else (readsUnsetAppearance fuel record name s).bind fun r =>
    richField natives fuel declared name datum record r.1 r.2

/-- The field of a type path, with the overrides of a modified one. -/
def typePathField (catalog : Catalog) (fuel : Nat) (name : FieldName) (path : TypePath)
    (overrides : List (FieldName × Value)) : Option Value :=
  if name.name = "type" then some (.typePath path)
  else if name.name = "parent_type" then some (catalog.parentType path)
  else match overrides.reverse.find? (·.1 = name) with
    | some entry => some entry.2
    | none => (catalog.initialValue name fuel path).map (·.getD .null)

/-- `LoadField` and, where the field is `declared`, `LoadDeclaredField`, for receivers of every
kind; `datumField` reads the field of a datum. -/
def loadFieldWith (natives : NativeReads World) (fuel : Nat) (name : FieldName) (receiver : Value)
    (datumField : DatumId → σ → Option (Except FieldReadError Value × σ)) (s : σ) :
    Option (Except FieldReadError Value × σ) :=
  match (storage s).objects.canonicalizeValue receiver with
  | .typePath path =>
    (typePathField (storage s).catalog fuel name path []).map fun value => (.ok value, s)
  | .modifiedTypePath base overrides =>
    (typePathField (storage s).catalog fuel name base overrides).map fun value => (.ok value, s)
  | .list list =>
    if name.name = "len" then
      some (((storage s).objects.listLengths list).elim (.error (.value (.staleList list)))
        fun length => .ok (.number (natives.listLengthNumber length)), s)
    else some (.error (.requiresDatum (.list list)), s)
  | .datum datum => datumField datum s
  | .null => some (.error .receivedNull, s)
  | other => some (.error (.requiresDatum other), s)

/-- The field of a datum without inline caches. -/
def plainDatumField (natives : NativeReads World) (fuel : Nat) (declared : Bool) (name : FieldName)
    (datum : DatumId) (s : σ) : Option (Except FieldReadError Value × σ) :=
  match (storage s).objects.datums datum with
  | none => some (.error (.value (.staleDatum datum)), s)
  | some record => richRead natives fuel declared name datum record s

def plainLoadField (natives : NativeReads World) (fuel : Nat) (declared : Bool) (name : FieldName)
    (receiver : Value) : σ → Option (Except FieldReadError Value × σ) :=
  loadFieldWith natives fuel name receiver (plainDatumField natives fuel declared name)

end

/-! ## The machine and its storage -/

section

variable {World : Type}

instance : FieldState (Storage World) World where
  storage s := s
  withObjects s objects := { s with objects := objects }
  effectiveInitialValue fuel path field s :=
    (s.catalog.effectiveInitialValue fuel path field).map fun value => (value, s)

/-- How a field read at one instruction resolved for a type of receivers. -/
inductive FieldResolution where
  | slot (slot : Fin (2 ^ 16))
  | initialValue

/-- The most recently used entry is the last. -/
structure FieldSlotCache where
  entries : List (TypePath × FieldResolution)

/-- The cache at one instruction. -/
inductive PcCache where
  | cold
  | fieldRead (cache : FieldSlotCache)
  /-- The region compiler has claimed the place. -/
  | region

/-- An instruction of a procedure. -/
structure Site where
  procedure : Nat
  pc : Nat
deriving DecidableEq

/-- There is a cache at every instruction of a procedure. -/
abbrev Sidecars := Site → Option PcCache

structure ExecutionState (World : Type) extends Storage World where
  initialValueMemo : InitialValueMemo
  sidecars : Sidecars

namespace ExecutionState

variable {fuel : Nat} {s : ExecutionState World} {natives : NativeReads World} {declared : Bool}
  {name : FieldName} {record : Datum} {datum : DatumId} {receiver : Value} {path : TypePath}

/-- `effective_initial_value` -/
def effectiveInitialValue (fuel : Nat) (path : TypePath) (field : FieldName)
    (s : ExecutionState World) : Option (Option Value × ExecutionState World) :=
  (Memo.fetch (fun key => s.catalog.effectiveInitialValue fuel key.1 key.2) InitialValueMemo.admits
    s.initialValueMemo (path, field)).map fun r => (r.1, { s with initialValueMemo := r.2 })

instance : FieldState (ExecutionState World) World where
  storage := toStorage
  withObjects s objects := { s with objects := objects }
  effectiveInitialValue := effectiveInitialValue

/-- The memo is that of the catalogs. -/
def Sound (fuel : Nat) (s : ExecutionState World) : Prop :=
  s.initialValueMemo.SoundFor fuel s.catalog

/-- The outcome is that of the storage alone, whatever the memo and the caches are. -/
abbrev Outcome (fuel : Nat) {α : Type} :=
  Answers (α := α) (toStorage : ExecutionState World → _) (Sound fuel)

section

variable (h : s.Sound fuel)

include h

theorem exists_effectiveInitialValue (path : TypePath) (field : FieldName) :
    ∃ memo : InitialValueMemo, memo.SoundFor fuel s.catalog ∧
      s.effectiveInitialValue fuel path field =
        (s.catalog.effectiveInitialValue fuel path field).map
          fun value => (value, { s with initialValueMemo := memo }) := by
  have hmemo : Memo.Sound (fun key => s.catalog.effectiveInitialValue fuel key.1 key.2)
      s.initialValueMemo := h
  obtain ⟨memo, hsound, hfetch⟩ := hmemo.fetch InitialValueMemo.admits (path, field)
  refine ⟨memo, hsound, ?_⟩
  rw [effectiveInitialValue, hfetch, Option.map_map]
  rfl

theorem answers_effectiveInitialValue (path : TypePath) (field : FieldName) :
    Outcome fuel (FieldState.effectiveInitialValue fuel path field s)
      (FieldState.effectiveInitialValue fuel path field s.toStorage) := by
  obtain ⟨memo, hsound, heq⟩ := exists_effectiveInitialValue h path field
  show Outcome fuel (s.effectiveInitialValue fuel path field)
    ((s.catalog.effectiveInitialValue fuel path field).map fun value => (value, s.toStorage))
  rw [heq]
  cases s.catalog.effectiveInitialValue fuel path field with
  | none => exact .none
  | some value => exact .hidden value hsound rfl

theorem answers_runNative (native : Native World Value) :
    Outcome fuel (some (runNative native s)) (some (runNative native s.toStorage)) :=
  .some (v := toStorage) (s := (runNative native s).2) _ h

theorem answers_datumFieldOrInitial (record : Datum) (name : FieldName) :
    Outcome fuel (datumFieldOrInitial fuel record name s)
      (datumFieldOrInitial fuel record name s.toStorage) := by
  unfold datumFieldOrInitial
  cases record.fieldOptional name with
  | some value => exact .some _ h
  | none =>
    exact (answers_effectiveInitialValue h record.typePath name).map
      fun value _ => orMissing name value

theorem answers_datumFieldOrShared (record : Datum) (name : FieldName) :
    Outcome fuel (datumFieldOrShared fuel record name s)
      (datumFieldOrShared fuel record name s.toStorage) :=
  (answers_datumFieldOrInitial h record name).map
    fun result (storage : Storage World) => storage.orShared record.typePath name result

theorem answers_readsUnsetAppearance (record : Datum) (name : FieldName) :
    Outcome fuel (readsUnsetAppearance fuel record name s)
      (readsUnsetAppearance fuel record name s.toStorage) := by
  unfold readsUnsetAppearance
  split
  · exact (answers_datumFieldOrInitial h record name).map fun result _ => isNullOrMissing result
  · exact .some _ h

theorem answers_richField (natives : NativeReads World) (declared : Bool) (name : FieldName)
    (datum : DatumId) (record : Datum) (unset : Bool) :
    Outcome fuel (richField natives fuel declared name datum record unset s)
      (richField natives fuel declared name datum record unset s.toStorage) := by
  unfold richField
  cases unset with
  | true => exact answers_runNative h _
  | false =>
    have harea : areaCoordinate natives record datum name s =
        areaCoordinate natives record datum name s.toStorage := rfl
    simp only [Bool.false_eq_true, if_false, harea]
    cases areaCoordinate natives record datum name s.toStorage with
    | some coordinate => exact .some _ h
    | none =>
      cases lazyAtomListField natives record datum name with
      | some list => exact answers_runNative h list
      | none =>
        dsimp only
        split
        · cases savefileField name with
          | some field => exact answers_runNative h _
          | none => exact .some _ h
        · exact (answers_datumFieldOrShared h record name).map
            fun result _ => missingAsNull declared result

theorem answers_richRead (natives : NativeReads World) (declared : Bool) (name : FieldName)
    (datum : DatumId) (record : Datum) :
    Outcome fuel (richRead natives fuel declared name datum record s)
      (richRead natives fuel declared name datum record s.toStorage) := by
  unfold richRead
  split
  · exact .some _ h
  · split
    · exact .some _ h
    · exact (answers_readsUnsetAppearance h record name).bind
        (f := richField natives fuel declared name datum record)
        (g := richField natives fuel declared name datum record)
        fun unset s h => answers_richField h natives declared name datum record unset

/-- The receiver of a read decides the same in both states. -/
theorem answers_loadFieldWith (natives : NativeReads World) (name : FieldName) (receiver : Value)
    {datumField : DatumId → ExecutionState World →
      Option (Except FieldReadError Value × ExecutionState World)}
    {expected : DatumId → Storage World → Option (Except FieldReadError Value × Storage World)}
    (hdatum : ∀ datum, Outcome fuel (datumField datum s) (expected datum s.toStorage)) :
    Outcome fuel (loadFieldWith natives fuel name receiver datumField s)
      (loadFieldWith natives fuel name receiver expected s.toStorage) := by
  have hpath (path : TypePath) (overrides : List (FieldName × Value)) : Outcome fuel
      ((typePathField s.catalog fuel name path overrides).map
        fun value => ((.ok value : Except FieldReadError Value), s))
      ((typePathField s.catalog fuel name path overrides).map
        fun value => (.ok value, s.toStorage)) := by
    cases typePathField s.catalog fuel name path overrides with
    | none => exact .none
    | some value => exact .some _ h
  unfold loadFieldWith
  have hreceiver : (storage s).objects.canonicalizeValue receiver =
      (storage s.toStorage).objects.canonicalizeValue receiver := rfl
  rw [hreceiver]
  cases (storage s.toStorage).objects.canonicalizeValue receiver with
  | datum datum => exact hdatum datum
  | typePath path => exact hpath path []
  | modifiedTypePath base overrides => exact hpath base overrides
  | list list =>
    dsimp only
    split
    · exact .some _ h
    · exact .some _ h
  | null => exact .some _ h
  | number => exact .some _ h
  | text => exact .some _ h
  | file => exact .some _ h

end

end ExecutionState

end

end Dream64.Vm
