import Dream64.Vm.FieldState

/-!
# Inline caches of field reads

An instruction that reads a field keeps, for the types of its receivers, how
the read resolved: at a slot of the datum, or to the initial value of its type.
A later read checks the datum before it takes the cached resolution, so that it
never serves a wrong value, whatever the cache has (`guesses_quickenedRead`).
So the reads of a run with the caches are those of a run without
(`quickened_run`), in any order of reads, writes and catalog changes.
-/

namespace Dream64.Vm

open Stepwise FieldState

/-! ## The cache at one instruction -/

namespace FieldSlotCache

def maxEntries : Nat := 16

def empty : FieldSlotCache := ⟨[]⟩

/-- The resolution for a type, and the cache with its entry as the most recently used one. -/
def resolutionFor (cache : FieldSlotCache) (receiverType : TypePath) :
    Option (FieldResolution × FieldSlotCache) :=
  (cache.entries.findIdx? (·.1 = receiverType)).bind fun index =>
    (cache.entries[index]?).map fun entry =>
      (entry.2, if index + 1 = cache.entries.length then cache
        else ⟨cache.entries.eraseIdx index ++ [entry]⟩)

def remember (cache : FieldSlotCache) (receiverType : TypePath) (resolution : FieldResolution) :
    FieldSlotCache :=
  match cache.entries.findIdx? (·.1 = receiverType) with
  | some index => ⟨cache.entries.set index (receiverType, resolution)⟩
  | none =>
    let entries := if maxEntries ≤ cache.entries.length then cache.entries.drop 1
      else cache.entries
    ⟨entries ++ [(receiverType, resolution)]⟩

def forget (cache : FieldSlotCache) (receiverType : TypePath) : FieldSlotCache :=
  ⟨cache.entries.filter (·.1 ≠ receiverType)⟩

end FieldSlotCache

/-- `field_read_cache` -/
def Sidecars.fieldReadCache (sidecars : Sidecars) (site : Site) : Option FieldSlotCache :=
  match sidecars site with
  | some (.fieldRead cache) => some cache
  | _ => none

/-- `field_read_cache_or_install` -/
def Sidecars.fieldReadCacheOrInstall (sidecars : Sidecars) (site : Site) : Option FieldSlotCache :=
  match sidecars site with
  | some .cold => some .empty
  | some (.fieldRead cache) => some cache
  | _ => none

/-- The sidecars are dropped; those of a procedure are cold when it runs again. -/
def Sidecars.clear (sidecars : Sidecars) : Sidecars :=
  fun site => (sidecars site).map fun _ => .cold

namespace ExecutionState

variable {World : Type} {fuel : Nat} {s s' : ExecutionState World} {natives : NativeReads World}
  {enabled declared : Bool} {name : FieldName} {record : Datum} {datum : DatumId} {site : Site}
  {resolution : FieldResolution}

def setCache (s : ExecutionState World) (site : Site) (cache : FieldSlotCache) :
    ExecutionState World :=
  { s with sidecars := Function.update s.sidecars site (some (.fieldRead cache)) }

def withCache (s : ExecutionState World) (site : Site) (cache : Option FieldSlotCache)
    (change : FieldSlotCache → FieldSlotCache) : ExecutionState World :=
  match cache with
  | some cache => s.setCache site (change cache)
  | none => s

/-! ## Quickened reads -/

/-- The value that a cached resolution serves, if the datum still has it. -/
def served (fuel : Nat) (name : FieldName) (record : Datum) (resolution : FieldResolution)
    (s : ExecutionState World) : Option (Option Value × ExecutionState World) :=
  match resolution with
  | .slot slot => some (record.fieldAtValidatedSlot slot name, s)
  | .initialValue =>
    if (record.fieldOptional name).isSome then some (none, s)
    else s.effectiveInitialValue fuel record.typePath name

/-- A resolution that serves nothing is forgotten. -/
def quickenedRead (fuel : Nat) (site : Site) (name : FieldName) (record : Datum)
    (s : ExecutionState World) : Option (Option Value × ExecutionState World) :=
  match (s.sidecars.fieldReadCache site).bind (·.resolutionFor record.typePath) with
  | none => some (none, s)
  | some (resolution, cache) =>
    (served fuel name record resolution (s.setCache site cache)).map fun r =>
      if r.1.isSome then r
      else (none, r.2.withCache site (r.2.sidecars.fieldReadCache site) (·.forget record.typePath))

/-- How a read resolved that gave a value. -/
def resolveField (fuel : Nat) (name : FieldName) (record : Datum) (s : ExecutionState World) :
    Option (Option FieldResolution × ExecutionState World) :=
  match (record.fieldSlot name).bind fun slot =>
    if h : slot < 2 ^ 16 then some (⟨slot, h⟩ : Fin (2 ^ 16)) else none with
  | some slot => some (some (.slot slot), s)
  | none =>
    if (record.fieldOptional name).isSome then some (none, s)
    else (s.effectiveInitialValue fuel record.typePath name).map fun r =>
      (r.1.map fun _ => .initialValue, r.2)

def rememberResolution (site : Site) (record : Datum) (resolution : Option FieldResolution)
    (s : ExecutionState World) : ExecutionState World :=
  match resolution with
  | some resolution => s.withCache site (s.sidecars.fieldReadCacheOrInstall site)
      (·.remember record.typePath resolution)
  | none => s

/-- The ordinary read of a field, which the next read at the site may be served from. -/
def ordinaryRead (fuel : Nat) (site : Site) (declared : Bool) (name : FieldName) (record : Datum)
    (s : ExecutionState World) : Option (Except FieldReadError Value × ExecutionState World) :=
  (datumFieldOrShared fuel record name s).bind fun r =>
    if r.1.isOk then
      (resolveField fuel name record r.2).map fun resolved =>
        (missingAsNull declared r.1, rememberResolution site record resolved.1 resolved.2)
    else some (missingAsNull declared r.1, r.2)

def datumField (natives : NativeReads World) (fuel : Nat) (enabled : Bool) (site : Site)
    (declared : Bool) (name : FieldName) (datum : DatumId) (s : ExecutionState World) :
    Option (Except FieldReadError Value × ExecutionState World) :=
  match s.objects.datums datum with
  | none => some (.error (.value (.staleDatum datum)), s)
  | some record =>
    if enabled && !datumFieldRequiresSpecialRead record.typePath name then
      orElse .ok (quickenedRead fuel site name record s)
        (ordinaryRead fuel site declared name record)
    else richRead natives fuel declared name datum record s

/-- `LoadField` and `LoadDeclaredField` at a site, with quickening `enabled` or not. -/
def loadField (natives : NativeReads World) (fuel : Nat) (enabled : Bool) (site : Site)
    (declared : Bool) (name : FieldName) (receiver : Value) (s : ExecutionState World) :
    Option (Except FieldReadError Value × ExecutionState World) :=
  loadFieldWith natives fuel name receiver (datumField natives fuel enabled site declared name) s

/-! ## The caches are hidden -/

@[simp] theorem toStorage_withCache (s : ExecutionState World) (site : Site)
    (cache : Option FieldSlotCache) (change : FieldSlotCache → FieldSlotCache) :
    (s.withCache site cache change).toStorage = s.toStorage := by
  cases cache <;> rfl

theorem Sound.withCache (h : s.Sound fuel) (site : Site) (cache : Option FieldSlotCache)
    (change : FieldSlotCache → FieldSlotCache) : (s.withCache site cache change).Sound fuel := by
  cases cache <;> exact h

theorem atomListKind_eq_none (h : name.name ∉ engineReadFields) : atomListKind name = none := by
  unfold atomListKind
  split
  all_goals first
    | rfl
    | rename_i heq
      exact absurd (heq ▸ by decide) h

/-- A field that needs no special read is read alike with all engine behaviour and without. -/
theorem richRead_ordinary {σ : Type} [FieldState σ World] {t : σ}
    (h : datumFieldRequiresSpecialRead record.typePath name = false) :
    richRead natives fuel declared name datum record t =
      (datumFieldOrShared fuel record name t).map fun r => (missingAsNull declared r.1, r.2) := by
  obtain ⟨hsavefile, hname⟩ := Bool.or_eq_false_iff.1 h
  have hname : name.name ∉ engineReadFields := by
    simpa only [List.contains_eq_mem, decide_eq_false_iff_not] using hname
  have hne {other : String} (hother : other ∈ engineReadFields) : name.name ≠ other :=
    fun heq => hname (heq ▸ hother)
  have hunset : readsUnsetAppearance fuel record name t = some (false, t) := by
    have happearance := hne (show "appearance" ∈ engineReadFields by decide)
    have htransform := hne (show "transform" ∈ engineReadFields by decide)
    simp [readsUnsetAppearance, happearance, htransform]
  have harea : areaCoordinate natives record datum name t = none := by
    have hx := hne (show "x" ∈ engineReadFields by decide)
    have hy := hne (show "y" ∈ engineReadFields by decide)
    have hz := hne (show "z" ∈ engineReadFields by decide)
    simp [areaCoordinate, hx, hy, hz]
  have hlist : lazyAtomListField natives record datum name = none := by
    rw [lazyAtomListField, atomListKind_eq_none hname]
    rfl
  rw [richRead, if_neg (hne (show "type" ∈ engineReadFields by decide)),
    if_neg (hne (show "parent_type" ∈ engineReadFields by decide)), hunset]
  simp [richField, harea, hlist, hsavefile]

theorem datumFieldOrShared_of_fieldOptional {σ : Type} [FieldState σ World] {t : σ} {value : Value}
    (h : record.fieldOptional name = some value) :
    datumFieldOrShared fuel record name t = some (.ok value, t) := by
  rw [datumFieldOrShared, datumFieldOrInitial, h]
  rfl

theorem datumFieldOrShared_of_none {σ : Type} [FieldState σ World] {t : σ}
    (h : record.fieldOptional name = none) :
    datumFieldOrShared fuel record name t =
      (FieldState.effectiveInitialValue fuel record.typePath name t).map fun r =>
        ((storage r.2).orShared record.typePath name (orMissing name r.1), r.2) := by
  rw [datumFieldOrShared, datumFieldOrInitial, h]
  exact Option.map_map ..

/-- A resolution is checked before it serves a value. -/
theorem guesses_served (h : s.Sound fuel) (name : FieldName) (record : Datum)
    (resolution : FieldResolution) :
    Guesses toStorage (Sound fuel) .ok s (served fuel name record resolution s)
      (datumFieldOrShared fuel record name s.toStorage) := by
  cases resolution with
  | slot slot =>
    refine ⟨fun hnone => ?_, fun guess s' hserved => ?_, fun value s' hserved => ?_⟩
    · cases hnone
    · cases hserved
      exact ⟨h, rfl⟩
    · have hvalue : record.fieldAtValidatedSlot slot name = some value :=
        congrArg Prod.fst (Option.some.inj hserved)
      exact datumFieldOrShared_of_fieldOptional (Datum.fieldAtValidatedSlot_eq hvalue)
  | initialValue =>
    cases hfield : record.fieldOptional name with
    | some value =>
      rw [served, if_pos (by rw [hfield]; rfl)]
      refine ⟨fun hnone => ?_, fun guess s' hserved => ?_, fun value s' hserved => ?_⟩
      · cases hnone
      · cases hserved
        exact ⟨h, rfl⟩
      · cases hserved
    | none =>
      obtain ⟨memo, hsound, heq⟩ := exists_effectiveInitialValue h record.typePath name
      have hshared : datumFieldOrShared fuel record name s.toStorage =
          (s.catalog.effectiveInitialValue fuel record.typePath name).map fun value =>
            (s.toStorage.orShared record.typePath name (orMissing name value), s.toStorage) := by
        rw [datumFieldOrShared_of_none hfield]
        exact Option.map_map ..
      rw [served, if_neg (by rw [hfield]; exact Bool.false_ne_true), heq, hshared]
      cases s.catalog.effectiveInitialValue fuel record.typePath name with
      | none => exact ⟨fun _ => rfl, fun _ _ h => (by cases h), fun _ _ h => (by cases h)⟩
      | some value =>
        refine ⟨fun hnone => ?_, fun guess s' hserved => ?_, fun value s' hserved => ?_⟩
        · cases hnone
        · cases hserved
          exact ⟨hsound, rfl⟩
        · cases hserved
          rfl

/-- A cache never leads to a wrong value, whatever its entries are. -/
theorem guesses_quickenedRead (h : s.Sound fuel) (site : Site) (name : FieldName)
    (record : Datum) :
    Guesses toStorage (Sound fuel) .ok s (quickenedRead fuel site name record s)
      (datumFieldOrShared fuel record name s.toStorage) := by
  unfold quickenedRead
  cases (s.sidecars.fieldReadCache site).bind (·.resolutionFor record.typePath) with
  | none =>
    refine ⟨fun hnone => ?_, fun guess s' hsome => ?_, fun value s' hsome => ?_⟩
    · cases hnone
    · cases hsome
      exact ⟨h, rfl⟩
    · cases hsome
  | some found =>
    have hserved := guesses_served (s := s.setCache site found.2) h name record found.1
    have hguess : Guesses toStorage (Sound fuel) .ok s
        (served fuel name record found.1 (s.setCache site found.2))
        (datumFieldOrShared fuel record name s.toStorage) :=
      ⟨hserved.ends, hserved.hidden, hserved.right⟩
    exact hguess.tidy
      (g := fun s' => s'.withCache site (s'.sidecars.fieldReadCache site)
        (·.forget record.typePath))
      fun s' hs' => ⟨hs'.withCache _ _ _, toStorage_withCache _ _ _ _⟩

/-- Where the read itself ends, the field resolves, and only the memo changes. -/
theorem exists_resolveField (h : s.Sound fuel)
    (hends : (record.fieldOptional name).isSome ∨
      (s.catalog.effectiveInitialValue fuel record.typePath name).isSome) :
    ∃ resolved s', resolveField fuel name record s = some (resolved, s') ∧ s'.Sound fuel ∧
      s'.toStorage = s.toStorage := by
  unfold resolveField
  split
  · exact ⟨_, s, rfl, h, rfl⟩
  · split
    · exact ⟨_, s, rfl, h, rfl⟩
    · rename_i hfield
      obtain ⟨value, hvalue⟩ := Option.isSome_iff_exists.1 (hends.resolve_left hfield)
      obtain ⟨memo, hsound, heq⟩ := exists_effectiveInitialValue h record.typePath name
      rw [heq, hvalue]
      exact ⟨_, _, rfl, hsound, rfl⟩

theorem toStorage_rememberResolution (site : Site) (record : Datum)
    (resolution : Option FieldResolution) (s : ExecutionState World) :
    (rememberResolution site record resolution s).toStorage = s.toStorage := by
  cases resolution with
  | none => rfl
  | some resolution => exact toStorage_withCache ..

theorem Sound.rememberResolution (h : s.Sound fuel) (site : Site) (record : Datum)
    (resolution : Option FieldResolution) :
    (ExecutionState.rememberResolution site record resolution s).Sound fuel := by
  cases resolution with
  | none => exact h
  | some resolution => exact h.withCache _ _ _

theorem answers_ordinaryRead (h : s.Sound fuel) (site : Site) (declared : Bool)
    (name : FieldName) (record : Datum) :
    Outcome fuel (ordinaryRead fuel site declared name record s)
      ((datumFieldOrShared fuel record name s.toStorage).map fun r =>
        (missingAsNull declared r.1, r.2)) := by
  have hshared := answers_datumFieldOrShared h record name
  rw [← hshared.view_eq, ordinaryRead, Option.map_map]
  cases hread : datumFieldOrShared fuel record name s with
  | none => exact .none
  | some r =>
    obtain ⟨result, s'⟩ := r
    have hs' := hshared.invariant result s' hread
    have hends : (record.fieldOptional name).isSome ∨
        (s'.catalog.effectiveInitialValue fuel record.typePath name).isSome := by
      cases hfield : record.fieldOptional name with
      | some value => exact Or.inl rfl
      | none =>
        refine Or.inr ?_
        obtain ⟨memo, -, heq⟩ := exists_effectiveInitialValue h record.typePath name
        rw [datumFieldOrShared_of_none hfield] at hread
        obtain ⟨r, hr, hresult⟩ := Option.map_eq_some_iff.1 hread
        obtain ⟨value, hvalue, rfl⟩ := Option.map_eq_some_iff.1 (heq.symm.trans hr)
        cases hresult
        show (s.catalog.effectiveInitialValue fuel record.typePath name).isSome = true
        rw [hvalue]
        rfl
    rw [Option.bind_some]
    split
    · obtain ⟨resolved, t, hresolve, ht, hstorage⟩ := exists_resolveField hs' hends
      rw [hresolve]
      exact .hidden _ (ht.rememberResolution _ _ _)
        ((toStorage_rememberResolution ..).trans hstorage)
    · exact .some _ hs'

/-- With quickening and without, the field of a datum is that of the storage. -/
theorem answers_datumField (h : s.Sound fuel) (natives : NativeReads World) (enabled : Bool)
    (site : Site) (declared : Bool) (name : FieldName) (datum : DatumId) :
    Outcome fuel (datumField natives fuel enabled site declared name datum s)
      (plainDatumField natives fuel declared name datum s.toStorage) := by
  unfold datumField plainDatumField
  have hrecord : s.objects.datums datum = (storage s.toStorage).objects.datums datum := rfl
  rw [hrecord]
  cases (storage s.toStorage).objects.datums datum with
  | none => exact .some _ h
  | some record =>
    dsimp only
    split
    · rename_i hquick
      obtain ⟨-, hspecial⟩ := Bool.and_eq_true_iff.1 hquick
      rw [Bool.not_eq_true'] at hspecial
      rw [richRead_ordinary hspecial]
      have hguess := (guesses_quickenedRead h site name record).map (missingAsNull declared)
      refine Answers.guess hguess fun s' hs' hview => ?_
      rw [← hview]
      exact answers_ordinaryRead hs' site declared name record
    · exact answers_richRead h natives declared name datum record

theorem answers_loadField (h : s.Sound fuel) (natives : NativeReads World) (enabled : Bool)
    (site : Site) (declared : Bool) (name : FieldName) (receiver : Value) :
    Outcome fuel (loadField natives fuel enabled site declared name receiver s)
      (plainLoadField natives fuel declared name receiver s.toStorage) :=
  answers_loadFieldWith h natives name receiver
    fun datum => answers_datumField h natives enabled site declared name datum

end ExecutionState

/-! ## Runs -/

section

variable {World : Type}

def Objects.updateDatum (objects : Objects World) (id : DatumId) (change : Datum → Option Datum) :
    Objects World :=
  { objects with
    datums := Function.update objects.datums id ((objects.datums id).bind change) }

/-- What the instructions do to the objects. -/
inductive ObjectChange (World : Type) where
  /-- The arena gives the datum an identity that no live datum has. -/
  | allocateDatum (id : DatumId) (typePath : TypePath) (defaults : List (List (FieldName × Value)))
  | deleteDatum (id : DatumId)
  | setDatumField (id : DatumId) (name : FieldName) (value : Value)
  | deleteDatumField (id : DatumId) (name : FieldName)
  | compactDatumLayout (id : DatumId) (indexed : Bool)
  | setGlobal (name : FieldName) (value : Value)
  /-- Any other instruction, native or not. -/
  | other (effect : Storage World → Objects World)

def ObjectChange.apply (change : ObjectChange World) (s : Storage World) : Objects World :=
  match change with
  | allocateDatum id typePath defaults =>
    if (s.objects.datums id).isSome then s.objects
    else { s.objects with
      datums := Function.update s.objects.datums id (some (.withDefaults typePath defaults)) }
  | deleteDatum id => s.objects.updateDatum id fun _ => none
  | setDatumField id name value => s.objects.updateDatum id fun datum => datum.setField name value
  | deleteDatumField id name => s.objects.updateDatum id fun datum => datum.deleteField name
  | compactDatumLayout id indexed => s.objects.updateDatum id (·.compactLayout indexed)
  | setGlobal name value =>
    { s.objects with globals := Function.update s.objects.globals name (some value) }
  | other effect => effect s

/-- The setters of the catalogs. -/
inductive CatalogChange where
  | setTypePaths
  | setTypeParents (parents : TypePath → Option (Option TypePath))
  | setInitialValues (values : TypePath → Option (FieldName → Option Value))
  | setSharedFields (fields : TypePath → Option (FieldName → Option FieldName))

def CatalogChange.apply (change : CatalogChange) (catalog : Catalog) : Catalog :=
  match change with
  | setTypePaths => catalog
  | setTypeParents parents => { catalog with typeParents := parents }
  | setInitialValues values => { catalog with initialValues := values }
  | setSharedFields fields => { catalog with sharedFields := fields }

/-- The effective initial values do not come from the shared fields. -/
def CatalogChange.clearsMemo : CatalogChange → Bool
  | setSharedFields _ => false
  | _ => true

inductive Operation (World : Type) where
  | loadField (site : Site) (declared : Bool) (name : FieldName) (receiver : Value)
  /-- A lookup of an initial value, as that of `initial()`. -/
  | initialField (path : TypePath) (name : FieldName)
  /-- `assign_datum_or_shared_field`, with the assignment to the datum itself. -/
  | storeField (datum : DatumId) (name : FieldName) (value : Value)
      (assign : Native World Value)
  | objects (change : ObjectChange World)
  | catalog (change : CatalogChange)
  /-- The caches are cleared or replaced, or the region compiler takes places of theirs. -/
  | sidecars (change : Sidecars → Sidecars)

/-- What an operation gives: a value or an error, and nothing if it only changes the state. -/
abbrev Output := Option (Except FieldReadError Value)

section

variable {σ : Type} [FieldState σ World]

def initialOutput (value : Option Value) : Output := some (.ok (value.getD .null))

def initialField (fuel : Nat) (path : TypePath) (name : FieldName) (s : σ) :
    Option (Output × σ) :=
  (FieldState.effectiveInitialValue fuel path name s).map fun r => (initialOutput r.1, r.2)

/-- The shared storage of a field that the datum is missing. -/
def missingStorage (catalog : Catalog) (runtimeType : TypePath) (name : FieldName) :
    Except ValueError Value → Option FieldName
  | .error (.missingField _) => catalog.sharedStorage runtimeType name
  | _ => none

/-- The assignment to a datum that reads `result` for the field. -/
def storeOver (record : Datum) (name : FieldName) (value : Value) (assign : Native World Value)
    (result : Except ValueError Value) (s : σ) : Output × σ :=
  match missingStorage (storage s).catalog record.typePath name result with
  | some global =>
    (some (.ok value), withObjects s ((ObjectChange.setGlobal global value).apply (storage s)))
  | none => (runNative assign s).map some id

/-- `assign_datum_or_shared_field` -/
def storeField (fuel : Nat) (datum : DatumId) (name : FieldName) (value : Value)
    (assign : Native World Value) (s : σ) : Option (Output × σ) :=
  match (storage s).objects.datums datum with
  | none => some ((runNative assign s).map some id)
  | some record => (datumFieldOrInitial fuel record name s).bind fun r =>
    some (storeOver record name value assign r.1 r.2)

end

def ExecutionState.step (natives : NativeReads World) (fuel : Nat) (enabled : Bool)
    (operation : Operation World) (s : ExecutionState World) :
    Option (Output × ExecutionState World) :=
  match operation with
  | .loadField site declared name receiver =>
    (s.loadField natives fuel enabled site declared name receiver).map fun r => (some r.1, r.2)
  | .initialField path name => initialField fuel path name s
  | .storeField datum name value assign => storeField fuel datum name value assign s
  | .objects change => some (none, { s with objects := change.apply s.toStorage })
  | .catalog change => some (none, { s with
      catalog := change.apply s.catalog
      initialValueMemo := if change.clearsMemo then [] else s.initialValueMemo
      sidecars := s.sidecars.clear })
  | .sidecars change => some (none, { s with sidecars := change s.sidecars })

/-- What the operation means where there is no memo and no cache. -/
def Storage.step (natives : NativeReads World) (fuel : Nat) (operation : Operation World)
    (s : Storage World) : Option (Output × Storage World) :=
  match operation with
  | .loadField _ declared name receiver =>
    (plainLoadField natives fuel declared name receiver s).map fun r => (some r.1, r.2)
  | .initialField path name => initialField fuel path name s
  | .storeField datum name value assign => storeField fuel datum name value assign s
  | .objects change => some (none, { s with objects := change.apply s })
  | .catalog change => some (none, { s with catalog := change.apply s.catalog })
  | .sidecars _ => some (none, s)

/-- A state without entries in its memo. -/
def ExecutionState.fresh (storage : Storage World) (sidecars : Sidecars) : ExecutionState World where
  toStorage := storage
  initialValueMemo := []
  sidecars := sidecars

variable {fuel : Nat} {s : ExecutionState World}

theorem Catalog.effectiveInitialValue_setSharedFields (catalog : Catalog)
    (fields : TypePath → Option (FieldName → Option FieldName)) (path : TypePath)
    (name : FieldName) :
    Catalog.effectiveInitialValue { catalog with sharedFields := fields } fuel path name =
      catalog.effectiveInitialValue fuel path name := by
  have hinitial : Catalog.initialValue { catalog with sharedFields := fields } name fuel path =
      catalog.initialValue name fuel path := by
    induction fuel generalizing path with
    | zero => rfl
    | succ fuel ih =>
      have hdirect : directInitialValue { catalog with sharedFields := fields } path name =
          catalog.directInitialValue path name := rfl
      have hparent : typeParent { catalog with sharedFields := fields } path =
          catalog.typeParent path := rfl
      rw [initialValue, initialValue, hdirect, hparent]
      cases catalog.directInitialValue path name with
      | some value => rfl
      | none =>
        cases catalog.typeParent path with
        | some parent => exact ih parent
        | none => rfl
  rw [effectiveInitialValue, hinitial]
  rfl

namespace ExecutionState

theorem sound_of_memo (h : s.initialValueMemo = []) : s.Sound fuel := by
  intro entry hentry
  rw [h] at hentry
  cases hentry

theorem Sound.changeCatalog (h : s.Sound fuel) (change : CatalogChange) (sidecars : Sidecars) :
    Sound fuel
      ({ s with
        catalog := change.apply s.catalog
        initialValueMemo := if change.clearsMemo then [] else s.initialValueMemo
        sidecars := sidecars } : ExecutionState World) := by
  cases change with
  | setTypePaths => exact sound_of_memo rfl
  | setTypeParents parents => exact sound_of_memo rfl
  | setInitialValues values => exact sound_of_memo rfl
  | setSharedFields fields =>
    intro entry hentry
    exact (Catalog.effectiveInitialValue_setSharedFields ..).trans (h entry hentry)

theorem answers_initialField (h : s.Sound fuel) (path : TypePath) (name : FieldName) :
    Outcome fuel (initialField fuel path name s) (initialField fuel path name s.toStorage) :=
  (answers_effectiveInitialValue h path name).map
    fun value (_ : Storage World) => initialOutput value

theorem answers_storeField (h : s.Sound fuel) (datum : DatumId) (name : FieldName) (value : Value)
    (assign : Native World Value) :
    Outcome fuel (storeField fuel datum name value assign s)
      (storeField fuel datum name value assign s.toStorage) := by
  unfold storeField
  have hrecord : (storage s).objects.datums datum =
      (storage s.toStorage).objects.datums datum := rfl
  rw [hrecord]
  cases (storage s.toStorage).objects.datums datum with
  | none => exact (answers_runNative h assign).map fun result (_ : Storage World) => some result
  | some record =>
    refine (answers_datumFieldOrInitial h record name).bind
      (f := fun result s => some (storeOver record name value assign result s))
      (g := fun result s => some (storeOver record name value assign result s))
      fun result s h => ?_
    unfold storeOver
    have hmissing : missingStorage (storage s).catalog record.typePath name result =
        missingStorage (storage s.toStorage).catalog record.typePath name result := rfl
    rw [hmissing]
    cases missingStorage (storage s.toStorage).catalog record.typePath name result with
    | some global =>
      exact .some (v := toStorage) (s := withObjects s _) _ h
    | none => exact (answers_runNative h assign).map fun result (_ : Storage World) => some result

theorem answers_step (h : s.Sound fuel) (natives : NativeReads World) (enabled : Bool)
    (operation : Operation World) :
    Outcome fuel (s.step natives fuel enabled operation)
      (s.toStorage.step natives fuel operation) := by
  cases operation with
  | loadField site declared name receiver =>
    exact (answers_loadField h natives enabled site declared name receiver).map
      fun result (_ : Storage World) => some result
  | initialField path name => exact answers_initialField h path name
  | storeField datum name value assign => exact answers_storeField h datum name value assign
  | objects change =>
    exact .some (v := toStorage) (s := { s with objects := change.apply s.toStorage }) _ h
  | catalog change => exact .some _ (h.changeCatalog change _)
  | sidecars change => exact .some _ h

/-- The outputs and the storage of a run are those of its meaning, with quickening or without. -/
theorem answers_run (natives : NativeReads World) (fuel : Nat) (enabled : Bool)
    (operations : List (Operation World)) (storage : Storage World) (sidecars : Sidecars) :
    Outcome fuel (runAll (step natives fuel enabled) operations (.fresh storage sidecars))
      (runAll (Storage.step natives fuel) operations storage) :=
  Answers.runAll (fun operation _ h => answers_step h natives enabled operation) operations
    (sound_of_memo rfl)

end ExecutionState

/-- With quickening enabled, every operation of a run gives the value or error that it gives with
quickening disabled, and the run ends in the same storage, if it ends. -/
theorem quickened_run (natives : NativeReads World) (fuel : Nat)
    (operations : List (Operation World)) (storage : Storage World) (sidecars : Sidecars) :
    (runAll (ExecutionState.step natives fuel true) operations (.fresh storage sidecars)).map
        (Prod.map id ExecutionState.toStorage) =
      (runAll (ExecutionState.step natives fuel false) operations (.fresh storage sidecars)).map
        (Prod.map id ExecutionState.toStorage) := by
  have hquick := ExecutionState.answers_run natives fuel true operations storage sidecars
  have hplain := ExecutionState.answers_run natives fuel false operations storage sidecars
  rw [hquick.view_eq, hplain.view_eq]

end

end Dream64.Vm
