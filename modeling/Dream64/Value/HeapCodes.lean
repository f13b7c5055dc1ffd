import Dream64.Value.HeapSnapshot

/-!
# What the readers of the heap section read

The reader of records is the inverse of the writer of records on the records
that keep to its limits. The writer that goes over the heap writes the records
of the heap's snapshot.
-/

namespace Dream64

open Codec

namespace HeapCodec

/-! ## Limits -/

def FitsString (text : String) : Prop := (utf8 text).length ≤ maxStringBytes

/-- A number of 32 bits. -/
def IsU32 (value : Nat) : Prop := value < 256 ^ 4

/-- A value whose modified type paths are nested less deeply than the budget. -/
def FitsValue : (budget : Nat) → HeapSnapshotValue → Prop
  | 0, _ => False
  | _ + 1, .null | _ + 1, .number _ => True
  | _ + 1, .text text | _ + 1, .file text | _ + 1, .typePath text => FitsString text
  | budget + 1, .modifiedTypePath base overrides =>
    FitsString base ∧ overrides.length ≤ maxEntries ∧
      ∀ entry ∈ overrides, FitsString entry.1 ∧ FitsValue budget entry.2
  | _ + 1, .datum index generation | _ + 1, .list index generation => IsU32 index ∧ IsU32 generation

def FitsTopValue (value : HeapSnapshotValue) : Prop := FitsValue (maxValueDepth + 1) value

def FitsField (field : String × HeapSnapshotValue) : Prop :=
  FitsString field.1 ∧ FitsTopValue field.2

def FitsDatum (datum : HeapSnapshotDatum) : Prop :=
  FitsString datum.typePath ∧ datum.fields.length ≤ maxEntries ∧ ∀ field ∈ datum.fields, FitsField field

def FitsEntry : HeapSnapshotListEntry → Prop
  | .positional value => FitsTopValue value
  | .associative key value => FitsTopValue key ∧ FitsTopValue value

def FitsList (entries : List HeapSnapshotListEntry) : Prop :=
  entries.length ≤ maxEntries ∧ ∀ entry ∈ entries, FitsEntry entry

def FitsSlots {α : Type} (fits : α → Prop) (slots : List (HeapSnapshotSlot α)) : Prop :=
  slots.length ≤ maxSlots ∧
    ∀ slot ∈ slots, IsU32 slot.generation ∧ ∀ value, slot.value = some value → fits value

def FitsFree (free : List Nat) : Prop := free.length ≤ maxSlots ∧ ∀ index ∈ free, IsU32 index

/-- The strings, the counts and the nesting are within the limits of the readers. -/
structure FitsSnapshot (snapshot : ValueHeapSnapshot) : Prop where
  datums : FitsSlots FitsDatum snapshot.datums
  datumFree : FitsFree snapshot.datumFree
  lists : FitsSlots FitsList snapshot.lists
  listFree : FitsFree snapshot.listFree

/-! ## Values -/

theorem codes_u32 : Codes writeU32 readU32 IsU32 :=
  (codes_readNumber 4 _).congr (fun _ => rfl) fun _ => Iff.rfl

theorem codes_len {max : Nat} (hmax : max < 256 ^ 8) :
    Codes writeLen (readLen max) fun len => len ≤ max := by
  refine ((codes_readNumber 8 _).refused (fun value => max < value) _).congr (fun _ => rfl)
    fun len => ?_
  omega

/-- A list behind its length. -/
theorem codes_counted {α : Type} {write : α → Bytes} {read : HeapReader α} {valid : α → Prop}
    {max : Nat} (hmax : max < 256 ^ 8) (h : Codes write read valid) :
    Codes (fun values => writeLen values.length ++ values.flatMap write)
      (readLen max >>= readMany (fun _ => read) 0)
      fun values => values.length ≤ max ∧ ∀ value ∈ values, valid value := by
  refine (Codes.list (codes_len hmax) fun _ => h).congr (fun _ => rfl)
    fun values => and_congr_right fun _ => ?_
  constructor
  · exact fun hall i value hi => hall value (List.mem_of_getElem? hi)
  · intro hall value hmem
    obtain ⟨i, hi⟩ := List.mem_iff_getElem?.1 hmem
    exact hall i value hi

theorem maxEntries_lt : maxEntries < 256 ^ 8 := by decide

theorem maxSlots_lt : maxSlots < 256 ^ 8 := by decide

theorem codes_string : Codes writeString readString FitsString := by
  have htext (length : Nat) (hlength : length ≤ maxStringBytes) :
      Codes (fun text => utf8 text) (readText length)
        fun text => (True ∧ (utf8 text).length = length) ∧ True := by
    refine ((codes_readExact length unexpectedEnd).respelled (fun _ _ => ofUtf8_eq_some) _).congr
      (fun _ => rfl) fun text => ?_
    rw [true_and, and_true]
  refine (Codes.fieldOf (k := fun _ => True) (fun text => (utf8 text).length)
    (codes_len (show maxStringBytes < 256 ^ 8 by decide)) (fun _ _ => Iff.rfl) htext).congr
    (fun _ => rfl) fun text => ?_
  rw [true_and, and_true, FitsString]

theorem writeOverrides_eq (overrides : List (String × HeapSnapshotValue)) :
    writeOverrides overrides = overrides.flatMap writeField := by
  induction overrides with
  | nil => rfl
  | cons entry overrides ih =>
    obtain ⟨name, value⟩ := entry
    rw [writeOverrides, List.flatMap_cons, ih]
    rfl

theorem codes_named {read : HeapReader HeapSnapshotValue} {valid : HeapSnapshotValue → Prop}
    (h : Codes writeValue read valid) :
    Codes writeField (readNamed read) fun field => FitsString field.1 ∧ valid field.2 := by
  have hfields := Codes.field (k := fun _ => True) (fun field : String × HeapSnapshotValue => field.1)
    codes_string fun name => Codes.field (fun field : String × HeapSnapshotValue => field.2) h
      fun value => Codes.pure (x := (name, value)) fun field => ?_
  · refine hfields.congr (fun field => ?_) fun field => ?_
    · rw [writeField, List.append_nil]
    · rw [true_and, and_true]
  · obtain ⟨first, second⟩ := field
    simp

def valueTag : HeapSnapshotValue → UInt8
  | .null => 0
  | .number _ => 1
  | .text _ => 2
  | .file _ => 3
  | .typePath _ => 4
  | .modifiedTypePath _ _ => 5
  | .datum _ _ => 6
  | .list _ _ => 7

/-- What a value writes behind its tag. -/
def writeTagged : HeapSnapshotValue → Bytes
  | .null => []
  | .number bits => writeU32 bits.toNat
  | .text text | .file text | .typePath text => writeString text
  | .modifiedTypePath base overrides =>
    writeString base ++ (writeLen overrides.length ++ overrides.flatMap writeField)
  | .datum index generation | .list index generation => writeU32 index ++ writeU32 generation

theorem writeValue_eq (value : HeapSnapshotValue) :
    writeValue value = [valueTag value] ++ writeTagged value := by
  cases value with
  | modifiedTypePath base overrides =>
    rw [writeValue, writeTagged, writeOverrides_eq]
    rfl
  | _ => rfl

/-- A pair of numbers of 32 bits. -/
theorem codes_pair : Codes (fun pair : Nat × Nat => writeU32 pair.1 ++ writeU32 pair.2) (do
      let first ← readU32
      return (first, ← readU32)) fun pair => IsU32 pair.1 ∧ IsU32 pair.2 := by
  have hfields := Codes.field (k := fun _ => True) (fun pair : Nat × Nat => pair.1) codes_u32
    fun first => Codes.field (fun pair : Nat × Nat => pair.2) codes_u32 fun second =>
      Codes.pure (x := (first, second)) fun pair => ?_
  · refine hfields.congr (fun pair => ?_) fun pair => ?_
    · rw [List.append_nil]
    · rw [true_and, and_true]
  · obtain ⟨a, b⟩ := pair
    simp

/-- The base and the overrides of a modified type path. -/
theorem codes_modified {read : HeapReader HeapSnapshotValue} {valid : HeapSnapshotValue → Prop}
    (h : Codes writeValue read valid) :
    Codes (fun path : String × List (String × HeapSnapshotValue) =>
        writeString path.1 ++ (writeLen path.2.length ++ path.2.flatMap writeField)) (do
      let base ← readString
      let overrides ← readLen maxEntries >>= readMany (fun _ => readNamed read) 0
      return (base, overrides)) fun path => FitsString path.1 ∧ path.2.length ≤ maxEntries ∧
        ∀ entry ∈ path.2, FitsString entry.1 ∧ valid entry.2 := by
  have hfields := Codes.field (k := fun _ => True)
    (fun path : String × List (String × HeapSnapshotValue) => path.1) codes_string fun base =>
      Codes.field (fun path : String × List (String × HeapSnapshotValue) => path.2)
        (codes_counted maxEntries_lt (codes_named h)) fun overrides =>
        Codes.pure (x := (base, overrides)) fun path => ?_
  · refine hfields.congr (fun path => ?_) fun path => ?_
    · rw [List.append_nil]
    · rw [true_and, and_true]
  · obtain ⟨a, b⟩ := path
    simp

theorem tag_eq {tag : UInt8} {n : Nat} (hn : tag.toNat = n) (hlt : n < 256) :
    tag = UInt8.ofNat n := by
  apply UInt8.toNat_inj.1
  rw [hn, UInt8.toNat_ofNat', Nat.mod_eq_of_lt hlt]

/-- One tag after the other; `budget` is for the values one level deeper. -/
theorem codes_tagged {budget : Nat} {read : HeapReader HeapSnapshotValue}
    (h : Codes writeValue read (FitsValue budget)) (tag : UInt8) :
    Codes writeTagged (readTagged read tag.toNat) fun value =>
      (True ∧ valueTag value = tag) ∧ FitsValue (budget + 1) value := by
  generalize hn : tag.toNat = n
  match n with
  | 0 =>
    rw [tag_eq hn (by decide)]
    have hnothing : Codes (fun _ : Unit => []) (pure () : HeapReader Unit)
        fun _ => True ∧ True := Codes.pure fun _ => by simp
    show Codes writeTagged (pure () >>= fun _ : Unit => (pure .null : HeapReader _)) _
    refine hnothing.mapped (fun _ _ => rfl) fun value => ?_
    cases value <;> simp [valueTag, FitsValue]
  | 1 =>
    rw [tag_eq hn (by decide)]
    refine @Codes.mapped _ _ _ _ _ _
      (fun bits => HeapSnapshotValue.number (BitVec.ofNat 32 bits)) _ _ codes_u32 (fun bits hbits => ?_) fun value => ?_
    · show writeU32 (BitVec.ofNat 32 bits).toNat = writeU32 bits
      rw [BitVec.toNat_ofNat, Nat.mod_eq_of_lt (show bits < 2 ^ 32 from hbits)]
    · cases value with
      | number bits =>
        have hbits : ∃ word, IsU32 word ∧ BitVec.ofNat 32 word = bits :=
          ⟨bits.toNat, bits.isLt, by rw [BitVec.ofNat_toNat, BitVec.setWidth_eq]⟩
        simpa [valueTag, FitsValue] using hbits
      | _ => simp [valueTag]
  | 2 =>
    rw [tag_eq hn (by decide)]
    refine codes_string.mapped (fun _ _ => rfl) fun value => ?_
    cases value <;> simp [valueTag, FitsValue]
  | 3 =>
    rw [tag_eq hn (by decide)]
    refine codes_string.mapped (fun _ _ => rfl) fun value => ?_
    cases value <;> simp [valueTag, FitsValue]
  | 4 =>
    rw [tag_eq hn (by decide)]
    refine codes_string.mapped (fun _ _ => rfl) fun value => ?_
    cases value <;> simp [valueTag, FitsValue]
  | 5 =>
    have hread : readTagged read 5 = (do
        let base ← readString
        let overrides ← readLen maxEntries >>= readMany (fun _ => readNamed read) 0
        return (base, overrides)) >>= fun path => pure (.modifiedTypePath path.1 path.2) := by
      simp [readTagged]
    rw [tag_eq hn (by decide), hread]
    refine (codes_modified h).mapped (fun _ _ => rfl) fun value => ?_
    cases value <;> simp [valueTag, FitsValue]
  | 6 =>
    have hread : readTagged read 6 = (do
        let first ← readU32
        return (first, ← readU32)) >>= fun pair => pure (.datum pair.1 pair.2) := by
      simp [readTagged]
    rw [tag_eq hn (by decide), hread]
    refine codes_pair.mapped (fun _ _ => rfl) fun value => ?_
    cases value <;> simp [valueTag, FitsValue]
  | 7 =>
    have hread : readTagged read 7 = (do
        let first ← readU32
        return (first, ← readU32)) >>= fun pair => pure (.list pair.1 pair.2) := by
      simp [readTagged]
    rw [tag_eq hn (by decide), hread]
    refine codes_pair.mapped (fun _ _ => rfl) fun value => ?_
    cases value <;> simp [valueTag, FitsValue]
  | n + 8 =>
    refine Codes.fail fun value hvalue => ?_
    have hlt : (valueTag value).toNat < 8 := by
      cases value <;> simp [valueTag]
    rw [hvalue.1.2, hn] at hlt
    omega

theorem codes_value (budget : Nat) : Codes writeValue (readValue budget) (FitsValue budget) := by
  induction budget with
  | zero => exact Codes.fail fun value hvalue => hvalue
  | succ budget ih =>
    refine (Codes.field (k := fun _ => True) valueTag (codes_readByte unexpectedEnd)
      (codes_tagged ih)).congr writeValue_eq fun value => ?_
    rw [true_and, true_and]

theorem codes_topValue : Codes writeValue readTopValue FitsTopValue :=
  codes_value (maxValueDepth + 1)

/-! ## Records -/

theorem codes_datum : Codes writeDatum readDatum FitsDatum := by
  have hfields := Codes.field (k := fun _ => True) HeapSnapshotDatum.typePath codes_string
    fun typePath => Codes.field HeapSnapshotDatum.fields
      (codes_counted maxEntries_lt (codes_named codes_topValue)) fun fields =>
      Codes.pure (x := (⟨typePath, fields⟩ : HeapSnapshotDatum)) fun datum => ?_
  · refine hfields.congr (fun datum => ?_) fun datum => ?_
    · rw [writeDatum, List.append_nil]
    · rw [true_and, and_true]
      rfl
  · obtain ⟨_, _⟩ := datum
    simp

def entryTag : HeapSnapshotListEntry → UInt8
  | .positional _ => 0
  | .associative _ _ => 1

def writeEntryValues : HeapSnapshotListEntry → Bytes
  | .positional value => writeValue value
  | .associative key value => writeValue key ++ writeValue value

theorem codes_association : Codes (fun pair : HeapSnapshotValue × HeapSnapshotValue =>
    writeValue pair.1 ++ writeValue pair.2) (do
      let key ← readTopValue
      return (key, ← readTopValue)) fun pair => FitsTopValue pair.1 ∧ FitsTopValue pair.2 := by
  have hfields := Codes.field (k := fun _ => True)
    (fun pair : HeapSnapshotValue × HeapSnapshotValue => pair.1) codes_topValue fun key =>
      Codes.field (fun pair : HeapSnapshotValue × HeapSnapshotValue => pair.2) codes_topValue
        fun value => Codes.pure (x := (key, value)) fun pair => ?_
  · refine hfields.congr (fun pair => ?_) fun pair => ?_
    · rw [List.append_nil]
    · rw [true_and, and_true]
  · obtain ⟨_, _⟩ := pair
    simp

theorem codes_taggedEntry (tag : UInt8) :
    Codes writeEntryValues (readTaggedEntry tag.toNat)
      fun entry => (True ∧ entryTag entry = tag) ∧ FitsEntry entry := by
  generalize hn : tag.toNat = n
  match n with
  | 0 =>
    rw [tag_eq hn (by decide)]
    refine codes_topValue.mapped (fun _ _ => rfl) fun entry => ?_
    cases entry <;> simp [entryTag, FitsEntry]
  | 1 =>
    have hread : readTaggedEntry 1 = (do
          let key ← readTopValue
          return (key, ← readTopValue)) >>= fun pair => pure (.associative pair.1 pair.2) := by
      simp [readTaggedEntry]
    rw [tag_eq hn (by decide), hread]
    refine codes_association.mapped (fun _ _ => rfl) fun entry => ?_
    cases entry <;> simp [entryTag, FitsEntry]
  | n + 2 =>
    refine Codes.fail fun entry hentry => ?_
    have hlt : (entryTag entry).toNat < 2 := by
      cases entry <;> simp [entryTag]
    rw [hentry.1.2, hn] at hlt
    omega

theorem codes_entry : Codes writeEntry readEntry FitsEntry := by
  refine (Codes.field (k := fun _ => True) entryTag (codes_readByte unexpectedEnd)
    codes_taggedEntry).congr (fun entry => ?_) fun entry => ?_
  · cases entry <;> rfl
  · rw [true_and, true_and]

theorem codes_list : Codes writeList readList FitsList := codes_counted maxEntries_lt codes_entry

/-! ## Slots -/

section

variable {α : Type} {write : α → Bytes} {read : HeapReader α} {valid : α → Prop}

theorem codes_payload (h : Codes write read valid) (what : String) :
    Codes (writeOption write) (readU8 >>= fun tag => readPayload what read pure tag.toNat)
      fun value => ∀ a, value = some a → valid a := by
  refine (Codes.field (k := fun _ => True) (fun value : Option α => if value.isSome then 1 else 0)
    (codes_readByte unexpectedEnd) fun tag =>
      show Codes (fun value => value.elim [] write) _ fun value =>
        (True ∧ (if value.isSome then 1 else 0) = tag) ∧ ∀ a, value = some a → valid a
      from ?_).congr (fun value => ?_) fun value => ?_
  · generalize hn : tag.toNat = n
    match n with
    | 0 =>
      have hnothing : Codes (fun _ : Unit => []) (pure () : HeapReader Unit)
          fun _ => True ∧ True := Codes.pure fun _ => by simp
      rw [tag_eq hn (by decide)]
      show Codes _ (pure () >>= fun _ : Unit => (pure none : HeapReader _)) _
      refine hnothing.mapped (fun _ _ => rfl) fun value => ?_
      cases value <;> simp
    | 1 =>
      have hread : readPayload what read pure 1 = read >>= fun a => pure (some a) := by
        simp [readPayload]
      rw [tag_eq hn (by decide), hread]
      refine h.mapped (fun _ _ => rfl) fun value => ?_
      cases value <;> simp
    | n + 2 =>
      refine Codes.fail fun value hvalue => ?_
      have htag := hvalue.1.2
      cases value with
      | none =>
        rw [← htag] at hn
        exact absurd hn (by simp)
      | some a =>
        rw [← htag] at hn
        exact absurd hn (by simp)
  · cases value <;> rfl
  · simp

theorem codes_slots (h : Codes write read valid) (what : String) :
    Codes (writeSlots write) (readSlots what read pure) (FitsSlots valid) := by
  refine codes_counted maxSlots_lt ?_
  have hfields := Codes.field (k := fun _ => True) (fun slot : HeapSnapshotSlot α => slot.generation)
    codes_u32 fun generation => Codes.field (fun slot : HeapSnapshotSlot α => slot.value)
      (codes_payload h what) fun value =>
        Codes.pure (x := (⟨generation, value⟩ : HeapSnapshotSlot α)) fun slot => ?_
  · have hslot : readSlot what read pure = readU32 >>= fun generation =>
        (readU8 >>= fun tag => readPayload what read pure tag.toNat) >>= fun value =>
          pure (⟨generation, value⟩ : HeapSnapshotSlot α) := by
      simp [readSlot]
    rw [hslot]
    refine hfields.congr (fun slot => ?_) fun slot => ?_
    · rw [writeSlot, List.append_nil]
    · rw [true_and, and_true]
  · obtain ⟨_, _⟩ := slot
    simp

end

theorem codes_free : Codes writeU32Vec readU32Vec FitsFree :=
  codes_counted maxSlots_lt codes_u32

theorem codes_magic : Codes (fun _ : Unit => heapMagic) readMagic fun _ => True :=
  (codes_readExact heapMagic.length unexpectedEnd).expected rfl (fun _ => Iff.rfl) _

theorem codes_version : Codes (fun _ : Unit => writeU32 heapVersion) readVersion fun _ => True :=
  codes_u32.expected (show heapVersion < 256 ^ 4 by decide) (fun _ => Iff.rfl) _

/-- The reader of records is the inverse of the writer of records. -/
theorem codes_snapshot : Codes writeSnapshot readSnapshot FitsSnapshot := by
  have hfields := Codes.field (k := fun _ => True) (fun _ : ValueHeapSnapshot => ()) codes_magic
    fun _ => Codes.field (fun _ : ValueHeapSnapshot => ()) codes_version fun _ =>
    Codes.field ValueHeapSnapshot.datums (codes_slots codes_datum "arena-presence") fun datums =>
    Codes.field ValueHeapSnapshot.datumFree codes_free fun datumFree =>
    Codes.field ValueHeapSnapshot.lists (codes_slots codes_list "arena-presence") fun lists =>
    Codes.field ValueHeapSnapshot.listFree codes_free fun listFree =>
    Codes.pure (x := (⟨datums, datumFree, lists, listFree⟩ : ValueHeapSnapshot))
      fun snapshot => ?_
  · refine hfields.congr (fun snapshot => ?_) fun snapshot => ?_
    · rw [writeSnapshot, List.append_nil]
    · simp only [true_and, and_true]
      exact ⟨fun h => ⟨h.datums, h.datumFree, h.lists, h.listFree⟩,
        fun ⟨hdatums, hdatumFree, hlists, hlistFree⟩ => ⟨hdatums, hdatumFree, hlists, hlistFree⟩⟩
  · obtain ⟨_, _, _, _⟩ := snapshot
    simp [and_assoc]

end HeapCodec

end Dream64
