import Dream64.Compiler.Database

/-!
# Reading the compiler database

The decoder accepts what the encoder writes of the databases whose numbers have
64 bits, and nothing else (`decode_eq_ok`).
-/

namespace Dream64.Compiler

open Codec

/-! ## What fits -/

/-- The values of a `u64`. -/
def IsU64 (value : Nat) : Prop := value < 2 ^ 64

def FitsString (value : String) : Prop := (utf8 value).length ≤ maxStringBytes

def InputDependency.Fits (input : InputDependency) : Prop := FitsString input.identity

def StableIdEntry.Fits (entry : StableIdEntry) : Prop :=
  FitsString entry.nameSpace ∧ FitsString entry.name

structure SectionDependency.Fits (part : SectionDependency) : Prop where
  sectionDependencies : part.sectionDependencies.length ≤ maxRecords
  inputDependencies : part.inputDependencies.length ≤ maxRecords
  payload : part.payload.length ≤ maxSectionPayloadBytes

structure SectionDependency.Words (part : SectionDependency) : Prop where
  sectionId : IsU64 part.sectionId
  sectionDependencies : ∀ id ∈ part.sectionDependencies, IsU64 id
  inputDependencies : ∀ index ∈ part.inputDependencies, IsU64 index

structure PersistentCompilerDatabase.Fits (db : PersistentCompilerDatabase) : Prop where
  inputs : ∀ input ∈ db.inputs, input.Fits
  stableIds : ∀ entry ∈ db.stableIds, entry.Fits
  sections : ∀ part ∈ db.sections, part.Fits

/-- The numbers of the database have 64 bits. -/
structure PersistentCompilerDatabase.Words (db : PersistentCompilerDatabase) : Prop where
  inputs : ∀ input ∈ db.inputs, IsU64 input.byteLength
  stableIds : ∀ entry ∈ db.stableIds, IsU64 entry.id
  sections : ∀ part ∈ db.sections, part.Words

/-! ## What is written -/

def stringBytes (value : String) : Bytes := writeU64 (utf8 value).length ++ utf8 value

def vecBytes (values : List Nat) : Bytes := writeU64 values.length ++ values.flatMap writeU64

def inputBytes (input : InputDependency) : Bytes :=
  stringBytes input.identity ++ input.contentDigest ++ writeU64 input.byteLength

def stableIdBytes (entry : StableIdEntry) : Bytes :=
  stringBytes entry.nameSpace ++ stringBytes entry.name ++ writeU64 entry.id

def sectionBytes (part : SectionDependency) : Bytes :=
  writeU64 part.sectionId ++ vecBytes part.sectionDependencies ++
    vecBytes part.inputDependencies ++ part.contentDigest ++
    (writeU64 part.payload.length ++ part.payload)

def PersistentCompilerDatabase.payload (db : PersistentCompilerDatabase) : Bytes :=
  db.semanticDigest ++ db.buildConfigurationDigest ++
    (writeU64 db.inputs.length ++ db.inputs.flatMap inputBytes) ++
    (writeU64 db.stableIds.length ++ db.stableIds.flatMap stableIdBytes) ++
    (writeU64 db.sections.length ++ db.sections.flatMap sectionBytes)

theorem writes_string : Writes writeString stringBytes FitsString := by
  intro value out
  rw [writeString, refuse_eq_ok, pure_eq_ok, Nat.not_lt]
  rfl

theorem writes_vec : Writes writeU64Vec vecBytes fun values => values.length ≤ maxRecords := by
  intro values out
  rw [writeU64Vec, refuse_eq_ok, pure_eq_ok, Nat.not_lt]
  rfl

theorem writes_input : Writes writeInput inputBytes InputDependency.Fits := by
  intro input out
  simp only [writeInput, bind_eq_ok_iff, pure_eq_ok, writes_string _ _]
  constructor
  · rintro ⟨_, ⟨hfits, rfl⟩, rfl⟩
    exact ⟨hfits, rfl⟩
  · rintro ⟨hfits, rfl⟩
    exact ⟨_, ⟨hfits, rfl⟩, rfl⟩

theorem writes_stableId : Writes writeStableId stableIdBytes StableIdEntry.Fits := by
  intro entry out
  simp only [writeStableId, bind_eq_ok_iff, pure_eq_ok, writes_string _ _]
  constructor
  · rintro ⟨_, ⟨hnameSpace, rfl⟩, _, ⟨hname, rfl⟩, rfl⟩
    exact ⟨⟨hnameSpace, hname⟩, rfl⟩
  · rintro ⟨⟨hnameSpace, hname⟩, rfl⟩
    exact ⟨_, ⟨hnameSpace, rfl⟩, _, ⟨hname, rfl⟩, rfl⟩

theorem writes_section : Writes writeSection sectionBytes SectionDependency.Fits := by
  intro part out
  simp only [writeSection, bind_eq_ok_iff, refuse_eq_ok, pure_eq_ok, writes_vec _ _,
    Nat.not_lt]
  constructor
  · rintro ⟨_, ⟨hsections, rfl⟩, _, ⟨hinputs, rfl⟩, hpayload, rfl⟩
    exact ⟨⟨hsections, hinputs, hpayload⟩, by simp only [sectionBytes, List.append_assoc]⟩
  · rintro ⟨⟨hsections, hinputs, hpayload⟩, rfl⟩
    exact ⟨_, ⟨hsections, rfl⟩, _, ⟨hinputs, rfl⟩, hpayload,
      by simp only [sectionBytes, List.append_assoc]⟩

theorem encode_eq_ok {md5 : Md5} {db : PersistentCompilerDatabase} {bytes : Bytes} :
    db.encode md5 = .ok bytes ↔ validate db = .ok () ∧ db.Fits ∧
      db.payload.length ≤ maxDatabaseBytes - headerLen ∧
      bytes = writeHeader md5 db.payload ++ db.payload := by
  have hpayload : (db.semanticDigest ++ db.buildConfigurationDigest ++
      writeU64 db.inputs.length ++ (db.inputs.map inputBytes).flatten ++
      writeU64 db.stableIds.length ++ (db.stableIds.map stableIdBytes).flatten ++
      writeU64 db.sections.length ++ (db.sections.map sectionBytes).flatten : Bytes) =
      db.payload := by
    simp only [PersistentCompilerDatabase.payload, List.append_assoc, List.flatMap_def]
  simp only [PersistentCompilerDatabase.encode, bind_eq_ok_iff, refuse_eq_ok, pure_eq_ok,
    writes_input.mapM, writes_stableId.mapM, writes_section.mapM, Nat.not_lt]
  constructor
  · rintro ⟨_, hvalid, _, ⟨hinputs, rfl⟩, _, ⟨hstableIds, rfl⟩, _, ⟨hsections, rfl⟩, hlength, rfl⟩
    rw [hpayload] at hlength ⊢
    exact ⟨hvalid, ⟨hinputs, hstableIds, hsections⟩, hlength, rfl⟩
  · rintro ⟨hvalid, ⟨hinputs, hstableIds, hsections⟩, hlength, rfl⟩
    refine ⟨(), hvalid, _, ⟨hinputs, rfl⟩, _, ⟨hstableIds, rfl⟩, _, ⟨hsections, rfl⟩, ?_, ?_⟩
    · rwa [hpayload]
    · rw [hpayload]

/-! ## What is read -/

theorem codes_u64 : Codes writeU64 readU64 IsU64 :=
  (codes_readNumber 8 _).congr (fun _ => rfl) fun _ => Iff.rfl

theorem codes_count : Codes writeU64 readCount fun count => count ≤ maxRecords := by
  refine (codes_u64.refused (fun count => maxRecords < count) _).congr (fun _ => rfl)
    fun count => ?_
  rw [IsU64, maxRecords]
  omega

theorem codes_bounded {limit : Nat} (what : String) (hlimit : limit < 2 ^ 64) :
    Codes (fun bytes => writeU64 bytes.length ++ bytes) (readBounded limit what)
      fun bytes => bytes.length ≤ limit := by
  have hbytes (length : Nat) : Codes (fun bytes => bytes)
      (if limit < length then throw (DatabaseError.limit what) else readExact length DatabaseError.io)
      fun bytes => (True ∧ bytes.length = length) ∧ bytes.length ≤ limit ∧ True := by
    refine Codes.guard (fun bytes hlength => ?_) ?_
    · rw [hlength.2, Nat.not_lt]
    · refine (codes_readExact length _).congr (fun _ => rfl) fun bytes => ?_
      rw [true_and, and_true]
  refine (Codes.field List.length codes_u64 hbytes).congr (fun _ => rfl) fun bytes => ?_
  simp only [IsU64, true_and, and_true]
  omega

theorem codes_string : Codes stringBytes readString FitsString :=
  (codes_bounded "string" (by decide)).respelled (fun _ _ => ofUtf8_eq_some) _

theorem codes_records {α : Type} {write : α → Bytes} {read : Reader DatabaseError α}
    {valid : α → Prop} (h : Codes write read valid) :
    Codes (fun values : List α => writeU64 values.length ++ values.flatMap write)
      (readRecords read) fun values => values.length ≤ maxRecords ∧ ∀ a ∈ values, valid a := by
  refine (Codes.list codes_count fun _ => h).congr (fun _ => rfl)
    fun values => and_congr_right fun _ => ?_
  constructor
  · exact fun hall i a hi => hall a (List.mem_of_getElem? hi)
  · intro hall a hmem
    obtain ⟨i, hi⟩ := List.mem_iff_getElem?.1 hmem
    exact hall i a hi

theorem codes_vec : Codes vecBytes readU64Vec
    fun values => values.length ≤ maxRecords ∧ ∀ value ∈ values, IsU64 value :=
  codes_records codes_u64

theorem codes_sized (count : Nat) :
    Codes Subtype.val (readSized count) fun _ => True := by
  have hsized (bytes : Bytes) (value : { bytes : Bytes // bytes.length = count }) :
      sized count bytes = some value ↔ bytes = value.1 := by
    obtain ⟨value, hvalue⟩ := value
    unfold sized
    split
    · rw [Option.some.injEq, Subtype.mk.injEq]
    · rename_i hlength
      exact ⟨fun h => (by cases h), fun h => absurd (h ▸ hvalue) hlength⟩
  refine ((codes_readExact count _).respelled hsized _).congr (fun _ => rfl) fun value => ?_
  exact ⟨fun _ => value.2, fun _ => trivial⟩

theorem codes_input :
    Codes inputBytes readInput fun input => input.Fits ∧ IsU64 input.byteLength := by
  refine (Codes.field (k := fun _ => True) InputDependency.identity codes_string fun identity =>
    Codes.field InputDependency.contentDigest (codes_sized 32) fun contentDigest =>
    Codes.field InputDependency.byteLength codes_u64 fun byteLength =>
    Codes.pure fun input => ?_).congr (fun input => ?_) fun input => ?_
  · obtain ⟨_, _, _⟩ := input
    simp only [InputDependency.mk.injEq, true_and, and_assoc]
  · simp only [inputBytes, List.append_assoc, List.append_nil]
  · simp only [InputDependency.Fits, true_and, and_true]

theorem codes_stableId :
    Codes stableIdBytes readStableId fun entry => entry.Fits ∧ IsU64 entry.id := by
  refine (Codes.field (k := fun _ => True) StableIdEntry.nameSpace codes_string fun nameSpace =>
    Codes.field StableIdEntry.name codes_string fun name =>
    Codes.field StableIdEntry.id codes_u64 fun id =>
    Codes.pure fun entry => ?_).congr (fun entry => ?_) fun entry => ?_
  · obtain ⟨_, _, _⟩ := entry
    simp only [StableIdEntry.mk.injEq, true_and, and_assoc]
  · simp only [stableIdBytes, List.append_assoc, List.append_nil]
  · simp only [StableIdEntry.Fits, true_and, and_true, and_assoc]

theorem codes_section : Codes sectionBytes readSection fun part => part.Fits ∧ part.Words := by
  refine (Codes.field (k := fun _ => True) SectionDependency.sectionId codes_u64 fun sectionId =>
    Codes.field SectionDependency.sectionDependencies codes_vec fun sectionDependencies =>
    Codes.field SectionDependency.inputDependencies codes_vec fun inputDependencies =>
    Codes.field SectionDependency.contentDigest (codes_sized 32) fun contentDigest =>
    Codes.field SectionDependency.payload
      (codes_bounded "section payload" (by decide)) fun payload =>
    Codes.pure fun part => ?_).congr (fun part => ?_) fun part => ?_
  · obtain ⟨_, _, _, _, _⟩ := part
    simp only [SectionDependency.mk.injEq, true_and, and_assoc]
  · simp only [sectionBytes, List.append_assoc, List.append_nil]
  · constructor
    · rintro ⟨⟨hsections, hinputs, hpayload⟩, hid, hsectionIds, hindices⟩
      exact ⟨trivial, hid, ⟨hsections, hsectionIds⟩, ⟨hinputs, hindices⟩, trivial, hpayload, trivial⟩
    · rintro ⟨-, hid, ⟨hsections, hsectionIds⟩, ⟨hinputs, hindices⟩, -, hpayload, -⟩
      exact ⟨⟨hsections, hinputs, hpayload⟩, hid, hsectionIds, hindices⟩

/-- The database has no table of too many records. -/
structure PersistentCompilerDatabase.Counted (db : PersistentCompilerDatabase) : Prop where
  inputs : db.inputs.length ≤ maxRecords
  stableIds : db.stableIds.length ≤ maxRecords
  sections : db.sections.length ≤ maxRecords

theorem codes_database : Codes PersistentCompilerDatabase.payload readDatabase
    fun db => db.Counted ∧ db.Fits ∧ db.Words := by
  refine (Codes.field (k := fun _ => True) PersistentCompilerDatabase.semanticDigest
      (codes_sized 32) fun semanticDigest =>
    Codes.field PersistentCompilerDatabase.buildConfigurationDigest
      (codes_sized 32) fun buildConfigurationDigest =>
    Codes.field PersistentCompilerDatabase.inputs (codes_records codes_input) fun inputs =>
    Codes.field PersistentCompilerDatabase.stableIds (codes_records codes_stableId) fun stableIds =>
    Codes.field PersistentCompilerDatabase.sections (codes_records codes_section) fun sections =>
    Codes.pure fun db => ?_).congr (fun db => ?_) fun db => ?_
  · obtain ⟨_, _, _, _, _⟩ := db
    simp only [PersistentCompilerDatabase.mk.injEq, true_and, and_assoc]
  · simp only [PersistentCompilerDatabase.payload, List.append_assoc, List.append_nil]
  · constructor
    · rintro ⟨⟨hinputs, hstableIds, hsections⟩, hfits, hwords⟩
      exact ⟨trivial, trivial, trivial,
        ⟨hinputs, fun a ha => ⟨hfits.inputs a ha, hwords.inputs a ha⟩⟩,
        ⟨hstableIds, fun a ha => ⟨hfits.stableIds a ha, hwords.stableIds a ha⟩⟩,
        ⟨hsections, fun a ha => ⟨hfits.sections a ha, hwords.sections a ha⟩⟩, trivial⟩
    · rintro ⟨-, -, -, ⟨hinputs, hinput⟩, ⟨hstableIds, hentry⟩, ⟨hsections, hpart⟩, -⟩
      exact ⟨⟨hinputs, hstableIds, hsections⟩,
        ⟨fun a ha => (hinput a ha).1, fun a ha => (hentry a ha).1, fun a ha => (hpart a ha).1⟩,
        ⟨fun a ha => (hinput a ha).2, fun a ha => (hentry a ha).2, fun a ha => (hpart a ha).2⟩⟩

theorem codes_magic : Codes (fun _ => databaseMagic) readMagic fun _ => True :=
  (codes_readExact 8 _).expected (x := databaseMagic) (by decide) (fun _ => Iff.rfl) _

theorem codes_version (expected : Nat) (h : expected < 2 ^ 32) :
    Codes (fun _ => writeU32 expected) (readVersion expected) fun _ => True :=
  (codes_readNumber 4 _).expected (x := expected) h (fun _ => Iff.rfl) _

theorem codes_header :
    Codes (fun header : Nat × Md5Digest => databaseMagic ++ writeU32 databaseVersion ++ writeU32 0 ++
      writeU64 header.1 ++ header.2) readHeader fun header => IsU64 header.1 := by
  refine (Codes.field (k := fun _ => True) (fun _ => ()) codes_magic fun _ =>
    Codes.field (fun _ => ()) (codes_version databaseVersion (by decide)) fun _ =>
    Codes.field (fun _ => ()) (codes_version 0 (by decide)) fun _ =>
    Codes.field Prod.fst codes_u64 fun payloadLen =>
    Codes.field Prod.snd (codes_sized 16) fun expected =>
    Codes.pure fun header => ?_).congr (fun header => ?_) fun header => ?_
  · obtain ⟨_, _⟩ := header
    simp only [Prod.mk.injEq, true_and]
  · simp only [List.append_assoc, List.append_nil]
  · simp only [true_and, and_true]

/-- What the check of a database asks for. -/
structure PersistentCompilerDatabase.Valid (db : PersistentCompilerDatabase) : Prop where
  counted : db.Counted
  identities : (db.inputs.map (·.identity)).Nodup
  names : (db.stableIds.map fun entry => (entry.nameSpace, entry.name)).Nodup
  numbers : (db.stableIds.map fun entry => (entry.nameSpace, entry.id)).Nodup
  sectionIds : (db.sections.map (·.sectionId)).Nodup
  inputDependencies : ∀ part ∈ db.sections, ∀ index ∈ part.inputDependencies,
    index < db.inputs.length
  sectionDependencies : ∀ part ∈ db.sections, ∀ id ∈ part.sectionDependencies,
    id ∈ db.sections.map (·.sectionId)

theorem validateStableIds_eq_ok {entries : List StableIdEntry} :
    validateStableIds entries = .ok () ↔ entries.length ≤ maxRecords ∧
      (entries.map fun entry => (entry.nameSpace, entry.name)).Nodup ∧
      (entries.map fun entry => (entry.nameSpace, entry.id)).Nodup := by
  rw [validateStableIds, refuse_eq_ok, Nat.not_lt]
  refine and_congr_right fun _ => ?_
  split
  · rename_i h
    exact ⟨fun _ => h, fun _ => rfl⟩
  · rename_i h
    exact ⟨fun herror => (by cases herror), fun hand => absurd hand h⟩

theorem known_iff {db : PersistentCompilerDatabase} {part : SectionDependency} :
    part.known db = true ↔ (∀ index ∈ part.inputDependencies, index < db.inputs.length) ∧
      ∀ id ∈ part.sectionDependencies, id ∈ db.sections.map (·.sectionId) := by
  simp [SectionDependency.known, List.mem_map]

theorem validate_eq_ok {db : PersistentCompilerDatabase} :
    validate db = .ok () ↔ db.Valid := by
  have hvalid : validate db = .ok () ↔ db.Counted ∧ (db.inputs.map (·.identity)).Nodup ∧
      validateStableIds db.stableIds = .ok () ∧ (db.sections.map (·.sectionId)).Nodup ∧
        ∀ part ∈ db.sections, part.known db = true := by
    simp only [validate, refuse_eq_ok, bind_eq_ok_iff, not_or, Nat.not_lt, not_not, List.all_eq_true]
    constructor
    · rintro ⟨⟨hinputs, hstableIds, hsections⟩, hidentities, _, hids, hsectionIds, hknown, -⟩
      exact ⟨⟨hinputs, hstableIds, hsections⟩, hidentities, hids, hsectionIds, hknown⟩
    · rintro ⟨⟨hinputs, hstableIds, hsections⟩, hidentities, hids, hsectionIds, hknown⟩
      exact ⟨⟨hinputs, hstableIds, hsections⟩, hidentities, (), hids, hsectionIds, hknown, rfl⟩
  rw [hvalid, validateStableIds_eq_ok]
  constructor
  · rintro ⟨hcounted, hidentities, ⟨-, hnames, hnumbers⟩, hsectionIds, hknown⟩
    exact ⟨hcounted, hidentities, hnames, hnumbers, hsectionIds,
      fun part hpart => (known_iff.1 (hknown part hpart)).1,
      fun part hpart => (known_iff.1 (hknown part hpart)).2⟩
  · intro h
    exact ⟨h.counted, h.identities, ⟨h.counted.stableIds, h.names, h.numbers⟩, h.sectionIds,
      fun part hpart => known_iff.2 ⟨h.inputDependencies part hpart,
        h.sectionDependencies part hpart⟩⟩

theorem length_writeHeader (md5 : Md5) (payload : Bytes) :
    (writeHeader md5 payload).length = headerLen := by
  simp only [writeHeader, headerLen, List.length_append, (md5 payload).2, writeU32, writeU64,
    length_toLittleEndian]
  rfl

/-- The decoder gives back what the encoder writes of numbers of 64 bits, and accepts nothing
else. -/
theorem decode_eq_ok {md5 : Md5} {db : PersistentCompilerDatabase} {bytes : Bytes} :
    PersistentCompilerDatabase.decode md5 bytes = .ok db ↔ db.Words ∧ db.encode md5 = .ok bytes := by
  rw [encode_eq_ok]
  simp only [PersistentCompilerDatabase.decode, refuse_eq_ok, bind_eq_ok_iff, pure_eq_ok,
    codes_header.read_eq_ok, codes_database.read_eq_ok, Nat.not_lt, ne_eq, not_not]
  have hheader (payload : Bytes) (payloadLen : Nat) (expected : Md5Digest)
      (hlength : payloadLen = payload.length) (hmd5 : md5 payload = expected) :
      databaseMagic ++ writeU32 databaseVersion ++ writeU32 0 ++ writeU64 payloadLen ++ expected =
        writeHeader md5 payload := by
    rw [hlength, ← hmd5, writeHeader]
  constructor
  · rintro ⟨hmax, hmin, ⟨⟨payloadLen, expected⟩, payload⟩, ⟨hword, hbytes⟩, hlength, hmd5,
      ⟨db', rest⟩, ⟨⟨-, hfits, hwords⟩, hpayload⟩, rfl, _, hvalid, rfl⟩
    have hsplit : bytes.length = headerLen + payload.length := by
      rw [hbytes, ← length_writeHeader md5 payload, List.length_append]
      simp only [writeHeader, List.length_append, writeU64, length_toLittleEndian,
        (md5 payload).2, expected.2]
    have hpayloadLen : payloadLen = payload.length := by
      rw [show payloadLen = bytes.length - headerLen from hlength, hsplit, Nat.add_sub_cancel_left]
    rw [hheader payload payloadLen expected hpayloadLen hmd5] at hbytes
    obtain rfl : payload = db.payload := hpayload.trans (List.append_nil _)
    exact ⟨hwords, hvalid, hfits, by omega, hbytes⟩
  · rintro ⟨hwords, hvalid, hfits, hlength, rfl⟩
    have hsplit : (writeHeader md5 db.payload ++ db.payload).length =
        headerLen + db.payload.length := by
      rw [List.length_append, length_writeHeader]
    have hmax : maxDatabaseBytes < 2 ^ 64 := by decide
    have hle : headerLen ≤ maxDatabaseBytes := by decide
    have hword : IsU64 db.payload.length := by
      show db.payload.length < 2 ^ 64
      omega
    have hpayloadLen : db.payload.length =
        (writeHeader md5 db.payload ++ db.payload).length - headerLen := by
      rw [hsplit, Nat.add_sub_cancel_left]
    exact ⟨by omega, by omega, ((db.payload.length, md5 db.payload), db.payload),
      ⟨hword, rfl⟩, hpayloadLen, rfl, (db, []), ⟨⟨(validate_eq_ok.1 hvalid).counted, hfits, hwords⟩,
      (List.append_nil _).symm⟩, rfl, (), hvalid, rfl⟩

end Dream64.Compiler
