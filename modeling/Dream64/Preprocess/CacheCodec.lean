import Dream64.Preprocess.Cache

/-!
# Reading the cache

Each reader of the cache is the inverse of its writer on the values that a
program can hold (`Codes`), and panics where a count or an identity is too
large and everything before it is readable (`FailsOn`).
-/

namespace Dream64.Preprocess

open Codec

/-! ## Numbers and text -/

/-- The values of a `usize` and of a `u64`. -/
def IsWord (value : Nat) : Prop := value < 2 ^ 64

def IsFileId (id : FileId) : Prop := id < 2 ^ 32

/-- The length of bytes that there are. -/
def IsHeld (bytes : Bytes) : Prop := IsWord bytes.length

def IsHeldText (value : String) : Prop := IsHeld (utf8 value)

def IsSpan (span : SourceSpan) : Prop :=
  span.start ≤ span.stop ∧ IsWord span.start ∧ IsWord span.stop

theorem codes_readLen : Codes writeLen readLen IsWord :=
  (codes_readNumber 8 _).congr (fun _ => rfl) fun _ => Iff.rfl

theorem codes_readCount (capacity : Nat) : Codes writeLen (readCount capacity)
    fun count => IsWord count ∧ ¬ capacity < count := codes_readLen.refused _ _

theorem codes_readFileId : Codes writeLen readFileId IsFileId := by
  refine (codes_readLen.refused (fun id => 2 ^ 32 ≤ id) _).congr (fun _ => rfl) fun id => ?_
  show id < 2 ^ 32 ↔ id < 2 ^ 64 ∧ ¬ 2 ^ 32 ≤ id
  omega

theorem codes_readBytes : Codes writeBytes readBytes IsHeld := by
  refine (Codes.field (k := fun _ => True) List.length (v := fun _ => True)
    codes_readLen fun length => ?_).congr (fun _ => rfl) fun bytes => ?_
  · refine (codes_readExact length _).congr (fun _ => rfl) fun bytes => ?_
    simp only [true_and, and_true]
  · simp only [IsHeld, true_and, and_true]

theorem codes_readString : Codes writeString readString IsHeldText :=
  codes_readBytes.respelled (fun _ _ => ofUtf8_eq_some) _

theorem codes_readText : Codes (fun text => writeString (String.ofList text)) readText
    fun text => IsHeldText (String.ofList text) := by
  refine codes_readString.respelled (fun value text => ?_) _
  rw [Option.some.injEq]
  constructor
  · rintro rfl
    exact String.ofList_toList.symm
  · rintro rfl
    exact String.toList_ofList

theorem codes_readTag {α : Type} {tag : α → UInt8} {ofTag : UInt8 → Option α}
    (h : ∀ t a, ofTag t = some a ↔ t = tag a) :
    Codes (fun a => [tag a]) (readTag ofTag) fun _ => True :=
  (codes_readByte _).respelled h _

theorem codes_readSpan : Codes writeSpan readSpan IsSpan := by
  refine ((Codes.field (k := fun _ => True) SourceSpan.start codes_readLen
    fun start => Codes.field SourceSpan.stop codes_readLen fun stop =>
      Codes.guard (q := fun span : SourceSpan => span.start ≤ span.stop) (fun span hspan => ?_)
        (Codes.pure fun span => ?_))).congr (fun span => ?_) fun span => ?_
  · rw [hspan.2, hspan.1.2, Nat.not_lt]
  · obtain ⟨_, _⟩ := span
    simp
  · rw [writeSpan, List.append_nil]
  · rw [IsSpan]
    tauto

theorem codes_readMagic (magic : Bytes) :
    Codes (fun _ => magic) (readMagic magic) fun _ => True := by
  constructor
  · intro _ rest _
    rw [readMagic, bind_apply, (codes_readExact _ _).read_write _ rest rfl]
    dsimp only [Except.bind]
    rw [if_neg (not_not.2 rfl)]
    rfl
  · intro bytes _ rest hread
    rw [readMagic, bind_apply] at hread
    obtain ⟨⟨read, rest'⟩, hexact, hnext⟩ := bind_eq_ok hread
    obtain ⟨-, rfl⟩ := (codes_readExact _ _).write_read _ _ _ hexact
    dsimp only at hnext
    split at hnext
    · cases hnext
    · rename_i heq
      cases hnext
      exact ⟨trivial, by rw [not_not.1 heq]⟩

/-! ## Entries -/

theorem fileKindOfTag_eq_some (tag : UInt8) (kind : FileKind) :
    fileKindOfTag tag = some kind ↔ tag = fileKindTag kind := by
  revert tag
  cases kind <;> decide +kernel

theorem severityOfTag_eq_some (tag : UInt8) (severity : PragmaSeverity) :
    severityOfTag tag = some severity ↔ tag = severityTag severity := by
  revert tag
  cases severity <;> decide +kernel

def IsMapping (mapping : SourceMapping) : Prop := IsSpan mapping.expanded ∧ IsSpan mapping.original

/-- A file at its place in the table. -/
structure IsFile (capacities : Capacities) (index : Nat) (file : CachedFile) : Prop where
  id : file.id = index
  u32 : IsFileId file.id
  path : IsHeldText file.path
  relativePath : IsHeldText file.relativePath
  contents : IsHeld file.contents
  compilerContents : ∀ bytes, file.compilerContents = some bytes → IsHeld bytes
  mappingCount : IsWord file.compilerSourceMap.length ∧
    ¬ capacities.mappings < file.compilerSourceMap.length
  mappings : ∀ mapping ∈ file.compilerSourceMap, IsMapping mapping

def IsTarget : IncludeTarget → Prop
  | .file id => IsFileId id
  | .system spelling => IsHeldText spelling

structure IsInclude (edge : IncludeEdge) : Prop where
  source : IsFileId edge.source
  target : IsTarget edge.target
  spelling : IsHeldText edge.spelling
  span : IsSpan edge.span

structure IsPragma (pragma : DiagnosticPragma) : Prop where
  name : IsHeldText pragma.name
  source : IsFileId pragma.source
  span : IsSpan pragma.span

structure IsWarning (warning : WarningDirective) : Prop where
  message : IsHeldText (String.ofList warning.message)
  source : IsFileId warning.source
  span : IsSpan warning.span

def IsEntry (entry : String × String) : Prop := IsHeldText entry.1 ∧ IsHeldText entry.2

/-- A table whose entries do not depend on their place. -/
theorem codes_readTable {α : Type} {write : α → Bytes} {read : CacheReader α} {valid : α → Prop}
    {readLength : CacheReader Nat} {validLength : Nat → Prop}
    (hlength : Codes writeLen readLength validLength) (h : Codes write read valid) :
    Codes (fun values : List α => writeLen values.length ++ values.flatMap write)
      (readTable readLength fun _ => read) fun values =>
        validLength values.length ∧ ∀ a ∈ values, valid a := by
  refine (Codes.list hlength fun _ => h).congr (fun _ => rfl) fun values => ?_
  refine and_congr_right fun _ => ⟨fun hall i a hi => hall a (List.mem_of_getElem? hi), ?_⟩
  intro hall a hmem
  obtain ⟨i, hi⟩ := List.mem_iff_getElem?.1 hmem
  exact hall i a hi

theorem codes_readMapping : Codes writeMapping readMapping IsMapping := by
  refine (Codes.field (k := fun _ => True) SourceMapping.expanded codes_readSpan
    fun expanded => Codes.field SourceMapping.original codes_readSpan fun original =>
    Codes.pure fun mapping => ?_).congr (fun mapping => ?_) fun mapping => ?_
  · obtain ⟨_, _⟩ := mapping
    simp
  · rw [writeMapping, List.append_nil]
  · rw [IsMapping]
    tauto

theorem codes_readFile (capacities : Capacities) (index : Nat) :
    Codes writeFile (readFile capacities index) (IsFile capacities index) := by
  refine (Codes.field (k := fun file => file.id = index) CachedFile.path
    codes_readString fun path =>
    Codes.field CachedFile.relativePath codes_readString fun relativePath =>
    Codes.field CachedFile.kind (codes_readTag fileKindOfTag_eq_some) fun kind =>
    Codes.field CachedFile.contents codes_readBytes fun contents =>
    Codes.field CachedFile.compilerContents (codes_readOption codes_readBytes _ _)
      fun compilerContents =>
    Codes.field CachedFile.compilerSourceMap
      (codes_readTable (codes_readCount _) codes_readMapping) fun mappings =>
    Codes.guard (q := fun file : CachedFile => IsFileId file.id) (fun file hfile => ?_)
    (Codes.pure fun file => ?_)).congr (fun file => ?_) fun file => ?_
  · obtain ⟨⟨⟨⟨⟨⟨hid, -⟩, -⟩, -⟩, -⟩, -⟩, -⟩ := hfile
    rw [hid, IsFileId, Nat.not_le]
  · obtain ⟨_, _, _, _, _, _, _⟩ := file
    simp only [CachedFile.mk.injEq, and_assoc]
  · simp only [writeFile, writePath, List.append_assoc, List.append_nil]
  · constructor
    · rintro ⟨hid, hu32, hpath, hrelative, hcontents, hcompiler, hcount, hmappings⟩
      exact ⟨hid, hpath, hrelative, trivial, hcontents, hcompiler, ⟨hcount, hmappings⟩, hu32,
        trivial⟩
    · rintro ⟨hid, hpath, hrelative, -, hcontents, hcompiler, ⟨hcount, hmappings⟩, hu32, -⟩
      exact ⟨hid, hu32, hpath, hrelative, hcontents, hcompiler, hcount, hmappings⟩

theorem codes_readTarget : Codes writeTarget readTarget IsTarget := by
  constructor
  · intro target rest htarget
    cases target with
    | file id =>
      have htag : readByte ReadFailure.refused (writeTarget (.file id) ++ rest) =
          .ok (0, writeLen id ++ rest) := rfl
      rw [readTarget, bind_apply, htag]
      dsimp only [Except.bind]
      rw [if_pos rfl, bind_apply, codes_readFileId.read_write id rest htarget]
      rfl
    | system spelling =>
      have htag : readByte ReadFailure.refused (writeTarget (.system spelling) ++ rest) =
          .ok (1, writeString spelling ++ rest) := rfl
      rw [readTarget, bind_apply, htag]
      dsimp only [Except.bind]
      rw [if_neg (by decide), if_pos rfl, bind_apply,
        codes_readString.read_write spelling rest htarget]
      rfl
  · intro bytes target rest hread
    rw [readTarget, bind_apply] at hread
    obtain ⟨⟨tag, rest'⟩, htag, hnext⟩ := bind_eq_ok hread
    obtain ⟨-, rfl⟩ := (codes_readByte _).write_read _ _ _ htag
    dsimp only at hnext
    split at hnext
    · rename_i hzero
      rw [bind_apply] at hnext
      obtain ⟨⟨id, rest''⟩, hid, hfile⟩ := bind_eq_ok hnext
      obtain ⟨hvalid, rfl⟩ := codes_readFileId.write_read _ _ _ hid
      cases hfile
      exact ⟨hvalid, by rw [hzero]; rfl⟩
    · split at hnext
      · rename_i hone
        rw [bind_apply] at hnext
        obtain ⟨⟨spelling, rest''⟩, hspelling, hsystem⟩ := bind_eq_ok hnext
        obtain ⟨hvalid, rfl⟩ := codes_readString.write_read _ _ _ hspelling
        cases hsystem
        exact ⟨hvalid, by rw [hone]; rfl⟩
      · cases hnext

theorem codes_readInclude : Codes writeInclude readInclude IsInclude := by
  refine (Codes.field (k := fun _ => True) IncludeEdge.source codes_readFileId
    fun source =>
    Codes.field IncludeEdge.target codes_readTarget fun target =>
    Codes.field IncludeEdge.spelling codes_readString fun spelling =>
    Codes.field IncludeEdge.span codes_readSpan fun span =>
    Codes.pure fun edge => ?_).congr (fun edge => ?_) fun edge => ?_
  · obtain ⟨_, _, _, _⟩ := edge
    simp only [IncludeEdge.mk.injEq, true_and, and_assoc]
  · simp only [writeInclude, List.append_assoc, List.append_nil]
  · constructor
    · rintro ⟨hsource, htarget, hspelling, hspan⟩
      exact ⟨trivial, hsource, htarget, hspelling, hspan, trivial⟩
    · rintro ⟨-, hsource, htarget, hspelling, hspan, -⟩
      exact ⟨hsource, htarget, hspelling, hspan⟩

theorem codes_readPragma : Codes writePragma readPragma IsPragma := by
  refine (Codes.field (k := fun _ => True) DiagnosticPragma.name codes_readString
    fun name =>
    Codes.field DiagnosticPragma.severity (codes_readTag severityOfTag_eq_some)
      fun severity =>
    Codes.field DiagnosticPragma.source codes_readFileId fun source =>
    Codes.field DiagnosticPragma.span codes_readSpan fun span =>
    Codes.pure fun pragma => ?_).congr (fun pragma => ?_) fun pragma => ?_
  · obtain ⟨_, _, _, _⟩ := pragma
    simp only [DiagnosticPragma.mk.injEq, true_and, and_assoc]
  · simp only [writePragma, List.append_assoc, List.append_nil]
  · constructor
    · rintro ⟨hname, hsource, hspan⟩
      exact ⟨trivial, hname, trivial, hsource, hspan, trivial⟩
    · rintro ⟨-, hname, -, hsource, hspan, -⟩
      exact ⟨hname, hsource, hspan⟩

theorem codes_readWarning : Codes writeWarning readWarning IsWarning := by
  refine (Codes.field (k := fun _ => True) WarningDirective.message codes_readText
    fun message =>
    Codes.field WarningDirective.source codes_readFileId fun source =>
    Codes.field WarningDirective.span codes_readSpan fun span =>
    Codes.pure fun warning => ?_).congr (fun warning => ?_) fun warning => ?_
  · obtain ⟨_, _, _⟩ := warning
    simp only [WarningDirective.mk.injEq, true_and, and_assoc]
  · simp only [writeWarning, List.append_assoc, List.append_nil]
  · constructor
    · rintro ⟨hmessage, hsource, hspan⟩
      exact ⟨trivial, hmessage, hsource, hspan, trivial⟩
    · rintro ⟨-, hmessage, hsource, hspan, -⟩
      exact ⟨hmessage, hsource, hspan⟩

theorem codes_readEntry : Codes writeEntry readEntry IsEntry := by
  refine (Codes.field (k := fun _ => True) Prod.fst codes_readString fun name =>
    Codes.field Prod.snd codes_readString fun value =>
    Codes.pure fun entry => ?_).congr (fun entry => ?_) fun entry => ?_
  · obtain ⟨_, _⟩ := entry
    simp
  · rw [writeEntry, List.append_nil]
  · rw [IsEntry]
    tauto

/-!
# Where reading the cache panics

The bytes on which a reader of the cache panics: at the place of a count or of
an identity, behind values that are readable, there is a number that is too
large.
-/

/-- A number above a limit. -/
def TooLarge (limit : Nat) : Bytes → Prop := Behind writeLen IsWord fun value _ => limit < value

/-- An identity that is no `u32`. -/
def BadFileId : Bytes → Prop := Behind writeLen IsWord fun value _ => 2 ^ 32 ≤ value

/-- A table with too many entries, or with a bad one. -/
def BadTable {α : Type} (capacity : Nat) (write : α → Bytes) (valid : Nat → α → Prop)
    (bad : Nat → Bytes → Prop) (bytes : Bytes) : Prop :=
  TooLarge capacity bytes ∨ Behind writeLen (fun count => IsWord count ∧ ¬ capacity < count)
    (fun count => BehindMany write valid bad 0 count) bytes

/-- A table that can be read, which is behind its length. -/
def writeTable {α : Type} (write : α → Bytes) (values : List α) : Bytes :=
  writeLen values.length ++ values.flatMap write

def IsTable {α : Type} (capacity : Nat) (valid : Nat → α → Prop) (values : List α) : Prop :=
  (IsWord values.length ∧ ¬ capacity < values.length) ∧
    ∀ i a, values[i]? = some a → valid i a

def BadFile (capacities : Capacities) (index : Nat) : Bytes → Prop :=
  Behind writePath IsHeldText fun _ => Behind writePath IsHeldText fun _ =>
    Behind (fun kind => [fileKindTag kind]) (fun _ => True) fun _ =>
      Behind writeBytes IsHeld fun _ =>
        Behind (writeOption writeBytes) (fun value => ∀ bytes, value = some bytes → IsHeld bytes)
          fun _ bytes => TooLarge capacities.mappings bytes ∨
            Behind (writeTable writeMapping)
              (IsTable capacities.mappings fun _ => IsMapping) (fun _ _ => 2 ^ 32 ≤ index) bytes

def BadTarget : Bytes → Prop :=
  Behind (fun tag : UInt8 => [tag]) (fun _ => True) fun tag bytes => tag = 0 ∧ BadFileId bytes

def BadInclude (bytes : Bytes) : Prop :=
  BadFileId bytes ∨ Behind writeLen IsFileId (fun _ => BadTarget) bytes

def BadPragma : Bytes → Prop :=
  Behind writeString IsHeldText fun _ =>
    Behind (fun severity => [severityTag severity]) (fun _ => True) fun _ => BadFileId

def BadWarning : Bytes → Prop :=
  Behind (fun text => writeString (String.ofList text))
    (fun text => IsHeldText (String.ofList text)) fun _ => BadFileId

/-- Where the sections of the cache are bad, one behind the other. -/
def BadSections (capacities : Capacities) (bytes : Bytes) : Prop :=
  BadTable capacities.files writeFile (IsFile capacities) (BadFile capacities) bytes ∨
    Behind (writeTable writeFile) (IsTable capacities.files (IsFile capacities)) (fun _ bytes =>
      BadTable capacities.includes writeInclude (fun _ => IsInclude) (fun _ => BadInclude) bytes ∨
        Behind (writeTable writeInclude) (IsTable capacities.includes fun _ => IsInclude)
          (fun _ bytes =>
            BadTable capacities.pragmas writePragma (fun _ => IsPragma) (fun _ => BadPragma) bytes ∨
              Behind (writeTable writePragma) (IsTable capacities.pragmas fun _ => IsPragma)
                (fun _ bytes =>
                  BadTable capacities.warnings writeWarning (fun _ => IsWarning)
                      (fun _ => BadWarning) bytes ∨
                    Behind (writeTable writeWarning)
                      (IsTable capacities.warnings fun _ => IsWarning)
                      (fun _ => TooLarge capacities.macros) bytes) bytes) bytes) bytes

/-- The bytes on which the decoder of projects panics. -/
def PanicsOn (capacities : Capacities) : Bytes → Prop :=
  Behind (fun _ : Unit => projectCacheMagic) (fun _ => True) fun _ =>
    Behind writePath IsHeldText fun _ => BadSections capacities

/-- The bytes on which the decoder of manifests panics. -/
def ManifestPanicsOn (capacities : Capacities) : Bytes → Prop :=
  Behind (fun _ : Unit => projectCacheManifestMagic) (fun _ => True) fun _ =>
    Behind writePath IsHeldText fun _ =>
      Behind writeLen IsWord fun _ => TooLarge capacities.manifestEntries

/-! ## The readers -/

abbrev NeverPanics {α : Type} (read : CacheReader α) : Prop := NeverFails read .panicked

theorem neverPanics_readLen : NeverPanics readLen := .readNumber 8 (by decide)

theorem neverPanics_readByte : NeverPanics (readByte .refused) := .readByte (by decide)

theorem neverPanics_readBytes : NeverPanics readBytes :=
  neverPanics_readLen.bind fun length => .readExact length (by decide)

theorem neverPanics_readString : NeverPanics readString :=
  neverPanics_readBytes.respell fun _ => by decide

theorem neverPanics_readText : NeverPanics readText :=
  neverPanics_readString.respell fun _ => by decide

theorem neverPanics_readTag {α : Type} (ofTag : UInt8 → Option α) : NeverPanics (readTag ofTag) :=
  neverPanics_readByte.respell fun _ => by decide

theorem neverPanics_readSpan : NeverPanics readSpan :=
  neverPanics_readLen.bind fun _ => neverPanics_readLen.bind fun _ =>
    .ite (.throw (by decide)) (.pure _ _)

theorem neverPanics_readMagic (magic : Bytes) : NeverPanics (readMagic magic) :=
  (NeverFails.readExact _ (by decide)).bind fun _ => .ite (.throw (by decide)) (.pure _ _)

theorem neverPanics_readMapping : NeverPanics readMapping :=
  neverPanics_readSpan.bind fun _ => neverPanics_readSpan.bind fun _ => .pure _ _

theorem neverPanics_readEntry : NeverPanics readEntry :=
  neverPanics_readString.bind fun _ => neverPanics_readString.bind fun _ => .pure _ _

theorem failsOn_readCount (capacity : Nat) :
    FailsOn (readCount capacity) .panicked (TooLarge capacity) :=
  .refuse codes_readLen neverPanics_readLen _

theorem failsOn_readFileId : FailsOn readFileId .panicked BadFileId :=
  .refuse codes_readLen neverPanics_readLen _

theorem failsOn_readTable {α : Type} {write : α → Bytes} {read : Nat → CacheReader α}
    {valid : Nat → α → Prop} {bad : Nat → Bytes → Prop} (capacity : Nat)
    (hcodes : ∀ index, Codes write (read index) (valid index))
    (h : ∀ index, FailsOn (read index) .panicked (bad index)) :
    FailsOn (readTable (readCount capacity) read) .panicked (BadTable capacity write valid bad) :=
  .bind (codes_readCount capacity) (failsOn_readCount capacity) fun count _ =>
    .readMany hcodes h 0 count

theorem codes_readIndexed {α : Type} {write : α → Bytes} {read : Nat → CacheReader α}
    {valid : Nat → α → Prop} (capacity : Nat)
    (h : ∀ index, Codes write (read index) (valid index)) :
    Codes (writeTable write) (readTable (readCount capacity) read) (IsTable capacity valid) :=
  Codes.list (codes_readCount capacity) h

theorem failsOn_readFile (capacities : Capacities) (index : Nat) :
    FailsOn (readFile capacities index) .panicked (BadFile capacities index) := by
  refine .behind codes_readString neverPanics_readString fun path _ =>
    .behind codes_readString neverPanics_readString fun relativePath _ =>
    .behind (codes_readTag fileKindOfTag_eq_some) (neverPanics_readTag _) fun kind _ =>
    .behind codes_readBytes neverPanics_readBytes fun contents _ =>
    .behind (codes_readOption codes_readBytes _ _)
      (.readOption neverPanics_readByte neverPanics_readBytes fun _ => by decide)
      fun compilerContents _ => ?_
  refine .bind (codes_readIndexed _ fun _ => codes_readMapping) ?_ fun mappings _ bytes => ?_
  · exact (failsOn_readCount _).before fun count => .readMany (fun _ => neverPanics_readMapping) 0 count
  · by_cases hlarge : 2 ^ 32 ≤ index
    · rw [if_pos hlarge]
      exact ⟨fun _ => hlarge, fun _ => rfl⟩
    · rw [if_neg hlarge]
      exact ⟨fun hfail => absurd hfail (NeverFails.pure _ _ bytes), fun h => absurd h hlarge⟩

theorem failsOn_readTarget : FailsOn readTarget .panicked BadTarget := by
  refine .behind (codes_readByte _) neverPanics_readByte fun tag _ => ?_
  by_cases hzero : tag = 0
  · rw [if_pos hzero]
    exact (failsOn_readFileId.before fun id => .pure _ _).congr fun bytes => and_iff_right hzero
  · rw [if_neg hzero]
    have hnever : NeverPanics (if tag = 1 then do
        let spelling ← readString
        pure (IncludeTarget.system spelling)
      else throw .refused) :=
      .ite (neverPanics_readString.bind fun _ => .pure _ _) (.throw (by decide))
    exact hnever.failsOn.congr fun bytes => ⟨fun h => absurd h.1 hzero, False.elim⟩

theorem failsOn_readInclude : FailsOn readInclude .panicked BadInclude :=
  .bind codes_readFileId failsOn_readFileId fun _ _ => failsOn_readTarget.before fun _ =>
    neverPanics_readString.bind fun _ => neverPanics_readSpan.bind fun _ => .pure _ _

theorem failsOn_readPragma : FailsOn readPragma .panicked BadPragma :=
  .behind codes_readString neverPanics_readString fun _ _ =>
    .behind (codes_readTag severityOfTag_eq_some) (neverPanics_readTag _) fun _ _ =>
      failsOn_readFileId.before fun _ => neverPanics_readSpan.bind fun _ => .pure _ _

theorem failsOn_readWarning : FailsOn readWarning .panicked BadWarning :=
  .behind codes_readText neverPanics_readText fun _ _ =>
    failsOn_readFileId.before fun _ => neverPanics_readSpan.bind fun _ => .pure _ _

theorem failsOn_readTables (capacities : Capacities) :
    FailsOn (readTables capacities) .panicked (PanicsOn capacities) := by
  refine .behind (codes_readMagic _) (neverPanics_readMagic _) fun _ _ =>
    .behind codes_readString neverPanics_readString fun rootDirectory _ =>
    .bind (codes_readIndexed _ (codes_readFile capacities))
      (failsOn_readTable _ (codes_readFile capacities) (failsOn_readFile capacities)) fun files _ =>
    .bind (codes_readIndexed _ fun _ => codes_readInclude)
      (failsOn_readTable _ (fun _ => codes_readInclude) fun _ => failsOn_readInclude)
      fun includes _ =>
    .bind (codes_readIndexed _ fun _ => codes_readPragma)
      (failsOn_readTable _ (fun _ => codes_readPragma) fun _ => failsOn_readPragma) fun pragmas _ =>
    .bind (codes_readIndexed _ fun _ => codes_readWarning)
      (failsOn_readTable _ (fun _ => codes_readWarning) fun _ => failsOn_readWarning)
      fun warnings _ => ?_
  have hmacros : FailsOn (readTable (readCount capacities.macros) fun _ => readEntry) .panicked
      (TooLarge capacities.macros) :=
    (failsOn_readCount _).before fun count => .readMany (fun _ => neverPanics_readEntry) 0 count
  exact hmacros.before fun _ => NeverFails.bind
    (neverPanics_readLen.bind fun count => .readMany (fun _ => neverPanics_readEntry) 0 count)
    fun _ => .pure _ _

theorem failsOn_readManifest (capacities : Capacities) :
    FailsOn (readManifest capacities) .panicked (ManifestPanicsOn capacities) := by
  have hentry : NeverPanics readManifestEntry :=
    neverPanics_readString.bind fun _ => NeverFails.bind
      (neverPanics_readLen.bind fun _ => neverPanics_readLen.bind fun _ =>
        (NeverFails.readNumber 4 (by decide)).bind fun _ => .pure _ _) fun _ => .pure _ _
  refine .behind (codes_readMagic _) (neverPanics_readMagic _) fun _ _ =>
    .behind codes_readString neverPanics_readString fun rootFile _ =>
    .behind codes_readLen neverPanics_readLen fun cacheLength _ => FailsOn.before
      ((failsOn_readCount _).before fun count => .readMany (fun _ => hentry) 0 count)
      fun entries => .pure _ _

end Dream64.Preprocess
