import Dream64.Library.CodecErrors
import Dream64.Preprocess.Loader

/-!
# The project cache

A loaded project is written to a cache and read from it again, with a manifest
of its files. The paths are those in UTF-8, so a path is a string here. Making
room for a table panics above its capacity, which depends on the size of its
entries and the memory, and so does an identity that is no `u32`.
-/

namespace Dream64.Preprocess

open Codec

structure CachedFile where
  id : FileId
  path : String
  relativePath : String
  kind : FileKind
  contents : Bytes
  compilerContents : Option Bytes
  compilerSourceMap : List SourceMapping
deriving DecidableEq, Repr

/-- The sections of the cache. -/
structure CacheTables where
  rootDirectory : String
  files : List CachedFile
  includes : List IncludeEdge
  diagnosticPragmas : List DiagnosticPragma
  warningDirectives : List WarningDirective
  objectMacros : List (String × String)
  defines : List (String × String)
deriving DecidableEq, Repr

def SortedEntries (entries : List (String × String)) : Prop :=
  entries.Pairwise fun a b => a.1 < b.1

/-- A project as it is cached, with the entries of its maps sorted by their names. -/
structure CachedProject extends CacheTables where
  sortedMacros : SortedEntries objectMacros
  sortedDefines : SortedEntries defines

/-- `ProjectDefines::insert` -/
def insertEntry (entries : List (String × String)) (entry : String × String) :
    List (String × String) :=
  let kept := entries.filter fun existing => existing.1 ≠ entry.1
  kept.takeWhile (fun existing => existing.1 < entry.1) ++
    entry :: kept.dropWhile fun existing => existing.1 < entry.1

def collectEntries (entries : List (String × String)) : List (String × String) :=
  entries.foldl insertEntry []

theorem sortedEntries_insertEntry {entries : List (String × String)} (h : SortedEntries entries)
    (entry : String × String) : SortedEntries (insertEntry entries entry) := by
  unfold insertEntry
  dsimp only
  generalize hkept : entries.filter (fun existing => existing.1 ≠ entry.1) = kept
  have hsorted : SortedEntries kept := hkept ▸ h.filter _
  have hne : ∀ existing ∈ kept, existing.1 ≠ entry.1 := by
    intro existing hmem
    rw [← hkept] at hmem
    exact of_decide_eq_true (List.mem_filter.1 hmem).2
  clear hkept
  induction kept with
  | nil => exact List.pairwise_singleton _ _
  | cons first kept ih =>
    obtain ⟨hfirst, hkept⟩ := List.pairwise_cons.1 hsorted
    have hrest := ih hkept fun existing hmem => hne existing (List.mem_cons_of_mem _ hmem)
    by_cases hlt : first.1 < entry.1
    · have hfirst' : decide (first.1 < entry.1) = true := decide_eq_true hlt
      simp only [List.takeWhile_cons, List.dropWhile_cons, hfirst', if_true, List.cons_append]
      refine List.pairwise_cons.2 ⟨fun other hmem => ?_, hrest⟩
      rcases List.mem_append.1 hmem with hmem | hmem
      · exact hfirst other (List.takeWhile_subset _ hmem)
      · rcases List.mem_cons.1 hmem with rfl | hmem
        · exact hlt
        · exact hfirst other ((List.dropWhile_sublist _).subset hmem)
    · have hgt : entry.1 < first.1 :=
        lt_of_le_of_ne (not_lt.1 hlt) (hne first List.mem_cons_self).symm
      have hfirst' : decide (first.1 < entry.1) = false := decide_eq_false hlt
      simp only [List.takeWhile_cons, List.dropWhile_cons, hfirst', Bool.false_eq_true, if_false,
        List.nil_append]
      refine List.pairwise_cons.2 ⟨fun other hmem => ?_, hsorted⟩
      rcases List.mem_cons.1 hmem with rfl | hmem
      · exact hgt
      · exact hgt.trans (hfirst other hmem)

theorem sortedEntries_collectEntries (entries : List (String × String)) :
    SortedEntries (collectEntries entries) := by
  have hfold (entries acc : List (String × String)) (h : SortedEntries acc) :
      SortedEntries (entries.foldl insertEntry acc) := by
    induction entries generalizing acc with
    | nil => exact h
    | cons entry entries ih => exact ih _ (sortedEntries_insertEntry h entry)
  exact hfold entries [] List.Pairwise.nil

/-! ## Writing -/

def writeLen (value : Nat) : Bytes := toLittleEndian 8 value

def writeBytes (bytes : Bytes) : Bytes := writeLen bytes.length ++ bytes

def writeString (value : String) : Bytes := writeBytes (utf8 value)

def writePath (path : String) : Bytes := writeString path

def writeSpan (span : SourceSpan) : Bytes := writeLen span.start ++ writeLen span.stop

def fileKindTag : FileKind → UInt8
  | .environment => 0
  | .source => 1
  | .map => 2
  | .interface => 3
  | .resource => 4

def severityTag : PragmaSeverity → UInt8
  | .disabled => 0
  | .notice => 1
  | .warning => 2
  | .error => 3

def writeMapping (mapping : SourceMapping) : Bytes :=
  writeSpan mapping.expanded ++ writeSpan mapping.original

def writeFile (file : CachedFile) : Bytes :=
  writePath file.path ++ writePath file.relativePath ++ [fileKindTag file.kind] ++
    writeBytes file.contents ++ writeOption writeBytes file.compilerContents ++
    (writeLen file.compilerSourceMap.length ++ file.compilerSourceMap.flatMap writeMapping)

def writeTarget : IncludeTarget → Bytes
  | .file id => 0 :: writeLen id
  | .system spelling => 1 :: writeString spelling

def writeInclude (edge : IncludeEdge) : Bytes :=
  writeLen edge.source ++ writeTarget edge.target ++ writeString edge.spelling ++
    writeSpan edge.span

def writePragma (pragma : DiagnosticPragma) : Bytes :=
  writeString pragma.name ++ [severityTag pragma.severity] ++ writeLen pragma.source ++
    writeSpan pragma.span

def writeWarning (warning : WarningDirective) : Bytes :=
  writeString (String.ofList warning.message) ++ writeLen warning.source ++ writeSpan warning.span

def writeEntry (entry : String × String) : Bytes := writeString entry.1 ++ writeString entry.2

def projectCacheMagic : Bytes := utf8 "DREAM64-PROJECT-CACHE" ++ [0, 3]

def writeTables (tables : CacheTables) : Bytes :=
  projectCacheMagic ++ writePath tables.rootDirectory ++
    (writeLen tables.files.length ++ tables.files.flatMap writeFile) ++
    (writeLen tables.includes.length ++ tables.includes.flatMap writeInclude) ++
    (writeLen tables.diagnosticPragmas.length ++ tables.diagnosticPragmas.flatMap writePragma) ++
    (writeLen tables.warningDirectives.length ++ tables.warningDirectives.flatMap writeWarning) ++
    (writeLen tables.objectMacros.length ++ tables.objectMacros.flatMap writeEntry) ++
    (writeLen tables.defines.length ++ tables.defines.flatMap writeEntry)

/-- `encode_cached_project` -/
def encodeCachedProject (project : CachedProject) : Bytes := writeTables project.toCacheTables

/-! ## Reading -/

/-- Why nothing is read: a `None` of the decoder, or a panic. -/
inductive ReadFailure where
  | refused
  | panicked
deriving DecidableEq, Repr

/-- The numbers of entries for which there is room in the tables. -/
structure Capacities where
  files : Nat
  mappings : Nat
  includes : Nat
  pragmas : Nat
  warnings : Nat
  macros : Nat
  manifestEntries : Nat

abbrev CacheReader (α : Type) := Reader ReadFailure α

def readLen : CacheReader Nat := readNumber 8 .refused

/-- A number of entries, for which room is made. -/
def readCount (capacity : Nat) : CacheReader Nat :=
  readLen |> refuse (fun count => capacity < count) fun _ => .panicked

/-- `FileId::from_index` on a number that is read. -/
def readFileId : CacheReader FileId := readLen |> refuse (fun id => 2 ^ 32 ≤ id) fun _ => .panicked

def readBytes : CacheReader Bytes := do
  let length ← readLen
  readExact length .refused

def readString : CacheReader String := readBytes |> respell ofUtf8 fun _ => .refused

def readPath : CacheReader String := readString

def readSpan : CacheReader SourceSpan := do
  let start ← readLen
  let stop ← readLen
  if stop < start then throw .refused else pure ⟨start, stop⟩

def fileKindOfTag (tag : UInt8) : Option FileKind :=
  match tag.toNat with
  | 0 => some .environment
  | 1 => some .source
  | 2 => some .map
  | 3 => some .interface
  | 4 => some .resource
  | _ => none

def severityOfTag (tag : UInt8) : Option PragmaSeverity :=
  match tag.toNat with
  | 0 => some .disabled
  | 1 => some .notice
  | 2 => some .warning
  | 3 => some .error
  | _ => none

def readTag {α : Type} (ofTag : UInt8 → Option α) : CacheReader α :=
  readByte .refused |> respell ofTag fun _ => .refused

def readMapping : CacheReader SourceMapping := do
  let expanded ← readSpan
  let original ← readSpan
  pure ⟨expanded, original⟩

def readTable {α : Type} (readLength : CacheReader Nat) (read : Nat → CacheReader α) :
    CacheReader (List α) := do
  let count ← readLength
  readMany read 0 count

def readFile (capacities : Capacities) (index : Nat) : CacheReader CachedFile := do
  let path ← readPath
  let relativePath ← readPath
  let kind ← readTag fileKindOfTag
  let contents ← readBytes
  let compilerContents ← readOption (readByte .refused) readBytes fun _ => .refused
  let compilerSourceMap ← readTable (readCount capacities.mappings) fun _ => readMapping
  if 2 ^ 32 ≤ index then throw .panicked
  else pure ⟨index, path, relativePath, kind, contents, compilerContents, compilerSourceMap⟩

def readTarget : CacheReader IncludeTarget := do
  let tag ← readByte .refused
  if tag = 0 then do
    let id ← readFileId
    pure (.file id)
  else if tag = 1 then do
    let spelling ← readString
    pure (.system spelling)
  else throw .refused

def readInclude : CacheReader IncludeEdge := do
  let source ← readFileId
  let target ← readTarget
  let spelling ← readString
  let span ← readSpan
  pure ⟨source, target, spelling, span⟩

def readPragma : CacheReader DiagnosticPragma := do
  let name ← readString
  let severity ← readTag severityOfTag
  let source ← readFileId
  let span ← readSpan
  pure ⟨name, severity, source, span⟩

/-- The characters of a string. -/
def readText : CacheReader Text := readString |> respell (fun value => some value.toList) fun _ =>
  .refused

def readWarning : CacheReader WarningDirective := do
  let message ← readText
  let source ← readFileId
  let span ← readSpan
  pure ⟨message, source, span⟩

def readEntry : CacheReader (String × String) := do
  let name ← readString
  let value ← readString
  pure (name, value)

def readMagic (magic : Bytes) : CacheReader Unit := do
  let read ← readExact magic.length .refused
  if read ≠ magic then throw .refused else pure ()

def readTables (capacities : Capacities) : CacheReader CacheTables := do
  readMagic projectCacheMagic
  let rootDirectory ← readPath
  let files ← readTable (readCount capacities.files) (readFile capacities)
  let includes ← readTable (readCount capacities.includes) fun _ => readInclude
  let diagnosticPragmas ← readTable (readCount capacities.pragmas) fun _ => readPragma
  let warningDirectives ← readTable (readCount capacities.warnings) fun _ => readWarning
  let objectMacros ← readTable (readCount capacities.macros) fun _ => readEntry
  let defines ← readTable readLen fun _ => readEntry
  pure ⟨rootDirectory, files, includes, diagnosticPragmas, warningDirectives, objectMacros, defines⟩

/-- The files that the includes name are there. -/
def CacheTables.includesInRange (tables : CacheTables) : Bool :=
  tables.includes.all fun edge =>
    edge.source < tables.files.length && match edge.target with
      | .file target => target < tables.files.length
      | .system _ => true

/-- The maps of the project take the entries of the tables one after the other. -/
def CacheTables.project (tables : CacheTables) : CachedProject where
  toCacheTables := { tables with
    objectMacros := collectEntries tables.objectMacros
    defines := collectEntries tables.defines }
  sortedMacros := sortedEntries_collectEntries _
  sortedDefines := sortedEntries_collectEntries _

/-- `decode_cached_project`; the identities of the files are their places. -/
def decodeCachedProject (capacities : Capacities) (bytes : Bytes) :
    Except ReadFailure CachedProject := do
  let (tables, rest) ← readTables capacities bytes
  if rest ≠ [] ∨ tables.includesInRange = false then throw .refused else pure tables.project

/-! ## The manifest -/

structure FileFingerprint where
  length : Nat
  modifiedSeconds : Nat
  modifiedNanos : Nat
deriving DecidableEq, Repr

structure CacheManifestEntry where
  path : String
  fingerprint : FileFingerprint
deriving DecidableEq, Repr

structure CacheManifest where
  rootFile : String
  cacheLength : Nat
  entries : List CacheManifestEntry
deriving DecidableEq, Repr

def projectCacheManifestMagic : Bytes := utf8 "DREAM64-PROJECT-MANIFEST" ++ [0, 1]

def writeFingerprint (fingerprint : FileFingerprint) : Bytes :=
  writeLen fingerprint.length ++ writeLen fingerprint.modifiedSeconds ++
    toLittleEndian 4 fingerprint.modifiedNanos

def writeManifestEntry (entry : CacheManifestEntry) : Bytes :=
  writePath entry.path ++ writeFingerprint entry.fingerprint

/-- `encode_cache_manifest` -/
def encodeCacheManifest (manifest : CacheManifest) : Bytes :=
  projectCacheManifestMagic ++ writePath manifest.rootFile ++ writeLen manifest.cacheLength ++
    (writeLen manifest.entries.length ++ manifest.entries.flatMap writeManifestEntry)

def readFingerprint : CacheReader FileFingerprint := do
  let length ← readLen
  let modifiedSeconds ← readLen
  let modifiedNanos ← readNumber 4 .refused
  pure ⟨length, modifiedSeconds, modifiedNanos⟩

def readManifestEntry : CacheReader CacheManifestEntry := do
  let path ← readPath
  let fingerprint ← readFingerprint
  pure ⟨path, fingerprint⟩

def readManifest (capacities : Capacities) : CacheReader CacheManifest := do
  readMagic projectCacheManifestMagic
  let rootFile ← readPath
  let cacheLength ← readLen
  let entries ← readTable (readCount capacities.manifestEntries) fun _ => readManifestEntry
  pure ⟨rootFile, cacheLength, entries⟩

/-- `decode_cache_manifest` -/
def decodeCacheManifest (capacities : Capacities) (bytes : Bytes) :
    Except ReadFailure CacheManifest := do
  let (manifest, rest) ← readManifest capacities bytes
  if rest ≠ [] then throw .refused else pure manifest

end Dream64.Preprocess
