import Dream64.Preprocess.CacheCodec
import Dream64.Preprocess.ProjectExpansion

/-!
# Cached projects

The decoder of the cache accepts the sections that a program can hold, with
files at their places and includes of files that there are
(`decodeCachedProject_eq_ok`). So the projects of the loader are given back. It
does not look at the other identities and spans, and panics on counts and
identities that are too large.
-/

namespace Dream64.Preprocess

open Codec

/-! ## Accepted bytes -/

structure IsTables (capacities : Capacities) (tables : CacheTables) : Prop where
  rootDirectory : IsHeldText tables.rootDirectory
  files : IsTable capacities.files (IsFile capacities) tables.files
  includes : IsTable capacities.includes (fun _ => IsInclude) tables.includes
  diagnosticPragmas : IsTable capacities.pragmas (fun _ => IsPragma) tables.diagnosticPragmas
  warningDirectives : IsTable capacities.warnings (fun _ => IsWarning) tables.warningDirectives
  objectMacros : IsTable capacities.macros (fun _ => IsEntry) tables.objectMacros
  defines : IsWord tables.defines.length ∧ ∀ entry ∈ tables.defines, IsEntry entry

theorem codes_readTables (capacities : Capacities) :
    Codes writeTables (readTables capacities) (IsTables capacities) := by
  refine (Codes.field (k := fun _ => True) (fun _ => ()) (codes_readMagic _) fun _ =>
    Codes.field CacheTables.rootDirectory codes_readString fun rootDirectory =>
    Codes.field CacheTables.files
      (codes_readIndexed _ (codes_readFile capacities)) fun files =>
    Codes.field CacheTables.includes
      (codes_readIndexed _ fun _ => codes_readInclude) fun includes =>
    Codes.field CacheTables.diagnosticPragmas
      (codes_readIndexed _ fun _ => codes_readPragma) fun pragmas =>
    Codes.field CacheTables.warningDirectives
      (codes_readIndexed _ fun _ => codes_readWarning) fun warnings =>
    Codes.field CacheTables.objectMacros
      (codes_readIndexed _ fun _ => codes_readEntry) fun macros =>
    Codes.field CacheTables.defines (codes_readTable codes_readLen codes_readEntry)
      fun defines => Codes.pure fun tables => ?_).congr (fun tables => ?_) fun tables => ?_
  · obtain ⟨_, _, _, _, _, _, _⟩ := tables
    simp only [CacheTables.mk.injEq, true_and, and_assoc]
  · simp only [writeTables, writeTable, writePath, List.append_assoc, List.append_nil]
  · constructor
    · rintro ⟨hroot, hfiles, hincludes, hpragmas, hwarnings, hmacros, hdefines⟩
      exact ⟨trivial, trivial, hroot, hfiles, hincludes, hpragmas, hwarnings, hmacros, hdefines,
        trivial⟩
    · rintro ⟨-, -, hroot, hfiles, hincludes, hpragmas, hwarnings, hmacros, hdefines, -⟩
      exact ⟨hroot, hfiles, hincludes, hpragmas, hwarnings, hmacros, hdefines⟩

variable {capacities : Capacities} {bytes : Bytes}

theorem decodeCachedProject_eq_ok {project : CachedProject} :
    decodeCachedProject capacities bytes = .ok project ↔ ∃ tables, bytes = writeTables tables ∧
      IsTables capacities tables ∧ tables.includesInRange = true ∧ tables.project = project := by
  unfold decodeCachedProject
  constructor
  · intro h
    obtain ⟨⟨tables, rest⟩, hread, h⟩ := bind_eq_ok h
    obtain ⟨hvalid, hbytes⟩ := (codes_readTables capacities).write_read _ _ _ hread
    dsimp only at h
    split at h
    · cases h
    · rename_i hcheck
      obtain ⟨hnil, hrange⟩ := not_or.1 hcheck
      cases h
      rw [not_not.1 hnil, List.append_nil] at hbytes
      exact ⟨tables, hbytes, hvalid, Bool.of_not_eq_false hrange, rfl⟩
  · rintro ⟨tables, rfl, hvalid, hrange, rfl⟩
    have hread := (codes_readTables capacities).read_write tables [] hvalid
    rw [List.append_nil] at hread
    rw [hread]
    simp only [bind, Except.bind, hrange, ne_eq, not_true_eq_false, Bool.true_eq_false, or_self,
      if_false]
    rfl

theorem decodeCachedProject_panics :
    decodeCachedProject capacities bytes = .error .panicked ↔ PanicsOn capacities bytes := by
  rw [← failsOn_readTables capacities bytes]
  unfold decodeCachedProject
  cases readTables capacities bytes with
  | error failure =>
    constructor
    · intro h
      cases h
      rfl
    · intro h
      cases h
      rfl
  | ok r =>
    refine ⟨fun h => ?_, fun h => (by cases h)⟩
    simp only [bind, Except.bind] at h
    split at h
    · cases h
    · cases h

/-! ## Canonical entries -/

theorem insertEntry_of_last {entries : List (String × String)} {entry : String × String}
    (h : ∀ existing ∈ entries, existing.1 < entry.1) :
    insertEntry entries entry = entries ++ [entry] := by
  have hkept : (entries.filter fun existing => existing.1 ≠ entry.1) = entries :=
    List.filter_eq_self.2 fun existing hmem => decide_eq_true (ne_of_lt (h existing hmem))
  have hall : ∀ existing ∈ entries, decide (existing.1 < entry.1) = true :=
    fun existing hmem => decide_eq_true (h existing hmem)
  unfold insertEntry
  dsimp only
  rw [hkept, List.takeWhile_eq_self_iff.2 hall, List.dropWhile_eq_nil_iff.2 hall]

theorem collectEntries_of_sorted {entries : List (String × String)} (h : SortedEntries entries) :
    collectEntries entries = entries := by
  have hfold (rest acc : List (String × String)) (hsorted : SortedEntries (acc ++ rest)) :
      rest.foldl insertEntry acc = acc ++ rest := by
    induction rest generalizing acc with
    | nil => rw [List.append_nil]; rfl
    | cons entry rest ih =>
      have hlast : ∀ existing ∈ acc, existing.1 < entry.1 := fun existing hmem =>
        (List.pairwise_append.1 hsorted).2.2 existing hmem entry List.mem_cons_self
      rw [List.append_cons] at hsorted
      rw [List.foldl_cons, insertEntry_of_last hlast]
      exact (ih _ hsorted).trans (List.append_cons ..).symm
  exact hfold entries [] h

theorem project_toCacheTables (project : CachedProject) : project.toCacheTables.project = project := by
  obtain ⟨tables, hmacros, hdefines⟩ := project
  simp only [CacheTables.project, collectEntries_of_sorted hmacros,
    collectEntries_of_sorted hdefines]

/-! ## Spans -/

/-- What the compiler reads of a file. -/
def CachedFile.compilerText (file : CachedFile) : Bytes :=
  file.compilerContents.getD file.contents

/-- `map_compiler_offset` -/
def CachedFile.mapCompilerOffset (file : CachedFile) (offset : Nat) (atEnd : Bool) : Nat :=
  let probe := if atEnd && offset != 0 then offset - 1 else offset
  let found := file.compilerSourceMap.find? fun mapping =>
    mapping.expanded.start ≤ probe && (probe < mapping.expanded.stop ||
      (mapping.expanded.start == mapping.expanded.stop && probe == mapping.expanded.start))
  match found.or file.compilerSourceMap.getLast? with
  | none => min offset file.contents.length
  | some mapping =>
    let expanded := mapping.expanded.stop - mapping.expanded.start
    min file.contents.length <|
      if expanded = mapping.original.stop - mapping.original.start then
        mapping.original.start + min (offset - mapping.expanded.start) expanded
      else if atEnd then mapping.original.stop
      else mapping.original.start

/-- `original_span` -/
def CachedFile.originalSpan (file : CachedFile) (compilerSpan : SourceSpan) : SourceSpan :=
  if file.compilerSourceMap.isEmpty then compilerSpan
  else
    let start := file.mapCompilerOffset compilerSpan.start false
    let stop := file.mapCompilerOffset compilerSpan.stop true
    ⟨min start stop, max stop start⟩

/-- The project as the traversal of its includes sees it. -/
def CachedProject.toProject (project : CachedProject) : Project String where
  rootDirectory := project.rootDirectory
  files := project.files.map fun file =>
    { id := file.id
      path := file.path
      relativePath := file.relativePath
      kind := file.kind
      contents := ⟨file.contents.toArray⟩
      compilerContents := (file.compilerContents.bind ofUtf8).map String.toList }
  includes := project.includes
  diagnosticPragmas := project.diagnosticPragmas
  warningDirectives := project.warningDirectives
  objectMacros name := (project.objectMacros.lookup name).map String.toList

/-- The range is in the file, and the file is there. -/
def CachedProject.HasSpan (project : CachedProject) (id : FileId) (span : SourceSpan) : Prop :=
  span.start ≤ span.stop ∧ ∃ file, project.files[id]? = some file ∧ span.stop ≤ file.contents.length

/-- All identities and ranges of the project are in range. -/
structure CachedProject.Sound (project : CachedProject) : Prop where
  targets : ∀ edge ∈ project.includes, ∀ target, edge.target = .file target →
    target < project.files.length
  includes : ∀ edge ∈ project.includes, project.HasSpan edge.source edge.span
  pragmas : ∀ pragma ∈ project.diagnosticPragmas, project.HasSpan pragma.source pragma.span
  warnings : ∀ warning ∈ project.warningDirectives, project.HasSpan warning.source warning.span
  mappings : ∀ file ∈ project.files, ∀ mapping ∈ file.compilerSourceMap,
    mapping.original.stop ≤ file.contents.length ∧
      mapping.expanded.stop ≤ file.compilerText.length
  segments : ∀ turns segments, project.toProject.expansionSegments turns = some segments →
    ∀ segment ∈ segments, project.HasSpan segment.fileId segment.span
  original : ∀ file ∈ project.files, ∀ span : SourceSpan, span.start ≤ span.stop →
    span.stop ≤ file.compilerText.length → (file.originalSpan span).start ≤
      (file.originalSpan span).stop ∧ (file.originalSpan span).stop ≤ file.contents.length

theorem mapCompilerOffset_le (file : CachedFile) (offset : Nat) (atEnd : Bool) :
    file.mapCompilerOffset offset atEnd ≤ file.contents.length := by
  unfold CachedFile.mapCompilerOffset
  dsimp only
  split
  · exact Nat.min_le_right ..
  · exact Nat.min_le_left ..

/-- A range is mapped into the file if the file is read as it is or has mappings. -/
theorem originalSpan_inside {file : CachedFile} {span : SourceSpan} (hspan : span.start ≤ span.stop)
    (hstop : span.stop ≤ file.compilerText.length)
    (hmapped : file.compilerSourceMap = [] → file.compilerText.length ≤ file.contents.length) :
    (file.originalSpan span).start ≤ (file.originalSpan span).stop ∧
      (file.originalSpan span).stop ≤ file.contents.length := by
  unfold CachedFile.originalSpan
  split
  · rename_i hempty
    exact ⟨hspan, hstop.trans (hmapped (List.isEmpty_iff.1 hempty))⟩
  · exact ⟨(min_le_left _ _).trans (le_max_right _ _),
      max_le (mapCompilerOffset_le ..) (mapCompilerOffset_le ..)⟩

/-! ## Ranges that the decoder does not look at -/

/-- The source maps of the files stay in them. A file without mappings is read as it is, or as no
more than that. -/
structure CachedProject.Mapped (project : CachedProject) : Prop where
  mappings : ∀ file ∈ project.files, ∀ mapping ∈ file.compilerSourceMap,
    mapping.original.stop ≤ file.contents.length ∧
      mapping.expanded.stop ≤ file.compilerText.length
  unmapped : ∀ file ∈ project.files, file.compilerSourceMap = [] →
    file.compilerText.length ≤ file.contents.length

/-- What the decoder does not check: an include lies in its file, pragmas and warnings are of files
that there are and lie in them, and the source maps stay in the files. -/
structure CachedProject.Ranged (project : CachedProject) : Prop extends project.Mapped where
  includes : ∀ edge ∈ project.includes, ∀ file, project.files[edge.source]? = some file →
    edge.span.start ≤ edge.span.stop ∧ edge.span.stop ≤ file.contents.length
  pragmas : ∀ pragma ∈ project.diagnosticPragmas, project.HasSpan pragma.source pragma.span
  warnings : ∀ warning ∈ project.warningDirectives, project.HasSpan warning.source warning.span

section

variable {project : CachedProject}

variable {id : FileId}

theorem CachedProject.HasSpan.fileId_lt {span : SourceSpan} (h : project.HasSpan id span) :
    id < project.files.length := by
  obtain ⟨-, file, hfile, -⟩ := h
  exact (List.getElem?_eq_some_iff.1 hfile).1

theorem fileLength_toProject {file : CachedFile} (h : project.files[id]? = some file) :
    project.toProject.fileLength id = file.contents.length := by
  rw [Project.fileLength, CachedProject.toProject, List.getElem?_map, h]
  rfl

/-- A piece of a file that ends in it. -/
theorem hasSpan_of_mem_piece {file : CachedFile} {start stop : Nat} {segment : ExpansionSegment}
    (hfile : project.files[id]? = some file) (hstop : stop ≤ file.contents.length)
    (h : segment ∈ piece id start stop) : project.HasSpan segment.fileId segment.span := by
  unfold piece at h
  split at h
  · rename_i hlt
    rw [List.mem_singleton] at h
    subst h
    exact ⟨hlt.le, file, hfile, hstop⟩
  · cases h

/-- The segments of the traversal are in range, and its files are there. -/
structure InRange (project : CachedProject) (state : ExpansionState) : Prop where
  segments : ∀ segment ∈ state.segments, project.HasSpan segment.fileId segment.span
  stack : ∀ frame ∈ state.stack, frame.fileId < project.files.length

section

variable (hincludes : ∀ edge ∈ project.includes, project.HasSpan edge.source edge.span)
  (htargets : ∀ edge ∈ project.includes, ∀ target, edge.target = .file target → target <
    project.files.length)

include hincludes htargets

theorem inRange_expansionStep {frame : ExpansionFrame} {stack : List ExpansionFrame}
    {segments : List ExpansionSegment} {expanded : List FileId}
    (h : InRange project ⟨segments, expanded, frame :: stack⟩) :
    InRange project (expansionStep project.toProject frame stack segments expanded) := by
  have hframe : frame.fileId < project.files.length := h.stack frame List.mem_cons_self
  have hstack : ∀ below ∈ stack, below.fileId < project.files.length := fun below hmem =>
    h.stack below (List.mem_cons_of_mem _ hmem)
  have hfile : project.files[frame.fileId]? = some project.files[frame.fileId] :=
    List.getElem?_eq_getElem hframe
  unfold expansionStep
  split
  · rename_i edge hedge
    have hmem : edge ∈ project.includes ∧ edge.source = frame.fileId := by
      have hby := List.mem_of_getElem? hedge
      rw [Project.includesBy, List.mem_mergeSort, List.mem_filter, decide_eq_true_eq] at hby
      exact hby
    have hsegments : ∀ segment ∈ segments ++ piece frame.fileId frame.cursor edge.span.start,
        project.HasSpan segment.fileId segment.span := by
      intro segment hsegment
      rcases List.mem_append.1 hsegment with hsegment | hsegment
      · exact h.segments segment hsegment
      · obtain ⟨hle, file, hsource, hstop⟩ := hincludes edge hmem.1
        rw [hmem.2] at hsource
        exact hasSpan_of_mem_piece hsource (hle.trans hstop) hsegment
    have hstack' : ∀ below ∈ (⟨frame.fileId, frame.nextInclude + 1,
        max frame.cursor edge.span.stop⟩ : ExpansionFrame) :: stack,
        below.fileId < project.files.length := by
      intro below hbelow
      rcases List.mem_cons.1 hbelow with rfl | hbelow
      · exact hframe
      · exact hstack below hbelow
    dsimp only
    split
    · rename_i target hopens
      refine ⟨hsegments, fun below hbelow => ?_⟩
      rcases List.mem_cons.1 hbelow with rfl | hbelow
      · exact htargets edge hmem.1 target (Expansion.target_of_opens hopens).1
      · exact hstack' below hbelow
    · exact ⟨hsegments, hstack'⟩
  · refine ⟨fun segment hsegment => ?_, hstack⟩
    rcases List.mem_append.1 hsegment with hsegment | hsegment
    · exact h.segments segment hsegment
    · rw [fileLength_toProject hfile] at hsegment
      exact hasSpan_of_mem_piece hfile le_rfl hsegment

theorem inRange_expansionLoop (turns : Nat) {state : ExpansionState} (h : InRange project state) :
    InRange project (expansionLoop project.toProject turns state) := by
  induction turns generalizing state with
  | zero => exact h
  | succ turns ih =>
    obtain ⟨segments, expanded, stack⟩ := state
    rw [expansionLoop]
    cases stack with
    | nil => exact h
    | cons frame stack => exact ih (inRange_expansionStep hincludes htargets h)

end

/-- The segments of a project whose files are at their places and whose includes are in range. -/
theorem hasSpan_of_expansionSegments
    (hids : ∀ file, project.files[0]? = some file → file.id = 0)
    (hincludes : ∀ edge ∈ project.includes, project.HasSpan edge.source edge.span)
    (htargets : ∀ edge ∈ project.includes, ∀ target, edge.target = .file target →
      target < project.files.length) {turns : Nat} {segments : List ExpansionSegment}
    (h : project.toProject.expansionSegments turns = some segments) :
    ∀ segment ∈ segments, project.HasSpan segment.fileId segment.span := by
  unfold Project.expansionSegments at h
  split at h
  · cases h
    exact fun segment hmem => (by cases hmem)
  · rename_i file files hfiles
    have hfiles' : project.files.map _ = file :: files := hfiles
    obtain ⟨first, rest, hcons, hfirst, -⟩ := List.map_eq_cons_iff.1 hfiles'
    have hzero : file.id = 0 := by
      rw [← hfirst]
      exact hids first (by rw [hcons]; rfl)
    have hinit : InRange project ⟨[], [file.id], [.new file.id]⟩ := by
      refine ⟨fun segment hmem => (by cases hmem), fun frame hmem => ?_⟩
      rw [List.mem_singleton.1 hmem, hcons]
      exact hzero ▸ Nat.zero_lt_succ _
    dsimp only at h
    split at h
    · cases h
      exact (inRange_expansionLoop hincludes htargets turns hinit).segments
    · cases h

/-- What the decoder checks and what it does not check make a project sound. -/
theorem sound_iff_ranged (hids : ∀ file, project.files[0]? = some file → file.id = 0)
    (hincludes : ∀ edge ∈ project.includes, edge.source < project.files.length ∧
      ∀ target, edge.target = .file target → target < project.files.length) :
    project.Sound ↔ project.Ranged := by
  constructor
  · intro h
    refine ⟨⟨h.mappings, fun file hfile hempty => ?_⟩, fun edge hedge file hfile => ?_, h.pragmas,
      h.warnings⟩
    · have hspan := (h.original file hfile ⟨0, file.compilerText.length⟩ (Nat.zero_le _) le_rfl).2
      rwa [CachedFile.originalSpan, hempty] at hspan
    · obtain ⟨hordered, other, hother, hle⟩ := h.includes edge hedge
      cases hfile.symm.trans hother
      exact ⟨hordered, hle⟩
  · intro h
    have hspans : ∀ edge ∈ project.includes, project.HasSpan edge.source edge.span := by
      intro edge hedge
      have hfile := List.getElem?_eq_getElem (hincludes edge hedge).1
      obtain ⟨hordered, hle⟩ := h.includes edge hedge _ hfile
      exact ⟨hordered, _, hfile, hle⟩
    have htargets := fun edge hedge => (hincludes edge hedge).2
    exact ⟨htargets, hspans, h.pragmas, h.warnings, h.mappings,
      fun turns segments => hasSpan_of_expansionSegments hids hspans htargets,
      fun file hfile span hspan hstop =>
        originalSpan_inside hspan hstop (h.unmapped file hfile)⟩

end

/-!
# The cache of loaded projects

A project of the loader has its files at their places and its includes in
range, which is what the decoder of the cache checks, so it is given back. Other
bytes are decoded without a panic and to a sound project if and only if no count
and no identity in them is too large, and the positions they hold are in their
files (`projectCache_iff`).
-/

/-- The numbers of the project are those of a program that holds it in memory. -/
structure CachedProject.Held (capacities : Capacities) (project : CachedProject) : Prop where
  rootDirectory : IsHeldText project.rootDirectory
  files : IsTable capacities.files (fun _ file => IsFile capacities file.id file) project.files
  includes : IsTable capacities.includes (fun _ => IsInclude) project.includes
  diagnosticPragmas : IsTable capacities.pragmas (fun _ => IsPragma) project.diagnosticPragmas
  warningDirectives : IsTable capacities.warnings (fun _ => IsWarning) project.warningDirectives
  objectMacros : IsTable capacities.macros (fun _ => IsEntry) project.objectMacros
  defines : IsWord project.defines.length ∧ ∀ entry ∈ project.defines, IsEntry entry

section

variable {capacities : Capacities} {project : CachedProject}

/-- The files are at their places. -/
theorem isTables_of_held (h : project.Held capacities)
    (hids : project.files.map (·.id) = List.range project.files.length) :
    IsTables capacities project.toCacheTables := by
  refine ⟨h.rootDirectory, ⟨h.files.1, fun i file hfile => ?_⟩, h.includes, h.diagnosticPragmas,
    h.warningDirectives, h.objectMacros, h.defines⟩
  have hi : i < project.files.length := (List.getElem?_eq_some_iff.1 hfile).1
  have hid : file.id = i := by
    have hplace : (project.files.map (·.id))[i]? = some file.id := by
      rw [List.getElem?_map, hfile]
      rfl
    rw [hids, List.getElem?_range hi] at hplace
    exact (Option.some.inj hplace).symm
  have hheld : IsFile capacities file.id file := h.files.2 i file hfile
  rwa [hid] at hheld

theorem includesInRange_iff {tables : CacheTables} : tables.includesInRange = true ↔
    ∀ edge ∈ tables.includes, edge.source < tables.files.length ∧
      ∀ target, edge.target = .file target → target < tables.files.length := by
  rw [CacheTables.includesInRange, List.all_eq_true]
  refine forall₂_congr fun edge _ => ?_
  rw [Bool.and_eq_true, decide_eq_true_eq]
  refine and_congr_right fun _ => ?_
  split
  · rename_i target htarget
    rw [decide_eq_true_eq]
    constructor
    · intro hlt other hother
      rw [htarget] at hother
      cases hother
      exact hlt
    · exact fun h => h target htarget
  · rename_i spelling htarget
    refine ⟨fun _ other hother => ?_, fun _ => rfl⟩
    rw [htarget] at hother
    cases hother

theorem decode_encode (h : project.Held capacities)
    (hids : project.files.map (·.id) = List.range project.files.length)
    (hrange : project.includesInRange = true) :
    decodeCachedProject capacities (encodeCachedProject project) = .ok project :=
  decodeCachedProject_eq_ok.2
    ⟨project.toCacheTables, rfl, isTables_of_held h hids, hrange, project_toCacheTables project⟩

/-! ## Projects of the loader -/

/-- The files and the includes of a project that the loader went through. -/
theorem Expands.inRange {processed : List FileId} {body : Expansion}
    (h : Expands project.toProject processed body) :
    project.files.map (·.id) = List.range project.files.length ∧
      project.includesInRange = true := by
  have hlength : project.toProject.files.length = project.files.length := List.length_map _
  have hfiles : 0 :: body.files = List.range project.files.length := hlength ▸ h.files
  have hincludes : project.includes = body.edges := h.includes
  refine ⟨?_, includesInRange_iff.2 fun edge hedge => ?_⟩
  · have hids := h.ids
    rwa [hlength, CachedProject.toProject, List.map_map] at hids
  · rw [hincludes] at hedge
    have hsource := Expansion.source_mem h.laid hedge
    refine ⟨List.mem_range.1 (hfiles ▸ hsource), fun target htarget => ?_⟩
    have hmem : target ∈ 0 :: body.files := by
      rcases h.once.target_mem hedge htarget with hroot | htarget
      · exact List.mem_cons.2 (Or.inl (List.mem_singleton.1 hroot))
      · exact List.mem_cons_of_mem _ htarget
    exact List.mem_range.1 (hfiles ▸ hmem)

section

variable {fs : FileSystem String} {preprocessor : Preprocessor String} {fuel : Nat}
  {rootFile : String} {arguments : List (String × Text)} {L : Loader String}
  (hload : load fs preprocessor fuel rootFile arguments = .ok L)
  (hproject : project.toProject = L.project)

include hload hproject

/-- A project of the loader is given back. -/
theorem decode_loaded (h : project.Held capacities) :
    decodeCachedProject capacities (encodeCachedProject project) = .ok project := by
  obtain ⟨body, -, hexpands, -⟩ := load_expansion hload
  rw [← hproject] at hexpands
  obtain ⟨hids, hrange⟩ := hexpands.inRange
  exact decode_encode h hids hrange

/-- The directives of a project of the loader lie in their files. -/
theorem ranged_loaded (h : project.Mapped) : project.Ranged := by
  obtain ⟨body, -, hexpands, -⟩ := load_expansion hload
  have hmarked := load_marked hload
  have hspan : ∀ mark ∈ L.marks, project.HasSpan mark.1 mark.2 := by
    intro mark hmem
    obtain ⟨hordered, i, hi, hle⟩ := hmarked mark hmem
    rw [Loader.graph, show L.files = project.toProject.files by rw [hproject]; rfl,
      CachedProject.toProject] at hi
    simp only [List.getElem?_map, Option.map_map] at hi
    obtain ⟨file, hfile, rfl⟩ := Option.map_eq_some_iff.1 hi
    exact ⟨hordered, file, hfile, hle⟩
  rw [← hproject] at hexpands
  refine ⟨h, fun edge hedge file hfile => ?_, fun pragma hpragma => ?_, fun warning hwarning => ?_⟩
  · have hincludes : project.includes = body.edges := hexpands.includes
    rw [hincludes] at hedge
    have hspan := Expansion.span_of_mem hexpands.laid hedge
    rwa [fileLength_toProject hfile] at hspan
  · refine hspan (pragma.source, pragma.span) (List.mem_append_left _ (List.mem_map.2 ⟨pragma, ?_, rfl⟩))
    rwa [show L.diagnosticPragmas = project.diagnosticPragmas from
      congrArg Project.diagnosticPragmas hproject.symm]
  · refine hspan (warning.source, warning.span)
      (List.mem_append_right _ (List.mem_map.2 ⟨warning, ?_, rfl⟩))
    rwa [show L.warningDirectives = project.warningDirectives from
      congrArg Project.warningDirectives hproject.symm]

end

end

/-! ## Other bytes -/

theorem decodeCacheManifest_panics :
    decodeCacheManifest capacities bytes = .error .panicked ↔ ManifestPanicsOn capacities bytes := by
  rw [← failsOn_readManifest capacities bytes]
  unfold decodeCacheManifest
  cases readManifest capacities bytes with
  | error failure => exact ⟨fun h => (by cases h; rfl), fun h => (by cases h; rfl)⟩
  | ok r =>
    refine ⟨fun h => ?_, fun h => (by cases h)⟩
    simp only [bind, Except.bind] at h
    split at h
    · cases h
    · cases h

def IsManifestEntry (entry : CacheManifestEntry) : Prop :=
  IsHeldText entry.path ∧ IsWord entry.fingerprint.length ∧
    IsWord entry.fingerprint.modifiedSeconds ∧ entry.fingerprint.modifiedNanos < 256 ^ 4

/-- A manifest that there is room for. -/
def IsManifest (capacities : Capacities) (manifest : CacheManifest) : Prop :=
  IsHeldText manifest.rootFile ∧ IsWord manifest.cacheLength ∧
    (IsWord manifest.entries.length ∧ ¬ capacities.manifestEntries < manifest.entries.length) ∧
      ∀ entry ∈ manifest.entries, IsManifestEntry entry

theorem codes_readFingerprint : Codes writeFingerprint readFingerprint fun fingerprint =>
    IsWord fingerprint.length ∧ IsWord fingerprint.modifiedSeconds ∧
      fingerprint.modifiedNanos < 256 ^ 4 := by
  refine (Codes.field (k := fun _ => True) FileFingerprint.length codes_readLen fun length =>
    Codes.field FileFingerprint.modifiedSeconds codes_readLen fun seconds =>
    Codes.field FileFingerprint.modifiedNanos (codes_readNumber 4 _) fun nanos =>
    Codes.pure fun fingerprint => ?_).congr (fun fingerprint => ?_) fun fingerprint => ?_
  · obtain ⟨_, _, _⟩ := fingerprint
    simp [and_assoc]
  · simp [writeFingerprint]
  · tauto

theorem codes_readManifestEntry : Codes writeManifestEntry readManifestEntry IsManifestEntry := by
  refine (Codes.field (k := fun _ => True) CacheManifestEntry.path codes_readString fun path =>
    Codes.field CacheManifestEntry.fingerprint codes_readFingerprint fun fingerprint =>
    Codes.pure fun entry => ?_).congr (fun entry => ?_) fun entry => ?_
  · obtain ⟨_, _⟩ := entry
    simp
  · simp [writeManifestEntry, writePath]
  · rw [IsManifestEntry]
    tauto

theorem codes_readManifest (capacities : Capacities) :
    Codes encodeCacheManifest (readManifest capacities) (IsManifest capacities) := by
  refine (Codes.field (k := fun _ => True) (fun _ => ()) (codes_readMagic _) fun _ =>
    Codes.field CacheManifest.rootFile codes_readString fun rootFile =>
    Codes.field CacheManifest.cacheLength codes_readLen fun cacheLength =>
    Codes.field CacheManifest.entries
      (codes_readTable (codes_readCount _) codes_readManifestEntry) fun entries =>
    Codes.pure fun manifest => ?_).congr (fun manifest => ?_) fun manifest => ?_
  · obtain ⟨_, _, _⟩ := manifest
    simp [and_assoc]
  · simp [encodeCacheManifest, writePath]
  · rw [IsManifest]
    tauto

/-- A manifest is decoded from its encoding, and from nothing else. -/
theorem decodeCacheManifest_eq_ok {capacities : Capacities} {bytes : Bytes}
    {manifest : CacheManifest} : decodeCacheManifest capacities bytes = .ok manifest ↔
      IsManifest capacities manifest ∧ bytes = encodeCacheManifest manifest := by
  have hread := @Codes.read_eq_ok _ _ _ _ _ (codes_readManifest capacities) bytes
  unfold decodeCacheManifest
  constructor
  · intro h
    obtain ⟨⟨_, rest⟩, hok, h⟩ := bind_eq_ok h
    dsimp only at h
    split at h
    · cases h
    · rename_i hrest
      cases h
      rw [not_not.1 hrest, hread, List.append_nil] at hok
      exact hok
  · intro h
    rw [← List.append_nil (encodeCacheManifest manifest), ← hread] at h
    rw [h]
    rfl

theorem sound_iff_ranged_of_isTables {tables : CacheTables} (h : IsTables capacities tables)
    (hrange : tables.includesInRange = true) : tables.project.Sound ↔ tables.project.Ranged :=
  sound_iff_ranged (fun file hfile => (h.files.2 0 file hfile).id) (includesInRange_iff.1 hrange)

/-- The cache gives the projects of the loader back, whose directives lie in their files. A decoder
returns on exactly the bytes that
have no count and no identity that is too large, and what it returns is sound where no positions
are out of range in them. -/
theorem projectCache_iff (capacities : Capacities) :
    (∀ (fs : FileSystem String) (preprocessor : Preprocessor String) (fuel : Nat)
        (rootFile : String) (arguments : List (String × Text)) (L : Loader String)
        (project : CachedProject), load fs preprocessor fuel rootFile arguments = .ok L →
      project.toProject = L.project → project.Held capacities →
        decodeCachedProject capacities (encodeCachedProject project) = .ok project ∧
          (project.Mapped → project.Ranged)) ∧
    (∀ bytes, (decodeCachedProject capacities bytes ≠ .error .panicked ∧
        ∀ project, decodeCachedProject capacities bytes = .ok project → project.Sound) ↔
      ¬ PanicsOn capacities bytes ∧ ∀ tables, IsTables capacities tables →
        tables.includesInRange = true → bytes = writeTables tables → tables.project.Ranged) ∧
    (∀ bytes, decodeCacheManifest capacities bytes ≠ .error .panicked ↔
      ¬ ManifestPanicsOn capacities bytes) := by
  refine ⟨fun fs preprocessor fuel rootFile arguments L project hload hproject h =>
    ⟨decode_loaded hload hproject h, ranged_loaded hload hproject⟩, fun bytes => ?_, fun bytes => not_congr
    decodeCacheManifest_panics⟩
  refine and_congr (not_congr decodeCachedProject_panics) ⟨?_, ?_⟩
  · intro h tables hvalid hrange hbytes
    have hdecode : decodeCachedProject capacities bytes = .ok tables.project :=
      decodeCachedProject_eq_ok.2 ⟨tables, hbytes, hvalid, hrange, rfl⟩
    exact (sound_iff_ranged_of_isTables hvalid hrange).1 (h _ hdecode)
  · intro h project hdecode
    obtain ⟨tables, hbytes, hvalid, hrange, rfl⟩ := decodeCachedProject_eq_ok.1 hdecode
    exact (sound_iff_ranged_of_isTables hvalid hrange).2 (h tables hvalid hrange hbytes)

/-! ## Bad caches -/

def someRoom : Capacities := ⟨2 ^ 55, 2 ^ 55, 2 ^ 55, 2 ^ 55, 2 ^ 55, 2 ^ 55, 2 ^ 55⟩

/-- A pragma in a file that there is not. -/
def strayPragma : CacheTables := ⟨"", [], [], [⟨"", .notice, 5, ⟨0, 0⟩⟩], [], [], []⟩

/-- An include whose file has no `u32` identity. -/
def farInclude : CacheTables := ⟨"", [], [⟨2 ^ 32, .system "", "", ⟨0, 0⟩⟩], [], [], [], []⟩

/-- A manifest that ends behind a number of entries. -/
def crowdedManifest : Bytes :=
  projectCacheManifestMagic ++ writePath "" ++ writeLen 0 ++ writeLen (2 ^ 64 - 1)

set_option maxRecDepth 4096 in
theorem projectCache_not_robust : ∃ project,
    decodeCachedProject someRoom (writeTables strayPragma) = .ok project ∧ ¬ project.Sound ∧
      decodeCachedProject someRoom (writeTables farInclude) = .error .panicked ∧
        decodeCacheManifest someRoom crowdedManifest = .error .panicked := by
  refine ⟨strayPragma.project, by rfl, fun h => ?_, by rfl, by rfl⟩
  exact absurd (h.pragmas _ List.mem_cons_self).fileId_lt (by decide)

end Dream64.Preprocess
