import Dream64.Preprocess.Coverage

/-!
# The expansion of a loaded project

The traversal of a project that has been loaded ends, and its segments are
those of the expansion that the loader went through (`load_expansion`).
-/

namespace Dream64.Preprocess

variable {Path : Type} {project : Project Path} {body : Expansion}

/-- The file can contain includes. -/
def Project.isSource (project : Project Path) (id : FileId) : Bool :=
  (project.files[id]?).elim false (·.kind.canContainIncludes)

/-- The includes of a project, in the order in which they were recorded, are those of an expansion
that begins with the first file; the directives of its files were processed in the order of it. -/
structure Expands (project : Project Path) (processed : List FileId) (body : Expansion) :
    Prop where
  ids : project.files.map (·.id) = List.range project.files.length
  files : 0 :: body.files = List.range project.files.length
  includes : project.includes = body.edges
  once : body.Once [0]
  laid : body.Laid project.fileLength 0 0
  processed : processed = (0 :: body.files).filter project.isSource

namespace Expands

variable {processed : List FileId} (h : Expands project processed body)

include h

theorem distinct : body.Distinct 0 := by
  rw [Expansion.Distinct, h.files]
  exact List.nodup_range

theorem includesBy (g : FileId) : project.includesBy g = body.edgesBy g :=
  includesBy_eq h.includes h.laid h.distinct g

/-- The traversal leaves the segments of the expansion. -/
theorem expansionLoop {turns : Nat} (hturns : body.turns ≤ turns) :
    Preprocess.expansionLoop project turns ⟨[], [0], [.new 0]⟩ =
      ⟨body.segments project.fileLength 0 0, 0 :: body.files, []⟩ := by
  have hown : (project.includesBy 0).drop 0 = body.own := by
    rw [List.drop_zero, h.includesBy, Expansion.edgesBy_own h.laid h.distinct]
  have hbodies : body.Bodies project.includesBy :=
    Expansion.bodies h.laid h.distinct fun g _ => h.includesBy g
  obtain ⟨more, rfl⟩ := Nat.exists_eq_add_of_le hturns
  rw [ExpansionFrame.new, expansionLoop_body hown hbodies h.once h.laid]
  cases more <;> rfl

theorem expansionSegments {turns : Nat} (hturns : body.turns ≤ turns) :
    project.expansionSegments turns = some (body.segments project.fileLength 0 0) := by
  have hids := h.ids
  rw [Project.expansionSegments]
  cases hfiles : project.files with
  | nil =>
    have hrange := h.files
    rw [hfiles] at hrange
    cases hrange
  | cons file files =>
    have hid : file.id = 0 := by
      rw [hfiles, List.length_cons, List.range_succ_eq_map] at hids
      exact (List.cons.inj hids).1
    dsimp only
    rw [hid, h.expansionLoop hturns]
    rfl

/-- Every byte comes once, but for those of the recorded includes. -/
theorem coverage (g : FileId) (i : Nat) :
    Preprocess.coverage g i (body.segments project.fileLength 0 0) =
      if g < project.files.length ∧ i < project.fileLength g ∧
        ∀ edge ∈ project.includes, edge.source = g → ¬ InSpan edge.span i then 1 else 0 := by
  rw [Expansion.coverage_segments h.laid h.distinct]
  refine if_congr ?_ rfl rfl
  rw [Expansion.Kept, h.files, List.mem_range, h.includes, Expansion.edgesBy]
  simp only [Nat.zero_le, implies_true, true_and, List.mem_filter, decide_eq_true_eq, and_imp]

end Expands

/-! ## Loading -/

section

variable [DecidableEq Path] {fs : FileSystem Path} {preprocessor : Preprocessor Path} {fuel : Nat}
  {rootFile : Path} {defines : List (String × Text)} {L : Loader Path}

omit [DecidableEq Path] in
theorem valid_new (rootFile : Path) (defines : List (String × Text)) :
    (Loader.new fs rootFile defines).graph.Valid :=
  ⟨rfl, fun _ _ hid => (by cases hid)⟩

/-- The loader adds the root file to an empty graph and goes through it. -/
theorem load_traced (h : load fs preprocessor fuel rootFile defines = .ok L) :
    ∃ rootFile path length isSource body,
      Traced ((Loader.new fs rootFile defines).graph.add path length isSource) L.graph 0 0 body := by
  obtain ⟨rootFile, -, h⟩ := bind_eq_ok h
  obtain ⟨⟨id, L'⟩, hload, heq⟩ := map_eq_ok h
  cases heq
  rcases (Loader.loadFile_loads fuel _ _ _ _ hload (valid_new rootFile defines)).1 with
    ⟨hlt, -⟩ | ⟨path, length, isSource, body, hid, htraced⟩
  · exact absurd hlt (Nat.not_lt_zero _)
  · subst hid
    exact ⟨rootFile, path, length, isSource, body, htraced⟩

/-- The pragmas and the warnings of a loaded project lie in its files. -/
theorem load_marked (h : load fs preprocessor fuel rootFile defines = .ok L) : L.Marked := by
  obtain ⟨rootFile, -, h⟩ := bind_eq_ok h
  obtain ⟨⟨id, L'⟩, hload, heq⟩ := map_eq_ok h
  cases heq
  exact (Loader.loadFile_loads fuel _ _ _ _ hload (valid_new rootFile defines)).2 nofun

/-- What is known of the files of a loader at its end. -/
def Loader.info (L : Loader Path) (id : FileId) : Nat × Bool := L.graph.info[id]?.getD (0, false)

omit [DecidableEq Path] in
theorem Loader.agrees_info (L : Loader Path) : L.graph.Agrees L.info := by
  intro id i hi
  rw [Loader.info, hi]
  rfl

omit [DecidableEq Path] in
theorem Loader.info_eq (L : Loader Path) (id : FileId) :
    L.info id = (L.project.fileLength id, L.project.isSource id) := by
  show (L.files.map _)[id]?.getD _ = ((L.files[id]?).elim _ _, (L.files[id]?).elim _ _)
  rw [List.getElem?_map]
  cases L.files[id]? <;> rfl

theorem expands_of_traced {path : Path} {length : Nat} {isSource : Bool} {body : Expansion}
    (h : Traced ((Loader.new fs rootFile defines).graph.add path length isSource) L.graph 0 0 body) :
    Expands L.project L.processed body := by
  have hvalid : L.graph.Valid := h.valid ((valid_new rootFile defines).add _ _ _)
  have hlength : L.graph.info.length = L.project.files.length := List.length_map _
  have hfiles : 0 :: body.files = List.range L.graph.info.length := h.files
  have hlengths : (fun id => (L.info id).1) = L.project.fileLength := by
    funext id
    rw [L.info_eq]
  have hsources : (fun id => (L.info id).2) = L.project.isSource := by
    funext id
    rw [L.info_eq]
  have hroot : L.info 0 = (length, isSource) := h.agrees L.agrees_info 0 _ rfl
  refine ⟨hlength ▸ hvalid.1, hlength ▸ hfiles, mergeSort_numbered h.includes, h.once, ?_, ?_⟩
  · have hlaid := h.laid L.info L.agrees_info
    rwa [hlengths] at hlaid
  · have hprocessed := h.processed L.info L.agrees_info
    rw [hsources] at hprocessed
    have hzero : L.project.isSource 0 = isSource :=
      (congrFun hsources 0).symm.trans (congrArg Prod.snd hroot)
    rw [show L.processed = _ from hprocessed, List.filter_cons, hzero]
    cases isSource <;> rfl

/-- The expansion of a loaded project covers it: the traversal ends with segments that hold every
byte of every file once, but for those of the recorded includes; the segments of each file come in
their order, those of an included file together and at its first include; and the files are
expanded in the order in which the loader processed their directives. -/
theorem load_expansion (h : load fs preprocessor fuel rootFile defines = .ok L) :
    ∃ body segments, Expands L.project L.processed body ∧
      segments = body.segments L.project.fileLength 0 0 ∧
      (∀ turns, body.turns ≤ turns → L.project.expansionSegments turns = some segments ∧
        expansionLoop L.project turns ⟨[], [0], [.new 0]⟩ =
          ⟨segments, List.range L.files.length, []⟩) ∧
      (∀ g i, coverage g i segments = if g < L.files.length ∧ i < L.project.fileLength g ∧
        ∀ edge ∈ L.project.includes, edge.source = g → ¬ InSpan edge.span i then 1 else 0) ∧
      (∀ g, Increasing g segments) ∧
      (∀ g, 0 < g → g < L.files.length → ∃ edge inner before after,
        SplicedAt L.project.includes L.project.fileLength segments g edge inner before after) ∧
      L.processed = (List.range L.files.length).filter L.project.isSource := by
  obtain ⟨rootFile, path, length, isSource, body, htraced⟩ := load_traced h
  have hexpands := expands_of_traced htraced
  have hfiles : 0 :: body.files = List.range L.files.length := hexpands.files
  refine ⟨body, _, hexpands, rfl, fun turns hturns => ⟨hexpands.expansionSegments hturns, ?_⟩,
    hexpands.coverage, Expansion.increasing_segments hexpands.laid hexpands.distinct,
    fun g hpos hlt => ?_, hfiles ▸ hexpands.processed⟩
  · rw [← hfiles]
    exact hexpands.expansionLoop hturns
  · have hmem : g ∈ body.files := by
      have hmem : g ∈ 0 :: body.files := hfiles ▸ List.mem_range.2 hlt
      exact (List.mem_cons.1 hmem).resolve_left (Nat.ne_of_gt hpos)
    obtain ⟨edge, inner, before, after, -, hspliced⟩ :=
      Expansion.exists_splicedAt hexpands.laid hexpands.distinct hexpands.once hmem
    rw [hexpands.includes]
    exact ⟨edge, inner, before, after, hspliced⟩

end

/-! ## A cycle of includes -/

/-- Two files that include each other, and the first one itself. -/
def cycleFiles : FileSystem String where
  canonicalize path := some path
  isFile path := path = "a.dme" || path = "b.dm"
  read path :=
    if path = "a.dme" then
      some "#include \"b.dm\"\nx\n#include \"b.dm\"\n#include \"a.dme\"\n".toUTF8
    else if path = "b.dm" then some "y\n#include \"a.dme\"\nz".toUTF8
    else none
  extension path := if path = "a.dme" then some "dme" else some "dm"
  parent _ := ""
  join _ name := name
  isInside _ _ := true
  relativeTo _ path := path
  separator := '/'

/-- Text without macros and conditions. -/
def plainText : Preprocessor String where
  expand _ _ text macros := (.ok text, macros)
  evaluate _ _ _ _ := .ok true

theorem load_expansion_cycle : ∃ L segments turns,
    load cycleFiles plainText 3 "a.dme" [] = .ok L ∧ L.files.length = 2 ∧
      L.project.expansionSegments turns = some segments ∧
        (∀ g i, coverage g i segments = if g < 2 ∧ i < L.project.fileLength g ∧
          ∀ edge ∈ L.project.includes, edge.source = g → ¬ InSpan edge.span i then 1 else 0) ∧
        L.processed = [0, 1].filter L.project.isSource := by
  have hlength : ((load cycleFiles plainText 3 "a.dme" []).toOption.map (·.files.length)) =
      some 2 := by decide +kernel
  cases h : load cycleFiles plainText 3 "a.dme" [] with
  | error =>
    rw [h] at hlength
    cases hlength
  | ok L =>
    rw [h] at hlength
    have hlength : L.files.length = 2 := Option.some.inj hlength
    obtain ⟨body, segments, -, -, hturns, hcoverage, -, -, hprocessed⟩ := load_expansion h
    rw [hlength] at hcoverage hprocessed
    exact ⟨L, segments, body.turns, rfl, hlength, (hturns _ le_rfl).1, hcoverage, hprocessed⟩

end Dream64.Preprocess
