import Dream64.Compiler.Database

/-!
# The database of a build

`persistent_database_for_compilation`: the identities go on from those of the
database before, the sections are those of the inputs, of the linked frontend
and of the executable that is kept. `ProcedureRegistry::build_with_stable_ids`
then orders the procedures by their identities.
-/

namespace Dream64.Compiler

open Codec ObjectTree

def linkedFrontendSection : Nat := 1

def persistentExecutableSection : Nat := 2

def inputSectionBase : Nat := 1000

def linkedPayloadPageBase : Nat := 10000000

def persistentExecutablePageBase : Nat := 20000000

/-- What a build hands over: the tree, the segments of the encoded compilation, and its inputs. -/
structure Build where
  codeTree : CodeTree
  segments : List Bytes
  inputs : List InputDependency
  semanticDigest : Digest
  buildConfigurationDigest : Digest

/-! ## Identities -/

/-- `Display` of a path -/
def pathText (path : CodePath) : String := "/" ++ "/".intercalate path

def nameSpaceOf : NodeKind → String
  | .type => "type"
  | .procedure | .verb => "procedure"
  | .variable => "field"

def nodeKey (node : CodeNode) : String × String := (nameSpaceOf node.kind, pathText node.path)

def maxU64 : Nat := 2 ^ 64 - 1

/-- `saturating_add(1)` of a `u64` -/
def saturatingSucc (id : Nat) : Nat := min (id + 1) maxU64

/-- The identity of a name; of two entries the later one counts. -/
def priorId (entries : List StableIdEntry) (key : String × String) : Option Nat :=
  (entries.reverse.find? fun entry => (entry.nameSpace, entry.name) == key).map (·.id)

/-- The next free identity of every namespace. -/
def nextIds (entries : List StableIdEntry) : String → Nat :=
  entries.foldl (fun next entry => Function.update next entry.nameSpace
    (max (next entry.nameSpace) (saturatingSucc entry.id))) fun _ => 0

def assignIds (prior : List StableIdEntry) : (String → Nat) → List CodeNode → List StableIdEntry
  | _, [] => []
  | next, node :: nodes =>
    let nameSpace := nameSpaceOf node.kind
    match priorId prior (nodeKey node) with
    | some id => ⟨nameSpace, pathText node.path, id⟩ :: assignIds prior next nodes
    | none => ⟨nameSpace, pathText node.path, next nameSpace⟩ ::
        assignIds prior (Function.update next nameSpace (saturatingSucc (next nameSpace))) nodes

def stableIdsOf (prior : Option PersistentCompilerDatabase) : List StableIdEntry :=
  match prior with
  | some db => db.stableIds
  | none => []

/-! ## Sections -/

section

variable (md5 : Md5)

def digest32FromMd5 (first : Md5Digest) : Digest :=
  ⟨first ++ md5 first, by rw [List.length_append, first.2, (md5 first).2]⟩

def digest32 (bytes : Bytes) : Digest :=
  ⟨md5 bytes ++ md5 (1 :: bytes), by rw [List.length_append, (md5 bytes).2, (md5 _).2]⟩

def zeroDigest : Digest := ⟨List.replicate 32 0, List.length_replicate⟩

def inputSectionIds (inputs : List InputDependency) : List Nat :=
  (List.range inputs.length).map (inputSectionBase + ·)

def inputSections (inputs : List InputDependency) : List SectionDependency :=
  inputs.zipIdx.map fun input =>
    ⟨inputSectionBase + input.2, [], [input.2], input.1.contentDigest, []⟩

/-- `chunks` -/
def chunks (size : Nat) (bytes : Bytes) : List Bytes :=
  (List.range ((bytes.length + size - 1) / size)).map fun index =>
    (bytes.drop (index * size)).take size

def linkedPages (build : Build) : List Bytes :=
  build.segments.flatMap (chunks maxSectionPayloadBytes)

def linkedSections (build : Build) : List SectionDependency :=
  (linkedPages build).zipIdx.map fun page =>
    ⟨linkedPayloadPageBase + page.2, inputSectionIds build.inputs, [], digest32 md5 page.1, page.1⟩

def linkedManifest (build : Build) : SectionDependency :=
  ⟨linkedFrontendSection,
    (List.range (linkedPages build).length).map (linkedPayloadPageBase + ·), [],
    digest32FromMd5 md5 (md5 (linkedPages build).flatten), []⟩

/-- The executable of the database before, with its pages. -/
def preservedRuntime (prior : Option PersistentCompilerDatabase) :
    Option (SectionDependency × List SectionDependency) := do
  let db ← prior
  let manifest ← db.sections.find? fun part => part.sectionId == persistentExecutableSection
  if manifest.contentDigest = zeroDigest ∨ manifest.sectionDependencies.any (fun id =>
      ¬ (persistentExecutablePageBase ≤ id ∧ id < persistentExecutablePageBase + 1000000)) then none
  else
    let pages := db.sections.filter fun part => manifest.sectionDependencies.contains part.sectionId
    if pages.length = manifest.sectionDependencies.length then some (manifest, pages) else none

def executableSections (prior : Option PersistentCompilerDatabase) : List SectionDependency :=
  match preservedRuntime prior with
  | some (manifest, pages) =>
    pages.map (fun page => { page with sectionDependencies := [linkedFrontendSection] }) ++
      [manifest]
  | none => [⟨persistentExecutableSection, [linkedFrontendSection], [], zeroDigest, []⟩]

def buildSections (build : Build) (prior : Option PersistentCompilerDatabase) :
    List SectionDependency :=
  inputSections build.inputs ++ linkedSections md5 build ++ [linkedManifest md5 build] ++
    executableSections prior

/-- `persistent_database_for_compilation` -/
def persistentDatabase (build : Build) (prior : Option PersistentCompilerDatabase) :
    PersistentCompilerDatabase where
  semanticDigest := build.semanticDigest
  buildConfigurationDigest := build.buildConfigurationDigest
  inputs := build.inputs
  stableIds :=
    assignIds (stableIdsOf prior) (nextIds (stableIdsOf prior)) build.codeTree.nodes
  sections := buildSections md5 build prior

end

/-! ## The registry -/

def stableIdsForNamespace (db : PersistentCompilerDatabase) (nameSpace : String) :
    Std.TreeMap String Nat :=
  .ofList ((db.stableIds.filter fun entry => entry.nameSpace == nameSpace).map
    fun entry => (entry.name, entry.id))

def procedureNodes (tree : CodeTree) : List CodeNode :=
  tree.nodes.filter fun node => node.kind = .procedure ∨ node.kind = .verb

/-- Every procedure has an identity of 32 bits, and none comes twice. -/
def checkStableIds (stableIds : Std.TreeMap String Nat) :
    List Nat → List CodeNode → Except String Unit
  | _, [] => pure ()
  | assigned, node :: nodes =>
    match stableIds[pathText node.path]? with
    | none => throw s!"persistent procedure ID is missing for {pathText node.path}"
    | some id =>
      if 2 ^ 32 ≤ id then throw s!"persistent procedure ID for {pathText node.path} exceeds u32"
      else if id ∈ assigned then throw s!"duplicate persistent procedure ID {id}"
      else checkStableIds stableIds (id :: assigned) nodes

/-- The order of the procedures that `build_with_stable_ids` gives their dense identities in. -/
def buildWithStableIds (tree : CodeTree) (stableIds : Std.TreeMap String Nat) :
    Except String (List CodeNode) :=
  if stableIds.isEmpty then pure (procedureNodes tree)
  else do
    checkStableIds stableIds [] (procedureNodes tree)
    if stableIds.size ≠ (procedureNodes tree).length then
      throw "persistent procedure IDs contain unknown paths"
    else pure ((procedureNodes tree).mergeSort fun a b =>
      (stableIds[pathText a.path]?).getD 0 ≤ (stableIds[pathText b.path]?).getD 0)

end Dream64.Compiler
