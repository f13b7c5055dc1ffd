import Dream64.Compiler.BuildSections

/-!
# Histories of builds

Every build goes on from the database that the build before has written. The
identities of a history are stable as long as no namespace loses its highest
identity before it takes a new one, and as long as there is room.
-/

namespace Dream64.Compiler

open Codec ObjectTree

variable (md5 : Md5)

/-- The databases of the builds, the newest first. -/
def run : List PersistentCompilerDatabase → List Build → List PersistentCompilerDatabase
  | past, [] => past
  | past, build :: builds => run (persistentDatabase md5 build past.head? :: past) builds

/-- What holds at every build, of the databases so far and of the build. -/
def EveryBuild (holds : List PersistentCompilerDatabase → Build → Prop) :
    List PersistentCompilerDatabase → List Build → Prop
  | _, [] => True
  | past, build :: builds =>
    holds past build ∧ EveryBuild holds (persistentDatabase md5 build past.head? :: past) builds

/-- What is in both databases has the same identity in both. -/
def Keeps (before after : PersistentCompilerDatabase) : Prop :=
  ∀ a ∈ before.stableIds, ∀ b ∈ after.stableIds, a.key = b.key → a.id = b.id

/-- One identity of a namespace belongs to one name. -/
def Identifies (one other : PersistentCompilerDatabase) : Prop :=
  ∀ a ∈ one.stableIds, ∀ b ∈ other.stableIds, a.number = b.number → a.name = b.name

/-- The database of a build is written, and the registry accepts it. -/
def Usable (past : List PersistentCompilerDatabase) (build : Build) : Prop :=
  (∃ bytes, (persistentDatabase md5 build past.head?).encode md5 = .ok bytes) ∧
    ∃ order, buildWithStableIds build.codeTree (stableIdsForNamespace
      (persistentDatabase md5 build past.head?) "procedure") = .ok order

structure Stable (past : List PersistentCompilerDatabase) (builds : List Build) : Prop where
  keeps : (run md5 past builds).IsChain fun newer older => Keeps older newer
  identifies : ∀ one ∈ run md5 past builds, ∀ other ∈ run md5 past builds, Identifies one other
  usable : EveryBuild md5 (Usable md5) past builds

/-! ## The condition -/

/-- The bytes of the payload in front of its sections, and of these. -/
def Build.payloadSize (build : Build) (prior : Option PersistentCompilerDatabase) : Nat :=
  88 + (build.inputs.map fun input => 48 + (utf8 input.identity).length).sum +
    (build.codeTree.nodes.map fun node =>
      24 + (utf8 (nodeKey node).1).length + (utf8 (nodeKey node).2).length).sum +
    ((buildSections md5 build prior).map fun part =>
      64 + 8 * part.sectionDependencies.length + 8 * part.inputDependencies.length +
        part.payload.length).sum

/-- The tables and texts of the build are within the limits of the format. -/
structure WithinLimits (prior : Option PersistentCompilerDatabase) (build : Build) : Prop where
  inputs : build.inputs.length ≤ maxRecords
  identities : (build.inputs.map (·.identity)).Nodup
  identity : ∀ input ∈ build.inputs, FitsString input.identity
  nodes : build.codeTree.nodes.length ≤ maxRecords
  names : (build.codeTree.nodes.map nodeKey).Nodup
  name : ∀ node ∈ build.codeTree.nodes, FitsString (pathText node.path)
  sections : (buildSections md5 build prior).length ≤ maxRecords
  keepsInputs : KeepsInputs build prior
  payload : build.payloadSize md5 prior ≤ maxDatabaseBytes - headerLen

/-- A namespace that takes a new name has kept the highest identity it ever gave, there is room
behind it, and the identities of the procedures have 32 bits. -/
structure KeepsHighest (past : List PersistentCompilerDatabase) (build : Build) : Prop where
  highest : ∀ nameSpace, fresh (stableIdsOf past.head?) build.codeTree.nodes nameSpace ≠ [] →
    ∀ db ∈ past, ∀ entry ∈ db.stableIds, entry.nameSpace = nameSpace →
      ∃ kept ∈ stableIdsOf past.head?, kept.nameSpace = nameSpace ∧ entry.id ≤ kept.id
  room : ∀ nameSpace, fresh (stableIdsOf past.head?) build.codeTree.nodes nameSpace ≠ [] →
    ∀ entry ∈ stableIdsOf past.head?, entry.nameSpace = nameSpace →
      entry.id + (fresh (stableIdsOf past.head?) build.codeTree.nodes nameSpace).length ≤ maxU64
  procedures : ∀ entry ∈ stableIdsOf past.head?, entry.nameSpace = "procedure" →
    entry.key ∈ build.codeTree.nodes.map nodeKey → entry.id < 2 ^ 32
  procedureRoom : fresh (stableIdsOf past.head?) build.codeTree.nodes "procedure" ≠ [] →
    ∀ entry ∈ stableIdsOf past.head?, entry.nameSpace = "procedure" →
      entry.id + (fresh (stableIdsOf past.head?) build.codeTree.nodes "procedure").length < 2 ^ 32

structure SoundBuild (past : List PersistentCompilerDatabase) (build : Build) : Prop where
  limits : WithinLimits md5 past.head? build
  highest : KeepsHighest past build

/-! ## One build -/

variable {md5} {past : List PersistentCompilerDatabase} {build : Build}
  {prior : Option PersistentCompilerDatabase}

theorem stableIds_keys (md5 : Md5) (build : Build) (prior : Option PersistentCompilerDatabase) :
    (persistentDatabase md5 build prior).stableIds.map StableIdEntry.key =
      build.codeTree.nodes.map nodeKey := assignIds_keys _ _ _

theorem length_payload : (persistentDatabase md5 build prior).payload.length =
    build.payloadSize md5 prior := by
  have hinput (input : InputDependency) :
      (inputBytes input).length = 48 + (utf8 input.identity).length := by
    simp only [inputBytes, stringBytes, writeU64, List.length_append, length_toLittleEndian,
      input.contentDigest.2]
    omega
  have hentry (entry : StableIdEntry) : (stableIdBytes entry).length =
      24 + (utf8 entry.key.1).length + (utf8 entry.key.2).length := by
    simp only [stableIdBytes, stringBytes, writeU64, List.length_append, length_toLittleEndian,
      StableIdEntry.key]
    omega
  have hvec (values : List Nat) : (vecBytes values).length = 8 + 8 * values.length := by
    simp only [vecBytes, writeU64, List.length_append, length_toLittleEndian, List.length_flatMap,
      List.map_const', List.sum_replicate, smul_eq_mul]
    omega
  have hsection (part : SectionDependency) : (sectionBytes part).length =
      64 + 8 * part.sectionDependencies.length + 8 * part.inputDependencies.length +
        part.payload.length := by
    simp only [sectionBytes, writeU64, List.length_append, length_toLittleEndian, hvec,
      part.contentDigest.2]
    omega
  have hstableIds : ((persistentDatabase md5 build prior).stableIds.map fun entry =>
      24 + (utf8 entry.key.1).length + (utf8 entry.key.2).length).sum =
      (build.codeTree.nodes.map fun node =>
        24 + (utf8 (nodeKey node).1).length + (utf8 (nodeKey node).2).length).sum := by
    have hkeys := congrArg (List.map fun key : String × String =>
      24 + (utf8 key.1).length + (utf8 key.2).length) (stableIds_keys md5 build prior)
    rw [List.map_map, List.map_map] at hkeys
    exact congrArg List.sum hkeys
  simp only [PersistentCompilerDatabase.payload, writeU64, List.length_append,
    length_toLittleEndian, List.length_flatMap, hinput, hentry, hsection, hstableIds,
    Build.payloadSize]
  simp only [persistentDatabase, build.semanticDigest.2, build.buildConfigurationDigest.2]
  omega

theorem stableIdsOf_nodup (hkept : Kept prior) :
    ((stableIdsOf prior).map StableIdEntry.key).Nodup ∧
      ((stableIdsOf prior).map StableIdEntry.number).Nodup := by
  cases prior with
  | none => exact ⟨List.nodup_nil, List.nodup_nil⟩
  | some db => exact ⟨(hkept db rfl).1.names, (hkept db rfl).1.numbers⟩

theorem KeepsHighest.nextIds_le (h : KeepsHighest past build)
    (hnodes : build.codeTree.nodes.length ≤ maxRecords) :
    HasRoom (stableIdsOf past.head?) (nextIds (stableIdsOf past.head?)) build.codeTree.nodes := by
  intro nameSpace hnil
  have hlength : (fresh (stableIdsOf past.head?) build.codeTree.nodes nameSpace).length ≤
      maxRecords := Nat.le_trans (List.length_filter_le _ _) hnodes
  have hmax : maxRecords ≤ maxU64 := by decide
  have hle : nextIds (stableIdsOf past.head?) nameSpace ≤ maxU64 + 1 -
      (fresh (stableIdsOf past.head?) build.codeTree.nodes nameSpace).length := by
    refine Compiler.nextIds_le.2 fun entry hentry hname => ?_
    have hroom := h.room nameSpace hnil entry hentry hname
    have hsucc : saturatingSucc entry.id ≤ entry.id + 1 := Nat.min_le_left _ _
    omega
  omega

theorem KeepsHighest.below (h : KeepsHighest past build) :
    Below (stableIdsOf past.head?) (nextIds (stableIdsOf past.head?)) build.codeTree.nodes := by
  intro entry hentry hnil
  have hroom := h.room entry.nameSpace hnil entry hentry rfl
  have hpos := List.length_pos_iff.2 hnil
  exact lt_nextIds hentry (by omega)

/-- An entry is one from before, or its identity is above all that its namespace ever gave. -/
theorem mem_stableIds (hlimits : WithinLimits md5 past.head? build)
    (hhighest : KeepsHighest past build) {entry : StableIdEntry}
    (h : entry ∈ (persistentDatabase md5 build past.head?).stableIds) :
    entry ∈ stableIdsOf past.head? ∨ (∀ other ∈ stableIdsOf past.head?, other.key ≠ entry.key) ∧
      ∀ db ∈ past, ∀ other ∈ db.stableIds, other.nameSpace = entry.nameSpace →
        other.id < entry.id := by
  rcases mem_assignIds (hhighest.nextIds_le hlimits.nodes) h with hsome | ⟨hnone, hnil, hle, -⟩
  · obtain ⟨other, hother, hkey, hid⟩ := priorId_eq_some hsome
    left
    have heq : other = entry := by
      obtain ⟨hnameSpace, hname⟩ := Prod.mk.inj hkey
      cases other
      cases entry
      cases hnameSpace
      cases hname
      cases hid
      rfl
    exact heq ▸ hother
  · refine Or.inr ⟨priorId_eq_none.1 hnone, fun db hdb other hother hname => ?_⟩
    obtain ⟨kept, hkept, hkeptName, hkeptId⟩ :=
      hhighest.highest entry.nameSpace hnil db hdb other hother hname
    have hbelow := hhighest.below kept hkept
    rw [hkeptName] at hbelow
    have hlt := hbelow hnil
    omega

section

variable (hkept : Kept past.head?) (hlimits : WithinLimits md5 past.head? build)

include hkept hlimits

theorem stableIds_numbers (hhighest : KeepsHighest past build) :
    ((persistentDatabase md5 build past.head?).stableIds.map StableIdEntry.number).Nodup :=
  assignIds_numbers hlimits.names (stableIdsOf_nodup hkept).2 (hhighest.nextIds_le hlimits.nodes)
    hhighest.below

theorem persistentDatabase_valid (hhighest : KeepsHighest past build) :
    (persistentDatabase md5 build past.head?).Valid where
  counted :=
    { inputs := hlimits.inputs
      stableIds := by
        have hlength := congrArg List.length (stableIds_keys md5 build past.head?)
        rw [List.length_map, List.length_map] at hlength
        rw [hlength]
        exact hlimits.nodes
      sections := hlimits.sections }
  identities := hlimits.identities
  names := by
    show ((persistentDatabase md5 build past.head?).stableIds.map StableIdEntry.key).Nodup
    rw [stableIds_keys]
    exact hlimits.names
  numbers := stableIds_numbers hkept hlimits hhighest
  sectionIds := buildSections_nodup hkept hlimits.inputs hlimits.sections
  inputDependencies := buildSections_inputDependencies hlimits.keepsInputs
  sectionDependencies := buildSections_sectionDependencies hkept

theorem persistentDatabase_fits : (persistentDatabase md5 build past.head?).Fits where
  inputs := hlimits.identity
  stableIds := by
    intro entry hentry
    have hkey : entry.key ∈ build.codeTree.nodes.map nodeKey := by
      rw [← stableIds_keys md5 build past.head?]
      exact List.mem_map_of_mem hentry
    obtain ⟨node, hnode, heq⟩ := List.mem_map.1 hkey
    obtain ⟨hnameSpace, hname⟩ := Prod.mk.inj heq
    have hshort (kind : NodeKind) : FitsString (nameSpaceOf kind) := by
      unfold FitsString
      cases kind <;> decide +kernel
    exact ⟨hnameSpace ▸ hshort node.kind, hname ▸ hlimits.name node hnode⟩
  sections := buildSections_fits hkept hlimits.inputs hlimits.sections

end

/-- The identities of the procedures have 32 bits. -/
theorem procedure_lt (hlimits : WithinLimits md5 past.head? build)
    (hhighest : KeepsHighest past build) {entry : StableIdEntry}
    (h : entry ∈ (persistentDatabase md5 build past.head?).stableIds)
    (hprocedure : entry.nameSpace = "procedure") : entry.id < 2 ^ 32 := by
  have hkey : entry.key ∈ build.codeTree.nodes.map nodeKey := by
    rw [← stableIds_keys md5 build past.head?]
    exact List.mem_map_of_mem h
  rcases mem_assignIds (hhighest.nextIds_le hlimits.nodes) h with hsome | ⟨-, hnil, -, hlt⟩
  · obtain ⟨other, hother, hotherKey, hid⟩ := priorId_eq_some hsome
    rw [← hid]
    refine hhighest.procedures other hother ?_ (hotherKey ▸ hkey)
    exact (congrArg Prod.fst hotherKey).trans hprocedure
  · rw [hprocedure] at hnil hlt
    have hlength : (fresh (stableIdsOf past.head?) build.codeTree.nodes "procedure").length ≤
        maxRecords := Nat.le_trans (List.length_filter_le _ _) hlimits.nodes
    have hmax : maxRecords ≤ 2 ^ 32 := by decide
    have hle : nextIds (stableIdsOf past.head?) "procedure" ≤ 2 ^ 32 -
        (fresh (stableIdsOf past.head?) build.codeTree.nodes "procedure").length := by
      refine nextIds_le.2 fun other hother hname => ?_
      have hroom := hhighest.procedureRoom hnil other hother hname
      have hsucc : saturatingSucc other.id ≤ other.id + 1 := Nat.min_le_left _ _
      omega
    omega

theorem usable (hkept : Kept past.head?) (hsound : SoundBuild md5 past build) :
    Usable md5 past build := by
  have hlimits := hsound.limits
  have hhighest := hsound.highest
  constructor
  · refine ⟨_, encode_eq_ok.2 ⟨validate_eq_ok.2 (persistentDatabase_valid hkept hlimits hhighest),
      persistentDatabase_fits hkept hlimits, ?_, rfl⟩⟩
    rw [length_payload]
    exact hlimits.payload
  · exact buildWithStableIds_ok (stableIds_keys _ _ _) hlimits.names
      (stableIds_numbers hkept hlimits hhighest) fun _ => procedure_lt hlimits hhighest

/-! ## Runs -/

/-- What holds of the databases so far. -/
structure Chronicle (past : List PersistentCompilerDatabase) : Prop where
  keeps : past.IsChain fun newer older => Keeps older newer
  identifies : ∀ one ∈ past, ∀ other ∈ past, Identifies one other
  kept : Kept past.head?

/-- A name that is still there keeps its identity, whatever the build. -/
theorem keeps_persistentDatabase {older : PersistentCompilerDatabase} (hvalid : older.Valid) :
    Keeps older (persistentDatabase md5 build (some older)) := by
  intro a ha b hb hkey
  have hprior := priorId_of_mem hvalid.names ha
  rw [hkey] at hprior
  exact (assignIds_kept hb hprior).symm

theorem Chronicle.identifies_new (h : Chronicle past) (hsound : SoundBuild md5 past build)
    {older : PersistentCompilerDatabase} (holder : older ∈ past) :
    Identifies older (persistentDatabase md5 build past.head?) := by
  intro a ha b hb hnumber
  obtain ⟨hnameSpace, hid⟩ := Prod.mk.inj hnumber
  rcases mem_stableIds hsound.limits hsound.highest hb with hmem | ⟨-, hlt⟩
  · cases hhead : past.head? with
    | none =>
      rw [hhead] at hmem
      cases hmem
    | some newest =>
      rw [hhead] at hmem
      exact h.identifies older holder newest (List.mem_of_head? hhead) a ha b hmem hnumber
  · have hless := hlt older holder a ha hnameSpace
    exact absurd hid (Nat.ne_of_lt hless)

theorem Chronicle.step (h : Chronicle past) (hsound : SoundBuild md5 past build) :
    Chronicle (persistentDatabase md5 build past.head? :: past) where
  keeps := by
    rw [List.isChain_cons]
    refine ⟨fun older holder => ?_, h.keeps⟩
    have hhead : past.head? = some older := holder
    rw [hhead]
    exact keeps_persistentDatabase (h.kept older hhead).1
  identifies := by
    have hself : Identifies (persistentDatabase md5 build past.head?)
        (persistentDatabase md5 build past.head?) := by
      intro a ha b hb hnumber
      have hnodup := stableIds_numbers h.kept hsound.limits hsound.highest
      have heq : a = b := List.inj_on_of_nodup_map hnodup ha hb hnumber
      rw [heq]
    intro one hone other hother
    rcases List.mem_cons.1 hone with rfl | hone
    · rcases List.mem_cons.1 hother with rfl | hother
      · exact hself
      · intro a ha b hb hnumber
        exact (h.identifies_new hsound hother b hb a ha hnumber.symm).symm
    · rcases List.mem_cons.1 hother with rfl | hother
      · exact h.identifies_new hsound hone
      · exact h.identifies one hone other hother
  kept := by
    intro db hdb
    cases hdb
    exact ⟨persistentDatabase_valid h.kept hsound.limits hsound.highest,
      persistentDatabase_fits h.kept hsound.limits⟩

theorem Chronicle.stable (h : Chronicle past) {builds : List Build}
    (hsound : EveryBuild md5 (SoundBuild md5) past builds) : Stable md5 past builds := by
  induction builds generalizing past with
  | nil => exact ⟨h.keeps, h.identifies, trivial⟩
  | cons build builds ih =>
    have hrest := ih (h.step hsound.1) hsound.2
    exact ⟨hrest.keeps, hrest.identifies, usable h.kept hsound.1, hrest.usable⟩

theorem Chronicle.start {start : Option PersistentCompilerDatabase}
    (hstart : ∀ db ∈ start, ∃ bytes, PersistentCompilerDatabase.decode md5 bytes = .ok db) :
    Chronicle start.toList := by
  cases start with
  | none =>
    exact ⟨List.IsChain.nil, fun one hone => absurd hone List.not_mem_nil, fun db hdb => by cases hdb⟩
  | some db =>
    obtain ⟨bytes, hbytes⟩ := hstart db rfl
    obtain ⟨-, hencode⟩ := decode_eq_ok.1 hbytes
    obtain ⟨hvalidate, hfits, -⟩ := encode_eq_ok.1 hencode
    have hvalid := validate_eq_ok.1 hvalidate
    refine ⟨List.IsChain.singleton db, fun one hone other hother a ha b hb hnumber => ?_, ?_⟩
    · rw [Option.toList_some, List.mem_singleton] at hone hother
      subst hone
      subst hother
      have heq : a = b := List.inj_on_of_nodup_map hvalid.numbers ha hb hnumber
      rw [heq]
    · intro head hhead
      cases hhead
      exact ⟨hvalid, hfits⟩

/-- The identities of a history are stable and unique, and every database can be used, if no
namespace takes a new name after it has lost its highest identity or without room for it. -/
theorem history_stable (md5 : Md5) (start : Option PersistentCompilerDatabase)
    (builds : List Build)
    (hstart : ∀ db ∈ start, ∃ bytes, PersistentCompilerDatabase.decode md5 bytes = .ok db)
    (hsound : EveryBuild md5 (SoundBuild md5) start.toList builds) :
    Stable md5 start.toList builds :=
  (Chronicle.start hstart).stable hsound

/-! ## Procedures that come and go -/

theorem procPaths_segments : ∀ segment ∈ ["proc", "a"] ++ ["proc", "b"], segment ≠ "" := by decide

def procA : DefinitionPath where
  segments := ["proc", "a"]
  nonempty := List.cons_ne_nil _ _
  segments_nonempty := fun segment h => procPaths_segments segment (List.mem_append_left _ h)

def procB : DefinitionPath where
  segments := ["proc", "b"]
  nonempty := List.cons_ne_nil _ _
  segments_nonempty := fun segment h => procPaths_segments segment (List.mem_append_right _ h)

/-- The tree of a project that declares these procedures. -/
def treeOf (paths : List DefinitionPath) : CodeTree :=
  (buildDefinitionUnits 40 (paths.zipIdx.map fun path =>
    ⟨⟨0, path.2, ⟨path.1, .procedure, ⟨0, 8⟩, []⟩⟩, path.2⟩) []).elim ⟨[], [], [], []⟩ (·.tree)

def buildOf (paths : List DefinitionPath) : Build := ⟨treeOf paths, [], [], zeroDigest, zeroDigest⟩

/-- A procedure is declared, and then renamed. -/
def renamedProcedure : List Build := [buildOf [procA], buildOf [procB]]

/-- A tree of a few names that are short and distinct. -/
def SmallTree (tree : CodeTree) : Prop :=
  tree.nodes.length ≤ 100 ∧ (tree.nodes.map nodeKey).Nodup ∧
    (∀ node ∈ tree.nodes, (utf8 (pathText node.path)).length ≤ 100) ∧
      (tree.nodes.map fun node =>
        24 + (utf8 (nodeKey node).1).length + (utf8 (nodeKey node).2).length).sum ≤ 10000

instance (tree : CodeTree) : Decidable (SmallTree tree) :=
  inferInstanceAs (Decidable (_ ∧ _))

theorem withinLimits_buildOf {paths : List DefinitionPath}
    {prior : Option PersistentCompilerDatabase} (hprior : preservedRuntime prior = none)
    (hsmall : SmallTree (treeOf paths)) : WithinLimits md5 prior (buildOf paths) := by
  obtain ⟨hnodes, hnames, hname, hsize⟩ := hsmall
  have hsections : buildSections md5 (buildOf paths) prior = [linkedManifest md5 (buildOf paths),
      ⟨persistentExecutableSection, [linkedFrontendSection], [], zeroDigest, []⟩] := by
    rw [buildSections, executableSections, hprior]
    rfl
  have hlinked : (linkedManifest md5 (buildOf paths)).sectionDependencies = [] := rfl
  refine ⟨Nat.zero_le _, List.nodup_nil, fun input h => absurd h List.not_mem_nil, ?_, hnames,
    fun node hnode => ?_, ?_, fun runtime hruntime => ?_, ?_⟩
  · exact Nat.le_trans hnodes (by decide)
  · exact Nat.le_trans (hname node hnode) (by decide)
  · have htwo : 2 ≤ maxRecords := by decide
    rw [hsections]
    exact htwo
  · rw [hprior] at hruntime
    cases hruntime
  · have hlimit : 88 + 0 + 10000 + 136 ≤ maxDatabaseBytes - headerLen := by decide
    refine Nat.le_trans ?_ hlimit
    rw [Build.payloadSize, hsections]
    refine Nat.add_le_add (Nat.add_le_add (Nat.le_refl _) hsize) (Nat.le_of_eq ?_)
    rw [List.map_cons, List.map_singleton, List.sum_cons, List.sum_singleton, hlinked]
    rfl

theorem keepsHighest_first {build : Build} {prior : Option PersistentCompilerDatabase}
    (hids : ∀ entry ∈ stableIdsOf prior, entry.id ≤ 100)
    (hnodes : build.codeTree.nodes.length ≤ 100) : KeepsHighest prior.toList build := by
  have hhead : prior.toList.head? = prior := by cases prior <;> rfl
  have hfresh (nameSpace : String) :
      (fresh (stableIdsOf prior) build.codeTree.nodes nameSpace).length ≤ 100 :=
    Nat.le_trans (List.length_filter_le _ _) hnodes
  have hmax : 200 < 2 ^ 32 ∧ 200 ≤ maxU64 := by decide
  constructor <;> rw [hhead]
  · intro nameSpace _ db hdb entry hentry hname
    obtain rfl := Option.mem_toList.1 hdb
    exact ⟨entry, hentry, hname, Nat.le_refl _⟩
  · intro nameSpace _ entry hentry _
    have hid := hids entry hentry
    have hlength := hfresh nameSpace
    omega
  · intro entry hentry _ _
    have hid := hids entry hentry
    omega
  · intro _ entry hentry _
    have hid := hids entry hentry
    have hlength := hfresh "procedure"
    omega

theorem renamedProcedure_stable : ¬ ∃ md5, ¬ Stable md5 [] renamedProcedure := by
  rintro ⟨md5, hnot⟩
  have hA : (∀ entry ∈ assignIds [] (nextIds []) (treeOf [procA]).nodes, entry.id ≤ 100) ∧
      SmallTree (treeOf [procA]) := by
    decide +kernel
  have hB : SmallTree (treeOf [procB]) := by
    decide +kernel
  refine hnot (history_stable md5 none renamedProcedure (fun db hdb => by cases hdb) ?_)
  refine ⟨⟨withinLimits_buildOf rfl hA.2, keepsHighest_first (fun entry hentry => ?_) hA.2.1⟩,
    ⟨withinLimits_buildOf rfl hB, ?_⟩, trivial⟩
  · exact absurd hentry List.not_mem_nil
  · show KeepsHighest (some (persistentDatabase md5 (buildOf [procA]) none)).toList _
    exact keepsHighest_first hA.1 hB.1

/-- A procedure is declared, then removed, and then another one is declared. -/
def replacedProcedure : List Build := [buildOf [procA], buildOf [], buildOf [procB]]

/-- The identities after each of the builds. -/
def replacedIds : List (List StableIdEntry) :=
  replacedProcedure.foldl (fun past build =>
    assignIds (past.head?.getD []) (nextIds (past.head?.getD [])) build.codeTree.nodes :: past) []

theorem replacedProcedure_not_stable : ¬ ∃ md5, Stable md5 [] replacedProcedure := by
  rintro ⟨md5, hstable⟩
  have hids : (run md5 [] replacedProcedure).map (·.stableIds) = replacedIds := rfl
  -- the oldest identities are the last ones
  have hfirst : ∃ ids ∈ replacedIds.drop 2, ⟨"procedure", "/proc/a", 0⟩ ∈ ids := by decide +kernel
  have hlast : ∃ ids ∈ replacedIds, ⟨"procedure", "/proc/b", 0⟩ ∈ ids := by decide +kernel
  rw [← hids] at hfirst hlast
  obtain ⟨_, hmem, ha⟩ := hfirst
  obtain ⟨one, hone, rfl⟩ := List.mem_map.1 (List.mem_of_mem_drop hmem)
  obtain ⟨_, hmem, hb⟩ := hlast
  obtain ⟨other, hother, rfl⟩ := List.mem_map.1 hmem
  have hname := hstable.identifies one hone other hother _ ha _ hb rfl
  exact absurd hname (by decide)

end Dream64.Compiler
