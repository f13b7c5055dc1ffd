import Dream64.ObjectTree.Founded
import Dream64.ObjectTree.ArtifactCodec

/-!
# The tables of a built tree

The identities in the tables of a tree that has been built are the places of
the entries, and every reference is to an entry that there is.
-/

namespace Dream64.ObjectTree

open ParentGraph

variable {nodes : List CodeNode} {paths : List CodePath} {declarations : List TreeDeclaration}
  {definitions : List Definition} {fuel : Nat}

/-! ## Parents -/

/-- What the parents of the nodes do not change. -/
theorem map_resolveParentAssignments {β : Type} (g : CodeNode → β)
    (hg : ∀ (node : CodeNode) parent, g { node with parentType := parent } = g node)
    {assignments : List PendingParentAssignment}
    {resolved : List CodeNode × List InheritanceDiagnostic}
    (h : resolveParentAssignments fuel nodes paths declarations assignments = some resolved) :
    resolved.1.map g = nodes.map g := by
  have hset (nodes : List CodeNode) (owner : NodeId) (parent : Option NodeId) :
      (setParentType nodes owner parent).map g = nodes.map g :=
    map_modify g nodes owner fun n => hg n parent
  have happlied (entries : List PendingParentAssignment) (acc : Applied) :
      (entries.foldl (applyAssignment paths) acc).nodes.map g = acc.nodes.map g := by
    induction entries generalizing acc with
    | nil => rfl
    | cons assignment entries ih =>
      rw [List.foldl_cons, ih, applyAssignment]
      split
      · exact hset ..
      · rfl
      · rfl
  have hreset (cycleNodes : List NodeId) (entries : List (NodeId × PendingParentAssignment))
      (acc : List CodeNode × List InheritanceDiagnostic) :
      (entries.foldl (resetAssignment paths cycleNodes) acc).1.map g = acc.1.map g := by
    induction entries generalizing acc with
    | nil => rfl
    | cons entry entries ih =>
      rw [List.foldl_cons, ih, resetAssignment]
      split
      · exact hset ..
      · rfl
  obtain ⟨cycleNodes, -, h⟩ := Option.bind_eq_some_iff.1 h
  cases h
  exact (hreset ..).trans (happlied ..)

/-- A diagnostic names a declaration of the table. -/
theorem declaration_of_diagnostic {assignments : List PendingParentAssignment}
    {resolved : List CodeNode × List InheritanceDiagnostic}
    (h : resolveParentAssignments fuel nodes paths declarations assignments = some resolved)
    {diagnostic : InheritanceDiagnostic} (hmem : diagnostic ∈ resolved.2) {id : DeclarationId}
    (hid : diagnostic.declaration = some id) : id ∈ declarations.map (·.id) := by
  obtain ⟨cycleNodes, -, h⟩ := Option.bind_eq_some_iff.1 h
  cases h
  obtain ⟨_, -, rfl⟩ := List.mem_map.1 hmem
  obtain ⟨declaration, hfind, rfl⟩ := Option.map_eq_some_iff.1 hid
  exact List.mem_map_of_mem (List.mem_of_find?_eq_some hfind)

/-! ## Declarations -/

theorem map_id_initialNodes (pending : List (CodePath × PendingNode)) (paths : List CodePath) :
    (initialNodes pending paths).map (·.id) = List.range pending.length := by
  rw [initialNodes, List.map_map, List.range_eq_range']
  exact List.zipIdx_map_snd ..

theorem map_id_initialDeclarations (pending : List (CodePath × PendingNode)) :
    (initialDeclarations pending).map (·.id) = List.range (initialDeclarations pending).length := by
  rw [initialDeclarations, List.map_map, List.length_map, List.length_zipIdx, List.range_eq_range']
  exact List.zipIdx_map_snd ..

/-- A declaration is that of an entry. -/
theorem node_lt_of_mem_initialDeclarations {pending : List (CodePath × PendingNode)}
    {declaration : TreeDeclaration} (h : declaration ∈ initialDeclarations pending) :
    declaration.node < pending.length := by
  rw [initialDeclarations] at h
  obtain ⟨⟨before, id⟩, hmem, rfl⟩ := List.mem_map.1 h
  have hbefore := (List.mergeSort_perm _ _).mem_iff.1 (List.fst_mem_of_mem_zipIdx hmem)
  obtain ⟨⟨entry, node⟩, hentry, hbefore⟩ := List.mem_flatMap.1 hbefore
  obtain ⟨_, -, rfl⟩ := List.mem_map.1 hbefore
  exact List.snd_lt_of_mem_zipIdx hentry

/-- A node takes the identities of its declarations, in their order. -/
theorem attachDeclarations_declarations (nodes : List CodeNode)
    (declarations : List TreeDeclaration) (i : NodeId) :
    (attachDeclarations nodes declarations)[i]?.map (·.declarations) = nodes[i]?.map fun node =>
      node.declarations ++ (declarations.filter (·.node = i)).map (·.id) := by
  rw [attachDeclarations]
  induction declarations generalizing nodes with
  | nil => simp
  | cons declaration declarations ih =>
    rw [List.foldl_cons, ih, List.getElem?_modify, List.filter_cons]
    by_cases heq : declaration.node = i
    · cases nodes[i]? <;> simp [heq]
    · cases nodes[i]? <;> simp [heq]

/-! ## The whole tree -/

/-- The identities of the entries are their places, and no reference leads out of the tables. -/
structure CodeTree.Tabled (tree : CodeTree) : Prop where
  paths : tree.paths = tree.nodes.map (·.path)
  distinct : tree.paths.Nodup
  ids : tree.nodes.map (·.id) = List.range tree.nodes.length
  path : ∀ path ∈ tree.paths, path ≠ [] ∧ ∀ segment ∈ path, segment ≠ ""
  parentType : ∀ node ∈ tree.nodes, ∀ id, node.parentType = some id → id < tree.nodes.length
  ownerType : ∀ node ∈ tree.nodes, ∀ id, node.ownerType = some id → id < tree.nodes.length
  inheritedMember : ∀ node ∈ tree.nodes, ∀ id, node.inheritedMember = some id →
    id < tree.nodes.length
  childTypes : ∀ node ∈ tree.nodes, node.childTypes.Sublist (List.range tree.nodes.length)
  declarations : ∀ node ∈ tree.nodes, node.declarations.Sublist (List.range tree.declarations.length)
  declarationIds : tree.declarations.map (·.id) = List.range tree.declarations.length
  declared : ∀ declaration ∈ tree.declarations, declaration.node < tree.nodes.length
  diagnosed : ∀ diagnostic ∈ tree.inheritanceDiagnostics, ∀ id, diagnostic.declaration = some id →
    id < tree.declarations.length

/-- The paths that definitions mention have segments, none of them empty. -/
theorem segments_of_firstKind {path : CodePath} (h : (firstKind definitions path).isSome) :
    path ≠ [] ∧ ∀ segment ∈ path, segment ≠ "" := by
  obtain ⟨kind, hkind⟩ := Option.isSome_iff_exists.1 h
  have hmem := mem_of_lookup hkind
  rcases List.mem_append.1 hmem with hmem | hmem
  · obtain ⟨standard, hstandard, heq⟩ := List.mem_map.1 hmem
    cases heq
    have hall : ∀ path ∈ standardTypes, path ≠ [] ∧ ∀ segment ∈ path, segment ≠ "" := by decide
    exact hall path hstandard
  · obtain ⟨definition, -, hmention⟩ := List.mem_flatMap.1 hmem
    refine ⟨path_ne_nil h, fun segment hsegment => ?_⟩
    refine definition.path.segments_nonempty segment ?_
    unfold mentions at hmention
    dsimp only at hmention
    split at hmention
    · rcases List.mem_append.1 hmention with hmention | hmention
      · obtain ⟨length, -, heq⟩ := List.mem_map.1 hmention
        cases heq
        exact List.mem_of_mem_take hsegment
      · cases List.mem_singleton.1 hmention
        exact hsegment
    · cases hmention

theorem Finished.references (h : Finished definitions paths nodes) {node : CodeNode}
    (hmem : node ∈ nodes) :
    (∀ id, node.parentType = some id → id < nodes.length) ∧
      (∀ id, node.ownerType = some id → id < nodes.length) ∧
      (∀ id, node.inheritedMember = some id → id < nodes.length) ∧
      node.childTypes.Sublist (List.range nodes.length) := by
  obtain ⟨i, hi⟩ := List.getElem?_of_mem hmem
  refine ⟨fun id hid => ?_, fun id hid => ?_, fun id hid => ?_, ?_⟩
  · refine h.follows.parentsInRange i id ?_
    rw [parentOf, hi]
    exact hid
  · obtain ⟨-, -, howner⟩ := h.indexed.node hi
    rw [hid, eq_comm, ownerType_eq_some h.indexed.nodup] at howner
    rw [h.indexed.length]
    exact (List.getElem?_eq_some_iff.1 howner.2.2).1
  · obtain ⟨-, -, -, -, -, ⟨m, hm, -⟩, -⟩ := (h.inherits node hmem id).1 hid
    exact (List.getElem?_eq_some_iff.1 hm).1
  · rw [h.childTypes i node hi]
    exact List.filter_sublist

theorem finishTree_tabled {acc : Declared} (hkeeps : Keeps acc definitions) {output : BuildOutput}
    (h : finishTree fuel acc = some output) : output.tree.Tabled := by
  have hfinished := finishTree_finished hkeeps h
  have hpaths : output.tree.paths = output.tree.nodes.map (·.path) := by
    have hshape := congrArg (List.map Prod.fst) hfinished.indexed.shape
    rw [List.map_map, List.map_map] at hshape
    exact (hshape.trans (List.map_id _)).symm
  have hreferences {node : CodeNode} (hmem : node ∈ output.tree.nodes) :=
    hfinished.references hmem
  have hsegments (path : CodePath) (hmem : path ∈ output.tree.paths) :=
    segments_of_firstKind ((hfinished.indexed.mem_paths path).1 hmem)
  rw [finishTree] at h
  obtain ⟨resolved, hresolved, h⟩ := Option.bind_eq_some_iff.1 h
  obtain ⟨finished, hattached, h⟩ := Option.bind_eq_some_iff.1 h
  cases h
  have hmap {β : Type} (g : CodeNode → β)
      (hparent : ∀ (node : CodeNode) parent, g { node with parentType := parent } = g node)
      (hchildren : ∀ (node : CodeNode) ids, g { node with childTypes := ids } = g node)
      (hmember : ∀ (node : CodeNode) member, g { node with inheritedMember := member } = g node) :
      finished.map g = (pendingNodes acc).map g :=
    ((map_attachInheritedMembers g hmember hattached).trans
      (map_attachChildren g hchildren resolved.1)).trans
        (map_resolveParentAssignments g hparent hresolved)
  have hlength : finished.length = acc.pending.toList.length := by
    rw [hfinished.indexed.length]
    exact List.length_map _
  have hids : finished.map (·.id) = List.range finished.length := by
    rw [hmap (·.id) (fun _ _ => rfl) (fun _ _ => rfl) fun _ _ => rfl, hlength, pendingNodes,
      map_attachDeclarations (·.id) fun _ _ => rfl]
    exact map_id_initialNodes ..
  have hdeclarations : ∀ node ∈ finished, node.declarations.Sublist
      (List.range (initialDeclarations acc.pending.toList).length) := by
    intro node hmem
    have hmem : node.declarations ∈ finished.map (·.declarations) := List.mem_map_of_mem hmem
    rw [hmap (·.declarations) (fun _ _ => rfl) (fun _ _ => rfl) fun _ _ => rfl] at hmem
    obtain ⟨before, hbefore, heq⟩ := List.mem_map.1 hmem
    obtain ⟨i, hi⟩ := List.getElem?_of_mem hbefore
    have hattach := attachDeclarations_declarations
      (initialNodes acc.pending.toList (acc.pending.toList.map (·.1)))
      (initialDeclarations acc.pending.toList) i
    rw [← pendingNodes, hi, Option.map_some] at hattach
    obtain ⟨initial, hinitial, hdeclared⟩ := Option.map_eq_some_iff.1 hattach.symm
    have hnone : initial.declarations = [] := by
      have hmem : initial.declarations ∈ (initialNodes acc.pending.toList
        (acc.pending.toList.map (·.1))).map (·.declarations) :=
          List.mem_map_of_mem (List.mem_of_getElem? hinitial)
      rw [map_initialNodes _ _ _ (fun _ => []) fun _ _ _ => rfl] at hmem
      obtain ⟨_, -, heq⟩ := List.mem_map.1 hmem
      exact heq.symm
    rw [hnone, List.nil_append] at hdeclared
    rw [← heq, ← hdeclared, ← map_id_initialDeclarations]
    exact List.filter_sublist.map _
  exact {
    paths := hpaths
    distinct := hfinished.indexed.nodup
    ids := hids
    path := hsegments
    parentType := fun node hmem => (hreferences hmem).1
    ownerType := fun node hmem => (hreferences hmem).2.1
    inheritedMember := fun node hmem => (hreferences hmem).2.2.1
    childTypes := fun node hmem => (hreferences hmem).2.2.2
    declarations := hdeclarations
    declarationIds := map_id_initialDeclarations _
    declared := fun declaration hmem => hlength ▸ node_lt_of_mem_initialDeclarations hmem
    diagnosed := fun diagnostic hmem id hid => by
      have hid := declaration_of_diagnostic hresolved hmem hid
      rw [map_id_initialDeclarations] at hid
      exact List.mem_range.1 hid }

end Dream64.ObjectTree

/-!
# Built trees and accepted artifacts

The decoder gives a built tree back exactly if every count, position and ordinal
of it is within the limits of the reader (`decode_encode_iff`). What it accepts it
encodes again; that the tree is sorted and founded is not checked, and so holds
of the artifacts of well-parented declarations (`compiledArtifact_iff`).
-/

namespace Dream64.ObjectTree

open Codec ParentGraph

/-! ## Built trees -/

/-- No count, position or ordinal of the tree is above the limits of the decoder. -/
structure CodeTree.WithinLimits (tree : CodeTree) : Prop where
  nodes : FitsLen tree.nodes.length
  paths : ∀ path ∈ tree.paths, FitsLen path.length ∧ ∀ segment ∈ path, FitsString segment
  declarations : FitsLen tree.declarations.length
  declaration : ∀ declaration ∈ tree.declarations, IsU32 declaration.fileId ∧
    FitsLen declaration.definitionIndex ∧ FitsLen declaration.ordinal ∧ FitsSpan declaration.span
  diagnostics : FitsLen tree.inheritanceDiagnostics.length
  diagnostic : ∀ diagnostic ∈ tree.inheritanceDiagnostics, FitsPath diagnostic.owner ∧
    (∀ path, diagnostic.target = some path → FitsPath path) ∧ IsU32 diagnostic.fileId ∧
      FitsSpan diagnostic.span ∧ FitsLen diagnostic.declarationOrdinal

theorem IsU32.of_lt {id count : Nat} (hcount : FitsLen count) (hlt : id < count) : IsU32 id := by
  rw [FitsLen, maxArtifactItems] at hcount
  rw [IsU32]
  omega

theorem FitsLen.of_sublist {ids : List Nat} {count : Nat} (hcount : FitsLen count)
    (h : ids.Sublist (List.range count)) :
    FitsLen ids.length ∧ ∀ id ∈ ids, IsU32 id := by
  refine ⟨?_, fun id hid => ?_⟩
  · have hle := h.length_le
    rw [List.length_range] at hle
    exact hle.trans hcount
  · exact .of_lt hcount (List.mem_range.1 (h.subset hid))

/-- The identity of an entry is its place. -/
theorem id_eq_of_map {α : Type} {f : α → Nat} {entries : List α}
    (h : entries.map f = List.range entries.length) {i : Nat} {entry : α}
    (hentry : entries[i]? = some entry) : f entry = i := by
  have hi := congrArg (fun l => l[i]?) h
  have hlt := (List.getElem?_eq_some_iff.1 hentry).1
  simp only [List.getElem?_map, hentry, Option.map_some, List.getElem?_range hlt] at hi
  exact Option.some.inj hi

namespace CodeTree.Tabled

variable {tree : CodeTree} (h : tree.Tabled)

include h

theorem consistent : Consistent tree where
  references node hmem id hid := by
    simp only [CodeNode.references, List.mem_append, Option.mem_toList] at hid
    rcases hid with ((hid | hid) | hid) | hid
    · exact h.parentType node hmem id hid
    · exact h.ownerType node hmem id hid
    · exact h.inheritedMember node hmem id hid
    · exact List.mem_range.1 ((h.childTypes node hmem).subset hid)
  declarations node hmem id hid := List.mem_range.1 ((h.declarations node hmem).subset hid)
  declared := h.declared
  diagnosed := h.diagnosed
  distinct := h.paths ▸ h.distinct

theorem fits_iff : FitsTree tree ↔ tree.WithinLimits := by
  constructor
  · intro hfits
    obtain ⟨hnodes, hnode⟩ := hfits.nodes
    obtain ⟨hdeclarations, hdeclaration⟩ := hfits.declarations
    obtain ⟨hdiagnostics, hdiagnostic⟩ := hfits.inheritanceDiagnostics
    refine ⟨hnodes, fun path hpath => ?_, hdeclarations, fun declaration hmem => ?_, hdiagnostics,
      fun diagnostic hmem => ?_⟩
    · rw [h.paths] at hpath
      obtain ⟨node, hmem, rfl⟩ := List.mem_map.1 hpath
      obtain ⟨i, hi⟩ := List.getElem?_of_mem hmem
      obtain ⟨-, hlength, hsegments⟩ := (hnode i node hi).path
      exact ⟨hlength, fun segment hsegment => (hsegments segment hsegment).2⟩
    · obtain ⟨i, hi⟩ := List.getElem?_of_mem hmem
      have hfits := hdeclaration i declaration hi
      exact ⟨hfits.fileId, hfits.definitionIndex, hfits.ordinal, hfits.span⟩
    · have hfits := hdiagnostic diagnostic hmem
      exact ⟨hfits.owner, hfits.target, hfits.fileId, hfits.span, hfits.declarationOrdinal⟩
  · intro hlimits
    refine ⟨⟨hlimits.nodes, fun i node hi => ?_⟩, ⟨hlimits.declarations, fun i declaration hi => ?_⟩,
      ⟨hlimits.diagnostics, fun diagnostic hmem => ?_⟩, h.paths⟩
    · have hmem := List.mem_of_getElem? hi
      have hid : node.id = i := id_eq_of_map h.ids hi
      have hlt : i < tree.nodes.length := (List.getElem?_eq_some_iff.1 hi).1
      have hpath : node.path ∈ tree.paths := h.paths ▸ List.mem_map_of_mem hmem
      obtain ⟨hnil, hempty⟩ := h.path node.path hpath
      obtain ⟨hlength, hsegments⟩ := hlimits.paths node.path hpath
      exact {
        id := hid
        u32 := hid ▸ .of_lt hlimits.nodes hlt
        path := ⟨hnil, hlength, fun segment hsegment =>
          ⟨hempty segment hsegment, hsegments segment hsegment⟩⟩
        parentType := fun id hid => .of_lt hlimits.nodes (h.parentType node hmem id hid)
        ownerType := fun id hid => .of_lt hlimits.nodes (h.ownerType node hmem id hid)
        inheritedMember := fun id hid => .of_lt hlimits.nodes (h.inheritedMember node hmem id hid)
        childTypes := FitsLen.of_sublist hlimits.nodes (h.childTypes node hmem)
        declarations := FitsLen.of_sublist hlimits.declarations (h.declarations node hmem) }
    · have hmem := List.mem_of_getElem? hi
      have hid : declaration.id = i := id_eq_of_map h.declarationIds hi
      have hlt : i < tree.declarations.length := (List.getElem?_eq_some_iff.1 hi).1
      obtain ⟨hfile, hindex, hordinal, hspan⟩ := hlimits.declaration declaration hmem
      exact ⟨hid, hid ▸ .of_lt hlimits.declarations hlt,
        .of_lt hlimits.nodes (h.declared declaration hmem), hfile, hindex, hordinal, hspan⟩
    · obtain ⟨howner, htarget, hfile, hspan, hordinal⟩ := hlimits.diagnostic diagnostic hmem
      exact ⟨howner, htarget, fun id hid =>
        .of_lt hlimits.declarations (h.diagnosed diagnostic hmem id hid), hfile, hspan, hordinal⟩

/-- The decoder gives the tree back if it is within the limits. -/
theorem decode_encode_iff :
    CodeTree.decodeCompiledArtifact tree.encodeCompiledArtifact = .ok tree ↔ tree.WithinLimits := by
  rw [decodeCompiledArtifact_eq_ok, ← h.fits_iff]
  exact ⟨fun h => h.2.1, fun hfits => ⟨rfl, hfits, h.consistent⟩⟩

end CodeTree.Tabled

/-! ## Accepted artifacts -/

/-- What those who walk a tree rely on. -/
structure CodeTree.Sound (tree : CodeTree) : Prop where
  sorted : tree.nodes.Pairwise fun a b => compare a.path b.path = .lt
  ends : ∀ node < tree.nodes.length, Ends (parentOf tree.nodes) node
  children : ∀ i node, tree.nodes[i]? = some node → ∀ child,
    child ∈ node.childTypes ↔ parentOf tree.nodes child = some i
  parent_isType : ∀ node ∈ tree.nodes, ∀ parent, node.parentType = some parent →
    IsType tree.nodes parent
  owner_isType : ∀ node ∈ tree.nodes, ∀ owner, node.ownerType = some owner →
    IsType tree.nodes owner

/-- Whatever tree the decoder reads from the artifact is sound. -/
def AcceptedSound (bytes : Bytes) : Prop :=
  ∀ tree, CodeTree.decodeCompiledArtifact bytes = .ok tree → tree.Sound

theorem acceptedSound_encode_iff {tree : CodeTree}
    (h : CodeTree.decodeCompiledArtifact tree.encodeCompiledArtifact = .ok tree) :
    AcceptedSound tree.encodeCompiledArtifact ↔ tree.Sound := by
  constructor
  · exact fun hsound => hsound tree h
  · intro hsound accepted haccepted
    cases h.symm.trans haccepted
    exact hsound

theorem finishTree_sorted {acc : Declared} (hkeeps : Keeps acc definitions) {output : BuildOutput}
    (h : finishTree fuel acc = some output) :
    output.tree.nodes.Pairwise fun a b => compare a.path b.path = .lt := by
  have hpaths := (finishTree_tabled hkeeps h).paths
  rw [finishTree] at h
  obtain ⟨resolved, -, h⟩ := Option.bind_eq_some_iff.1 h
  obtain ⟨finished, -, h⟩ := Option.bind_eq_some_iff.1 h
  cases h
  have hordered : (acc.pending.toList.map (·.1)).Pairwise fun a b => compare a b = .lt :=
    List.pairwise_map.2 Std.TreeMap.ordered_keys_toList
  rw [show acc.pending.toList.map (·.1) = finished.map (·.path) from hpaths] at hordered
  exact List.pairwise_map.1 hordered

/-- A built tree is sound exactly for well-parented declarations. -/
theorem finishTree_sound_iff {acc : Declared} (hkeeps : Keeps acc definitions)
    {output : BuildOutput} (h : finishTree fuel acc = some output) :
    output.tree.Sound ↔ WellParented definitions := by
  have hfinished := finishTree_finished hkeeps h
  constructor
  · intro hsound
    refine hfinished.wellParented_of_founded rfl ⟨fun node hnode => ?_, hsound.parent_isType,
      hsound.owner_isType, fun i node hi => ?_, hfinished.inherits⟩
    · obtain ⟨n, hn, -⟩ := hnode
      exact hsound.ends node (List.getElem?_eq_some_iff.1 hn).1
    · have hchildren := hsound.children i node hi
      rw [hfinished.childTypes i node hi] at hchildren ⊢
      refine List.filter_congr fun child hmem => ?_
      rw [Bool.eq_iff_iff, decide_eq_true_iff, ← hchildren child, List.mem_filter]
      exact (and_iff_right hmem).symm
  · intro hwell
    have hfounded := hfinished.founded_of_wellParented hwell rfl
    refine ⟨finishTree_sorted hkeeps h, fun node hlt => hfinished.follows.ends hwell hlt,
      fun i node hi child => ?_, hfounded.parent_isType, hfounded.owner_isType⟩
    rw [hfounded.childTypes i node hi, List.mem_filter, decide_eq_true_iff, List.mem_range]
    refine and_iff_right_of_imp fun hparent => ?_
    obtain ⟨n, hn, -⟩ := Option.bind_eq_some_iff.1 hparent
    exact (List.getElem?_eq_some_iff.1 hn).1

/-- The codec gives every built tree back that is within the limits, and only those; what it reads
from the artifact of one is sound exactly for well-parented declarations; what it accepts it encodes
again. -/
theorem compiledArtifact_iff (fuel : Nat) (units : List OrderedDefinitionUnit)
    (diagnostics : List TreeDiagnostic) :
    (∀ output ∈ buildDefinitionUnits fuel units diagnostics,
      (CodeTree.decodeCompiledArtifact output.tree.encodeCompiledArtifact = .ok output.tree ↔
        output.tree.WithinLimits) ∧
      (output.tree.WithinLimits → (AcceptedSound output.tree.encodeCompiledArtifact ↔
        WellParented (units.map (·.unit.definition))))) ∧
    ∀ bytes tree, CodeTree.decodeCompiledArtifact bytes = .ok tree →
      tree.encodeCompiledArtifact = bytes := by
  refine ⟨fun output houtput => ?_, fun bytes tree hdecode => ?_⟩
  · have hkeeps := declareAll_keeps units diagnostics
    have hdecode := (finishTree_tabled hkeeps houtput).decode_encode_iff
    exact ⟨hdecode, fun hlimits => (acceptedSound_encode_iff (hdecode.2 hlimits)).trans
      (finishTree_sound_iff hkeeps houtput)⟩
  · exact (decodeCompiledArtifact_eq_ok.1 hdecode).1.symm

/-! ## A large file and a cycle -/

theorem farPath_nonempty : ["a"] ≠ [] := List.cons_ne_nil "a" []

theorem farPath_segments : ∀ segment ∈ ["a"], segment ≠ "" := by decide

def farPath : DefinitionPath := ⟨["a"], farPath_nonempty, farPath_segments⟩

/-- A declaration behind the first sixteen mebibytes of its file. -/
def farUnits : List OrderedDefinitionUnit :=
  [⟨⟨0, 0, ⟨farPath, .type, ⟨16777217, 16777219⟩, []⟩⟩, 0⟩]

/-- A type that is its own parent. -/
def selfParent : CodeTree where
  nodes := [⟨0, ["a"], .type, some 0, none, none, [], [], false⟩]
  declarations := []
  paths := [["a"]]
  inheritanceDiagnostics := []

theorem compiledArtifact_not_faithful :
    (∃ output ∈ buildDefinitionUnits 40 farUnits [],
      CodeTree.decodeCompiledArtifact output.tree.encodeCompiledArtifact ≠ .ok output.tree) ∧
      ∃ tree, CodeTree.decodeCompiledArtifact selfParent.encodeCompiledArtifact = .ok tree ∧
        ¬ tree.Sound := by
  constructor
  · have hfar : ((buildDefinitionUnits 40 farUnits []).any fun output =>
        output.tree.declarations.any fun declaration =>
          maxArtifactItems < declaration.span.start) = true := by decide +kernel
    obtain ⟨output, houtput, hany⟩ := Option.any_eq_true _ _ |>.1 hfar
    obtain ⟨declaration, hmem, hlt⟩ := List.any_eq_true.1 hany
    refine ⟨output, houtput, fun hdecode => ?_⟩
    have htabled := finishTree_tabled (declareAll_keeps farUnits []) houtput
    obtain ⟨-, -, -, -, hstart, -⟩ :=
      (htabled.decode_encode_iff.1 hdecode).declaration declaration hmem
    exact absurd (of_decide_eq_true hlt) (Nat.not_lt.2 hstart)
  · have haccepted : ((CodeTree.decodeCompiledArtifact
        selfParent.encodeCompiledArtifact).toOption.any fun tree =>
          0 < tree.nodes.length ∧ parentOf tree.nodes 0 = some 0) = true := by decide +kernel
    cases hdecode : CodeTree.decodeCompiledArtifact selfParent.encodeCompiledArtifact with
    | error message =>
      rw [hdecode] at haccepted
      cases haccepted
    | ok tree =>
      rw [hdecode] at haccepted
      obtain ⟨hlength, hparent⟩ := of_decide_eq_true haccepted
      refine ⟨tree, rfl, fun hsound => ?_⟩
      have hcycle : OnCycle (parentOf tree.nodes) 0 := ⟨0, by rw [climb_succ, hparent]; rfl⟩
      exact hcycle.not_ends (hsound.ends 0 hlength)

end Dream64.ObjectTree
