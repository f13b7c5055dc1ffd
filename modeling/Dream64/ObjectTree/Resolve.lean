import Dream64.ObjectTree.Parents

/-!
# Resolving the parents

`resolve_parent_assignments` applies the assignments, looks for cycles once and
gives the nodes on them the parents of their paths. What it leaves is
`resolvedParent`, a graph on the paths that the declarations determine. The
pending nodes of the loop over the declarations are what it starts from.
-/

namespace Dream64.ObjectTree

open ParentGraph

variable {nodes : List CodeNode} {paths : List CodePath} {definitions : List Definition}

/-- The parent of a path in the tree. -/
noncomputable def resolvedParent (definitions : List Definition) : CodePath → Option CodePath :=
  resetCycles (assignedParent definitions) (pathParent definitions)

/-- Only a type or a path with a stated parent has a parent. -/
theorem assignedParent_of_not_type {path : CodePath}
    (h : firstKind definitions path ≠ some .type) :
    assignedParent definitions path = appliedParent definitions path := by
  rw [assignedParent, if_neg h, Option.or_none]

theorem assignedParent_of_not_applied {path : CodePath}
    (h : appliedParent definitions path = none) (hsome : assignedParent definitions path ≠ none) :
    assignedParent definitions path = pathParent definitions path := by
  by_cases htype : firstKind definitions path = some .type
  · rw [assignedParent, h, if_pos htype, Option.none_or]
  · rw [assignedParent_of_not_type htype] at hsome
    exact absurd h hsome

theorem exists_parent_of_onCycle {path : CodePath}
    (h : OnCycle (assignedParent definitions) path) :
    ∃ above, assignedParent definitions path = some above := by
  obtain ⟨k, hk⟩ := h
  rw [climb_succ] at hk
  obtain ⟨above, habove, -⟩ := Option.bind_eq_some_iff.1 hk
  exact ⟨above, habove⟩

theorem parentOf_eq_some_lt {node parent : NodeId} (h : parentOf nodes node = some parent) :
    node < nodes.length := by
  by_contra hge
  rw [parentOf, List.getElem?_eq_none (Nat.le_of_not_lt hge)] at h
  cases h

/-- Every cycle has a type on it: a node that is not one has a parent that is. -/
theorem exists_type_of_onCycle (hindexed : Indexed definitions paths nodes)
    (hfollows : Follows paths nodes (assignedParent definitions)) {node : NodeId}
    (h : OnCycle (parentOf nodes) node) : ∃ k start,
      climb (parentOf nodes) k node = some start ∧ nodes[start]?.any (·.kind = .type) := by
  obtain ⟨k, hk⟩ := h
  rw [climb_succ] at hk
  obtain ⟨above, habove, -⟩ := Option.bind_eq_some_iff.1 hk
  have hlt := parentOf_eq_some_lt habove
  have hpath : paths[node]? = some (pathAt paths node) := by
    have hlt' : node < paths.length := hfollows.length ▸ hlt
    rw [pathAt_eq (List.getElem?_eq_getElem hlt')]
    exact List.getElem?_eq_getElem hlt'
  by_cases htype : firstKind definitions (pathAt paths node) = some .type
  · exact ⟨0, node, rfl, (hindexed.kind_eq hpath .type).2 htype⟩
  · have hparent := habove
    rw [hfollows.parentOf_eq node hlt, assignedParent_of_not_type htype] at hparent
    obtain ⟨target, htarget, hindex⟩ := Option.bind_eq_some_iff.1 hparent
    refine ⟨1, above, by rw [climb_one, habove], ?_⟩
    exact (hindexed.kind_eq ((nodeIndex_eq_some hindexed.nodup).1 hindex) .type).2
      (appliedParent_eq_some.1 htarget).2

section Resolve

variable {assignments : List PendingParentAssignment}

theorem resolveParentAssignments_spec (hindexed : Indexed definitions paths nodes)
    (hinit : PathParents paths nodes) (hstated : StatedBy definitions assignments) {fuel : Nat}
    {declarations : List TreeDeclaration} {resolved : List CodeNode × List InheritanceDiagnostic}
    (h : resolveParentAssignments fuel nodes paths declarations assignments = some resolved) :
    SameShape nodes resolved.1 ∧
      resolved.1.map CodeNode.links = nodes.map CodeNode.links ∧
      Follows paths resolved.1 (resolvedParent definitions) := by
  have happlied : AppliedParents definitions paths nodes assignments
      (assignments.foldl (applyAssignment paths) ⟨nodes, [], []⟩) :=
    applyAssignments hindexed hstated.nodup fun a ha => hstated.owner_mem hindexed ha
  rw [resolveParentAssignments] at h
  generalize assignments.foldl (applyAssignment paths) ⟨nodes, [], []⟩ = applied at h happlied
  have hfollows := happlied.follows hindexed hinit hstated
  have hindexed' := hindexed.of_sameShape happlied.shape
  obtain ⟨cycleNodes, hcycles, h⟩ := Option.bind_eq_some_iff.1 h
  have hfound := inheritanceCycleNodes_spec
    (fun node hnode => exists_type_of_onCycle hindexed' hfollows hnode) hcycles
  have hentries : ∀ entry ∈ applied.applied, entry.1 < applied.nodes.length := by
    intro entry hentry
    obtain ⟨a, -, hindex, -⟩ := (happlied.applied entry.1).1 (List.mem_map_of_mem hentry)
    rw [hfollows.length]
    exact (List.getElem?_eq_some_iff.1 ((nodeIndex_eq_some hindexed.nodup).1 hindex)).1
  obtain ⟨hshape, hlinks, hparents⟩ :=
    resetAssignments hindexed' cycleNodes applied.applied hentries applied.diagnostics
  generalize applied.applied.foldl (resetAssignment paths cycleNodes)
    (applied.nodes, applied.diagnostics) = reset at h hshape hlinks hparents
  cases h
  refine ⟨happlied.shape.trans hshape, hlinks.trans happlied.links, hindexed.nodup,
    hshape.length.trans hfollows.length, fun node hlt => ?_, fun path _ above habove => ?_⟩
  · have hlt' : node < applied.nodes.length := hshape.length ▸ hlt
    show parentOf reset.1 node = _
    have hmemCycle := (hfound node).trans (hfollows.onCycle_iff hlt')
    rw [hparents node, resolvedParent]
    by_cases hcycle : OnCycle (assignedParent definitions) (pathAt paths node)
    · rw [resetCycles_onCycle hcycle]
      by_cases hmem : node ∈ applied.applied.map (·.1)
      · rw [if_pos ⟨hmem, hmemCycle.2 hcycle⟩, defaultParentPath_bind hindexed]
      · -- no assignment: the parent was that of the path already
        have hnone : appliedParent definitions (pathAt paths node) = none := by
          by_contra hsome
          obtain ⟨target, htarget⟩ := Option.ne_none_iff_exists'.1 hsome
          have hparent := appliedParent_eq_some.1 htarget
          obtain ⟨a, ha, howner, -⟩ := hstated.exists_stated _ _ hparent.1
          have hlt'' : node < paths.length := hfollows.length ▸ hlt'
          have hindex : nodeIndex paths a.owner = some node := by
            rw [howner, nodeIndex_eq_some hindexed.nodup,
              pathAt_eq (List.getElem?_eq_getElem hlt''), List.getElem?_eq_getElem hlt'']
          refine hmem ((happlied.applied node).2 ⟨a, ha, hindex, ?_⟩)
          rw [targetIndex_eq (hstated.stated a ha), howner, htarget, Option.bind_some,
            nodeIndex_isSome, hindexed.mem_paths, hparent.2]
          rfl
        obtain ⟨above, habove⟩ := exists_parent_of_onCycle hcycle
        rw [if_neg fun h => hmem h.1, hfollows.parentOf_eq node hlt',
          assignedParent_of_not_applied hnone (by rw [habove]; exact Option.some_ne_none above)]
    · rw [if_neg fun h => hcycle (hmemCycle.1 h.2), resetCycles_not_onCycle hcycle,
        hfollows.parentOf_eq node hlt']
  · by_cases hcycle : OnCycle (assignedParent definitions) path
    · rw [resolvedParent, resetCycles_onCycle hcycle] at habove
      exact pathParent_mem hindexed habove
    · rw [resolvedParent, resetCycles_not_onCycle hcycle] at habove
      exact assignedParent_mem hindexed habove

theorem resolveParentAssignments_isSome (hindexed : Indexed definitions paths nodes)
    (hinit : PathParents paths nodes) (hstated : StatedBy definitions assignments) {fuel : Nat}
    (hfuel : paths.length + 2 ≤ fuel) (declarations : List TreeDeclaration) :
    (resolveParentAssignments fuel nodes paths declarations assignments).isSome := by
  have happlied : AppliedParents definitions paths nodes assignments
      (assignments.foldl (applyAssignment paths) ⟨nodes, [], []⟩) :=
    applyAssignments hindexed hstated.nodup fun a ha => hstated.owner_mem hindexed ha
  rw [resolveParentAssignments]
  generalize assignments.foldl (applyAssignment paths) ⟨nodes, [], []⟩ = applied at happlied
  have hfollows := happlied.follows hindexed hinit hstated
  obtain ⟨cycleNodes, hcycles⟩ := Option.isSome_iff_exists.1
    (inheritanceCycleNodes_isSome hfollows.parentsInRange (hfollows.length ▸ hfuel))
  rw [Option.bind_eq_bind, hcycles]
  rfl

end Resolve

/-! ## The pending nodes -/

section Pending

theorem map_attachDeclarations {β : Type} (g : CodeNode → β)
    (hg : ∀ (node : CodeNode) ids, g { node with declarations := ids } = g node)
    (nodes : List CodeNode) (declarations : List TreeDeclaration) :
    (attachDeclarations nodes declarations).map g = nodes.map g := by
  rw [attachDeclarations]
  induction declarations generalizing nodes with
  | nil => rfl
  | cons declaration declarations ih =>
    rw [List.foldl_cons, ih]
    exact map_modify g nodes _ fun n => hg n _

variable {acc : Declared}

theorem mem_pending_iff (h : Keeps acc definitions) (path : CodePath) :
    path ∈ acc.pending.toList.map (·.1) ↔ (firstKind definitions path).isSome := by
  rw [← h.kind path, pendingKind, Option.isSome_map]
  constructor
  · intro hmem
    obtain ⟨⟨_, node⟩, hentry, rfl⟩ := List.mem_map.1 hmem
    rw [Std.TreeMap.mem_toList_iff_getElem?_eq_some.1 hentry]
    rfl
  · intro hsome
    obtain ⟨node, hnode⟩ := Option.isSome_iff_exists.1 hsome
    exact List.mem_map.2 ⟨(path, node), Std.TreeMap.mem_toList_iff_getElem?_eq_some.2 hnode, rfl⟩

theorem nodup_keys {β : Type} (map : Std.TreeMap CodePath β) :
    (map.toList.map (·.1)).Nodup := by
  rw [List.Nodup, List.pairwise_map]
  refine map.distinct_keys_toList.imp fun hne heq => hne ?_
  rw [heq]
  exact Std.ReflCmp.compare_self

theorem pending_kind (h : Keeps acc definitions) {path : CodePath} {node : PendingNode}
    (hmem : (path, node) ∈ acc.pending.toList) : firstKind definitions path = some node.kind := by
  rw [← h.kind path, pendingKind, Std.TreeMap.mem_toList_iff_getElem?_eq_some.1 hmem]
  rfl

/-- The nodes before the parents are resolved. -/
def pendingNodes (acc : Declared) : List CodeNode :=
  attachDeclarations (initialNodes acc.pending.toList (acc.pending.toList.map (·.1)))
    (initialDeclarations acc.pending.toList)

theorem map_initialNodes {β : Type} (g : CodeNode → β) (pending : List (CodePath × PendingNode))
    (paths : List CodePath) (g' : CodePath × PendingNode → β)
    (hg : ∀ entry ∈ pending, ∀ (id : NodeId),
      g { id := id, path := entry.1, kind := entry.2.kind,
          parentType := defaultParentType entry.1 entry.2.kind paths,
          ownerType := ownerType entry.1 entry.2.kind paths, inheritedMember := none,
          childTypes := [], declarations := [], standard := entry.2.standard } = g' entry) :
    (initialNodes pending paths).map g = pending.map g' := by
  rw [initialNodes, List.map_map]
  refine List.ext_getElem? fun i => ?_
  rw [List.getElem?_map, List.getElem?_map, List.getElem?_zipIdx]
  cases hentry : pending[i]? with
  | none => rfl
  | some entry => exact congrArg some (hg entry (List.mem_of_getElem? hentry) _)

theorem Keeps.indexed (h : Keeps acc definitions) :
    Indexed definitions (acc.pending.toList.map (·.1)) (pendingNodes acc) := by
  refine ⟨nodup_keys _, mem_pending_iff h, ?_⟩
  rw [pendingNodes, map_attachDeclarations _ fun _ _ => rfl]
  generalize hpaths : acc.pending.toList.map (·.1) = paths
  rw [map_initialNodes CodeNode.shape acc.pending.toList paths (fun entry =>
    (entry.1, entry.2.kind, ownerType entry.1 entry.2.kind paths)) fun _ _ _ => rfl]
  rw [← hpaths, List.map_map, hpaths]
  refine List.map_congr_left fun entry hentry => ?_
  show _ = (entry.1, _)
  rw [pending_kind h hentry]
  rfl

theorem pathParents_pendingNodes (acc : Declared) :
    PathParents (acc.pending.toList.map (·.1)) (pendingNodes acc) := by
  have hmap := map_attachDeclarations
    (fun node : CodeNode => (node.parentType, node.path, node.kind)) (fun _ _ => rfl)
    (initialNodes acc.pending.toList (acc.pending.toList.map (·.1)))
    (initialDeclarations acc.pending.toList)
  intro node hnode
  have hmem : (node.parentType, node.path, node.kind) ∈
      (pendingNodes acc).map fun node => (node.parentType, node.path, node.kind) :=
    List.mem_map_of_mem hnode
  rw [pendingNodes, hmap, map_initialNodes _ _ _ (fun entry =>
    (defaultParentType entry.1 entry.2.kind (acc.pending.toList.map (·.1)), entry.1,
      entry.2.kind)) fun _ _ _ => rfl] at hmem
  obtain ⟨entry, -, heq⟩ := List.mem_map.1 hmem
  simp only [Prod.mk.injEq] at heq
  obtain ⟨hparent, hpath, hkind⟩ := heq
  rw [← hparent, ← hpath, ← hkind]

theorem links_pendingNodes {acc : Declared} {node : CodeNode} (h : node ∈ pendingNodes acc) :
    node.links = ([], none) := by
  have hmem : node.links ∈ (pendingNodes acc).map CodeNode.links := List.mem_map_of_mem h
  rw [pendingNodes, map_attachDeclarations _ (fun _ _ => rfl),
    map_initialNodes _ _ _ (fun _ => ([], none)) fun _ _ _ => rfl] at hmem
  obtain ⟨_, -, heq⟩ := List.mem_map.1 hmem
  exact heq.symm

theorem Keeps.statedBy (h : Keeps acc definitions) :
    StatedBy definitions (acc.assignments.toList.map (·.2)) := by
  have hentry : ∀ path a, (path, a) ∈ acc.assignments.toList →
      a.owner = path ∧ lastStated definitions path = some a.target := by
    intro path a hmem
    have hstated := h.stated path
    rw [Std.TreeMap.mem_toList_iff_getElem?_eq_some.1 hmem, Option.map_some] at hstated
    obtain ⟨target, htarget, heq⟩ := Option.map_eq_some_iff.1 hstated.symm
    cases heq
    exact ⟨rfl, htarget⟩
  refine ⟨?_, fun a ha => ?_, fun path target hlast => ?_⟩
  · have howners : (acc.assignments.toList.map (·.2)).map (·.owner) =
        acc.assignments.toList.map (·.1) := by
      rw [List.map_map]
      exact List.map_congr_left fun entry hmem => (hentry entry.1 entry.2 hmem).1
    rw [howners]
    exact nodup_keys _
  · obtain ⟨⟨path, a⟩, hmem, rfl⟩ := List.mem_map.1 ha
    obtain ⟨rfl, hlast⟩ := hentry path a hmem
    exact hlast
  · have hstated := h.stated path
    rw [hlast, Option.map_some] at hstated
    obtain ⟨a, ha, heq⟩ := Option.map_eq_some_iff.1 hstated
    cases heq
    exact ⟨a, List.mem_map.2 ⟨(_, a), Std.TreeMap.mem_toList_iff_getElem?_eq_some.2 ha, rfl⟩,
      rfl, rfl⟩

end Pending

end Dream64.ObjectTree
