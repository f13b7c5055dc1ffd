import Dream64.ObjectTree.Cycles
import Dream64.ObjectTree.Declarations

/-!
# The parents in the tree

The tree names its nodes by their index in path order. `Indexed` says that a
list of nodes has the paths, the kinds and the owners of the declarations at
these indices, which no step of the construction changes. Over it, the parent
of every node is the one the declarations assign, and once the assignments on
cycles are taken back it is that of `resetCycles`.
-/

namespace Dream64.ObjectTree

open ParentGraph

variable {nodes : List CodeNode} {paths : List CodePath} {definitions : List Definition}

variable {path : CodePath}

/-- The index of a path, the other way round. -/
theorem nodeIndex_eq_some (hnodup : paths.Nodup) {node : NodeId} :
    nodeIndex paths path = some node ↔ paths[node]? = some path := by
  rw [nodeIndex, List.idxOf?, List.findIdx?_eq_some_iff_getElem]
  constructor
  · rintro ⟨hlt, heq, -⟩
    rw [List.getElem?_eq_getElem hlt, eq_of_beq heq]
  · intro h
    obtain ⟨hlt, heq⟩ := List.getElem?_eq_some_iff.1 h
    refine ⟨hlt, by rw [heq]; exact beq_self_eq_true _, fun j hj hbeq => ?_⟩
    have hsame := hnodup.getElem_inj_iff.1 ((eq_of_beq hbeq).trans heq.symm)
    omega

theorem nodeIndex_isSome : (nodeIndex paths path).isSome ↔ path ∈ paths := by
  rw [nodeIndex, List.idxOf?, List.findIdx?_isSome, List.any_eq_true]
  constructor
  · rintro ⟨p, hp, hbeq⟩
    exact eq_of_beq hbeq ▸ hp
  · intro h
    exact ⟨path, h, beq_self_eq_true _⟩

/-- The path of an index. -/
def pathAt (paths : List CodePath) (node : NodeId) : CodePath := paths.getD node []

theorem pathAt_eq {node : NodeId} (h : paths[node]? = some path) : pathAt paths node = path := by
  rw [pathAt, List.getD_eq_getElem?_getD, h]
  rfl

theorem nodeIndex_map_pathAt (hnodup : paths.Nodup) (h : path ∈ paths) :
    (nodeIndex paths path).map (pathAt paths) = some path := by
  obtain ⟨node, hnode⟩ := Option.isSome_iff_exists.1 (nodeIndex_isSome.2 h)
  rw [hnode, Option.map_some, pathAt_eq ((nodeIndex_eq_some hnodup).1 hnode)]

/-- What no step of the construction changes. -/
def CodeNode.shape (node : CodeNode) : CodePath × NodeKind × Option NodeId :=
  (node.path, node.kind, node.ownerType)

/-- What the last two passes fill in. -/
def CodeNode.links (node : CodeNode) : List NodeId × Option NodeId :=
  (node.childTypes, node.inheritedMember)

/-- Lists of nodes with the same paths, kinds and owners. -/
def SameShape (nodes nodes' : List CodeNode) : Prop :=
  nodes'.map CodeNode.shape = nodes.map CodeNode.shape

variable {nodes' : List CodeNode}

theorem SameShape.length (h : SameShape nodes nodes') : nodes'.length = nodes.length := by
  simpa using congrArg List.length h

theorem SameShape.trans {nodes'' : List CodeNode} (h : SameShape nodes nodes')
    (h' : SameShape nodes' nodes'') : SameShape nodes nodes'' := Eq.trans h' h

/-- An update that a function of the nodes does not see. -/
theorem map_modify {β : Type} (g : CodeNode → β) (nodes : List CodeNode) (node : NodeId)
    {f : CodeNode → CodeNode} (hf : ∀ n, g (f n) = g n) :
    (nodes.modify node f).map g = nodes.map g := by
  refine List.ext_getElem? fun i => ?_
  rw [List.getElem?_map, List.getElem?_map, List.getElem?_modify]
  cases nodes[i]? with
  | none => rfl
  | some n =>
    by_cases heq : node = i
    · simp [heq, hf]
    · simp [heq]

theorem parentOf_setParentType (nodes : List CodeNode) (owner : NodeId) (parent : Option NodeId)
    (node : NodeId) : parentOf (setParentType nodes owner parent) node =
      if owner = node ∧ node < nodes.length then parent else parentOf nodes node := by
  rw [parentOf, parentOf, setParentType, List.getElem?_modify]
  rcases Nat.lt_or_ge node nodes.length with hlt | hge
  · rw [List.getElem?_eq_getElem hlt]
    by_cases heq : owner = node
    · simp [heq, hlt]
    · simp [heq]
  · rw [List.getElem?_eq_none hge]
    have hnot : ¬ node < nodes.length := Nat.not_lt.2 hge
    simp [hnot]

/-- The nodes of the declarations, in path order. -/
structure Indexed (definitions : List Definition) (paths : List CodePath)
    (nodes : List CodeNode) : Prop where
  nodup : paths.Nodup
  mem_paths : ∀ path, path ∈ paths ↔ (firstKind definitions path).isSome
  shape : nodes.map CodeNode.shape = paths.map fun path =>
    (path, (firstKind definitions path).getD .type,
      ownerType path ((firstKind definitions path).getD .type) paths)

theorem Indexed.of_sameShape (h : Indexed definitions paths nodes) (hsame : SameShape nodes nodes')
    : Indexed definitions paths nodes' :=
  ⟨h.nodup, h.mem_paths, Eq.trans hsame h.shape⟩

theorem Indexed.length (h : Indexed definitions paths nodes) : nodes.length = paths.length := by
  simpa using congrArg List.length h.shape

variable {i : NodeId}

theorem Indexed.node (h : Indexed definitions paths nodes) {node : CodeNode}
    (hnode : nodes[i]? = some node) :
    paths[i]? = some node.path ∧ firstKind definitions node.path = some node.kind ∧
      node.ownerType = ownerType node.path node.kind paths := by
  have hshape := congrArg (fun l => l[i]?) h.shape
  simp only [List.getElem?_map, hnode, Option.map_some] at hshape
  cases hpath : paths[i]? with
  | none => rw [hpath] at hshape; cases hshape
  | some path =>
    rw [hpath] at hshape
    simp only [Option.map_some, CodeNode.shape, Option.some.injEq, Prod.mk.injEq] at hshape
    obtain ⟨rfl, hkind, howner⟩ := hshape
    obtain ⟨kind, hsome⟩ := Option.isSome_iff_exists.1
      ((h.mem_paths node.path).1 (List.mem_of_getElem? hpath))
    rw [hsome, Option.getD_some] at hkind howner
    exact ⟨rfl, hsome.trans (congrArg some hkind.symm), by rw [howner, hkind]⟩

theorem Indexed.exists_node (h : Indexed definitions paths nodes) (hpath : paths[i]? = some path) :
    ∃ node, nodes[i]? = some node ∧ node.path = path := by
  have hlt : i < nodes.length := by
    rw [h.length]
    exact (List.getElem?_eq_some_iff.1 hpath).1
  refine ⟨nodes[i], List.getElem?_eq_getElem hlt, ?_⟩
  have hnode := (h.node (List.getElem?_eq_getElem hlt)).1
  rw [hpath] at hnode
  exact (Option.some.inj hnode).symm

/-- A path that is in the tree, by its kind. -/
theorem Indexed.kind_eq (h : Indexed definitions paths nodes) (hpath : paths[i]? = some path)
    (kind : NodeKind) : (nodes[i]?.any fun node => decide (node.kind = kind)) = true ↔
      firstKind definitions path = some kind := by
  obtain ⟨node, hnode, rfl⟩ := h.exists_node hpath
  rw [hnode, (h.node hnode).2.1]
  simp

/-! ## Assignments -/

/-- The index of the type that an assignment names. -/
def targetIndex (definitions : List Definition) (paths : List CodePath)
    (assignment : PendingParentAssignment) : Option NodeId :=
  (assignment.target.filter fun target => firstKind definitions target = some .type).bind
    (nodeIndex paths)

theorem assignmentTarget_eq (h : Indexed definitions paths nodes)
    (assignment : PendingParentAssignment) (target : NodeId) :
    assignmentTarget nodes paths assignment = .ok target ↔
      targetIndex definitions paths assignment = some target := by
  rw [assignmentTarget, targetIndex]
  cases assignment.target with
  | none => simp
  | some path =>
    dsimp only
    by_cases htype : firstKind definitions path = some .type
    · have hfilter : (some path).filter (fun target =>
          decide (firstKind definitions target = some .type)) = some path := by
        simp [Option.filter, htype]
      rw [hfilter, Option.bind_some]
      cases hindex : nodeIndex paths path with
      | none => simp
      | some node =>
        have hkind := h.kind_eq ((nodeIndex_eq_some h.nodup).1 hindex) .type
        dsimp only
        rw [if_pos (hkind.2 htype)]
        simp
    · have hfilter : (some path).filter (fun target =>
          decide (firstKind definitions target = some .type)) = none := by
        simp [Option.filter, htype]
      rw [hfilter, Option.bind_none]
      cases hindex : nodeIndex paths path with
      | none => simp
      | some node =>
        have hkind := h.kind_eq ((nodeIndex_eq_some h.nodup).1 hindex) .type
        dsimp only
        rw [if_neg fun hany => htype (hkind.1 hany)]
        simp

/-- What applying the assignments so far has done to the parents. -/
structure AppliedParents (definitions : List Definition) (paths : List CodePath)
    (nodes : List CodeNode) (assignments : List PendingParentAssignment) (acc : Applied) :
    Prop where
  shape : SameShape nodes acc.nodes
  links : acc.nodes.map CodeNode.links = nodes.map CodeNode.links
  applied : ∀ node, node ∈ acc.applied.map (·.1) ↔ ∃ a ∈ assignments,
    nodeIndex paths a.owner = some node ∧ (targetIndex definitions paths a).isSome
  assigned : ∀ a ∈ assignments, ∀ node target, nodeIndex paths a.owner = some node →
    targetIndex definitions paths a = some target → parentOf acc.nodes node = some target
  kept : ∀ node, (∀ a ∈ assignments, nodeIndex paths a.owner = some node →
    targetIndex definitions paths a = none) → parentOf acc.nodes node = parentOf nodes node

theorem setParentType_shape (nodes : List CodeNode) (owner : NodeId) (parent : Option NodeId) :
    SameShape nodes (setParentType nodes owner parent) :=
  map_modify CodeNode.shape nodes owner fun _ => rfl

theorem setParentType_links (nodes : List CodeNode) (owner : NodeId) (parent : Option NodeId) :
    (setParentType nodes owner parent).map CodeNode.links = nodes.map CodeNode.links :=
  map_modify CodeNode.links nodes owner fun _ => rfl

variable {assignments : List PendingParentAssignment} {a : PendingParentAssignment}

theorem AppliedParents.snoc {acc : Applied} (hindexed : Indexed definitions paths nodes)
    (h : AppliedParents definitions paths nodes assignments acc)
    (howner : ∀ b ∈ assignments, b.owner ≠ a.owner) (hpath : a.owner ∈ paths) :
    AppliedParents definitions paths nodes (assignments ++ [a]) (applyAssignment paths acc a) := by
  obtain ⟨owner, hindex⟩ := Option.isSome_iff_exists.1 (nodeIndex_isSome.2 hpath)
  have htargetEq := fun target => assignmentTarget_eq (hindexed.of_sameShape h.shape) a target
  rw [applyAssignment, hindex]
  cases htarget : assignmentTarget acc.nodes paths a with
  | error kind =>
    have hnone : targetIndex definitions paths a = none := by
      cases hsome : targetIndex definitions paths a with
      | none => rfl
      | some target =>
        rw [(htargetEq target).2 hsome] at htarget
        cases htarget
    refine ⟨h.shape, h.links, fun node => ?_, fun b hb node target hnode hb' => ?_,
      fun node hnode => ?_⟩
    · simp only [h.applied node, List.mem_append, List.mem_singleton]
      constructor
      · rintro ⟨b, hb, hrest⟩
        exact ⟨b, .inl hb, hrest⟩
      · rintro ⟨b, hb | rfl, hrest⟩
        · exact ⟨b, hb, hrest⟩
        · rw [hnone] at hrest
          exact absurd hrest.2 (by simp)
    · rcases List.mem_append.1 hb with hb | hb
      · exact h.assigned b hb node target hnode hb'
      · rw [List.mem_singleton.1 hb, hnone] at hb'
        cases hb'
    · exact h.kept node fun b hb => hnode b (List.mem_append_left _ hb)
  | ok target =>
    have hsome := (htargetEq target).1 htarget
    have hlt : owner < acc.nodes.length := by
      rw [h.shape.length, hindexed.length]
      exact (List.getElem?_eq_some_iff.1 ((nodeIndex_eq_some hindexed.nodup).1 hindex)).1
    refine ⟨h.shape.trans (setParentType_shape _ _ _),
      (setParentType_links _ _ _).trans h.links, fun node => ?_,
      fun b hb node t hnode hb' => ?_, fun node hnode => ?_⟩
    · simp only [List.map_append, List.mem_append, h.applied node, List.map_cons, List.map_nil,
        List.mem_singleton]
      constructor
      · rintro (⟨b, hb, hrest⟩ | rfl)
        · exact ⟨b, .inl hb, hrest⟩
        · exact ⟨a, .inr rfl, hindex, by rw [hsome]; rfl⟩
      · rintro ⟨b, hb | rfl, hnode, hrest⟩
        · exact .inl ⟨b, hb, hnode, hrest⟩
        · rw [hindex] at hnode
          exact .inr (Option.some.inj hnode).symm
    · rw [parentOf_setParentType]
      rcases List.mem_append.1 hb with hb | hb
      · have hne : owner ≠ node := by
          rintro rfl
          have hboth := ((nodeIndex_eq_some hindexed.nodup).1 hnode).symm.trans
            ((nodeIndex_eq_some hindexed.nodup).1 hindex)
          exact howner b hb (Option.some.inj hboth)
        rw [if_neg fun h => hne h.1]
        exact h.assigned b hb node t hnode hb'
      · obtain rfl := List.mem_singleton.1 hb
        rw [hindex] at hnode
        cases hnode
        rw [if_pos ⟨rfl, hlt⟩, ← hb', hsome]
    · rw [parentOf_setParentType]
      have hne : owner ≠ node := by
        rintro rfl
        have hnone := hnode a (List.mem_append_right _ List.mem_cons_self) hindex
        rw [hsome] at hnone
        cases hnone
      rw [if_neg fun h => hne h.1]
      exact h.kept node fun b hb => hnode b (List.mem_append_left _ hb)

/-- All assignments, whose owners are distinct and in the tree. -/
theorem applyAssignments (hindexed : Indexed definitions paths nodes)
    (hnodup : (assignments.map (·.owner)).Nodup) (hpaths : ∀ a ∈ assignments, a.owner ∈ paths) :
    AppliedParents definitions paths nodes assignments
      (assignments.foldl (applyAssignment paths) ⟨nodes, [], []⟩) := by
  have hfold : ∀ (rest done : List PendingParentAssignment) (acc : Applied),
      AppliedParents definitions paths nodes done acc →
      ((done ++ rest).map (·.owner)).Nodup → (∀ a ∈ rest, a.owner ∈ paths) →
      AppliedParents definitions paths nodes (done ++ rest)
        (rest.foldl (applyAssignment paths) acc) := by
    intro rest
    induction rest with
    | nil => intro done acc h _ _; simpa using h
    | cons a rest ih =>
      intro done acc h hnodup hpaths
      have hne : ∀ b ∈ done, b.owner ≠ a.owner := by
        intro b hb heq
        rw [List.map_append, List.nodup_append] at hnodup
        exact hnodup.2.2 _ (List.mem_map_of_mem hb) _
          (List.mem_map_of_mem List.mem_cons_self) heq
      have hrest := ih (done ++ [a]) _ (h.snoc hindexed hne (hpaths a List.mem_cons_self))
        (by simpa using hnodup) fun b hb => hpaths b (List.mem_cons_of_mem _ hb)
      simpa using hrest
  have hinit : AppliedParents definitions paths nodes [] ⟨nodes, [], []⟩ :=
    ⟨rfl, rfl, by simp, nofun, fun _ _ => rfl⟩
  exact hfold assignments [] _ hinit hnodup hpaths

/-! ## The assignments on cycles -/

/-- Taking back the assignments of the owners in `entries` that are on cycles. -/
theorem resetAssignments (hindexed : Indexed definitions paths nodes) (cycleNodes : List NodeId)
    (entries : List (NodeId × PendingParentAssignment))
    (hentries : ∀ entry ∈ entries, entry.1 < nodes.length)
    (diagnostics : List InheritanceDiagnostic) :
    SameShape nodes (entries.foldl (resetAssignment paths cycleNodes) (nodes, diagnostics)).1 ∧
      (entries.foldl (resetAssignment paths cycleNodes) (nodes, diagnostics)).1.map
          CodeNode.links = nodes.map CodeNode.links ∧
      ∀ node,
        parentOf (entries.foldl (resetAssignment paths cycleNodes) (nodes, diagnostics)).1 node =
          if node ∈ entries.map (·.1) ∧ node ∈ cycleNodes then
            (defaultParentPath (pathAt paths node)).bind (nodeIndex paths)
          else parentOf nodes node := by
  induction entries generalizing nodes diagnostics with
  | nil => exact ⟨rfl, rfl, fun node => by simp⟩
  | cons entry entries ih =>
    obtain ⟨hlt, hentries⟩ := List.forall_mem_cons.1 hentries
    rw [List.foldl_cons, resetAssignment]
    by_cases hcycle : entry.1 ∈ cycleNodes
    · rw [if_pos hcycle]
      generalize hreset : setParentType nodes entry.1 (nodes[entry.1]?.bind fun node =>
        defaultParentType node.path .type paths) = reset
      have hshape : SameShape nodes reset := hreset ▸ setParentType_shape _ _ _
      obtain ⟨hrest, hlinks, hparents⟩ := ih (hindexed.of_sameShape hshape)
        (fun e he => by rw [hshape.length]; exact hentries e he)
        (diagnostics ++ [inheritanceDiagnostic entry.2 .inheritanceCycle])
      refine ⟨hshape.trans hrest, hlinks.trans (hreset ▸ setParentType_links _ _ _),
        fun node => ?_⟩
      rw [hparents node]
      by_cases hmem : node ∈ entries.map (·.1) ∧ node ∈ cycleNodes
      · rw [if_pos hmem, if_pos ⟨List.mem_cons_of_mem _ hmem.1, hmem.2⟩]
      · rw [if_neg hmem, ← hreset, parentOf_setParentType]
        by_cases heq : entry.1 = node
        · subst heq
          obtain ⟨path, hpath⟩ : ∃ path, paths[entry.1]? = some path :=
            ⟨_, List.getElem?_eq_getElem (by rw [← hindexed.length]; exact hlt)⟩
          obtain ⟨node, hnode, rfl⟩ := hindexed.exists_node hpath
          rw [if_pos ⟨rfl, hlt⟩, if_pos ⟨List.mem_cons_self, hcycle⟩, hnode, pathAt_eq hpath]
          rfl
        · rw [if_neg fun h => heq h.1, if_neg]
          rintro ⟨hnode, hin⟩
          rcases List.mem_cons.1 hnode with hnode | hnode
          · exact heq hnode.symm
          · exact hmem ⟨hnode, hin⟩
    · rw [if_neg hcycle]
      obtain ⟨hrest, hlinks, hparents⟩ := ih hindexed hentries diagnostics
      refine ⟨hrest, hlinks, fun node => ?_⟩
      rw [hparents node]
      by_cases heq : node = entry.1
      · subst heq
        rw [if_neg fun h => hcycle h.2, if_neg fun h => hcycle h.2]
      · simp only [List.map_cons, List.mem_cons, heq, false_or]

theorem pathAt_injOn (hnodup : paths.Nodup) {a b : NodeId} (ha : a < paths.length)
    (hb : b < paths.length) (h : pathAt paths a = pathAt paths b) : a = b := by
  have ha' := pathAt_eq (List.getElem?_eq_getElem ha)
  have hb' := pathAt_eq (List.getElem?_eq_getElem hb)
  rw [ha', hb'] at h
  exact hnodup.getElem_inj_iff.1 h

/-- The parents of the nodes are those that a graph on the paths gives. -/
structure Follows (paths : List CodePath) (nodes : List CodeNode)
    (parent : CodePath → Option CodePath) : Prop where
  nodup : paths.Nodup
  length : nodes.length = paths.length
  parentOf_eq : ∀ node < nodes.length,
    parentOf nodes node = (parent (pathAt paths node)).bind (nodeIndex paths)
  parent_mem : ∀ path ∈ paths, ∀ above, parent path = some above → above ∈ paths

namespace Follows

variable {parent : CodePath → Option CodePath} (h : Follows paths nodes parent)

include h

theorem parentsInRange : ParentsInRange nodes := by
  intro node above habove
  have hlt : node < nodes.length := by
    by_contra hge
    rw [parentOf, List.getElem?_eq_none (Nat.le_of_not_lt hge)] at habove
    cases habove
  rw [h.parentOf_eq node hlt] at habove
  obtain ⟨path, -, hindex⟩ := Option.bind_eq_some_iff.1 habove
  rw [h.length]
  exact (List.getElem?_eq_some_iff.1 ((nodeIndex_eq_some h.nodup).1 hindex)).1

theorem pathAt_mem {node : NodeId} (hlt : node < nodes.length) : pathAt paths node ∈ paths := by
  have hlt' : node < paths.length := h.length ▸ hlt
  rw [pathAt_eq (List.getElem?_eq_getElem hlt')]
  exact List.getElem_mem hlt'

theorem map_pathAt (node : NodeId) (hlt : node < nodes.length) :
    (parentOf nodes node).map (pathAt paths) = parent (pathAt paths node) := by
  rw [h.parentOf_eq node hlt]
  cases hparent : parent (pathAt paths node) with
  | none => rfl
  | some above =>
    exact nodeIndex_map_pathAt h.nodup (h.parent_mem _ (h.pathAt_mem hlt) above hparent)

theorem injOn : Set.InjOn (pathAt paths) {node | node < nodes.length} := by
  intro a ha b hb heq
  exact pathAt_injOn h.nodup (h.length ▸ ha) (h.length ▸ hb) heq

theorem onCycle_iff {node : NodeId} (hlt : node < nodes.length) :
    OnCycle (parentOf nodes) node ↔ OnCycle parent (pathAt paths node) :=
  onCycle_rename (s := {node | node < nodes.length})
    (fun a _ b hb => h.parentsInRange a b hb) h.injOn h.map_pathAt hlt

end Follows

/-! ## The parents before and after the reset -/

/-- The assignments that the loop over the declarations leaves. -/
structure StatedBy (definitions : List Definition)
    (assignments : List PendingParentAssignment) : Prop where
  nodup : (assignments.map (·.owner)).Nodup
  stated : ∀ a ∈ assignments, lastStated definitions a.owner = some a.target
  exists_stated : ∀ path target, lastStated definitions path = some target →
    ∃ a ∈ assignments, a.owner = path ∧ a.target = target

theorem StatedBy.owner_mem (h : StatedBy definitions assignments)
    (hindexed : Indexed definitions paths nodes) (ha : a ∈ assignments) : a.owner ∈ paths :=
  (hindexed.mem_paths a.owner).2 (firstKind_of_lastStated (h.stated a ha))

/-- The index of a target that an assignment names is that of the applied parent. -/
theorem targetIndex_eq (h : lastStated definitions a.owner = some a.target) :
    targetIndex definitions paths a =
      (appliedParent definitions a.owner).bind (nodeIndex paths) := by
  rw [targetIndex, appliedParent, h]
  rfl

theorem assignedParent_mem (hindexed : Indexed definitions paths nodes) {above : CodePath}
    (h : assignedParent definitions path = some above) : above ∈ paths := by
  rw [hindexed.mem_paths above]
  rcases Option.or_eq_some_iff.1 h with h | ⟨-, h⟩
  · rw [(appliedParent_eq_some.1 h).2]
    rfl
  · by_cases htype : firstKind definitions path = some .type
    · rw [if_pos htype, pathParent, Option.filter_eq_some_iff] at h
      exact h.2
    · rw [if_neg htype] at h
      cases h

theorem pathParent_mem (hindexed : Indexed definitions paths nodes) {above : CodePath}
    (h : pathParent definitions path = some above) : above ∈ paths := by
  rw [pathParent, Option.filter_eq_some_iff] at h
  exact (hindexed.mem_paths above).2 h.2

/-- Looking a path up drops the paths that are not in the tree. -/
theorem defaultParentPath_bind (hindexed : Indexed definitions paths nodes) (path : CodePath) :
    (defaultParentPath path).bind (nodeIndex paths) =
      (pathParent definitions path).bind (nodeIndex paths) := by
  rw [pathParent]
  cases defaultParentPath path with
  | none => rfl
  | some above =>
    cases hsome : (firstKind definitions above).isSome with
    | true => rw [Option.filter_some_pos (by exact hsome)]
    | false =>
      have hnone : nodeIndex paths above = none := by
        rw [← Option.not_isSome_iff_eq_none, nodeIndex_isSome, hindexed.mem_paths above, hsome]
        exact Bool.false_ne_true
      rw [Option.filter_some_neg (by exact hsome)]
      exact hnone

/-- The parents before the assignments are those of the paths. -/
def PathParents (paths : List CodePath) (nodes : List CodeNode) : Prop :=
  ∀ node ∈ nodes, node.parentType = defaultParentType node.path node.kind paths

theorem AppliedParents.follows {acc : Applied} (hindexed : Indexed definitions paths nodes)
    (hinit : PathParents paths nodes) (hstated : StatedBy definitions assignments)
    (h : AppliedParents definitions paths nodes assignments acc) :
    Follows paths acc.nodes (assignedParent definitions) := by
  refine ⟨hindexed.nodup, h.shape.length.trans hindexed.length, fun node hlt => ?_,
    fun path _ above habove => assignedParent_mem hindexed habove⟩
  obtain ⟨path, hpath⟩ : ∃ path, paths[node]? = some path :=
    ⟨_, List.getElem?_eq_getElem (by rw [← hindexed.length, ← h.shape.length]; exact hlt)⟩
  have hindex := (nodeIndex_eq_some hindexed.nodup).2 hpath
  rw [pathAt_eq hpath, assignedParent]
  cases happlied : appliedParent definitions path with
  | some target =>
    have hparent := appliedParent_eq_some.1 happlied
    obtain ⟨a, ha, rfl, htarget⟩ := hstated.exists_stated path (some target) hparent.1
    have hmem : target ∈ paths := (hindexed.mem_paths target).2 (by rw [hparent.2]; rfl)
    obtain ⟨t, ht⟩ := Option.isSome_iff_exists.1 (nodeIndex_isSome.2 hmem)
    have hsome : targetIndex definitions paths a = some t := by
      rw [targetIndex_eq (hstated.stated a ha), happlied]
      exact ht
    rw [h.assigned a ha node t hindex hsome]
    exact ht.symm
  | none =>
    have hkept : parentOf acc.nodes node = parentOf nodes node := by
      refine h.kept node fun a ha hnode => ?_
      have howner : a.owner = path := by
        have hboth := ((nodeIndex_eq_some hindexed.nodup).1 hnode).symm.trans hpath
        exact Option.some.inj hboth
      rw [targetIndex_eq (hstated.stated a ha), howner, happlied]
      rfl
    obtain ⟨n, hn, rfl⟩ := hindexed.exists_node hpath
    have hkind := (hindexed.node hn).2.1
    rw [hkept, parentOf, hn, Option.bind_some, hinit n (List.mem_of_getElem? hn),
      defaultParentType, hkind]
    by_cases htype : n.kind = .type
    · rw [if_pos htype, if_pos (congrArg some htype), defaultParentPath_bind hindexed]
      rfl
    · rw [if_neg htype, if_neg fun h => htype (Option.some.inj h)]
      rfl

end Dream64.ObjectTree
