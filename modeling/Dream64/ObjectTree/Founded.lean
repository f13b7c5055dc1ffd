import Dream64.ObjectTree.Members

/-!
# Well-founded trees

A tree is founded if every type has finitely many ancestors, parents and owners
are types, and the children and the inherited members are those of the parents.
The construction ends in such a tree exactly for the declarations that are
`WellParented`: cycles are looked for once, so that a path parent given back to
a node on one cycle may close another.
-/

namespace Dream64.ObjectTree

open ParentGraph

variable {nodes : List CodeNode} {paths : List CodePath} {definitions : List Definition}

/-- The node is a type of the tree. -/
def IsType (nodes : List CodeNode) (node : NodeId) : Prop :=
  ∃ n, nodes[node]? = some n ∧ n.kind = .type

structure CodeTree.Founded (tree : CodeTree) : Prop where
  ends : ∀ node, IsType tree.nodes node → Ends (parentOf tree.nodes) node
  parent_isType : ∀ node ∈ tree.nodes, ∀ parent, node.parentType = some parent →
    IsType tree.nodes parent
  owner_isType : ∀ node ∈ tree.nodes, ∀ owner, node.ownerType = some owner →
    IsType tree.nodes owner
  childTypes : ∀ i node, tree.nodes[i]? = some node → node.childTypes =
    (List.range tree.nodes.length).filter fun child => parentOf tree.nodes child = some i
  inherits : ∀ node ∈ tree.nodes, InheritsNearest tree.nodes node

/-- The path keeps or is given back the parent of its path. -/
def TakesPathParent (definitions : List Definition) (path : CodePath) : Prop :=
  OnCycle (assignedParent definitions) path ∨
    firstKind definitions path = some .type ∧ appliedParent definitions path = none

structure WellParented (definitions : List Definition) : Prop where
  /-- No cycle of assignments is entered again from a path parent that was given back. -/
  not_reenter : ∀ path,
    ¬ Relation.TransGen (Reenter (assignedParent definitions) (pathParent definitions)) path path
  /-- Below a procedure, a verb or a variable there is no type that takes its path parent. -/
  path_parent : ∀ path parent, TakesPathParent definitions path →
    pathParent definitions path = some parent → firstKind definitions parent = some .type
  /-- Only types are assigned parents. -/
  applied : ∀ path, (appliedParent definitions path).isSome →
    firstKind definitions path = some .type
  /-- Below a procedure, a verb or a variable there is no member. -/
  owner : ∀ path kind, firstKind definitions path = some kind → kind ≠ .type →
    path.length - 2 ≠ 0 → firstKind definitions (path.take (path.length - 2)) = some .type

variable {path : CodePath}

theorem TakesPathParent.resolved (h : TakesPathParent definitions path) :
    resolvedParent definitions path = pathParent definitions path := by
  by_cases hcycle : OnCycle (assignedParent definitions) path
  · exact resetCycles_onCycle hcycle
  · obtain ⟨htype, hnone⟩ := h.resolve_left hcycle
    rw [resolvedParent, resetCycles_not_onCycle hcycle, assignedParent, hnone, if_pos htype,
      Option.none_or]

/-- The parent of a path in the tree is that of the path or the applied one. -/
theorem resolvedParent_cases (definitions : List Definition) (path : CodePath) :
    TakesPathParent definitions path ∨
      resolvedParent definitions path = appliedParent definitions path := by
  by_cases hcycle : OnCycle (assignedParent definitions) path
  · exact .inl (.inl hcycle)
  · rw [resolvedParent, resetCycles_not_onCycle hcycle]
    by_cases htype : firstKind definitions path = some .type
    · cases happlied : appliedParent definitions path with
      | none => exact .inl (.inr ⟨htype, happlied⟩)
      | some target => exact .inr (by rw [assignedParent, happlied, Option.some_or])
    · exact .inr (assignedParent_of_not_type htype)

theorem firstKind_of_assigned {parent : CodePath}
    (h : assignedParent definitions path = some parent) : (firstKind definitions path).isSome := by
  rcases Option.or_eq_some_iff.1 h with h | ⟨-, h⟩
  · exact firstKind_of_applied (by rw [h]; rfl)
  · by_cases htype : firstKind definitions path = some .type
    · rw [htype]
      rfl
    · rw [if_neg htype] at h
      cases h

theorem firstKind_of_resolved {parent : CodePath}
    (h : resolvedParent definitions path = some parent) : (firstKind definitions path).isSome := by
  by_cases hcycle : OnCycle (assignedParent definitions) path
  · obtain ⟨above, habove⟩ := exists_parent_of_onCycle hcycle
    exact firstKind_of_assigned habove
  · rw [resolvedParent, resetCycles_not_onCycle hcycle] at h
    exact firstKind_of_assigned h

/-! ## The finished tree -/

/-- What every run leaves of the declarations. -/
structure Finished (definitions : List Definition) (paths : List CodePath)
    (nodes : List CodeNode) : Prop where
  indexed : Indexed definitions paths nodes
  follows : Follows paths nodes (resolvedParent definitions)
  childTypes : ∀ i node, nodes[i]? = some node →
    node.childTypes = (List.range nodes.length).filter (isChild nodes i)
  inherits : ∀ node ∈ nodes, InheritsNearest nodes node

variable {nodes' : List CodeNode} {node : CodeNode}

/-- A function of the nodes that is the same on two lists, at one index. -/
theorem getElem?_of_map {β : Type} {g : CodeNode → β} {nodes : List CodeNode}
    (h : nodes'.map g = nodes.map g) {i : NodeId} (hnode : nodes[i]? = some node) :
    ∃ node', nodes'[i]? = some node' ∧ g node' = g node := by
  have hi := congrArg (fun l => l[i]?) h
  simp only [List.getElem?_map, hnode, Option.map_some] at hi
  exact Option.map_eq_some_iff.1 hi

theorem parentOf_of_map {nodes : List CodeNode}
    (h : nodes'.map (·.parentType) = nodes.map (·.parentType)) (node : NodeId) :
    parentOf nodes' node = parentOf nodes node := by
  have hi := congrArg (fun l => l[node]?.bind id) h
  simpa only [parentOf, List.getElem?_map, Option.bind_map, Function.id_comp] using hi

theorem IsMember.of_sameShape (h : SameShape nodes nodes') {member ancestor : NodeId}
    {node' : CodeNode} (hnode : node'.shape = node.shape)
    (hmember : IsMember nodes member ancestor node) : IsMember nodes' member ancestor node' := by
  obtain ⟨m, hm, howner, hname, hkind⟩ := hmember
  obtain ⟨m', hm', hshape⟩ := getElem?_of_map h hm
  simp only [CodeNode.shape, Prod.mk.injEq] at hshape hnode
  refine ⟨m', hm', hshape.2.2.trans howner, ?_, ?_⟩
  · rw [hshape.1, hnode.1, hname]
  · rw [hshape.2.1, hnode.2.1, hkind]

theorem InheritsNearest.of_sameShape (h : SameShape nodes nodes')
    (hparents : nodes'.map (·.parentType) = nodes.map (·.parentType))
    (hinherits : InheritsNearest nodes node) : InheritsNearest nodes' node := by
  have hmember : ∀ member ancestor,
      IsMember nodes' member ancestor node ↔ IsMember nodes member ancestor node :=
    fun _ _ => ⟨fun hm => hm.of_sameShape (Eq.symm h) rfl, fun hm => hm.of_sameShape h rfl⟩
  have hparent : parentOf nodes' = parentOf nodes := funext (parentOf_of_map hparents)
  intro member
  rw [hinherits member, hparent]
  simp only [hmember]

variable {acc : Declared} {fuel : Nat}

theorem isChild_of_map {nodes : List CodeNode}
    (h : nodes'.map (fun n => (n.kind, n.parentType)) = nodes.map fun n => (n.kind, n.parentType))
    (parent child : NodeId) : isChild nodes' parent child = isChild nodes parent child := by
  have hi := congrArg (fun l => l[child]?.any fun entry =>
    decide (entry.1 = NodeKind.type ∧ entry.2 = some parent)) h
  simpa only [isChild, List.getElem?_map, Option.any_map, Function.comp_def] using hi

theorem finishTree_finished (h : Keeps acc definitions) {output : BuildOutput}
    (hrun : finishTree fuel acc = some output) :
    Finished definitions output.tree.paths output.tree.nodes := by
  rw [finishTree] at hrun
  obtain ⟨⟨resolved, diagnostics⟩, hresolved, hrun⟩ := Option.bind_eq_some_iff.1 hrun
  obtain ⟨finished, hfinished, hrun⟩ := Option.bind_eq_some_iff.1 hrun
  cases hrun
  show Finished definitions (acc.pending.toList.map (·.1)) finished
  obtain ⟨hshape, hlinks, hfollows⟩ := resolveParentAssignments_spec h.indexed
    (pathParents_pendingNodes acc) h.statedBy hresolved
  have hindexed := h.indexed.of_sameShape hshape
  have hinit : ∀ node ∈ resolved, node.links = ([], none) := by
    intro node hnode
    obtain ⟨i, hi⟩ := List.getElem?_of_mem hnode
    obtain ⟨pending, hpending, heq⟩ := getElem?_of_map hlinks.symm hi
    rw [← heq]
    exact links_pendingNodes (List.mem_of_getElem? hpending)
  -- the children
  have hshape₂ : SameShape resolved (attachChildren resolved) :=
    map_attachChildren CodeNode.shape (fun _ _ => rfl) resolved
  have hindexed₂ := hindexed.of_sameShape hshape₂
  have hinit₂ : ∀ node ∈ attachChildren resolved, node.inheritedMember = none := by
    intro node hnode
    obtain ⟨i, hi⟩ := List.getElem?_of_mem hnode
    obtain ⟨before, hbefore, heq⟩ := getElem?_of_map
      (map_attachChildren (·.inheritedMember) (fun _ _ => rfl) resolved).symm hi
    rw [← heq]
    exact congrArg Prod.snd (hinit before (List.mem_of_getElem? hbefore))
  -- the inherited members
  have hshape₃ : SameShape (attachChildren resolved) finished :=
    map_attachInheritedMembers CodeNode.shape (fun _ _ => rfl) hfinished
  have hparents₃ := map_attachInheritedMembers (·.parentType) (fun _ _ => rfl) hfinished
  have hparents := hparents₃.trans (map_attachChildren (·.parentType) (fun _ _ => rfl) resolved)
  have hkinds := (map_attachInheritedMembers (fun n => (n.kind, n.parentType)) (fun _ _ => rfl)
    hfinished).trans (map_attachChildren _ (fun _ _ => rfl) resolved)
  have hlength : finished.length = resolved.length := hshape₃.length.trans hshape₂.length
  refine ⟨hindexed₂.of_sameShape hshape₃, ⟨hfollows.nodup, hlength.trans hfollows.length,
    fun node hlt => ?_, hfollows.parent_mem⟩, fun i node hi => ?_, fun node hmem => ?_⟩
  · rw [parentOf_of_map hparents]
    exact hfollows.parentOf_eq node (hlength ▸ hlt)
  · obtain ⟨child, hchild, hchildTypes⟩ := getElem?_of_map
      (map_attachInheritedMembers (·.childTypes) (fun _ _ => rfl) hfinished).symm hi
    have hchildren := attachChildren_childTypes resolved i
    rw [hchild, Option.map_some] at hchildren
    obtain ⟨before, hbefore, heq⟩ := Option.map_eq_some_iff.1 hchildren.symm
    have hnone : before.childTypes = [] :=
      congrArg Prod.fst (hinit before (List.mem_of_getElem? hbefore))
    rw [hnone, List.nil_append] at heq
    rw [← hchildTypes, ← heq, hlength]
    exact List.filter_congr fun child _ => (isChild_of_map hkinds i child).symm
  · exact (attachInheritedMembers_inherits hindexed₂ hinit₂ hfinished hmem).of_sameShape
      hshape₃ hparents₃

/-! ## When the tree is founded -/

/-- Without a cycle that is entered again, every node has finitely many ancestors. -/
theorem Follows.ends (h : Follows paths nodes (resolvedParent definitions))
    (hwell : WellParented definitions) {node : NodeId} (hlt : node < nodes.length) :
    Ends (parentOf nodes) node := by
  rcases ends_or_onCycle (s := Finset.range nodes.length)
      (fun a _ b hb => Finset.mem_range.2 (h.parentsInRange a b hb))
      (Finset.mem_range.2 hlt) with hend | ⟨k, cycle, hclimb, hcycle⟩
  · exact hend
  · have hlt' := mem_of_climb (s := {node | node < nodes.length})
      (fun a _ b hb => h.parentsInRange a b hb) hlt hclimb
    have hpath := (h.onCycle_iff hlt').1 hcycle
    obtain ⟨path, hreenter⟩ := exists_onCycle_resetCycles.1 ⟨_, hpath⟩
    exact absurd hreenter (hwell.not_reenter path)

namespace Finished

variable (h : Finished definitions paths nodes)

include h

variable {i : NodeId} {node : CodeNode}

theorem pathAt_eq_path (hnode : nodes[i]? = some node) :
    pathAt paths i = node.path := pathAt_eq (h.indexed.node hnode).1

/-- The node of a path. -/
theorem exists_node {path : CodePath} (hpath : (firstKind definitions path).isSome) :
    ∃ i node, nodes[i]? = some node ∧ node.path = path ∧ nodeIndex paths path = some i := by
  obtain ⟨i, hi⟩ :=
    Option.isSome_iff_exists.1 (nodeIndex_isSome.2 ((h.indexed.mem_paths path).2 hpath))
  obtain ⟨node, hnode, heq⟩ := h.indexed.exists_node ((nodeIndex_eq_some h.indexed.nodup).1 hi)
  exact ⟨i, node, hnode, heq, hi⟩

theorem isType_iff {path : CodePath} (hpath : paths[i]? = some path) :
    IsType nodes i ↔ firstKind definitions path = some .type := by
  rw [← h.indexed.kind_eq hpath]
  cases hnode : nodes[i]? with
  | none => simp [IsType, hnode]
  | some node => simp [IsType, hnode]

theorem parentOf_eq (hnode : nodes[i]? = some node) :
    parentOf nodes i = (resolvedParent definitions node.path).bind (nodeIndex paths) := by
  rw [h.follows.parentOf_eq i (List.getElem?_eq_some_iff.1 hnode).1, h.pathAt_eq_path hnode]

theorem parentOf_eq_some {parent : NodeId} (hnode : nodes[i]? = some node) :
    parentOf nodes i = some parent ↔ ∃ path, resolvedParent definitions node.path = some path ∧
      paths[parent]? = some path := by
  rw [h.parentOf_eq hnode, Option.bind_eq_some_iff]
  simp only [nodeIndex_eq_some h.indexed.nodup]

/-- The parents are types if the parents of the paths are. -/
theorem parent_isType_iff : (∀ node ∈ nodes, ∀ parent, node.parentType = some parent →
      IsType nodes parent) ↔
    ∀ path parent, resolvedParent definitions path = some parent →
      firstKind definitions parent = some .type := by
  constructor
  · intro hparents path parent hparent
    obtain ⟨i, node, hnode, rfl, -⟩ := h.exists_node (firstKind_of_resolved hparent)
    have hmem := h.follows.parent_mem node.path
      (List.mem_of_getElem? (h.indexed.node hnode).1) parent hparent
    obtain ⟨above, habove⟩ := Option.isSome_iff_exists.1 (nodeIndex_isSome.2 hmem)
    have hpath := (nodeIndex_eq_some h.indexed.nodup).1 habove
    have hparentOf := (h.parentOf_eq_some hnode).2 ⟨parent, hparent, hpath⟩
    rw [parentOf, hnode] at hparentOf
    exact (h.isType_iff hpath).1 (hparents node (List.mem_of_getElem? hnode) above hparentOf)
  · intro hpaths node hmem parent hparent
    obtain ⟨i, hnode⟩ := List.getElem?_of_mem hmem
    have hparentOf : parentOf nodes i = some parent := by
      rw [parentOf, hnode]
      exact hparent
    obtain ⟨path, hresolved, hpath⟩ := (h.parentOf_eq_some hnode).1 hparentOf
    exact (h.isType_iff hpath).2 (hpaths node.path path hresolved)

theorem owner_isType_iff : (∀ node ∈ nodes, ∀ owner, node.ownerType = some owner →
      IsType nodes owner) ↔
    ∀ path kind, firstKind definitions path = some kind → kind ≠ .type → path.length - 2 ≠ 0 →
      firstKind definitions (path.take (path.length - 2)) = some .type := by
  constructor
  · intro howners path kind hkind htype hlength
    obtain ⟨i, node, hnode, rfl, -⟩ := h.exists_node
      (show (firstKind definitions path).isSome by rw [hkind]; rfl)
    obtain ⟨-, hnodeKind, howner⟩ := h.indexed.node hnode
    cases hkind.symm.trans hnodeKind
    obtain ⟨definition, hdefinition, hpath, hdefKind, hvalid⟩ :=
      exists_definition_of_firstKind hkind htype
    have hsome := firstKind_owner_isSome hdefinition (by rw [hpath, hdefKind]; exact hvalid)
      (by rw [hpath]; omega)
    rw [hpath] at hsome
    obtain ⟨owner, above, habove, -, hindex⟩ := h.exists_node hsome
    have hownerPath := (nodeIndex_eq_some h.indexed.nodup).1 hindex
    refine (h.isType_iff hownerPath).1 (howners node (List.mem_of_getElem? hnode) owner ?_)
    rw [howner, ownerType_eq_some h.indexed.nodup]
    exact ⟨htype, hlength, hownerPath⟩
  · intro hpaths node hmem owner howner
    obtain ⟨i, hnode⟩ := List.getElem?_of_mem hmem
    obtain ⟨-, hkind, hownerType⟩ := h.indexed.node hnode
    rw [howner, eq_comm, ownerType_eq_some h.indexed.nodup] at hownerType
    obtain ⟨htype, hlength, hpath⟩ := hownerType
    exact (h.isType_iff hpath).2 (hpaths node.path node.kind hkind htype hlength)

theorem founded_of_wellParented (hwell : WellParented definitions) {tree : CodeTree}
    (htree : tree.nodes = nodes) : tree.Founded := by
  subst htree
  have hresolved : ∀ path parent, resolvedParent definitions path = some parent →
      firstKind definitions parent = some .type := by
    intro path parent hparent
    rcases resolvedParent_cases definitions path with htakes | heq
    · exact hwell.path_parent path parent htakes (htakes.resolved ▸ hparent)
    · exact (appliedParent_eq_some.1 (heq ▸ hparent)).2
  -- only types have parents
  have hchild : ∀ path parent, resolvedParent definitions path = some parent →
      firstKind definitions path = some .type := by
    intro path parent hparent
    rcases resolvedParent_cases definitions path with (hcycle | ⟨htype, -⟩) | heq
    · by_contra htype
      obtain ⟨above, habove⟩ := exists_parent_of_onCycle hcycle
      rw [assignedParent_of_not_type htype] at habove
      exact htype (hwell.applied path (by rw [habove]; rfl))
    · exact htype
    · exact hwell.applied path (by rw [← heq, hparent]; rfl)
  refine ⟨fun node hnode => ?_, h.parent_isType_iff.2 hresolved, h.owner_isType_iff.2 hwell.owner,
    fun i node hi => ?_, h.inherits⟩
  · obtain ⟨n, hn, -⟩ := hnode
    exact h.follows.ends hwell (List.getElem?_eq_some_iff.1 hn).1
  · rw [h.childTypes i node hi]
    refine List.filter_congr fun child hmem => ?_
    have hlt : child < tree.nodes.length := List.mem_range.1 hmem
    have hn := List.getElem?_eq_getElem hlt
    rw [isChild, hn, parentOf, hn, Option.any_some, Option.bind_some]
    cases hparent : tree.nodes[child].parentType with
    | none => simp
    | some parent =>
      have hparentOf : parentOf tree.nodes child = some parent := by
        rw [parentOf, hn]
        exact hparent
      obtain ⟨path, hpath, -⟩ := (h.parentOf_eq_some hn).1 hparentOf
      have hkind := hchild _ path hpath
      rw [(h.indexed.node hn).2.1] at hkind
      simp [Option.some.inj hkind]

theorem wellParented_of_founded {tree : CodeTree} (htree : tree.nodes = nodes)
    (hfounded : tree.Founded) : WellParented definitions := by
  subst htree
  have hresolved := h.parent_isType_iff.1 hfounded.parent_isType
  have hpathParent : ∀ path parent, TakesPathParent definitions path →
      pathParent definitions path = some parent → firstKind definitions parent = some .type :=
    fun path parent htakes hparent => hresolved path parent (htakes.resolved.trans hparent)
  refine ⟨fun path hreenter => ?_, hpathParent, fun path happlied => ?_,
    h.owner_isType_iff.1 hfounded.owner_isType⟩
  · -- the parent on a cycle is a type, which has finitely many ancestors
    obtain ⟨a, hcycle⟩ := exists_onCycle_resetCycles.2 ⟨path, hreenter⟩
    obtain ⟨above, habove⟩ : ∃ above, resolvedParent definitions a = some above := by
      obtain ⟨k, hk⟩ := hcycle
      rw [climb_succ] at hk
      obtain ⟨above, habove, -⟩ := Option.bind_eq_some_iff.1 hk
      exact ⟨above, habove⟩
    have hcycle' : OnCycle (resolvedParent definitions) above :=
      hcycle.above (j := 1) (by rw [climb_one]; exact habove)
    have htype := hresolved a above habove
    obtain ⟨i, node, hnode, rfl, hindex⟩ := h.exists_node
      (show (firstKind definitions above).isSome by rw [htype]; rfl)
    have hpath := (nodeIndex_eq_some h.indexed.nodup).1 hindex
    have hlt := (List.getElem?_eq_some_iff.1 hnode).1
    have hon : OnCycle (parentOf tree.nodes) i :=
      (h.follows.onCycle_iff hlt).2 (by rw [pathAt_eq hpath]; exact hcycle')
    exact hon.not_ends (hfounded.ends i ((h.isType_iff hpath).2 htype))
  · by_contra htype
    -- a cycle enters the path from one that takes its path parent
    have hcycle : ¬ OnCycle (assignedParent definitions) path := by
      intro hcycle
      obtain ⟨k, hk⟩ := id hcycle
      obtain ⟨below, hbelow, hstep⟩ := climb_cut (j := k) (k := 1) hk
      rw [climb_one] at hstep
      have hon := hcycle.above hbelow
      cases hbelowApplied : appliedParent definitions below with
      | some target =>
        rw [assignedParent, hbelowApplied, Option.some_or] at hstep
        cases hstep
        exact htype (appliedParent_eq_some.1 hbelowApplied).2
      | none =>
        rw [assignedParent_of_not_applied hbelowApplied
          (by rw [hstep]; exact Option.some_ne_none _)] at hstep
        exact htype (hpathParent below path (.inl hon) hstep)
    obtain ⟨target, htarget⟩ := Option.isSome_iff_exists.1 happlied
    have hparent : resolvedParent definitions path = some target := by
      rw [resolvedParent, resetCycles_not_onCycle hcycle, assignedParent_of_not_type htype, htarget]
    obtain ⟨i, node, hnode, rfl, -⟩ := h.exists_node (firstKind_of_applied happlied)
    obtain ⟨t, above, habove, rfl, hindex⟩ := h.exists_node
      (show (firstKind definitions target).isSome by
        rw [(appliedParent_eq_some.1 htarget).2]; rfl)
    have hparentOf := (h.parentOf_eq_some hnode).2
      ⟨above.path, hparent, (nodeIndex_eq_some h.indexed.nodup).1 hindex⟩
    have hmem : i ∈ (List.range tree.nodes.length).filter fun child =>
        decide (parentOf tree.nodes child = some t) := by
      rw [List.mem_filter]
      exact ⟨List.mem_range.2 (List.getElem?_eq_some_iff.1 hnode).1, by simpa using hparentOf⟩
    have hchildTypes := (h.childTypes t above habove).symm.trans
      (hfounded.childTypes t above habove)
    rw [← hchildTypes, List.mem_filter, isChild, hnode, Option.any_some, decide_eq_true_eq] at hmem
    exact htype ((h.indexed.node hnode).2.1.trans (congrArg some hmem.2.1))

end Finished

/-! ## Termination -/

theorem mapM_isSome {α β : Type} {f : α → Option β} {l : List α}
    (h : ∀ a ∈ l, (f a).isSome) : (l.mapM f).isSome := by
  induction l with
  | nil => rfl
  | cons a l ih =>
    obtain ⟨ha, hl⟩ := List.forall_mem_cons.1 h
    obtain ⟨b, hb⟩ := Option.isSome_iff_exists.1 ha
    obtain ⟨bs, hbs⟩ := Option.isSome_iff_exists.1 (ih hl)
    rw [List.mapM_cons, hb, hbs]
    rfl

/-- A walk up finitely many ancestors ends. -/
theorem attachInheritedMembers_isSome (hends : ∀ node < nodes.length, Ends (parentOf nodes) node)
    (hrange : ParentsInRange nodes) (hfuel : nodes.length + 1 ≤ fuel)
    (howners : ∀ node ∈ nodes, ∀ owner, node.ownerType = some owner → owner < nodes.length) :
    (attachInheritedMembers fuel nodes paths).isSome := by
  refine mapM_isSome fun node hnode => ?_
  rw [attachInheritedMember]
  cases howner : node.ownerType with
  | none => rfl
  | some owner =>
    have hlt := howners node hnode owner howner
    have hclimb := (hends owner hlt).climb_card (s := Finset.range nodes.length)
      (fun a _ b hb => Finset.mem_range.2 (hrange a b hb)) (Finset.mem_range.2 hlt)
    rw [Finset.card_range] at hclimb
    have hnone : (parentOf nodes owner).bind (climb (parentOf nodes) nodes.length) = none :=
      climb_none (k := 1) hclimb
    have hsome : (nearestMember nodes paths
        (node.path.drop ((nodes[owner]?.map (·.path)).getD []).length) node.kind fuel
        (parentOf nodes owner)).isSome := nearestMember_isSome hnone hfuel
    obtain ⟨member, hmember⟩ := Option.isSome_iff_exists.1 hsome
    dsimp only
    rw [hmember]
    rfl

theorem finishTree_isSome (h : Keeps acc definitions) (hwell : WellParented definitions)
    (hfuel : acc.pending.toList.length + 2 ≤ fuel) : (finishTree fuel acc).isSome := by
  have hlength : (acc.pending.toList.map (·.1)).length = acc.pending.toList.length :=
    List.length_map _
  have hfuel' : (acc.pending.toList.map (·.1)).length + 2 ≤ fuel := by omega
  obtain ⟨⟨resolved, diagnostics⟩, hresolved⟩ := Option.isSome_iff_exists.1
    (resolveParentAssignments_isSome h.indexed (pathParents_pendingNodes acc) h.statedBy
      hfuel' (initialDeclarations acc.pending.toList))
  obtain ⟨hshape, -, hfollows⟩ := resolveParentAssignments_spec h.indexed
    (pathParents_pendingNodes acc) h.statedBy hresolved
  have hindexed := h.indexed.of_sameShape hshape
  have hshape₂ : SameShape resolved (attachChildren resolved) :=
    map_attachChildren CodeNode.shape (fun _ _ => rfl) resolved
  have hindexed₂ := hindexed.of_sameShape hshape₂
  have hparent : parentOf (attachChildren resolved) = parentOf resolved :=
    funext (parentOf_of_map (map_attachChildren (·.parentType) (fun _ _ => rfl) resolved))
  have hends : ∀ node < (attachChildren resolved).length,
      Ends (parentOf (attachChildren resolved)) node := by
    rw [hparent, hshape₂.length]
    exact fun node hlt => hfollows.ends hwell hlt
  have hrange : ParentsInRange (attachChildren resolved) := by
    rw [ParentsInRange, hparent, hshape₂.length]
    exact hfollows.parentsInRange
  have howners : ∀ node ∈ attachChildren resolved, ∀ owner, node.ownerType = some owner →
      owner < (attachChildren resolved).length := by
    intro node hnode owner howner
    obtain ⟨i, hi⟩ := List.getElem?_of_mem hnode
    rw [(hindexed₂.node hi).2.2, ownerType_eq_some hindexed₂.nodup] at howner
    rw [hindexed₂.length]
    exact (List.getElem?_eq_some_iff.1 howner.2.2).1
  have hsome : (attachInheritedMembers fuel (attachChildren resolved)
      (acc.pending.toList.map (·.1))).isSome :=
    attachInheritedMembers_isSome hends hrange (by rw [hindexed₂.length, hlength]; omega) howners
  obtain ⟨finished, hfinished⟩ := Option.isSome_iff_exists.1 hsome
  rw [finishTree]
  rw [pendingNodes] at hresolved
  simp only [hresolved, Option.bind_eq_bind, Option.bind_some, hfinished]
  rfl

/-- With enough fuel the construction gives a founded tree. -/
def BuildsFounded (definitions : List OrderedDefinitionUnit) (diagnostics : List TreeDiagnostic) :
    Prop :=
  ∃ bound, ∀ fuel, bound ≤ fuel → ∃ output,
    buildDefinitionUnits fuel definitions diagnostics = some output ∧ output.tree.Founded

theorem WellParented.buildsFounded {units : List OrderedDefinitionUnit}
    (h : WellParented (units.map (·.unit.definition))) (diagnostics : List TreeDiagnostic) :
    BuildsFounded units diagnostics := by
  have hkeeps := declareAll_keeps units diagnostics
  refine ⟨(declareAll units diagnostics).pending.toList.length + 2, fun fuel hfuel => ?_⟩
  obtain ⟨output, houtput⟩ := Option.isSome_iff_exists.1 (finishTree_isSome hkeeps h hfuel)
  exact ⟨output, houtput, (finishTree_finished hkeeps houtput).founded_of_wellParented h rfl⟩

theorem BuildsFounded.wellParented {units : List OrderedDefinitionUnit}
    {diagnostics : List TreeDiagnostic} (h : BuildsFounded units diagnostics) :
    WellParented (units.map (·.unit.definition)) := by
  obtain ⟨bound, hbound⟩ := h
  obtain ⟨output, houtput, hfounded⟩ := hbound bound (Nat.le_refl _)
  exact (finishTree_finished (declareAll_keeps units diagnostics) houtput).wellParented_of_founded
    rfl hfounded

/-- The construction ends in a founded tree exactly for well-parented declarations. -/
theorem buildDefinitionUnits_founded_iff (units : List OrderedDefinitionUnit)
    (diagnostics : List TreeDiagnostic) :
    BuildsFounded units diagnostics ↔ WellParented (units.map (·.unit.definition)) :=
  ⟨BuildsFounded.wellParented, fun h => h.buildsFounded diagnostics⟩

/-! ## A cycle that the reset closes -/

/-- A type declaration. -/
def typeDefinition (path : DefinitionPath) : Definition := ⟨path, .type, ⟨0, 0⟩, []⟩

/-- The declaration of a type's `parent_type`. -/
def parentDefinition (path : DefinitionPath) (target : List String) : Definition where
  path := path
  kind := .variableOverride
  span := ⟨0, 0⟩
  header := ⟨.identifier "parent_type", ⟨0, 0⟩⟩ :: ⟨.operator "=", ⟨0, 0⟩⟩ ::
    target.flatMap fun segment => [⟨.operator "/", ⟨0, 0⟩⟩, ⟨.identifier segment, ⟨0, 0⟩⟩]

/-- `/a` has the parent `/a/b`, and `/a/b` and `/c` have each other. -/
def crossedParents : List Definition :=
  [typeDefinition ⟨["a"], by decide, by decide⟩,
    typeDefinition ⟨["a", "b"], by decide, by decide⟩,
    typeDefinition ⟨["c"], by decide, by decide⟩,
    parentDefinition ⟨["a", "var", "parent_type"], by decide, by decide⟩ ["a", "b"],
    parentDefinition ⟨["a", "b", "var", "parent_type"], by decide, by decide⟩ ["c"],
    parentDefinition ⟨["c", "var", "parent_type"], by decide, by decide⟩ ["a", "b"]]

def crossedUnits : List OrderedDefinitionUnit :=
  crossedParents.zipIdx.map fun entry => ⟨⟨0, entry.2, entry.1⟩, entry.2⟩

/-- The cycle of `/a/b` and `/c` is found and `/a/b` gets its path parent `/a` back, whose
parent is `/a/b`. -/
theorem crossedParents_reenter :
    Reenter (assignedParent crossedParents) (pathParent crossedParents) ["a", "b"] ["a", "b"] := by
  have ha : assignedParent crossedParents ["a"] = some ["a", "b"] := by decide
  have hb : assignedParent crossedParents ["a", "b"] = some ["c"] := by decide
  have hc : assignedParent crossedParents ["c"] = some ["a", "b"] := by decide
  have hpath : pathParent crossedParents ["a", "b"] = some ["a"] := by decide
  have hcycle : OnCycle (assignedParent crossedParents) ["a", "b"] :=
    ⟨1, by rw [climb_succ, hb, Option.bind_some, climb_one, hc]⟩
  have hoff : ¬ OnCycle (assignedParent crossedParents) ["a"] := by
    intro h
    obtain ⟨m, hm⟩ := h.back (j := 1) (by rw [climb_one]; exact ha)
    have hmem := mem_of_climb (s := {["a", "b"], ["c"]}) (by
      rintro path (rfl | rfl) above habove
      · rw [hb] at habove
        exact .inr (Option.some.inj habove).symm
      · rw [hc] at habove
        exact .inl (Option.some.inj habove).symm) (.inl rfl) hm
    revert hmem
    simp
  refine ⟨hcycle, ["a"], 1, hpath, by rw [climb_one]; exact ha, hcycle, fun j hj d hd => ?_⟩
  obtain rfl : j = 0 := by omega
  cases hd
  exact hoff

theorem buildDefinitionUnits_not_founded :
    ¬ ∀ (units : List OrderedDefinitionUnit) (diagnostics : List TreeDiagnostic),
      BuildsFounded units diagnostics := by
  intro h
  have hwell := (h crossedUnits []).wellParented
  have hmap : crossedUnits.map (·.unit.definition) = crossedParents := rfl
  rw [hmap] at hwell
  exact hwell.not_reenter _ (.single crossedParents_reenter)

end Dream64.ObjectTree
