import Dream64.ObjectTree.ArtifactTrees

/-!
# Nodes without their declarations

No step of the construction looks at the declarations of a node, and none looks
at where an assignment stands. So the nodes of a tree, without their
declarations, are those that the pending nodes without theirs and the owners and
targets of the assignments give (`nodes_finishTree`).
-/

namespace Dream64.ObjectTree

/-- The node without its declarations. -/
def CodeNode.bare (node : CodeNode) : CodeNode := { node with declarations := [] }

def bare (nodes : List CodeNode) : List CodeNode := nodes.map CodeNode.bare

variable {nodes : List CodeNode} {paths : List CodePath} {fuel : Nat}

@[simp] theorem length_bare (nodes : List CodeNode) : (bare nodes).length = nodes.length :=
  List.length_map _

@[simp] theorem getElem?_bare (nodes : List CodeNode) (i : NodeId) :
    (bare nodes)[i]? = nodes[i]?.map CodeNode.bare := List.getElem?_map

@[simp] theorem parentOf_bare (nodes : List CodeNode) : parentOf (bare nodes) = parentOf nodes := by
  funext node
  rw [parentOf, parentOf, getElem?_bare, Option.bind_map]
  rfl

theorem isType_bare (nodes : List CodeNode) (i : NodeId) :
    (bare nodes)[i]?.any (·.kind = .type) = nodes[i]?.any (·.kind = .type) := by
  rw [getElem?_bare, Option.any_map]
  rfl

theorem bare_modify (nodes : List CodeNode) (i : NodeId) {f : CodeNode → CodeNode}
    (hf : ∀ node, (f node).bare = f node.bare) :
    bare (nodes.modify i f) = (bare nodes).modify i f := by
  refine List.ext_getElem? fun j => ?_
  rw [getElem?_bare, List.getElem?_modify, List.getElem?_modify, getElem?_bare]
  cases nodes[j]? with
  | none => rfl
  | some node =>
    by_cases heq : i = j
    · simp [heq, hf]
    · simp [heq]

theorem bare_setParentType (nodes : List CodeNode) (owner : NodeId) (parent : Option NodeId) :
    bare (setParentType nodes owner parent) = setParentType (bare nodes) owner parent :=
  bare_modify nodes owner fun _ => rfl

/-! ## Parents -/

/-- What an assignment does to the nodes. -/
def PendingParentAssignment.effect (assignment : PendingParentAssignment) :
    CodePath × Option CodePath := (assignment.owner, assignment.target)

theorem assignmentTarget_bare (nodes : List CodeNode) {a a' : PendingParentAssignment}
    (h : a'.effect = a.effect) :
    assignmentTarget (bare nodes) paths a' = assignmentTarget nodes paths a := by
  rw [assignmentTarget, assignmentTarget, show a'.target = a.target from congrArg Prod.snd h]
  simp only [isType_bare]

/-- The same nodes, and the same owners that have been given a parent. -/
def Applied.Alike (acc acc' : Applied) : Prop :=
  acc'.nodes = bare acc.nodes ∧ acc'.applied.map (·.1) = acc.applied.map (·.1)

theorem applyAssignment_alike {acc acc' : Applied} (h : acc.Alike acc')
    {a a' : PendingParentAssignment} (heffect : a'.effect = a.effect) :
    (applyAssignment paths acc a).Alike (applyAssignment paths acc' a') := by
  obtain ⟨hnodes, happlied⟩ := h
  rw [applyAssignment, applyAssignment, hnodes, assignmentTarget_bare acc.nodes heffect,
    show a'.owner = a.owner from congrArg Prod.fst heffect]
  split
  · refine ⟨(bare_setParentType ..).symm, ?_⟩
    rw [List.map_append, List.map_append, happlied]
    rfl
  · exact ⟨rfl, happlied⟩
  · exact ⟨hnodes, happlied⟩

theorem applyAssignments_alike {acc acc' : Applied} (h : acc.Alike acc')
    {assignments assignments' : List PendingParentAssignment}
    (heffect : assignments'.map (·.effect) = assignments.map (·.effect)) :
    (assignments.foldl (applyAssignment paths) acc).Alike
      (assignments'.foldl (applyAssignment paths) acc') := by
  induction assignments generalizing acc acc' assignments' with
  | nil =>
    rw [List.map_eq_nil_iff.1 heffect]
    exact h
  | cons a assignments ih =>
    obtain ⟨a', rest, rfl, ha, hrest⟩ := List.map_eq_cons_iff.1 heffect
    exact ih (applyAssignment_alike h ha) hrest

theorem followChain_bare (nodes : List CodeNode) (fuel : Nat) (state : NodeId → Visit)
    (chain : List NodeId) (current : Option NodeId) :
    followChain (bare nodes) fuel state chain current = followChain nodes fuel state chain current := by
  induction fuel generalizing state chain current with
  | zero => rfl
  | succ fuel ih =>
    cases current with
    | none => rfl
    | some node =>
      rw [followChain, followChain, parentOf_bare]
      simp only [ih]

theorem inheritanceCycleNodes_bare (fuel : Nat) (nodes : List CodeNode) :
    inheritanceCycleNodes fuel (bare nodes) = inheritanceCycleNodes fuel nodes := by
  have hsearch : searchFrom (bare nodes) fuel = searchFrom nodes fuel := by
    funext acc start
    rw [searchFrom, searchFrom, isType_bare, followChain_bare]
  rw [inheritanceCycleNodes, inheritanceCycleNodes, length_bare, hsearch]

theorem resetAssignment_bare {cycleNodes : List NodeId}
    {acc acc' : List CodeNode × List InheritanceDiagnostic} (h : acc'.1 = bare acc.1)
    {entry entry' : NodeId × PendingParentAssignment} (hentry : entry'.1 = entry.1) :
    (resetAssignment paths cycleNodes acc' entry').1 =
      bare (resetAssignment paths cycleNodes acc entry).1 := by
  rw [resetAssignment, resetAssignment, hentry, h]
  split
  · rw [getElem?_bare, Option.bind_map]
    exact (bare_setParentType ..).symm
  · exact h

theorem resetAssignments_bare {cycleNodes : List NodeId}
    {acc acc' : List CodeNode × List InheritanceDiagnostic} (h : acc'.1 = bare acc.1)
    {applied applied' : List (NodeId × PendingParentAssignment)}
    (happlied : applied'.map (·.1) = applied.map (·.1)) :
    (applied'.foldl (resetAssignment paths cycleNodes) acc').1 =
      bare (applied.foldl (resetAssignment paths cycleNodes) acc).1 := by
  induction applied generalizing acc acc' applied' with
  | nil =>
    rw [List.map_eq_nil_iff.1 happlied]
    exact h
  | cons entry applied ih =>
    obtain ⟨entry', rest, rfl, hentry, hrest⟩ := List.map_eq_cons_iff.1 happlied
    exact ih (resetAssignment_bare h hentry) hrest

theorem nodes_resolveParentAssignments (nodes : List CodeNode)
    (declarations declarations' : List TreeDeclaration)
    {assignments assignments' : List PendingParentAssignment}
    (heffect : assignments'.map (·.effect) = assignments.map (·.effect)) :
    (resolveParentAssignments fuel (bare nodes) paths declarations' assignments').map (·.1) =
      (resolveParentAssignments fuel nodes paths declarations assignments).map (bare ·.1) := by
  have hinit : Applied.Alike ⟨nodes, [], []⟩ ⟨bare nodes, [], []⟩ := ⟨rfl, rfl⟩
  obtain ⟨hnodes, happlied⟩ := @applyAssignments_alike paths _ _ hinit _ _ heffect
  rw [resolveParentAssignments, resolveParentAssignments, hnodes, inheritanceCycleNodes_bare]
  cases inheritanceCycleNodes fuel (assignments.foldl (applyAssignment paths) ⟨nodes, [], []⟩).nodes with
  | none => rfl
  | some cycleNodes =>
    exact congrArg some (@resetAssignments_bare paths cycleNodes _ _ rfl _ _
      happlied)

/-! ## Children and inherited members -/

theorem bare_attachChild (nodes acc : List CodeNode) (child : NodeId) :
    bare (attachChild nodes acc child) = attachChild (bare nodes) (bare acc) child := by
  rw [attachChild, attachChild, getElem?_bare]
  cases nodes[child]? with
  | none => rfl
  | some node =>
    by_cases htype : node.kind = .type
    · have hbare : node.bare.kind = .type := htype
      rw [Option.map_some, Option.filter_some_pos (by simpa using htype),
        Option.filter_some_pos (by simpa using hbare)]
      dsimp only
      cases hparent : node.parentType with
      | none =>
        rw [show node.bare.parentType = none from hparent]
      | some parent =>
        rw [show node.bare.parentType = some parent from hparent]
        exact bare_modify acc parent fun _ => rfl
    · have hbare : node.bare.kind ≠ .type := htype
      rw [Option.map_some, Option.filter_some_neg (by simpa using htype),
        Option.filter_some_neg (by simpa using hbare)]

theorem bare_attachChildren (nodes : List CodeNode) :
    bare (attachChildren nodes) = attachChildren (bare nodes) := by
  have hfold (children : List NodeId) (acc : List CodeNode) :
      bare (children.foldl (attachChild nodes) acc) =
        children.foldl (attachChild (bare nodes)) (bare acc) := by
    induction children generalizing acc with
    | nil => rfl
    | cons child children ih => rw [List.foldl_cons, ih, bare_attachChild, List.foldl_cons]
  rw [attachChildren_eq, attachChildren_eq, length_bare]
  exact hfold ..

theorem memberOf_bare (nodes : List CodeNode) (suffix : CodePath) (kind : NodeKind)
    (ancestor : NodeId) :
    memberOf (bare nodes) paths suffix kind ancestor = memberOf nodes paths suffix kind ancestor := by
  rw [memberOf, memberOf, getElem?_bare]
  cases nodes[ancestor]? with
  | none => rfl
  | some node =>
    show (nodeIndex paths (node.path ++ suffix)).bind _ = (nodeIndex paths (node.path ++ suffix)).bind _
    refine congrArg _ (funext fun candidate => ?_)
    rw [getElem?_bare]
    cases nodes[candidate]? <;> rfl

theorem nearestMember_bare (nodes : List CodeNode) (suffix : CodePath) (kind : NodeKind)
    (fuel : Nat) (current : Option NodeId) :
    nearestMember (bare nodes) paths suffix kind fuel current =
      nearestMember nodes paths suffix kind fuel current := by
  induction fuel generalizing current with
  | zero => rfl
  | succ fuel ih =>
    cases current with
    | none => rfl
    | some ancestor =>
      rw [nearestMember, nearestMember, memberOf_bare, parentOf_bare]
      simp only [ih]

theorem attachInheritedMember_bare (nodes : List CodeNode) (node : CodeNode) :
    attachInheritedMember fuel (bare nodes) paths node.bare =
      (attachInheritedMember fuel nodes paths node).map CodeNode.bare := by
  rw [attachInheritedMember, attachInheritedMember, show node.bare.ownerType = node.ownerType from rfl]
  cases node.ownerType with
  | none => rfl
  | some owner =>
    have hpath : ((bare nodes)[owner]?.map (·.path)) = nodes[owner]?.map (·.path) := by
      rw [getElem?_bare, Option.map_map]
      rfl
    dsimp only
    rw [hpath, parentOf_bare, nearestMember_bare]
    rw [show node.bare.path = node.path from rfl, show node.bare.kind = node.kind from rfl]
    generalize nearestMember nodes paths _ node.kind fuel (parentOf nodes owner) = member
    cases member <;> rfl

theorem attachInheritedMembers_bare (nodes : List CodeNode) :
    attachInheritedMembers fuel (bare nodes) paths =
      (attachInheritedMembers fuel nodes paths).map bare := by
  have hall (rest : List CodeNode) :
      (bare rest).mapM (attachInheritedMember fuel (bare nodes) paths) =
        (rest.mapM (attachInheritedMember fuel nodes paths)).map bare := by
    induction rest with
    | nil => rfl
    | cons node rest ih =>
      rw [show bare (node :: rest) = node.bare :: bare rest from rfl, List.mapM_cons,
        List.mapM_cons, ih, attachInheritedMember_bare]
      cases attachInheritedMember fuel nodes paths node with
      | none => rfl
      | some node => cases rest.mapM (attachInheritedMember fuel nodes paths) <;> rfl
  exact hall nodes

/-! ## The whole tree -/

/-- What a pending node is without its declarations. -/
def PendingNode.frame (node : PendingNode) : NodeKind × Bool := (node.kind, node.standard)

/-- The pending nodes and the assignments, without the places of the declarations. -/
structure Declared.Alike (acc acc' : Declared) : Prop where
  pending : acc'.pending.toList.map (fun entry => (entry.1, entry.2.frame)) =
    acc.pending.toList.map fun entry => (entry.1, entry.2.frame)
  assignments : acc'.assignments.toList.map (·.2.effect) = acc.assignments.toList.map (·.2.effect)

theorem bare_initialNodes {pending pending' : List (CodePath × PendingNode)}
    (h : pending'.map (fun entry => (entry.1, entry.2.frame)) =
      pending.map fun entry => (entry.1, entry.2.frame)) :
    initialNodes pending' paths = initialNodes pending paths := by
  rw [initialNodes, initialNodes]
  refine List.ext_getElem? fun i => ?_
  have hi := congrArg (fun l => l[i]?) h
  simp only [List.getElem?_map, List.getElem?_zipIdx] at hi ⊢
  cases hentry : pending[i]? with
  | none =>
    rw [hentry, Option.map_none, Option.map_eq_none_iff] at hi
    rw [hi]
  | some entry =>
    rw [hentry] at hi
    obtain ⟨entry', hentry', heq⟩ := Option.map_eq_some_iff.1 hi
    simp only [Prod.mk.injEq, PendingNode.frame] at heq
    obtain ⟨hpath, hkind, hstandard⟩ := heq
    rw [hentry']
    simp only [Option.map_some, hpath, hkind, hstandard]

theorem bare_pendingNodes (acc : Declared) : bare (pendingNodes acc) =
    initialNodes acc.pending.toList (acc.pending.toList.map (·.1)) := by
  rw [bare, pendingNodes, map_attachDeclarations _ fun _ _ => rfl, initialNodes, List.map_map]
  rfl

theorem nodes_finishTree {acc acc' : Declared} (h : acc.Alike acc') (fuel : Nat) :
    (finishTree fuel acc').map (bare ·.tree.nodes) = (finishTree fuel acc).map (bare ·.tree.nodes) := by
  have hpaths : acc'.pending.toList.map (·.1) = acc.pending.toList.map (·.1) := by
    have hfst := congrArg (List.map Prod.fst) h.pending
    rwa [List.map_map, List.map_map] at hfst
  have hnodes : bare (pendingNodes acc') = bare (pendingNodes acc) := by
    rw [bare_pendingNodes, bare_pendingNodes, hpaths, bare_initialNodes h.pending]
  have heffect : (acc'.assignments.toList.map (·.2)).map (·.effect) =
      (acc.assignments.toList.map (·.2)).map (·.effect) := by
    rw [List.map_map, List.map_map]
    exact h.assignments
  have hstages (acc : Declared) : (finishTree fuel acc).map (bare ·.tree.nodes) =
      ((resolveParentAssignments fuel (pendingNodes acc) (acc.pending.toList.map (·.1))
        (initialDeclarations acc.pending.toList) (acc.assignments.toList.map (·.2))).map
          (bare ·.1)).bind fun nodes => attachInheritedMembers fuel (attachChildren nodes)
            (acc.pending.toList.map (·.1)) := by
    rw [finishTree]
    show ((resolveParentAssignments fuel (pendingNodes acc) _ _ _).bind _).map _ = _
    cases resolveParentAssignments fuel (pendingNodes acc) (acc.pending.toList.map (·.1))
      (initialDeclarations acc.pending.toList) (acc.assignments.toList.map (·.2)) with
    | none => rfl
    | some resolved =>
      rw [Option.map_some, Option.bind_some, Option.bind_some, ← bare_attachChildren,
        attachInheritedMembers_bare]
      show ((attachInheritedMembers fuel (attachChildren resolved.1) _).bind _).map _ = _
      cases attachInheritedMembers fuel (attachChildren resolved.1)
        (acc.pending.toList.map (·.1)) <;> rfl
  rw [hstages acc', hstages acc, ← nodes_resolveParentAssignments (pendingNodes acc') _ [] heffect.symm,
    ← nodes_resolveParentAssignments (pendingNodes acc) _ [] rfl, hnodes, hpaths]

end Dream64.ObjectTree
