import Dream64.ObjectTree.Resolve

/-!
# Children and inherited members

The last two passes over the nodes. `attach_children` gives every node the
types whose parent it is, in node order. `attach_inherited_members` walks from
the parent of a member's owner to the nearest ancestor that has a member of the
same name and kind; the paths of the nodes make the path it looks up there the
same as a node with that owner, name and kind.
-/

namespace Dream64.ObjectTree

open ParentGraph

variable {nodes : List CodeNode} {paths : List CodePath} {definitions : List Definition}

/-! ## Children -/

/-- A type whose parent is the node. -/
def isChild (nodes : List CodeNode) (parent child : NodeId) : Bool :=
  nodes[child]?.any fun node => node.kind = .type ∧ node.parentType = some parent

/-- One child of the loop. -/
def attachChild (nodes acc : List CodeNode) (child : NodeId) : List CodeNode :=
  match nodes[child]?.filter (·.kind = .type) with
  | some node =>
    match node.parentType with
    | some parent => acc.modify parent fun p => { p with childTypes := p.childTypes ++ [child] }
    | none => acc
  | none => acc

theorem attachChildren_eq (nodes : List CodeNode) :
    attachChildren nodes = (List.range nodes.length).foldl (attachChild nodes) nodes := rfl

variable {β : Type}

theorem map_attachChild (g : CodeNode → β)
    (hg : ∀ (node : CodeNode) ids, g { node with childTypes := ids } = g node)
    (nodes acc : List CodeNode) (child : NodeId) :
    (attachChild nodes acc child).map g = acc.map g := by
  rw [attachChild]
  cases nodes[child]?.filter (·.kind = .type) with
  | none => rfl
  | some node =>
    dsimp only
    cases node.parentType with
    | none => rfl
    | some parent => exact map_modify g acc parent fun n => hg n _

theorem map_attachChildren (g : CodeNode → β)
    (hg : ∀ (node : CodeNode) ids, g { node with childTypes := ids } = g node)
    (nodes : List CodeNode) : (attachChildren nodes).map g = nodes.map g := by
  have hfold : ∀ (children : List NodeId) (acc : List CodeNode),
      (children.foldl (attachChild nodes) acc).map g = acc.map g := by
    intro children
    induction children with
    | nil => intro acc; rfl
    | cons child children ih =>
      intro acc
      rw [List.foldl_cons, ih]
      exact map_attachChild g hg nodes acc child
  rw [attachChildren_eq]
  exact hfold _ nodes

theorem attachChild_childTypes (nodes acc : List CodeNode) (child i : NodeId) :
    (attachChild nodes acc child)[i]?.map (·.childTypes) =
      acc[i]?.map fun node => node.childTypes ++ [child].filter (isChild nodes i) := by
  rw [attachChild, List.filter_singleton, isChild]
  cases nodes[child]? with
  | none => simp
  | some node =>
    by_cases htype : node.kind = .type
    · rw [Option.filter_some_pos (by simpa using htype)]
      cases hparent : node.parentType with
      | none => simp [hparent]
      | some parent =>
        simp only [List.getElem?_modify, Option.any_some, hparent, htype, true_and,
          Option.some.injEq]
        cases acc[i]? with
        | none => rfl
        | some n =>
          by_cases heq : parent = i
          · simp [heq]
          · simp [heq]
    · rw [Option.filter_some_neg (by simpa using htype)]
      simp [htype]

theorem attachChildren_childTypes (nodes : List CodeNode) (i : NodeId) :
    (attachChildren nodes)[i]?.map (·.childTypes) =
      nodes[i]?.map fun node =>
        node.childTypes ++ (List.range nodes.length).filter (isChild nodes i) := by
  have hfold : ∀ (children : List NodeId) (acc : List CodeNode),
      (children.foldl (attachChild nodes) acc)[i]?.map (·.childTypes) =
        acc[i]?.map fun node => node.childTypes ++ children.filter (isChild nodes i) := by
    intro children
    induction children with
    | nil => intro acc; simp
    | cons child children ih =>
      intro acc
      have hstep := attachChild_childTypes nodes acc child i
      rw [List.foldl_cons, ih, List.filter_cons]
      cases hafter : (attachChild nodes acc child)[i]? with
      | none =>
        rw [hafter, Option.map_none, eq_comm, Option.map_eq_none_iff] at hstep
        rw [hstep]
        rfl
      | some after =>
        rw [hafter, Option.map_some] at hstep
        obtain ⟨node, hnode, heq⟩ := Option.map_eq_some_iff.1 hstep.symm
        rw [hnode, Option.map_some, Option.map_some, ← heq, List.append_assoc,
          List.filter_singleton]
        cases isChild nodes i child <;> rfl
  rw [attachChildren_eq]
  exact hfold _ nodes

/-! ## The paths of members -/

variable {path : CodePath} {kind : NodeKind}

/-- Only the path of a type need not have a namespace. -/
theorem valid_of_firstKind (h : firstKind definitions path = some kind) :
    hasValidMemberNamespace path kind = true := by
  by_cases htype : kind = .type
  · rw [htype]
    rfl
  · obtain ⟨definition, -, -, -, hvalid⟩ := exists_definition_of_firstKind h htype
    exact hvalid

/-- A member's path is its owner's, the namespace of its kind and its name. -/
theorem member_path {namespace' : String} (hvalid : hasValidMemberNamespace path kind = true)
    (hkind : kind.namespace? = some namespace') :
    2 ≤ path.length ∧ ∃ name, path.getLast? = some name ∧
      path.drop (path.length - 2) = [namespace', name] := by
  rw [hasValidMemberNamespace, hkind] at hvalid
  simp only [Bool.and_eq_true, decide_eq_true_eq, beq_iff_eq] at hvalid
  obtain ⟨hlength, hnamespace⟩ := hvalid
  have hlt : path.length - 1 < path.length := by omega
  refine ⟨hlength, path[path.length - 1], ?_, ?_⟩
  · rw [List.getLast?_eq_getElem?, List.getElem?_eq_getElem hlt]
  · have hlt' : path.length - 2 < path.length := by omega
    rw [List.getElem?_eq_getElem hlt', Option.some.injEq] at hnamespace
    rw [List.drop_eq_getElem_cons hlt', hnamespace, show path.length - 2 + 1 = path.length - 1 by
      omega, List.drop_eq_getElem_cons hlt, List.drop_eq_nil_of_le (by omega)]

theorem NodeKind.namespace?_isSome (h : kind ≠ .type) : ∃ name, kind.namespace? = some name := by
  cases kind with
  | type => exact absurd rfl h
  | _ => exact ⟨_, rfl⟩

theorem path_ne_nil (h : (firstKind definitions path).isSome) : path ≠ [] := by
  rintro rfl
  obtain ⟨kind, hkind⟩ := Option.isSome_iff_exists.1 h
  rcases List.mem_append.1 (mem_of_lookup hkind) with hmem | hmem
  · obtain ⟨standard, hstandard, heq⟩ := List.mem_map.1 hmem
    cases heq
    exact absurd hstandard (by decide)
  · obtain ⟨definition, -, hmention⟩ := List.mem_flatMap.1 hmem
    have hne := definition.path.nonempty
    rw [mentions] at hmention
    split at hmention
    · rcases List.mem_append.1 hmention with hmention | hmention
      · obtain ⟨length, -, heq⟩ := List.mem_map.1 hmention
        have htake := congrArg (List.length ∘ Prod.fst) heq
        have hpos : 0 < definition.path.segments.length := List.length_pos_iff.2 hne
        simp only [Function.comp_apply, List.length_take, List.length_nil] at htake
        omega
      · have heq := List.mem_singleton.1 hmention
        exact hne (congrArg Prod.fst heq).symm
    · cases hmention

/-! ## Inherited members -/

/-- A node is the member of an ancestor that has the name and the kind of another. -/
def IsMember (nodes : List CodeNode) (member ancestor : NodeId) (node : CodeNode) : Prop :=
  ∃ m, nodes[member]? = some m ∧ m.ownerType = some ancestor ∧
    m.path.getLast? = node.path.getLast? ∧ m.kind = node.kind

theorem ownerType_eq_some (hnodup : paths.Nodup) {owner : NodeId} :
    ownerType path kind paths = some owner ↔
      kind ≠ .type ∧ path.length - 2 ≠ 0 ∧ paths[owner]? = some (path.take (path.length - 2)) := by
  rw [ownerType]
  by_cases htype : kind = .type
  · simp [htype]
  · by_cases hlength : path.length - 2 = 0
    · simp [htype, hlength]
    · rw [if_neg htype, if_neg hlength, nodeIndex_eq_some hnodup]
      exact ⟨fun h => ⟨htype, hlength, h⟩, fun h => h.2.2⟩

variable {node : CodeNode}

/-- What the walk looks up on an ancestor is its member of the same name and kind. -/
theorem memberOf_eq_some (hindexed : Indexed definitions paths nodes)
    {i owner ancestor member : NodeId} (hnode : nodes[i]? = some node)
    (howner : node.ownerType = some owner) :
    memberOf nodes paths (node.path.drop (pathAt paths owner).length) node.kind ancestor =
      some member ↔ IsMember nodes member ancestor node := by
  obtain ⟨-, hkind, hownerType⟩ := hindexed.node hnode
  rw [howner, eq_comm, ownerType_eq_some hindexed.nodup] at hownerType
  obtain ⟨htype, hlength, hownerPath⟩ := hownerType
  obtain ⟨namespace', hnamespace⟩ := NodeKind.namespace?_isSome htype
  obtain ⟨-, name, hname, hsuffix⟩ := member_path (valid_of_firstKind hkind) hnamespace
  have hdrop : node.path.drop (pathAt paths owner).length = [namespace', name] := by
    rw [pathAt_eq hownerPath, List.length_take, Nat.min_eq_left (by omega), hsuffix]
  rw [hdrop, memberOf, IsMember]
  constructor
  · intro h
    obtain ⟨above, habove, h⟩ := Option.bind_eq_some_iff.1 h
    obtain ⟨candidate, hcandidate, h⟩ := Option.bind_eq_some_iff.1 h
    obtain ⟨m, hm, h⟩ := Option.bind_eq_some_iff.1 h
    obtain ⟨_, hguard, h⟩ := Option.bind_eq_some_iff.1 h
    cases h
    have hmkind : m.kind = node.kind := by
      by_contra hne
      simp [guard, hne] at hguard
    obtain ⟨habovePath, haboveKind, -⟩ := hindexed.node habove
    obtain ⟨hmPath, -, hmOwner⟩ := hindexed.node hm
    have hpath : m.path = above.path ++ [namespace', name] := by
      have hboth := hmPath.symm.trans ((nodeIndex_eq_some hindexed.nodup).1 hcandidate)
      exact Option.some.inj hboth
    have hpos : 0 < above.path.length :=
      List.length_pos_iff.2 (path_ne_nil (by rw [haboveKind]; rfl))
    refine ⟨m, hm, ?_, ?_, hmkind⟩
    · rw [hmOwner, ownerType_eq_some hindexed.nodup, hmkind, hpath]
      have hlength' : (above.path ++ [namespace', name]).length = above.path.length + 2 :=
        List.length_append
      refine ⟨htype, by omega, ?_⟩
      rw [habovePath, List.length_append, List.length_cons, List.length_singleton,
        Nat.add_sub_cancel, List.take_left']
      rfl
    · rw [hpath, hname]
      simp
  · rintro ⟨m, hm, hmOwner, hmName, hmKind⟩
    obtain ⟨hmPath, hmFirst, hmOwnerType⟩ := hindexed.node hm
    rw [hmOwner, eq_comm, ownerType_eq_some hindexed.nodup] at hmOwnerType
    obtain ⟨-, -, hancestor⟩ := hmOwnerType
    obtain ⟨above, habove, hpath⟩ := hindexed.exists_node hancestor
    obtain ⟨-, name', hname', hsuffix'⟩ :=
      member_path (valid_of_firstKind hmFirst) (hmKind ▸ hnamespace)
    rw [hmName, hname] at hname'
    cases hname'
    have hwhole : m.path = above.path ++ [namespace', name] := by
      rw [hpath, ← hsuffix', List.take_append_drop]
    have hindex : nodeIndex paths (above.path ++ [namespace', name]) = some member := by
      rw [nodeIndex_eq_some hindexed.nodup, hmPath, hwhole]
    simp [habove, hindex, hm, hmKind, guard]

variable {fuel : Nat}

/-- The walk gives the first ancestor's member, counted from where it starts. -/
theorem nearestMember_eq_some {suffix : CodePath} {current result : Option NodeId}
    (h : nearestMember nodes paths suffix kind fuel current = some result) (member : NodeId) :
    result = some member ↔ ∃ k ancestor, current.bind (climb (parentOf nodes) k) = some ancestor ∧
      memberOf nodes paths suffix kind ancestor = some member ∧
      ∀ j < k, ∀ lower, current.bind (climb (parentOf nodes) j) = some lower →
        memberOf nodes paths suffix kind lower = none := by
  induction fuel generalizing current with
  | zero => cases h
  | succ fuel ih =>
    cases current with
    | none =>
      cases h
      simp
    | some ancestor =>
      rw [nearestMember] at h
      cases hmember : memberOf nodes paths suffix kind ancestor with
      | some candidate =>
        rw [hmember] at h
        cases h
        constructor
        · rintro ⟨⟩
          exact ⟨0, ancestor, rfl, hmember, by simp⟩
        · rintro ⟨k, above, hclimb, habove, hlower⟩
          cases k with
          | zero =>
            cases hclimb
            rw [← hmember, habove]
          | succ k =>
            have hnone := hlower 0 (by omega) ancestor rfl
            rw [hmember] at hnone
            cases hnone
      | none =>
        rw [hmember] at h
        rw [ih h]
        constructor
        · rintro ⟨k, above, hclimb, habove, hlower⟩
          refine ⟨k + 1, above, hclimb, habove, fun j hj lower hlow => ?_⟩
          cases j with
          | zero => cases hlow; exact hmember
          | succ j => exact hlower j (by omega) lower hlow
        · rintro ⟨k, above, hclimb, habove, hlower⟩
          cases k with
          | zero =>
            cases hclimb
            rw [hmember] at habove
            cases habove
          | succ k =>
            exact ⟨k, above, hclimb, habove, fun j hj lower hlow =>
              hlower (j + 1) (by omega) lower hlow⟩

theorem nearestMember_isSome {suffix : CodePath} {k : Nat} {current : Option NodeId}
    (h : current.bind (climb (parentOf nodes) k) = none) (hfuel : k + 1 ≤ fuel) :
    (nearestMember nodes paths suffix kind fuel current).isSome := by
  induction k generalizing current fuel with
  | zero =>
    obtain ⟨fuel, rfl⟩ : ∃ n, fuel = n + 1 := ⟨fuel - 1, by omega⟩
    cases current with
    | none => rfl
    | some ancestor => cases h
  | succ k ih =>
    obtain ⟨fuel, rfl⟩ : ∃ n, fuel = n + 1 := ⟨fuel - 1, by omega⟩
    cases current with
    | none => rfl
    | some ancestor =>
      rw [nearestMember]
      cases memberOf nodes paths suffix kind ancestor with
      | some candidate => rfl
      | none => exact ih h (by omega)

/-- A member is inherited from the nearest strict ancestor of its owner that has it. -/
def InheritsNearest (nodes : List CodeNode) (node : CodeNode) : Prop :=
  ∀ member, node.inheritedMember = some member ↔ ∃ owner k ancestor,
    node.ownerType = some owner ∧ climb (parentOf nodes) (k + 1) owner = some ancestor ∧
      IsMember nodes member ancestor node ∧
      ∀ j < k, ∀ lower, climb (parentOf nodes) (j + 1) owner = some lower →
        ∀ other, ¬ IsMember nodes other lower node

variable {node' : CodeNode}

theorem attachInheritedMember_eq (h : attachInheritedMember fuel nodes paths node = some node') :
    ∃ member, node' = { node with inheritedMember := member } := by
  rw [attachInheritedMember] at h
  split at h
  · cases h
    exact ⟨node.inheritedMember, rfl⟩
  · obtain ⟨member, -, h⟩ := Option.bind_eq_some_iff.1 h
    cases h
    exact ⟨member, rfl⟩

theorem attachInheritedMember_inherits (hindexed : Indexed definitions paths nodes) {i : NodeId}
    (hnode : nodes[i]? = some node) (hinit : node.inheritedMember = none)
    (h : attachInheritedMember fuel nodes paths node = some node') :
    InheritsNearest nodes node' := by
  rw [attachInheritedMember] at h
  cases howner : node.ownerType with
  | none =>
    rw [howner] at h
    cases h
    intro member
    rw [hinit, howner]
    simp
  | some owner =>
    rw [howner] at h
    obtain ⟨result, hresult, h⟩ := Option.bind_eq_some_iff.1 h
    cases h
    intro member
    have hpath : (nodes[owner]?.map (·.path)).getD [] = pathAt paths owner := by
      obtain ⟨-, -, hownerType⟩ := hindexed.node hnode
      rw [howner, eq_comm, ownerType_eq_some hindexed.nodup] at hownerType
      obtain ⟨above, habove, heq⟩ := hindexed.exists_node hownerType.2.2
      rw [habove, Option.map_some, Option.getD_some, pathAt_eq (hindexed.node habove).1]
    rw [hpath] at hresult
    have hmemberOf : ∀ ancestor member, memberOf nodes paths
        (node.path.drop (pathAt paths owner).length) node.kind ancestor = some member ↔
          IsMember nodes member ancestor node :=
      fun ancestor member => memberOf_eq_some hindexed hnode howner
    show result = some member ↔ _
    rw [nearestMember_eq_some hresult member]
    constructor
    · rintro ⟨k, ancestor, hclimb, hmember, hlower⟩
      refine ⟨owner, k, ancestor, rfl, hclimb, (hmemberOf ancestor member).1 hmember, ?_⟩
      intro j hj lower hlow other hother
      have hnone := hlower j hj lower hlow
      rw [(hmemberOf lower other).2 hother] at hnone
      cases hnone
    · rintro ⟨owner', k, ancestor, howner', hclimb, hmember, hlower⟩
      cases howner'
      refine ⟨k, ancestor, hclimb, (hmemberOf ancestor member).2 hmember, ?_⟩
      intro j hj lower hlow
      by_contra hne
      obtain ⟨other, hother⟩ := Option.ne_none_iff_exists'.1 hne
      exact hlower j hj lower hlow other ((hmemberOf lower other).1 hother)

theorem mapM_eq_some {α : Type} (f : α → Option β) (l : List α) (l' : List β) :
    l.mapM f = some l' ↔ l.map f = l'.map some := by
  induction l generalizing l' with
  | nil =>
    rw [List.mapM_nil]
    cases l' with
    | nil => simp
    | cons b l' => simp
  | cons a l ih =>
    rw [List.mapM_cons, List.map_cons]
    constructor
    · intro h
      obtain ⟨b, hb, h⟩ := Option.bind_eq_some_iff.1 h
      obtain ⟨bs, hbs, h⟩ := Option.bind_eq_some_iff.1 h
      cases h
      rw [List.map_cons, hb, (ih bs).1 hbs]
    · intro h
      cases l' with
      | nil => cases h
      | cons b bs =>
        rw [List.map_cons, List.cons.injEq] at h
        rw [h.1, (ih bs).2 h.2]
        rfl

theorem map_attachInheritedMembers (g : CodeNode → β)
    (hg : ∀ (node : CodeNode) member, g { node with inheritedMember := member } = g node)
    {nodes' : List CodeNode} (h : attachInheritedMembers fuel nodes paths = some nodes') :
    nodes'.map g = nodes.map g := by
  rw [attachInheritedMembers, mapM_eq_some] at h
  refine List.ext_getElem? fun i => ?_
  have hi := congrArg (fun l => l[i]?) h
  simp only [List.getElem?_map] at hi
  rw [List.getElem?_map, List.getElem?_map]
  cases hnode : nodes[i]? with
  | none =>
    rw [hnode, Option.map_none, eq_comm, Option.map_eq_none_iff] at hi
    rw [hi]
  | some node =>
    rw [hnode, Option.map_some] at hi
    obtain ⟨node', hnode', hattach⟩ := Option.map_eq_some_iff.1 hi.symm
    obtain ⟨member, rfl⟩ := attachInheritedMember_eq hattach.symm
    rw [hnode', Option.map_some, Option.map_some, hg]

theorem attachInheritedMembers_inherits (hindexed : Indexed definitions paths nodes)
    (hinit : ∀ node ∈ nodes, node.inheritedMember = none) {nodes' : List CodeNode}
    (h : attachInheritedMembers fuel nodes paths = some nodes') (hnode' : node' ∈ nodes') :
    InheritsNearest nodes node' := by
  rw [attachInheritedMembers, mapM_eq_some] at h
  have hmem : some node' ∈ nodes.map (attachInheritedMember fuel nodes paths) :=
    h ▸ List.mem_map_of_mem hnode'
  obtain ⟨node, hnode, hattach⟩ := List.mem_map.1 hmem
  obtain ⟨i, hi⟩ := List.getElem?_of_mem hnode
  exact attachInheritedMember_inherits hindexed hi (hinit node hnode) hattach

end Dream64.ObjectTree
