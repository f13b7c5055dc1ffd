import Dream64.ObjectTree.Tree

/-!
# What the declarations say

The tree that a list of declarations describes, in terms of the list itself:
a path has the kind of its first mention (`firstKind`), and its stated parent is
that of the last accepted declaration that states one (`lastStated`). The loop
over the declarations keeps exactly these two.
-/

namespace Dream64.ObjectTree

/-- The paths that a declaration mentions: the types above it and its own. -/
def mentions (definition : Definition) : List (CodePath × NodeKind) :=
  let path := definition.path.segments
  let kind := NodeKind.fromDefinition definition.kind
  if hasValidMemberNamespace path kind then
    (List.range (ownerLength path kind)).map (fun length => (path.take (length + 1), .type)) ++
      [(path, kind)]
  else []

/-- The kind of a path is that of its first mention. -/
def firstKind (definitions : List Definition) (path : CodePath) : Option NodeKind :=
  (standardTypes.map (·, NodeKind.type) ++ definitions.flatMap mentions).lookup path

/-- A declaration counts if its path is well formed and has its kind. -/
def accepted (definitions : List Definition) (definition : Definition) : Bool :=
  let kind := NodeKind.fromDefinition definition.kind
  hasValidMemberNamespace definition.path.segments kind &&
    firstKind definitions definition.path.segments == some kind

/-- The parent that the last accepted declaration states for a path; `some none`
where it is not a constant path. -/
def lastStated (definitions : List Definition) (path : CodePath) : Option (Option CodePath) :=
  ((definitions.filter (accepted definitions)).filterMap statedParent).reverse.lookup path

section Lookup

theorem lookup_append {α β : Type} [BEq α] (a : α) (l m : List (α × β)) :
    (l ++ m).lookup a = (l.lookup a).or (m.lookup a) := List.lookup_append

variable {definitions : List Definition} {definition : Definition}

theorem firstKind_snoc (definitions : List Definition) (definition : Definition)
    (path : CodePath) :
    firstKind (definitions ++ [definition]) path =
      (firstKind definitions path).or ((mentions definition).lookup path) := by
  rw [firstKind, firstKind, List.flatMap_append, ← List.append_assoc, lookup_append]
  simp

theorem firstKind_mono {path : CodePath} {kind : NodeKind}
    (h : firstKind definitions path = some kind) (definition : Definition) :
    firstKind (definitions ++ [definition]) path = some kind := by
  rw [firstKind_snoc, h]
  rfl

/-- A well-formed declaration gives its path a kind. -/
theorem firstKind_isSome (hmem : definition ∈ definitions)
    (hvalid : hasValidMemberNamespace definition.path.segments
      (NodeKind.fromDefinition definition.kind)) :
    (firstKind definitions definition.path.segments).isSome := by
  have hmention : (definition.path.segments, NodeKind.fromDefinition definition.kind) ∈
      standardTypes.map (·, NodeKind.type) ++ definitions.flatMap mentions := by
    refine List.mem_append_right _ (List.mem_flatMap.2 ⟨definition, hmem, ?_⟩)
    rw [mentions, if_pos hvalid]
    exact List.mem_append_right _ List.mem_cons_self
  rw [firstKind, List.lookup_isSome_iff]
  exact ⟨_, hmention, by simp⟩

theorem accepted_snoc (hmem : definition ∈ definitions) (last : Definition) :
    accepted (definitions ++ [last]) definition = accepted definitions definition := by
  rw [accepted, accepted]
  cases hvalid : hasValidMemberNamespace definition.path.segments
      (NodeKind.fromDefinition definition.kind) with
  | false => rfl
  | true =>
    obtain ⟨kind, hkind⟩ := Option.isSome_iff_exists.1 (firstKind_isSome hmem hvalid)
    rw [hkind, firstKind_mono hkind]

theorem lastStated_snoc (definitions : List Definition) (definition : Definition)
    (path : CodePath) :
    lastStated (definitions ++ [definition]) path =
      (if accepted (definitions ++ [definition]) definition then
        ((statedParent definition).toList.lookup path) else none).or
      (lastStated definitions path) := by
  have hfilter : definitions.filter (accepted (definitions ++ [definition])) =
      definitions.filter (accepted definitions) :=
    List.filter_congr fun d hd => accepted_snoc hd definition
  rw [lastStated, lastStated, List.filter_append, hfilter, List.filterMap_append,
    List.reverse_append, lookup_append]
  congr 1
  cases haccepted : accepted (definitions ++ [definition]) definition with
  | false => simp [haccepted]
  | true =>
    rw [List.filter_singleton, haccepted]
    cases hstated : statedParent definition <;> simp [hstated]

end Lookup

/-! ## The loop over the declarations -/

/-- The kind that the pending node of a path has. -/
def pendingKind (pending : Pending) (path : CodePath) : Option NodeKind :=
  pending[path]?.map (·.kind)

theorem pendingKind_insertIfNew (pending : Pending) (path other : CodePath) (node : PendingNode) :
    pendingKind (pending.insertIfNew path node) other =
      (pendingKind pending other).or ([(path, node.kind)].lookup other) := by
  rw [pendingKind, pendingKind, Std.TreeMap.getElem?_insertIfNew]
  by_cases heq : path = other
  · subst heq
    by_cases hmem : path ∈ pending
    · simp [hmem]
    · simp [hmem]
  · have hne : compare path other ≠ .eq := fun h => heq (Std.LawfulEqCmp.eq_of_compare h)
    have hbeq : (other == path) = false := by simpa using fun h : other = path => heq h.symm
    rw [if_neg fun h => hne h.1, List.lookup_cons, hbeq]
    simp

theorem pendingKind_insert {pending : Pending} {path : CodePath} {node : PendingNode}
    (h : pendingKind pending path = some node.kind) (other : CodePath) :
    pendingKind (pending.insert path node) other = pendingKind pending other := by
  rw [pendingKind, Std.TreeMap.getElem?_insert]
  by_cases heq : path = other
  · subst heq
    rw [if_pos Std.ReflCmp.compare_self, h]
    rfl
  · rw [if_neg fun hcmp => heq (Std.LawfulEqCmp.eq_of_compare hcmp)]
    rfl

theorem pendingKind_foldl {ι : Type} (pending : Pending) (entries : List ι) (path : ι → CodePath)
    (node : ι → PendingNode) (other : CodePath) :
    pendingKind (entries.foldl (fun pending i => pending.insertIfNew (path i) (node i)) pending)
        other =
      (pendingKind pending other).or
        ((entries.map fun i => (path i, (node i).kind)).lookup other) := by
  induction entries generalizing pending with
  | nil => simp
  | cons i entries ih =>
    rw [List.foldl_cons, ih, pendingKind_insertIfNew, Option.or_assoc, ← lookup_append]
    rfl

/-- The prelude is inserted over nothing, so its nodes are all types. -/
theorem pendingKind_seed (path : CodePath) :
    pendingKind (seedStandardPrelude ∅) path =
      (standardTypes.map (·, NodeKind.type)).lookup path := by
  have hfold : ∀ (types : List CodePath) (pending : Pending),
      (∀ path kind, pendingKind pending path = some kind → kind = .type) →
      pendingKind (types.foldl (fun pending path => pending.insert path ⟨.type, [], true⟩) pending)
          path =
        (pendingKind pending path).or ((types.map (·, NodeKind.type)).lookup path) := by
    intro types
    induction types with
    | nil => simp
    | cons head types ih =>
      intro pending hpending
      have hinsert : ∀ other, pendingKind (pending.insert head ⟨.type, [], true⟩) other =
          (pendingKind pending other).or ([(head, NodeKind.type)].lookup other) := by
        intro other
        rw [pendingKind, Std.TreeMap.getElem?_insert]
        by_cases heq : head = other
        · subst heq
          rw [if_pos Std.ReflCmp.compare_self]
          cases hkind : pendingKind pending head with
          | none => simp
          | some kind => simp [hpending head kind hkind]
        · have hbeq : (other == head) = false := by
            simpa using fun h : other = head => heq h.symm
          rw [if_neg fun hcmp => heq (Std.LawfulEqCmp.eq_of_compare hcmp), List.lookup_cons, hbeq]
          simp [pendingKind]
      rw [List.foldl_cons, ih, hinsert, Option.or_assoc, ← lookup_append]
      · rfl
      · intro other kind hkind
        rw [hinsert] at hkind
        rcases Option.or_eq_some_iff.1 hkind with h | ⟨-, h⟩
        · exact hpending other kind h
        · rw [List.lookup_cons] at h
          split at h
          · exact (Option.some.inj h).symm
          · cases h
  have hempty : pendingKind ∅ path = none := by
    rw [pendingKind, Std.TreeMap.getElem?_emptyc]
    rfl
  rw [seedStandardPrelude, hfold standardTypes ∅ ?_, hempty]
  · rfl
  · intro other kind h
    rw [pendingKind, Std.TreeMap.getElem?_emptyc] at h
    cases h

/-- What the loop has kept of the declarations so far. -/
structure Keeps (acc : Declared) (definitions : List Definition) : Prop where
  kind : ∀ path, pendingKind acc.pending path = firstKind definitions path
  stated : ∀ path, acc.assignments[path]?.map (fun a => (a.owner, a.target)) =
    (lastStated definitions path).map (path, ·)

section

variable {acc : Declared} {definitions : List Definition} (h : Keeps acc definitions)

include h

/-- The pending nodes once a well-formed declaration has entered its path. -/
theorem pendingKind_enter (definition : Definition)
    (hvalid : hasValidMemberNamespace definition.path.segments
      (NodeKind.fromDefinition definition.kind))
    (path : CodePath) : pendingKind (enterPath acc.pending definition.path.segments
        (NodeKind.fromDefinition definition.kind)) path =
      firstKind (definitions ++ [definition]) path := by
  rw [enterPath, pendingKind_insertIfNew, ensureTypeAncestors, pendingKind_foldl, h.kind, Option.or_assoc,
    ← lookup_append, firstKind_snoc, mentions, if_pos hvalid]

theorem insert_stated {definition : Definition} (declaration : PendingDeclaration)
    (haccepted : accepted (definitions ++ [definition]) definition = true) (path : CodePath) :
    (match parentAssignment definition declaration with
      | some assignment => acc.assignments.insert assignment.owner assignment
      | none => acc.assignments)[path]?.map (fun a => (a.owner, a.target)) =
      (lastStated (definitions ++ [definition]) path).map (path, ·) := by
  rw [lastStated_snoc, if_pos haccepted, parentAssignment]
  cases hstated : statedParent definition with
  | none => simpa using h.stated path
  | some stated =>
    simp only [Option.map_some, Option.toList_some, Std.TreeMap.getElem?_insert]
    by_cases heq : stated.1 = path
    · subst heq
      rw [if_pos Std.ReflCmp.compare_self, List.lookup_cons, beq_self_eq_true]
      rfl
    · have hbeq : (path == stated.1) = false := by
        simpa using fun h : path = stated.1 => heq h.symm
      rw [if_neg fun hcmp => heq (Std.LawfulEqCmp.eq_of_compare hcmp), List.lookup_cons, hbeq]
      simpa using h.stated path

theorem Keeps.declareDefinition (ordinal : Nat) (unit : OrderedDefinitionUnit) :
    Keeps (declareDefinition acc ordinal unit) (definitions ++ [unit.unit.definition]) := by
  generalize hdefinition : unit.unit.definition = definition
  cases hvalid : hasValidMemberNamespace definition.path.segments
      (NodeKind.fromDefinition definition.kind) with
  | false =>
    have haccepted : accepted (definitions ++ [definition]) definition = false := by
      rw [accepted, hvalid]
      rfl
    refine ⟨fun path => ?_, fun path => ?_⟩
    · rw [firstKind_snoc, mentions, hvalid]
      simpa [ObjectTree.declareDefinition, hdefinition, hvalid] using h.kind path
    · rw [lastStated_snoc, haccepted]
      simpa [ObjectTree.declareDefinition, hdefinition, hvalid] using h.stated path
  | true =>
    have henter := pendingKind_enter h definition hvalid
    have hsome : (firstKind (definitions ++ [definition]) definition.path.segments).isSome :=
      firstKind_isSome (List.mem_append_right _ List.mem_cons_self) hvalid
    obtain ⟨kind, hkind⟩ := Option.isSome_iff_exists.1 hsome
    have hpending := (henter definition.path.segments).trans hkind
    rw [pendingKind] at hpending
    obtain ⟨node, hnode, rfl⟩ := Option.map_eq_some_iff.1 hpending
    clear hpending
    by_cases hsame : node.kind = NodeKind.fromDefinition definition.kind
    · have haccepted : accepted (definitions ++ [definition]) definition = true := by
        rw [accepted, hvalid, hkind, hsame]
        simp
      refine ⟨fun path => ?_, fun path => ?_⟩
      · rw [← henter path]
        simp only [ObjectTree.declareDefinition, hdefinition, hvalid, if_true, hnode, hsame,
          recordDefinition]
        refine pendingKind_insert ?_ path
        rw [pendingKind, hnode, Option.map_some, hsame]
      · simp only [ObjectTree.declareDefinition, hdefinition, hvalid, if_true, hnode, hsame,
          recordDefinition]
        exact insert_stated h _ haccepted path
    · have haccepted : accepted (definitions ++ [definition]) definition = false := by
        rw [accepted, hvalid, hkind]
        simpa using hsame
      refine ⟨fun path => ?_, fun path => ?_⟩
      · rw [← henter path]
        simp only [ObjectTree.declareDefinition, hdefinition, hvalid, if_true, hnode, hsame,
          if_false]
      · rw [lastStated_snoc, haccepted]
        simp only [ObjectTree.declareDefinition, hdefinition, hvalid, if_true, hnode, hsame,
          if_false]
        simpa using h.stated path

end

/-- The loop keeps the kind of every first mention and the last stated parent of every path. -/
theorem declareAll_keeps (units : List OrderedDefinitionUnit) (diagnostics : List TreeDiagnostic) :
    Keeps (declareAll units diagnostics) (units.map (·.unit.definition)) := by
  have hfold : ∀ (entries : List (OrderedDefinitionUnit × Nat)) (acc : Declared)
      (definitions : List Definition), Keeps acc definitions →
      Keeps (entries.foldl (fun acc entry => declareDefinition acc entry.2 entry.1) acc)
        (definitions ++ entries.map (·.1.unit.definition)) := by
    intro entries
    induction entries with
    | nil => intro acc definitions h; simpa using h
    | cons entry entries ih =>
      intro acc definitions h
      have hrest := ih _ _ (h.declareDefinition entry.2 entry.1)
      rw [List.append_assoc] at hrest
      exact hrest
  have hinit : Keeps ⟨seedStandardPrelude ∅, ∅, diagnostics⟩ [] :=
    ⟨fun path => by rw [pendingKind_seed, firstKind]; simp, fun path => by
      rw [Std.TreeMap.getElem?_emptyc]
      rfl⟩
  have hall := hfold units.zipIdx _ _ hinit
  have hmap : units.zipIdx.map (·.1.unit.definition) = units.map (·.unit.definition) := by
    rw [← List.zipIdx_map_fst 0 units, List.map_map]
    simp
  rw [List.nil_append, hmap] at hall
  exact hall

/-! ## The parents that the declarations give -/

/-- The stated parent of a path, if it is a type of the tree. -/
def appliedParent (definitions : List Definition) (path : CodePath) : Option CodePath :=
  (lastStated definitions path).join.filter fun target =>
    firstKind definitions target = some .type

/-- The parent that its path gives a type, if it is in the tree. -/
def pathParent (definitions : List Definition) (path : CodePath) : Option CodePath :=
  (defaultParentPath path).filter fun parent => (firstKind definitions parent).isSome

/-- The parent of a path before cycles are looked for. -/
def assignedParent (definitions : List Definition) (path : CodePath) : Option CodePath :=
  (appliedParent definitions path).or
    (if firstKind definitions path = some .type then pathParent definitions path else none)

section Stated

variable {definitions : List Definition} {path : CodePath}

theorem mem_of_lookup {α β : Type} [BEq α] [LawfulBEq α] {l : List (α × β)} {a : α} {b : β}
    (h : l.lookup a = some b) : (a, b) ∈ l := by
  obtain ⟨l₁, l₂, rfl, -⟩ := List.lookup_eq_some_iff.1 h
  exact List.mem_append_right _ List.mem_cons_self

theorem statedParent_owner {definition : Definition} {owner : CodePath} {target : Option CodePath}
    (h : statedParent definition = some (owner, target)) :
    2 < definition.path.segments.length ∧
      owner = definition.path.segments.take (definition.path.segments.length - 2) := by
  simp only [statedParent, Option.bind_eq_bind, Option.bind_eq_some_iff, Option.pure_def] at h
  obtain ⟨_, -, _, -, _, -, _, -, _, hlength, h⟩ := h
  cases h
  refine ⟨?_, rfl⟩
  by_contra hle
  simp [guard, hle] at hlength

/-- A declaration that is long enough mentions the type it belongs to. -/
theorem firstKind_owner_isSome {definition : Definition} (hmem : definition ∈ definitions)
    (hvalid : hasValidMemberNamespace definition.path.segments
      (NodeKind.fromDefinition definition.kind))
    (hlength : 2 < definition.path.segments.length) :
    (firstKind definitions
      (definition.path.segments.take (definition.path.segments.length - 2))).isSome := by
  have howner : definition.path.segments.length - 2 ≤ ownerLength definition.path.segments
      (NodeKind.fromDefinition definition.kind) := by
    cases NodeKind.fromDefinition definition.kind <;> simp only [ownerLength] <;> omega
  have hmention : (definition.path.segments.take (definition.path.segments.length - 2),
      NodeKind.type) ∈ mentions definition := by
    rw [mentions, if_pos hvalid]
    refine List.mem_append_left _ (List.mem_map.2 ⟨definition.path.segments.length - 3, ?_, ?_⟩)
    · rw [List.mem_range]
      omega
    · rw [show definition.path.segments.length - 3 + 1 = definition.path.segments.length - 2 by
        omega]
  rw [firstKind, List.lookup_isSome_iff]
  exact ⟨_, List.mem_append_right _ (List.mem_flatMap.2 ⟨definition, hmem, hmention⟩),
    beq_self_eq_true _⟩

/-- An owner is mentioned by the declaration that states its parent. -/
theorem firstKind_of_lastStated {target : Option CodePath}
    (h : lastStated definitions path = some target) : (firstKind definitions path).isSome := by
  rw [lastStated] at h
  have hmem := mem_of_lookup h
  rw [List.mem_reverse] at hmem
  obtain ⟨definition, hdefinition, hstated⟩ := List.mem_filterMap.1 hmem
  obtain ⟨hdefinition, haccepted⟩ := List.mem_filter.1 hdefinition
  simp only [accepted, Bool.and_eq_true] at haccepted
  obtain ⟨hlength, rfl⟩ := statedParent_owner hstated
  exact firstKind_owner_isSome hdefinition haccepted.1 hlength

/-- A path of another kind than a type is that of a declaration. -/
theorem exists_definition_of_firstKind {kind : NodeKind}
    (h : firstKind definitions path = some kind) (htype : kind ≠ .type) :
    ∃ definition ∈ definitions, definition.path.segments = path ∧
      NodeKind.fromDefinition definition.kind = kind ∧
      hasValidMemberNamespace path kind = true := by
  rcases List.mem_append.1 (mem_of_lookup h) with hmem | hmem
  · obtain ⟨standard, -, heq⟩ := List.mem_map.1 hmem
    cases heq
    exact absurd rfl htype
  · obtain ⟨definition, hdefinition, hmention⟩ := List.mem_flatMap.1 hmem
    rw [mentions] at hmention
    cases hvalid : hasValidMemberNamespace definition.path.segments
        (NodeKind.fromDefinition definition.kind) with
    | false => rw [hvalid] at hmention; cases hmention
    | true =>
      rw [hvalid, if_pos rfl] at hmention
      rcases List.mem_append.1 hmention with hmention | hmention
      · obtain ⟨length, -, heq⟩ := List.mem_map.1 hmention
        cases heq
        exact absurd rfl htype
      · cases List.mem_singleton.1 hmention
        exact ⟨definition, hdefinition, rfl, rfl, hvalid⟩

theorem appliedParent_eq_some {target : CodePath} :
    appliedParent definitions path = some target ↔
      lastStated definitions path = some (some target) ∧
        firstKind definitions target = some .type := by
  rw [appliedParent, Option.filter_eq_some_iff, Option.join_eq_some_iff]
  simp

theorem firstKind_of_applied (h : (appliedParent definitions path).isSome) :
    (firstKind definitions path).isSome := by
  obtain ⟨target, htarget⟩ := Option.isSome_iff_exists.1 h
  exact firstKind_of_lastStated (appliedParent_eq_some.1 htarget).1

end Stated

end Dream64.ObjectTree
