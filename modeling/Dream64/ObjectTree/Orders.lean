import Dream64.Library.Sorting
import Dream64.ObjectTree.Bare

/-!
# The order of the declarations

Where no declaration meets a node of another kind and no type is given a parent
twice, the nodes of a tree do not depend on the order of the declarations, and
the declarations of the tree are those of the input, in its order
(`build_order`).
-/

namespace Dream64.ObjectTree

/-- The member of a declaration is below the namespace of its kind. -/
def Definition.valid (definition : Definition) : Bool :=
  hasValidMemberNamespace definition.path.segments (NodeKind.fromDefinition definition.kind)

def definitionsOf (units : List OrderedDefinitionUnit) : List Definition :=
  units.map (·.unit.definition)

/-- No declaration is refused for the kind of its node. -/
def NoKindConflicts (units : List OrderedDefinitionUnit) : Prop :=
  ∀ diagnostic ∈ (declareAll units []).diagnostics, diagnostic.kind ≠ .conflictingNodeKind

/-- The types that are given a parent. -/
def statedOwners (definitions : List Definition) : List CodePath :=
  ((definitions.filter (·.valid)).filterMap statedParent).map (·.1)

/-- The declarations with valid paths, as the table of a tree with the paths has them. -/
def listedDeclarations (paths : List CodePath) (units : List OrderedDefinitionUnit) :
    List TreeDeclaration :=
  (units.zipIdx.filter fun entry => entry.1.unit.definition.valid).zipIdx.map fun entry =>
    { id := entry.2
      node := paths.idxOf entry.1.1.unit.definition.path.segments
      fileId := entry.1.1.unit.fileId
      definitionIndex := entry.1.1.unit.definitionIndex
      ordinal := entry.1.2
      kind := entry.1.1.unit.definition.kind
      span := entry.1.1.unit.definition.span }

/-- A declaration without its place in the order. -/
def TreeDeclaration.content (declaration : TreeDeclaration) :
    NodeId × FileId × Nat × DefinitionKind × SourceSpan :=
  (declaration.node, declaration.fileId, declaration.definitionIndex, declaration.kind,
    declaration.span)

variable {definitions definitions' : List Definition} {acc : Declared}

/-! ## Accepted declarations -/

theorem accepted_append {definition : Definition} (hmem : definition ∈ definitions)
    (more : List Definition) :
    accepted (definitions ++ more) definition = accepted definitions definition := by
  induction more generalizing definitions with
  | nil => rw [List.append_nil]
  | cons last more ih =>
    rw [List.append_cons, ih (List.mem_append_left _ hmem), accepted_snoc hmem]

theorem diagnostics_declareDefinition (acc : Declared) (ordinal : Nat)
    (unit : OrderedDefinitionUnit) :
    acc.diagnostics <+: (declareDefinition acc ordinal unit).diagnostics := by
  have hrecord (acc : Declared) (node : PendingNode) (declaration : PendingDeclaration) :
      acc.diagnostics <+: (recordDefinition acc node declaration unit).diagnostics := by
    rw [recordDefinition]
    dsimp only
    split
    · exact List.prefix_append ..
    · exact List.prefix_rfl
  rw [declareDefinition]
  dsimp only
  split
  · split
    · split
      · exact hrecord { acc with pending := _ } _ _
      · exact List.prefix_append ..
    · exact List.prefix_rfl
  · exact List.prefix_append ..

/-- A valid declaration that is not accepted is reported. -/
theorem conflict_of_not_accepted (h : Keeps acc definitions) (ordinal : Nat)
    {unit : OrderedDefinitionUnit} (hvalid : unit.unit.definition.valid = true)
    (hnot : accepted (definitions ++ [unit.unit.definition]) unit.unit.definition = false) :
    ∃ diagnostic ∈ (declareDefinition acc ordinal unit).diagnostics,
      diagnostic.kind = .conflictingNodeKind := by
  generalize hdefinition : unit.unit.definition = definition at hvalid hnot
  rw [Definition.valid] at hvalid
  have henter := pendingKind_enter h definition hvalid definition.path.segments
  obtain ⟨kind, hkind⟩ := Option.isSome_iff_exists.1
    (firstKind_isSome (List.mem_append_right definitions List.mem_cons_self) hvalid)
  rw [hkind, pendingKind] at henter
  obtain ⟨node, hnode, rfl⟩ := Option.map_eq_some_iff.1 henter
  have hne : node.kind ≠ NodeKind.fromDefinition definition.kind := by
    rintro heq
    rw [accepted, hvalid, hkind, heq] at hnot
    simp at hnot
  refine ⟨definitionDiagnostic .conflictingNodeKind .error
    (node.declarations.head?.map (·.ordinal)) ordinal unit, ?_, rfl⟩
  simp only [declareDefinition, hdefinition, hvalid, if_true, hnode, if_neg hne]
  exact List.mem_append_right _ List.mem_cons_self

theorem accepted_of_noConflicts {units : List OrderedDefinitionUnit} (h : NoKindConflicts units)
    {definition : Definition} (hmem : definition ∈ definitionsOf units)
    (hvalid : definition.valid = true) : accepted (definitionsOf units) definition = true := by
  have hfold : ∀ (entries : List (OrderedDefinitionUnit × Nat)) (acc : Declared)
      (definitions : List Definition), Keeps acc definitions →
      (∀ diagnostic ∈ (entries.foldl (fun acc entry =>
        declareDefinition acc entry.2 entry.1) acc).diagnostics,
          diagnostic.kind ≠ .conflictingNodeKind) →
      (∀ diagnostic ∈ acc.diagnostics, diagnostic.kind ≠ .conflictingNodeKind) ∧
      ∀ definition ∈ entries.map (·.1.unit.definition), definition.valid = true →
        accepted (definitions ++ entries.map (·.1.unit.definition)) definition = true := by
    intro entries
    induction entries with
    | nil => exact fun acc definitions hkeeps hnone => ⟨hnone, fun _ hmem => (by cases hmem)⟩
    | cons entry entries ih =>
      intro acc definitions hkeeps hnone
      obtain ⟨hfirst, hrest⟩ := ih _ _ (hkeeps.declareDefinition entry.2 entry.1) hnone
      have haccepted (hvalid : entry.1.unit.definition.valid = true) :
          accepted (definitions ++ [entry.1.unit.definition]) entry.1.unit.definition = true := by
        by_contra hnot
        obtain ⟨diagnostic, hmem, hkind⟩ := conflict_of_not_accepted hkeeps entry.2 hvalid
          (Bool.eq_false_iff.2 hnot)
        exact hfirst diagnostic hmem hkind
      refine ⟨fun diagnostic hmem =>
        hfirst diagnostic ((diagnostics_declareDefinition ..).subset hmem),
        fun definition hmem hvalid => ?_⟩
      rw [List.map_cons, List.append_cons]
      rcases List.mem_cons.1 hmem with rfl | hmem
      · rw [accepted_append (List.mem_append_right _ List.mem_cons_self)]
        exact haccepted hvalid
      · exact hrest definition hmem hvalid
  have hinit : Keeps ⟨seedStandardPrelude ∅, ∅, []⟩ [] := declareAll_keeps [] []
  have hmap : units.zipIdx.map (·.1.unit.definition) = definitionsOf units := by
    rw [definitionsOf, ← List.zipIdx_map_fst 0 units, List.map_map]
    simp
  have hall := (hfold units.zipIdx _ _ hinit h).2
  rw [List.nil_append, hmap] at hall
  exact hall definition hmem hvalid

/-- All declarations with valid paths are accepted. -/
def AllAccepted (definitions : List Definition) : Prop :=
  ∀ definition ∈ definitions, definition.valid = true → accepted definitions definition = true

theorem AllAccepted.filter_accepted (h : AllAccepted definitions) :
    definitions.filter (accepted definitions) = definitions.filter (·.valid) := by
  refine List.filter_congr fun definition hmem => ?_
  cases hvalid : definition.valid with
  | true => rw [h definition hmem hvalid]
  | false =>
    rw [Definition.valid] at hvalid
    rw [accepted, hvalid, Bool.false_and]

/-! ## Other orders -/

/-- A declaration with a valid path gives the path its kind. -/
theorem AllAccepted.firstKind_eq (h : AllAccepted definitions) {definition : Definition}
    (hmem : definition ∈ definitions) (hvalid : definition.valid = true) :
    firstKind definitions definition.path.segments =
      some (NodeKind.fromDefinition definition.kind) := by
  have haccepted := h definition hmem hvalid
  simp only [accepted, Bool.and_eq_true, beq_iff_eq] at haccepted
  exact haccepted.2

/-- A path that is mentioned, but has no declaration of its own, is a type. -/
theorem AllAccepted.firstKind_eq_some (h : AllAccepted definitions) {path : CodePath}
    {kind : NodeKind} : firstKind definitions path = some kind ↔
      (∃ definition ∈ definitions, definition.valid = true ∧ definition.path.segments = path ∧
        NodeKind.fromDefinition definition.kind = kind) ∨
      ((∀ definition ∈ definitions, definition.valid = true → definition.path.segments ≠ path) ∧
        kind = .type ∧ ∃ mention ∈ standardTypes.map (·, NodeKind.type) ++
          definitions.flatMap mentions, path = mention.1) := by
  constructor
  · intro hkind
    by_cases hdeclared : ∃ definition ∈ definitions, definition.valid = true ∧
        definition.path.segments = path
    · obtain ⟨definition, hmem, hvalid, rfl⟩ := hdeclared
      rw [h.firstKind_eq hmem hvalid] at hkind
      exact Or.inl ⟨definition, hmem, hvalid, rfl, Option.some.inj hkind⟩
    · refine Or.inr ⟨fun definition hmem hvalid hpath =>
        hdeclared ⟨definition, hmem, hvalid, hpath⟩, ?_, _, mem_of_lookup hkind, rfl⟩
      by_contra htype
      obtain ⟨definition, hmem, rfl, rfl, hvalid⟩ := exists_definition_of_firstKind hkind htype
      exact hdeclared ⟨definition, hmem, hvalid, rfl⟩
  · rintro (⟨definition, hmem, hvalid, rfl, rfl⟩ | ⟨hnone, rfl, mention, hmem, rfl⟩)
    · exact h.firstKind_eq hmem hvalid
    · obtain ⟨kind, hkind⟩ := Option.isSome_iff_exists.1
        (List.lookup_isSome_iff.2 ⟨mention, hmem, beq_self_eq_true mention.1⟩)
      by_cases htype : kind = .type
      · exact htype ▸ hkind
      · obtain ⟨definition, hdefinition, hpath, rfl, hvalid⟩ :=
          exists_definition_of_firstKind hkind htype
        rw [← hpath] at hvalid
        exact absurd hpath (hnone definition hdefinition hvalid)

theorem firstKind_perm (hperm : definitions.Perm definitions') (h : AllAccepted definitions)
    (h' : AllAccepted definitions') (path : CodePath) :
    firstKind definitions path = firstKind definitions' path := by
  have hmentions := (hperm.flatMap_right mentions).append_left
    (standardTypes.map (·, NodeKind.type))
  refine Option.ext fun kind => ?_
  rw [h.firstKind_eq_some, h'.firstKind_eq_some]
  simp only [hperm.mem_iff, hmentions.mem_iff]

theorem lastStated_perm (hperm : definitions.Perm definitions') (h : AllAccepted definitions)
    (h' : AllAccepted definitions') (howners : (statedOwners definitions).Nodup) (path : CodePath) :
    lastStated definitions path = lastStated definitions' path := by
  rw [lastStated, lastStated, h.filter_accepted, h'.filter_accepted]
  have hstated := (hperm.filter (·.valid)).filterMap statedParent
  refine Sorting.lookup_perm ?_ ?_ path
  · exact (List.reverse_perm _).trans (hstated.trans (List.reverse_perm _).symm)
  · rw [List.map_reverse, List.nodup_reverse]
    exact howners

/-! ## What the pending nodes record -/

/-- A declaration as the loop records it. -/
def pendingDeclaration (entry : OrderedDefinitionUnit × Nat) : PendingDeclaration :=
  ⟨entry.1.unit.fileId, entry.1.unit.definitionIndex, entry.2, entry.1.unit.definition.kind,
    entry.1.unit.definition.span⟩

def definitionsIn (entries : List (OrderedDefinitionUnit × Nat)) : List Definition :=
  entries.map (·.1.unit.definition)

/-- The declarations that are accepted. -/
def acceptedIn (entries : List (OrderedDefinitionUnit × Nat)) :
    List (OrderedDefinitionUnit × Nat) :=
  entries.filter fun entry => accepted (definitionsIn entries) entry.1.unit.definition

/-- Those of a path. -/
def declaredAt (entries : List (OrderedDefinitionUnit × Nat)) (path : CodePath) :
    List PendingDeclaration :=
  ((acceptedIn entries).filter fun entry =>
    entry.1.unit.definition.path.segments = path).map pendingDeclaration

/-- The standard types, and the accepted declarations of each path. -/
structure Records (pending : Pending) (declarations : CodePath → List PendingDeclaration) : Prop where
  seeded : ∀ path ∈ standardTypes, path ∈ pending
  unheard : ∀ path, path ∉ pending → declarations path = []
  standard : ∀ path node, pending[path]? = some node → node.standard = decide (path ∈ standardTypes)
  declarations : ∀ path node, pending[path]? = some node → node.declarations = declarations path

variable {pending : Pending} {declarations : CodePath → List PendingDeclaration}

theorem Records.insertIfNew (h : Records pending declarations) (path : CodePath) (kind : NodeKind) :
    Records (pending.insertIfNew path ⟨kind, [], false⟩) declarations := by
  have hget (other : CodePath) (node : PendingNode)
      (hnode : (pending.insertIfNew path ⟨kind, [], false⟩)[other]? = some node) :
      pending[other]? = some node ∨ other ∉ pending ∧ node = ⟨kind, [], false⟩ := by
    rw [Std.TreeMap.getElem?_insertIfNew] at hnode
    split at hnode
    · rename_i hnew
      obtain ⟨hcmp, hnew⟩ := hnew
      rw [← Std.LawfulEqCmp.eq_of_compare hcmp]
      exact Or.inr ⟨hnew, (Option.some.inj hnode).symm⟩
    · exact Or.inl hnode
  refine ⟨fun other hmem => ?_, fun other hnot => ?_, fun other node hnode => ?_,
    fun other node hnode => ?_⟩
  · exact Std.TreeMap.mem_insertIfNew.2 (Or.inr (h.seeded other hmem))
  · exact h.unheard other fun hmem => hnot (Std.TreeMap.mem_insertIfNew.2 (Or.inr hmem))
  · rcases hget other node hnode with hold | ⟨hnew, rfl⟩
    · exact h.standard other node hold
    · exact (decide_eq_false fun hmem => hnew (h.seeded other hmem)).symm
  · rcases hget other node hnode with hold | ⟨hnew, rfl⟩
    · exact h.declarations other node hold
    · exact (h.unheard other hnew).symm

theorem Records.enterPath (h : Records pending declarations) (path : CodePath) (kind : NodeKind) :
    Records (enterPath pending path kind) declarations := by
  have hfold (lengths : List Nat) {pending : Pending} (h : Records pending declarations) :
      Records (lengths.foldl (fun pending length =>
        pending.insertIfNew (path.take (length + 1)) ⟨.type, [], false⟩) pending) declarations := by
    induction lengths generalizing pending with
    | nil => exact h
    | cons length lengths ih => exact ih (h.insertIfNew _ _)
  exact (hfold _ h).insertIfNew path kind

/-- A declaration is added to those of its path. -/
theorem Records.insert (h : Records pending declarations) {path : CodePath} {node : PendingNode}
    (hnode : pending[path]? = some node) (declaration : PendingDeclaration) :
    Records (pending.insert path { node with declarations := node.declarations ++ [declaration] })
      (Function.update declarations path (declarations path ++ [declaration])) := by
  have hmem : path ∈ pending := by
    rw [Std.TreeMap.mem_iff_isSome_getElem?, hnode]
    rfl
  refine ⟨fun other hother => ?_, fun other hnot => ?_, fun other entry hentry => ?_,
    fun other entry hentry => ?_⟩
  · exact Std.TreeMap.mem_insert.2 (Or.inr (h.seeded other hother))
  · have hne : other ≠ path := by
      rintro rfl
      exact hnot (Std.TreeMap.mem_insert.2 (Or.inr hmem))
    rw [Function.update_of_ne hne]
    exact h.unheard other fun hother => hnot (Std.TreeMap.mem_insert.2 (Or.inr hother))
  · rw [Std.TreeMap.getElem?_insert] at hentry
    split at hentry
    · rename_i hcmp
      cases hentry
      rw [← Std.LawfulEqCmp.eq_of_compare hcmp]
      exact h.standard path node hnode
    · exact h.standard other entry hentry
  · rw [Std.TreeMap.getElem?_insert] at hentry
    split at hentry
    · rename_i hcmp
      cases hentry
      rw [← Std.LawfulEqCmp.eq_of_compare hcmp, Function.update_self,
        h.declarations path node hnode]
    · rename_i hcmp
      have hne : other ≠ path := by
        rintro rfl
        exact hcmp Std.ReflCmp.compare_self
      rw [Function.update_of_ne hne]
      exact h.declarations other entry hentry

theorem records_seed : Records (seedStandardPrelude ∅) fun _ => [] := by
  have hfold : ∀ (types : List CodePath) (pending : Pending), types ⊆ standardTypes →
      (∀ path node, pending[path]? = some node → node.standard = decide (path ∈ standardTypes) ∧
        node.declarations = []) →
      (∀ path node, (types.foldl (fun pending path =>
          pending.insert path ⟨.type, [], true⟩) pending)[path]? = some node →
        node.standard = decide (path ∈ standardTypes) ∧ node.declarations = []) ∧
      ∀ path, path ∈ types ∨ path ∈ pending → path ∈ types.foldl (fun pending path =>
        pending.insert path ⟨.type, [], true⟩) pending := by
    intro types
    induction types with
    | nil => exact fun pending _ h => ⟨h, fun path hmem => hmem.resolve_left List.not_mem_nil⟩
    | cons first types ih =>
      intro pending hsubset h
      obtain ⟨hnode, hmem⟩ := ih (pending.insert first ⟨.type, [], true⟩)
        (fun path hmem => hsubset (List.mem_cons_of_mem _ hmem)) (fun path node hnode => by
          rw [Std.TreeMap.getElem?_insert] at hnode
          split at hnode
          · rename_i hcmp
            cases hnode
            rw [← Std.LawfulEqCmp.eq_of_compare hcmp]
            exact ⟨(decide_eq_true (hsubset List.mem_cons_self)).symm, rfl⟩
          · exact h path node hnode)
      refine ⟨hnode, fun path hpath => hmem path ?_⟩
      rcases hpath with hpath | hpath
      · rcases List.mem_cons.1 hpath with rfl | hpath
        · exact Or.inr Std.TreeMap.mem_insert_self
        · exact Or.inl hpath
      · exact Or.inr (Std.TreeMap.mem_insert.2 (Or.inr hpath))
  obtain ⟨hnode, hmem⟩ := hfold standardTypes ∅ (List.Subset.refl _) fun path node hnode => by
    rw [Std.TreeMap.getElem?_emptyc] at hnode
    cases hnode
  exact ⟨fun path hpath => hmem path (Or.inl hpath), fun _ _ => rfl,
    fun path node h => (hnode path node h).1, fun path node h => (hnode path node h).2⟩

theorem acceptedIn_snoc (entries : List (OrderedDefinitionUnit × Nat))
    (entry : OrderedDefinitionUnit × Nat) : acceptedIn (entries ++ [entry]) = acceptedIn entries ++
      if accepted (definitionsIn (entries ++ [entry])) entry.1.unit.definition then [entry]
      else [] := by
  have hold : entries.filter (fun e => accepted (definitionsIn (entries ++ [entry]))
      e.1.unit.definition) = acceptedIn entries := by
    refine List.filter_congr fun e he => ?_
    rw [definitionsIn, List.map_append]
    exact accepted_append (List.mem_map_of_mem he) _
  rw [acceptedIn, List.filter_append, hold, List.filter_singleton]
  cases accepted (definitionsIn (entries ++ [entry])) entry.1.unit.definition <;> rfl

theorem declaredAt_snoc (entries : List (OrderedDefinitionUnit × Nat))
    (entry : OrderedDefinitionUnit × Nat) : declaredAt (entries ++ [entry]) =
      if accepted (definitionsIn (entries ++ [entry])) entry.1.unit.definition then
        Function.update (declaredAt entries) entry.1.unit.definition.path.segments
          (declaredAt entries entry.1.unit.definition.path.segments ++ [pendingDeclaration entry])
      else declaredAt entries := by
  funext path
  rw [declaredAt, acceptedIn_snoc]
  split
  · rw [List.filter_append, List.map_append, List.filter_singleton]
    by_cases heq : entry.1.unit.definition.path.segments = path
    · subst heq
      rw [Function.update_self, decide_eq_true rfl]
      rfl
    · rw [Function.update_of_ne (Ne.symm heq), decide_eq_false heq]
      exact List.append_nil _
  · rw [List.append_nil]
    rfl

theorem records_declareDefinition {entries : List (OrderedDefinitionUnit × Nat)}
    (hkeeps : Keeps acc (definitionsIn entries)) (h : Records acc.pending (declaredAt entries))
    (entry : OrderedDefinitionUnit × Nat) :
    Records (declareDefinition acc entry.2 entry.1).pending (declaredAt (entries ++ [entry])) := by
  rw [declaredAt_snoc, definitionsIn, List.map_append]
  show Records _ (if accepted (definitionsIn entries ++ [entry.1.unit.definition])
    entry.1.unit.definition = true then _ else _)
  cases hvalid : entry.1.unit.definition.valid with
  | false =>
    rw [Definition.valid] at hvalid
    rw [accepted, hvalid, Bool.false_and, if_neg Bool.false_ne_true]
    simpa only [declareDefinition, hvalid, if_neg Bool.false_ne_true] using h
  | true =>
    have henter := pendingKind_enter hkeeps entry.1.unit.definition hvalid
      entry.1.unit.definition.path.segments
    obtain ⟨kind, hkind⟩ := Option.isSome_iff_exists.1
      (firstKind_isSome (List.mem_append_right (definitionsIn entries) List.mem_cons_self) hvalid)
    rw [hkind, pendingKind] at henter
    obtain ⟨node, hnode, rfl⟩ := Option.map_eq_some_iff.1 henter
    have hentered := h.enterPath entry.1.unit.definition.path.segments
      (NodeKind.fromDefinition entry.1.unit.definition.kind)
    rw [Definition.valid] at hvalid
    rw [accepted, hvalid, hkind, Bool.true_and]
    by_cases hsame : node.kind = NodeKind.fromDefinition entry.1.unit.definition.kind
    · simp only [declareDefinition, hvalid, if_true, hnode, hsame, beq_self_eq_true]
      exact hentered.insert hnode (pendingDeclaration entry)
    · have hne : (some node.kind == some (NodeKind.fromDefinition
          entry.1.unit.definition.kind)) = false := by simpa using hsame
      simp only [declareDefinition, hvalid, if_true, hnode, if_neg hsame, hne,
        if_neg Bool.false_ne_true]
      exact hentered

theorem declareAll_records (units : List OrderedDefinitionUnit)
    (diagnostics : List TreeDiagnostic) :
    Records (declareAll units diagnostics).pending (declaredAt units.zipIdx) := by
  have hfold : ∀ (more entries : List (OrderedDefinitionUnit × Nat)) (acc : Declared),
      Keeps acc (definitionsIn entries) → Records acc.pending (declaredAt entries) →
        Records (more.foldl (fun acc entry => declareDefinition acc entry.2 entry.1) acc).pending
          (declaredAt (entries ++ more)) := by
    intro more
    induction more with
    | nil => exact fun entries acc _ h => (List.append_nil entries).symm ▸ h
    | cons entry more ih =>
      intro entries acc hkeeps h
      have hnext : Keeps (declareDefinition acc entry.2 entry.1)
          (definitionsIn (entries ++ [entry])) := by
        rw [definitionsIn, List.map_append]
        exact hkeeps.declareDefinition entry.2 entry.1
      rw [List.append_cons]
      exact ih _ _ hnext (records_declareDefinition hkeeps h entry)
  exact hfold units.zipIdx [] ⟨seedStandardPrelude ∅, ∅, diagnostics⟩
    (declareAll_keeps [] diagnostics) records_seed

/-!
# Trees of other orders

Two orders of the same declarations leave the same pending nodes, but for the
places of the declarations. So the trees have the same nodes, and each has the
table of its own order.
-/

/-! ## The maps of the loop -/

/-- Maps with the same entries, seen through a function, list them in the same order. -/
theorem toList_map_congr {β γ : Type} (f : β → γ) {map map' : Std.TreeMap CodePath β}
    (h : ∀ path : CodePath, map'[path]?.map f = map[path]?.map f) :
    map'.toList.map (fun entry => (entry.1, f entry.2)) =
      map.toList.map fun entry => (entry.1, f entry.2) := by
  have hequiv : (map'.map fun _ => f).Equiv (map.map fun _ => f) := by
    refine Std.TreeMap.Equiv.of_forall_constGet?_eq fun path => ?_
    rw [Std.TreeMap.getElem?_map, Std.TreeMap.getElem?_map, h]
  have hlist := Std.TreeMap.equiv_iff_toList_eq.1 hequiv
  rwa [Std.TreeMap.toList_map, Std.TreeMap.toList_map] at hlist

variable {units units' : List OrderedDefinitionUnit} {diagnostics diagnostics' : List TreeDiagnostic}

theorem frame_declareAll (units : List OrderedDefinitionUnit) (diagnostics : List TreeDiagnostic)
    (path : CodePath) : (declareAll units diagnostics).pending[path]?.map (·.frame) =
      (firstKind (definitionsOf units) path).map (·, decide (path ∈ standardTypes)) := by
  have hkind := (declareAll_keeps units diagnostics).kind path
  rw [definitionsOf, ← hkind, pendingKind]
  cases hnode : (declareAll units diagnostics).pending[path]? with
  | none => rfl
  | some node =>
    have hstandard := (declareAll_records units diagnostics).standard path node hnode
    rw [Option.map_some, Option.map_some, Option.map_some, PendingNode.frame, hstandard]

theorem alike_declareAll (hperm : (definitionsOf units).Perm (definitionsOf units'))
    (h : AllAccepted (definitionsOf units)) (h' : AllAccepted (definitionsOf units'))
    (howners : (statedOwners (definitionsOf units)).Nodup) :
    (declareAll units diagnostics).Alike (declareAll units' diagnostics') := by
  refine ⟨toList_map_congr _ fun path => ?_, ?_⟩
  · rw [frame_declareAll, frame_declareAll, firstKind_perm hperm h h']
  · have heffect : ∀ path : CodePath,
        (declareAll units' diagnostics').assignments[path]?.map (·.effect) =
          (declareAll units diagnostics).assignments[path]?.map (·.effect) := by
      intro path
      have hstated := (declareAll_keeps units diagnostics).stated path
      have hstated' := (declareAll_keeps units' diagnostics').stated path
      rw [show units'.map (·.unit.definition) = definitionsOf units' from rfl,
        ← lastStated_perm hperm h h' howners] at hstated'
      exact hstated'.trans hstated.symm
    have hlist := congrArg (List.map Prod.snd) (toList_map_congr _ heffect)
    rwa [List.map_map, List.map_map] at hlist

/-! ## The table of declarations -/

/-- An entry of the table, before it has an identity. -/
def listedEntry (paths : List CodePath) (entry : OrderedDefinitionUnit × Nat) : TreeDeclaration where
  id := 0
  node := paths.idxOf entry.1.unit.definition.path.segments
  fileId := entry.1.unit.fileId
  definitionIndex := entry.1.unit.definitionIndex
  ordinal := entry.2
  kind := entry.1.unit.definition.kind
  span := entry.1.unit.definition.span

theorem acceptedIn_eq (h : AllAccepted (definitionsOf units)) :
    acceptedIn units.zipIdx = units.zipIdx.filter fun entry => entry.1.unit.definition.valid := by
  have hdefinitions : definitionsIn units.zipIdx = definitionsOf units := by
    rw [definitionsIn, definitionsOf, ← List.zipIdx_map_fst 0 units, List.map_map]
    simp
  rw [acceptedIn, hdefinitions]
  refine List.filter_congr fun entry hmem => ?_
  have hmem : entry.1.unit.definition ∈ definitionsOf units :=
    List.mem_map_of_mem (List.fst_mem_of_mem_zipIdx hmem)
  cases hvalid : entry.1.unit.definition.valid with
  | true => exact h _ hmem hvalid
  | false =>
    rw [Definition.valid] at hvalid
    rw [accepted, hvalid, Bool.false_and]

/-- The declarations of the pending nodes, before they are sorted. -/
theorem perm_declarations (units : List OrderedDefinitionUnit) (diagnostics : List TreeDiagnostic) :
    ((declareAll units diagnostics).pending.toList.zipIdx.flatMap fun entry =>
      entry.1.2.declarations.map fun declaration =>
        ({ id := 0
           node := entry.2
           fileId := declaration.fileId
           definitionIndex := declaration.definitionIndex
           ordinal := declaration.ordinal
           kind := declaration.kind
           span := declaration.span } : TreeDeclaration)).Perm
      ((acceptedIn units.zipIdx).map
        (listedEntry ((declareAll units diagnostics).pending.toList.map (·.1)))) := by
  have hkeeps := declareAll_keeps units diagnostics
  have hrecords := declareAll_records units diagnostics
  generalize hacc : declareAll units diagnostics = acc at hkeeps hrecords
  have hnodup := nodup_keys acc.pending
  have hgroups : (acc.pending.toList.zipIdx.flatMap fun entry =>
      entry.1.2.declarations.map fun declaration =>
        ({ id := 0
           node := entry.2
           fileId := declaration.fileId
           definitionIndex := declaration.definitionIndex
           ordinal := declaration.ordinal
           kind := declaration.kind
           span := declaration.span } : TreeDeclaration)) =
      ((acc.pending.toList.map (·.1)).flatMap fun path => (acceptedIn units.zipIdx).filter fun entry =>
        entry.1.unit.definition.path.segments = path).map
          (listedEntry (acc.pending.toList.map (·.1))) := by
    rw [List.map_flatMap, List.flatMap_map]
    rw [← List.zipIdx_map_fst 0 acc.pending.toList, List.flatMap_map, List.zipIdx_map_fst]
    refine List.flatMap_congr fun entry hmem => ?_
    have hentry : acc.pending.toList[entry.2]? = some entry.1 :=
      List.mk_mem_zipIdx_iff_getElem?.1 hmem
    have hget : acc.pending[entry.1.1]? = some entry.1.2 :=
      Std.TreeMap.mem_toList_iff_getElem?_eq_some.1 (List.mem_of_getElem? hentry)
    have hindex : (acc.pending.toList.map (·.1)).idxOf entry.1.1 = entry.2 := by
      have hpath : (acc.pending.toList.map (·.1))[entry.2]? = some entry.1.1 := by
        rw [List.getElem?_map, hentry]
        rfl
      obtain ⟨hlt, heq⟩ := List.getElem?_eq_some_iff.1 hpath
      rw [← heq]
      exact hnodup.idxOf_getElem _ hlt
    rw [hrecords.declarations _ _ hget, declaredAt, List.map_map]
    refine List.map_congr_left fun e he => ?_
    obtain ⟨-, hpath⟩ := List.mem_filter.1 he
    rw [decide_eq_true_eq] at hpath
    rw [listedEntry, hpath, hindex]
    rfl
  rw [hgroups]
  refine (Sorting.flatMap_filter_perm _ hnodup fun entry hmem => ?_).map _
  obtain ⟨hentry, haccepted⟩ := List.mem_filter.1 hmem
  simp only [accepted, Bool.and_eq_true, beq_iff_eq] at haccepted
  have hdefinitions : definitionsIn units.zipIdx = units.map (·.unit.definition) := by
    rw [definitionsIn, ← List.zipIdx_map_fst 0 units, List.map_map]
    simp
  refine (mem_pending_iff hkeeps _).2 ?_
  rw [← hdefinitions, haccepted.2]
  rfl

theorem initialDeclarations_eq (h : AllAccepted (definitionsOf units))
    (diagnostics : List TreeDiagnostic) :
    initialDeclarations (declareAll units diagnostics).pending.toList =
      listedDeclarations ((declareAll units diagnostics).pending.toList.map (·.1)) units := by
  have hordered : ((acceptedIn units.zipIdx).map
      (listedEntry ((declareAll units diagnostics).pending.toList.map (·.1)))).Pairwise
        fun a b => a.ordinal < b.ordinal := by
    rw [List.pairwise_map]
    refine List.Pairwise.filter _ ?_
    have hordinals : (units.zipIdx.map (·.2)).Pairwise (· < ·) := by
      rw [List.zipIdx_map_snd]
      exact List.pairwise_lt_range'
    exact List.pairwise_map.1 hordinals
  rw [initialDeclarations]
  dsimp only
  rw [Sorting.mergeSort_eq_of_perm (·.ordinal) (perm_declarations units diagnostics) hordered,
    acceptedIn_eq h, List.zipIdx_map, List.map_map]
  rfl

theorem finishTree_tables {fuel : Nat} {acc : Declared} {output : BuildOutput}
    (h : finishTree fuel acc = some output) :
    output.tree.declarations = initialDeclarations acc.pending.toList ∧
      output.tree.paths = acc.pending.toList.map (·.1) := by
  obtain ⟨_, -, h⟩ := Option.bind_eq_some_iff.1 h
  obtain ⟨_, -, h⟩ := Option.bind_eq_some_iff.1 h
  cases h
  exact ⟨rfl, rfl⟩

theorem declarations_eq_listed (h : AllAccepted (definitionsOf units)) {fuel : Nat}
    {output : BuildOutput} (houtput : output ∈ buildDefinitionUnits fuel units diagnostics) :
    output.tree.declarations = listedDeclarations output.tree.paths units := by
  obtain ⟨hdeclarations, hpaths⟩ := finishTree_tables houtput
  rw [hdeclarations, hpaths, initialDeclarations_eq h]

/-- The contents of the table are those of the valid declarations, wherever they stand. -/
theorem content_listed (paths : List CodePath) (units : List OrderedDefinitionUnit) :
    (listedDeclarations paths units).map (·.content) =
      ((units.map (·.unit)).filter fun unit => unit.definition.valid).map fun unit =>
        (paths.idxOf unit.definition.path.segments, unit.fileId, unit.definitionIndex,
          unit.definition.kind, unit.definition.span) := by
  have hvalid : (units.zipIdx.filter fun entry => entry.1.unit.definition.valid).map (·.1.unit) =
      (units.map (·.unit)).filter fun unit => unit.definition.valid := by
    rw [← List.zipIdx_map_fst 0 units, List.map_map, List.filter_map, List.zipIdx_map_fst]
    rfl
  rw [← hvalid, listedDeclarations, List.map_map, List.map_map]
  conv_rhs => rw [← List.zipIdx_map_fst 0 (units.zipIdx.filter _), List.map_map]
  rfl

/-! ## Two orders -/

theorem definitionsOf_perm (h : (units.map (·.unit)).Perm (units'.map (·.unit))) :
    (definitionsOf units).Perm (definitionsOf units') := by
  have hmap := h.map (·.definition)
  rwa [List.map_map, List.map_map] at hmap

/-- The nodes of a tree do not depend on the order of the declarations, and its declarations are
the valid ones of the input in their order. -/
theorem build_order (hperm : (units.map (·.unit)).Perm (units'.map (·.unit)))
    (h : NoKindConflicts units) (h' : NoKindConflicts units')
    (howners : (statedOwners (definitionsOf units)).Nodup) (fuel : Nat)
    (diagnostics diagnostics' : List TreeDiagnostic) :
    (buildDefinitionUnits fuel units' diagnostics').map (bare ·.tree.nodes) =
        (buildDefinitionUnits fuel units diagnostics).map (bare ·.tree.nodes) ∧
      (∀ output ∈ buildDefinitionUnits fuel units diagnostics,
        output.tree.declarations = listedDeclarations output.tree.paths units) ∧
      (∀ output ∈ buildDefinitionUnits fuel units' diagnostics',
        output.tree.declarations = listedDeclarations output.tree.paths units') ∧
      ∀ output ∈ buildDefinitionUnits fuel units diagnostics,
        ∀ output' ∈ buildDefinitionUnits fuel units' diagnostics',
          (output.tree.declarations.map (·.content)).Perm
            (output'.tree.declarations.map (·.content)) := by
  have hall : AllAccepted (definitionsOf units) := fun _ => accepted_of_noConflicts h
  have hall' : AllAccepted (definitionsOf units') := fun _ => accepted_of_noConflicts h'
  have halike : (declareAll units diagnostics).Alike (declareAll units' diagnostics') :=
    alike_declareAll (definitionsOf_perm hperm) hall hall' howners
  refine ⟨nodes_finishTree halike fuel, fun output houtput => declarations_eq_listed hall houtput,
    fun output houtput => declarations_eq_listed hall' houtput,
    fun output houtput output' houtput' => ?_⟩
  have hpaths : output'.tree.paths = output.tree.paths := by
    have hfst := congrArg (List.map Prod.fst) halike.pending
    rw [List.map_map, List.map_map] at hfst
    rw [(finishTree_tables houtput).2, (finishTree_tables houtput').2]
    exact hfst
  rw [declarations_eq_listed hall houtput, declarations_eq_listed hall' houtput', hpaths,
    content_listed, content_listed]
  exact (hperm.filter _).map _

/-! ## Two files -/

/-- A type below one that no declaration is about, and the parent of another type. -/
def lakeUnits : List OrderedDefinitionUnit :=
  [⟨⟨0, 0, typeDefinition ⟨["lake", "shore"], by decide, by decide⟩⟩, 0⟩,
    ⟨⟨0, 1, parentDefinition ⟨["river", "var", "parent_type"], by decide, by decide⟩ ["lake"]⟩, 1⟩]

def riverUnits : List OrderedDefinitionUnit :=
  [⟨⟨1, 0, typeDefinition ⟨["river"], by decide, by decide⟩⟩, 2⟩]

theorem build_order_swapped :
    (buildDefinitionUnits 40 (riverUnits ++ lakeUnits) []).map (bare ·.tree.nodes) =
        (buildDefinitionUnits 40 (lakeUnits ++ riverUnits) []).map (bare ·.tree.nodes) ∧
      ∀ output ∈ buildDefinitionUnits 40 (lakeUnits ++ riverUnits) [],
        ∀ output' ∈ buildDefinitionUnits 40 (riverUnits ++ lakeUnits) [],
          (output.tree.declarations.map (·.content)).Perm
            (output'.tree.declarations.map (·.content)) := by
  have hnone : NoKindConflicts (lakeUnits ++ riverUnits) := by
    have hall : ((declareAll (lakeUnits ++ riverUnits) []).diagnostics.all fun diagnostic =>
        diagnostic.kind ≠ .conflictingNodeKind) = true := by decide +kernel
    exact fun diagnostic hmem => of_decide_eq_true (List.all_eq_true.1 hall diagnostic hmem)
  have hnone' : NoKindConflicts (riverUnits ++ lakeUnits) := by
    have hall : ((declareAll (riverUnits ++ lakeUnits) []).diagnostics.all fun diagnostic =>
        diagnostic.kind ≠ .conflictingNodeKind) = true := by decide +kernel
    exact fun diagnostic hmem => of_decide_eq_true (List.all_eq_true.1 hall diagnostic hmem)
  have hperm : ((lakeUnits ++ riverUnits).map (·.unit)).Perm
      ((riverUnits ++ lakeUnits).map (·.unit)) := List.perm_append_comm.map _
  have howners : (statedOwners (definitionsOf (lakeUnits ++ riverUnits))).Nodup := by
    decide +kernel
  have horder := build_order hperm hnone hnone' howners 40 [] []
  exact ⟨horder.1, horder.2.2.2⟩

end Dream64.ObjectTree
