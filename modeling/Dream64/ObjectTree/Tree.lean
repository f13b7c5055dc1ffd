import Dream64.Core

/-!
# The object tree

`dm-object-tree`: how the declarations of a project become one tree of code
nodes. The declarations are indexed by path, every node takes the parent its
path gives it, constant `parent_type` assignments replace these parents, the
assignments on a cycle are taken back, and last the children and the inherited
members are attached.

The walks up the parents are loops; they take fuel here, and a walk that runs
out of it gives `none`, as the whole of `buildDefinitions` then does.
-/

namespace Dream64.ObjectTree

abbrev FileId := Nat
abbrev NodeId := Nat
abbrev DeclarationId := Nat

/-- A canonical absolute path: at least one segment, none of them empty. -/
structure DefinitionPath where
  segments : List String
  nonempty : segments ≠ []
  segments_nonempty : ∀ segment ∈ segments, segment ≠ ""
deriving DecidableEq

/-- The segments of a path. -/
abbrev CodePath := List String

inductive DefinitionKind where
  | type | procedure | procedureOverride | verb | variable | variableOverride
deriving DecidableEq

/-- What the tree reads of a parsed declaration. -/
structure Definition where
  path : DefinitionPath
  kind : DefinitionKind
  span : SourceSpan
  header : List SpannedToken

structure DefinitionUnit where
  fileId : FileId
  definitionIndex : Nat
  definition : Definition

structure OrderedDefinitionUnit where
  unit : DefinitionUnit
  encounterOrdinal : Nat

inductive NodeKind where
  | type | procedure | verb | variable
deriving DecidableEq

def NodeKind.fromDefinition : DefinitionKind → NodeKind
  | .type => .type
  | .procedure | .procedureOverride => .procedure
  | .verb => .verb
  | .variable | .variableOverride => .variable

structure PendingDeclaration where
  fileId : FileId
  definitionIndex : Nat
  ordinal : Nat
  kind : DefinitionKind
  span : SourceSpan

structure PendingNode where
  kind : NodeKind
  declarations : List PendingDeclaration
  standard : Bool

structure PendingParentAssignment where
  owner : CodePath
  target : Option CodePath
  declarationOrdinal : Nat
  fileId : FileId
  span : SourceSpan

inductive DiagnosticSeverity where
  | note | warning | error
deriving DecidableEq

inductive DiagnosticKind where
  | duplicateFileUnit | duplicateDeclaration | conflictingNodeKind | malformedMemberPath
deriving DecidableEq

structure TreeDiagnostic where
  kind : DiagnosticKind
  severity : DiagnosticSeverity
  path : Option CodePath
  previous : Option DeclarationId
  current : Option DeclarationId
  fileId : Option FileId
  previousOrdinal : Option Nat
  currentOrdinal : Option Nat
  encounterOrdinal : Nat

inductive InheritanceDiagnosticKind where
  | nonConstantParentType | unknownParentType | parentTargetNotType | inheritanceCycle
deriving DecidableEq

structure InheritanceDiagnostic where
  kind : InheritanceDiagnosticKind
  owner : CodePath
  target : Option CodePath
  declaration : Option DeclarationId
  fileId : FileId
  span : SourceSpan
  declarationOrdinal : Nat

structure CodeNode where
  id : NodeId
  path : CodePath
  kind : NodeKind
  parentType : Option NodeId
  ownerType : Option NodeId
  inheritedMember : Option NodeId
  childTypes : List NodeId
  declarations : List DeclarationId
  standard : Bool

structure TreeDeclaration where
  id : DeclarationId
  node : NodeId
  fileId : FileId
  definitionIndex : Nat
  ordinal : Nat
  kind : DefinitionKind
  span : SourceSpan

structure CodeTree where
  nodes : List CodeNode
  declarations : List TreeDeclaration
  paths : List CodePath
  inheritanceDiagnostics : List InheritanceDiagnostic

structure BuildOutput where
  tree : CodeTree
  diagnostics : List TreeDiagnostic

/-! ## Declarations -/

abbrev Pending := Std.TreeMap CodePath PendingNode

def standardTypes : List CodePath :=
  [["datum"], ["atom"], ["atom", "movable"], ["area"], ["turf"], ["obj"], ["mob"], ["world"],
    ["client"], ["list"], ["alist"], ["savefile"], ["regex"], ["sound"], ["image"], ["icon"],
    ["mutable_appearance"], ["matrix"], ["database"], ["database", "query"], ["exception"],
    ["generator"], ["particles"], ["pixloc"], ["vector"], ["dm_filter"], ["callee"]]

def seedStandardPrelude (pending : Pending) : Pending :=
  standardTypes.foldl (fun pending path => pending.insert path ⟨.type, [], true⟩) pending

/-- The path segment below which a member of the kind is declared. -/
def NodeKind.namespace? : NodeKind → Option String
  | .type => none
  | .procedure => some "proc"
  | .verb => some "verb"
  | .variable => some "var"

def hasValidMemberNamespace (path : CodePath) (kind : NodeKind) : Bool :=
  match kind.namespace? with
  | none => true
  | some name => 2 ≤ path.length && path[path.length - 2]? == some name

/-- The number of leading segments that are types. -/
def ownerLength (path : CodePath) : NodeKind → Nat
  | .type => path.length - 1
  | .procedure | .verb | .variable => path.length - 2

def ensureTypeAncestors (pending : Pending) (path : CodePath) (kind : NodeKind) : Pending :=
  (List.range (ownerLength path kind)).foldl
    (fun pending length => pending.insertIfNew (path.take (length + 1)) ⟨.type, [], false⟩) pending

/-- The nodes above a path and its own, unless they are there already. -/
def enterPath (pending : Pending) (path : CodePath) (kind : NodeKind) : Pending :=
  (ensureTypeAncestors pending path kind).insertIfNew path ⟨kind, [], false⟩

def isExplicitDeclaration : DefinitionKind → Bool
  | .procedure | .verb | .variable => true
  | _ => false

/-- The segments after the leading slash, alternating with slashes. -/
def parseSegments : List TokenKind → Option CodePath
  | [.identifier name] => some [name]
  | .identifier name :: .operator "/" :: rest => (parseSegments rest).map (name :: ·)
  | _ => none

def parseConstantTypePath (tokens : List SpannedToken) : Option CodePath :=
  match tokens.map SpannedToken.kind with
  | .operator "/" :: rest => parseSegments rest
  | _ => none

/-- The `parent_type = ...` that a header states: the path of its owner, and
the target if it is a constant path. -/
def statedParent (definition : Definition) : Option (CodePath × Option CodePath) := do
  let assignment ← definition.header.findIdx? fun token => token.kind = .operator "="
  let opening := definition.header.findIdx? fun token => token.kind = .punctuation '('
  guard (opening.all (assignment ≤ ·))
  let name ← (definition.header.take assignment).getLast?
  guard (name.kind = .identifier "parent_type")
  let segments := definition.path.segments
  guard (2 < segments.length)
  return (segments.take (segments.length - 2),
    parseConstantTypePath (definition.header.drop (assignment + 1)))

def parentAssignment (definition : Definition) (declaration : PendingDeclaration) :
    Option PendingParentAssignment :=
  (statedParent definition).map fun stated =>
    { owner := stated.1
      target := stated.2
      declarationOrdinal := declaration.ordinal
      fileId := declaration.fileId
      span := declaration.span }

/-- The state of the loop over the declarations. -/
structure Declared where
  pending : Pending
  assignments : Std.TreeMap CodePath PendingParentAssignment
  diagnostics : List TreeDiagnostic

def definitionDiagnostic (kind : DiagnosticKind) (severity : DiagnosticSeverity)
    (previousOrdinal : Option Nat) (ordinal : Nat) (unit : OrderedDefinitionUnit) :
    TreeDiagnostic where
  kind := kind
  severity := severity
  path := some unit.unit.definition.path.segments
  previous := none
  current := none
  fileId := some unit.unit.fileId
  previousOrdinal := previousOrdinal
  currentOrdinal := some ordinal
  encounterOrdinal := unit.encounterOrdinal

/-- The record of a definition that a node of its own kind takes. -/
def recordDefinition (acc : Declared) (pendingNode : PendingNode)
    (declaration : PendingDeclaration) (unit : OrderedDefinitionUnit) : Declared :=
  let definition := unit.unit.definition
  let existing := pendingNode.declarations.find? (·.kind = definition.kind)
  let diagnostics :=
    match isExplicitDeclaration definition.kind, existing with
    | true, some previous => acc.diagnostics ++
      [definitionDiagnostic .duplicateDeclaration .note (some previous.ordinal)
        declaration.ordinal unit]
    | _, _ => acc.diagnostics
  { pending := acc.pending.insert definition.path.segments
      { pendingNode with declarations := pendingNode.declarations ++ [declaration] }
    assignments :=
      match parentAssignment definition declaration with
      | some assignment => acc.assignments.insert assignment.owner assignment
      | none => acc.assignments
    diagnostics := diagnostics }

def declareDefinition (acc : Declared) (ordinal : Nat) (unit : OrderedDefinitionUnit) : Declared :=
  let definition := unit.unit.definition
  let path := definition.path.segments
  let incomingKind := NodeKind.fromDefinition definition.kind
  let declaration : PendingDeclaration :=
    ⟨unit.unit.fileId, unit.unit.definitionIndex, ordinal, definition.kind, definition.span⟩
  if hasValidMemberNamespace path incomingKind then
    let pending := enterPath acc.pending path incomingKind
    match pending[path]? with
    | some pendingNode =>
      if pendingNode.kind = incomingKind then
        recordDefinition { acc with pending := pending } pendingNode declaration unit
      else
        { acc with
          pending := pending
          diagnostics := acc.diagnostics ++
            [definitionDiagnostic .conflictingNodeKind .error
              (pendingNode.declarations.head?.map (·.ordinal)) ordinal unit] }
    | none => { acc with pending := pending }
  else
    { acc with diagnostics := acc.diagnostics ++
        [definitionDiagnostic .malformedMemberPath .error none ordinal unit] }

def declareAll (units : List OrderedDefinitionUnit) (diagnostics : List TreeDiagnostic) :
    Declared :=
  units.zipIdx.foldl (fun acc entry => declareDefinition acc entry.2 entry.1)
    ⟨seedStandardPrelude ∅, ∅, diagnostics⟩

/-! ## Parents -/

def primitiveRoots : List String :=
  ["datum", "world", "client", "list", "savefile", "alist", "pixloc", "vector", "callee"]

def defaultParentPath (path : CodePath) : Option CodePath :=
  if path.length = 1 ∧ path.head?.any (primitiveRoots.contains ·) then none
  else if path = ["area"] ∨ path = ["turf"] then some ["atom"]
  else if path = ["obj"] ∨ path = ["mob"] then some ["atom", "movable"]
  else if path = ["mutable_appearance"] then some ["image"]
  else if path.length = 1 then some ["datum"]
  else some (path.take (path.length - 1))

/-- The index of a path in the tree. -/
def nodeIndex (paths : List CodePath) (path : CodePath) : Option NodeId := paths.idxOf? path

def defaultParentType (path : CodePath) (kind : NodeKind) (paths : List CodePath) :
    Option NodeId :=
  if kind = .type then (defaultParentPath path).bind (nodeIndex paths) else none

def ownerType (path : CodePath) (kind : NodeKind) (paths : List CodePath) : Option NodeId :=
  if kind = .type then none
  else if path.length - 2 = 0 then none
  else nodeIndex paths (path.take (path.length - 2))

def inheritanceDiagnostic (assignment : PendingParentAssignment)
    (kind : InheritanceDiagnosticKind) : InheritanceDiagnostic where
  kind := kind
  owner := assignment.owner
  target := assignment.target
  declaration := none
  fileId := assignment.fileId
  span := assignment.span
  declarationOrdinal := assignment.declarationOrdinal

def setParentType (nodes : List CodeNode) (owner : NodeId) (parent : Option NodeId) :
    List CodeNode :=
  nodes.modify owner fun node => { node with parentType := parent }

/-- The state of the loop that applies the assignments. -/
structure Applied where
  nodes : List CodeNode
  applied : List (NodeId × PendingParentAssignment)
  diagnostics : List InheritanceDiagnostic

/-- The node that an assignment makes the parent, or why there is none. -/
def assignmentTarget (nodes : List CodeNode) (paths : List CodePath)
    (assignment : PendingParentAssignment) : Except InheritanceDiagnosticKind NodeId :=
  match assignment.target with
  | none => .error .nonConstantParentType
  | some targetPath =>
    match nodeIndex paths targetPath with
    | none => .error .unknownParentType
    | some target =>
      if nodes[target]?.any (·.kind = .type) then .ok target else .error .parentTargetNotType

/-- One assignment. Every owner has a node, so the source indexes `paths`
without a check. -/
def applyAssignment (paths : List CodePath) (acc : Applied)
    (assignment : PendingParentAssignment) : Applied :=
  match nodeIndex paths assignment.owner, assignmentTarget acc.nodes paths assignment with
  | some owner, .ok target =>
    { acc with
      nodes := setParentType acc.nodes owner (some target)
      applied := acc.applied ++ [(owner, assignment)] }
  | _, .error kind =>
    { acc with diagnostics := acc.diagnostics ++ [inheritanceDiagnostic assignment kind] }
  | none, .ok _ => acc

/-- The marks of `inheritance_cycle_nodes`. -/
inductive Visit where
  | unvisited | active | done
deriving DecidableEq

def parentOf (nodes : List CodeNode) (node : NodeId) : Option NodeId :=
  nodes[node]?.bind (·.parentType)

/-- The inner loop: marks the chain of parents from `current` and gives the
marks, the chain and the nodes of the cycle it runs into. -/
def followChain (nodes : List CodeNode) : Nat → (NodeId → Visit) → List NodeId → Option NodeId →
    Option ((NodeId → Visit) × List NodeId × List NodeId)
  | 0, _, _, _ => none
  | _ + 1, state, chain, none => some (state, chain, [])
  | fuel + 1, state, chain, some node =>
    match state node with
    | .unvisited =>
      followChain nodes fuel (Function.update state node .active) (chain ++ [node])
        (parentOf nodes node)
    | .active => some (state, chain, chain.drop (chain.idxOf node))
    | .done => some (state, chain, [])

/-- One start of the outer loop. -/
def searchFrom (nodes : List CodeNode) (fuel : Nat) (acc : (NodeId → Visit) × List NodeId)
    (start : NodeId) : Option ((NodeId → Visit) × List NodeId) :=
  if nodes[start]?.any (·.kind = .type) ∧ acc.1 start = .unvisited then do
    let (state, chain, cycle) ← followChain nodes fuel acc.1 [] (some start)
    return (fun node => if node ∈ chain then .done else state node, acc.2 ++ cycle)
  else some acc

def inheritanceCycleNodes (fuel : Nat) (nodes : List CodeNode) : Option (List NodeId) :=
  ((List.range nodes.length).foldlM (searchFrom nodes fuel) (fun _ => .unvisited, [])).map (·.2)

/-- Takes an applied assignment back if its owner is on a cycle. -/
def resetAssignment (paths : List CodePath) (cycleNodes : List NodeId)
    (acc : List CodeNode × List InheritanceDiagnostic)
    (entry : NodeId × PendingParentAssignment) : List CodeNode × List InheritanceDiagnostic :=
  if entry.1 ∈ cycleNodes then
    (setParentType acc.1 entry.1
        (acc.1[entry.1]?.bind fun node => defaultParentType node.path .type paths),
      acc.2 ++ [inheritanceDiagnostic entry.2 .inheritanceCycle])
  else acc

def resolveParentAssignments (fuel : Nat) (nodes : List CodeNode) (paths : List CodePath)
    (declarations : List TreeDeclaration) (assignments : List PendingParentAssignment) :
    Option (List CodeNode × List InheritanceDiagnostic) := do
  let applied := assignments.foldl (applyAssignment paths) ⟨nodes, [], []⟩
  let cycleNodes ← inheritanceCycleNodes fuel applied.nodes
  let (nodes, diagnostics) := applied.applied.foldl (resetAssignment paths cycleNodes)
    (applied.nodes, applied.diagnostics)
  let sorted := diagnostics.mergeSort (·.declarationOrdinal ≤ ·.declarationOrdinal)
  return (nodes, sorted.map fun diagnostic =>
    { diagnostic with
      declaration := (declarations.find? (·.ordinal = diagnostic.declarationOrdinal)).map (·.id) })

/-! ## Children and inherited members -/

def attachChildren (nodes : List CodeNode) : List CodeNode :=
  (List.range nodes.length).foldl (fun acc child =>
    match nodes[child]?.filter (·.kind = .type) with
    | some node =>
      match node.parentType with
      | some parent => acc.modify parent fun p => { p with childTypes := p.childTypes ++ [child] }
      | none => acc
    | none => acc) nodes

/-- The member of the same name and kind that an ancestor has. -/
def memberOf (nodes : List CodeNode) (paths : List CodePath) (suffix : CodePath) (kind : NodeKind)
    (ancestor : NodeId) : Option NodeId := do
  let node ← nodes[ancestor]?
  let candidate ← nodeIndex paths (node.path ++ suffix)
  let member ← nodes[candidate]?
  guard (member.kind = kind)
  return candidate

/-- The walk up the ancestors to the nearest one that has the member. -/
def nearestMember (nodes : List CodeNode) (paths : List CodePath) (suffix : CodePath)
    (kind : NodeKind) : Nat → Option NodeId → Option (Option NodeId)
  | 0, _ => none
  | _ + 1, none => some none
  | fuel + 1, some ancestor =>
    match memberOf nodes paths suffix kind ancestor with
    | some candidate => some (some candidate)
    | none => nearestMember nodes paths suffix kind fuel (parentOf nodes ancestor)

def attachInheritedMember (fuel : Nat) (nodes : List CodeNode) (paths : List CodePath)
    (node : CodeNode) : Option CodeNode :=
  match node.ownerType with
  | none => some node
  | some owner => do
    let ownerPath := (nodes[owner]?.map (·.path)).getD []
    let member ← nearestMember nodes paths (node.path.drop ownerPath.length) node.kind fuel
      (parentOf nodes owner)
    return { node with inheritedMember := member }

/-- The loop writes only `inheritedMember`, which it never reads. -/
def attachInheritedMembers (fuel : Nat) (nodes : List CodeNode) (paths : List CodePath) :
    Option (List CodeNode) :=
  nodes.mapM (attachInheritedMember fuel nodes paths)

/-! ## The whole tree -/

/-- The nodes in path order, with the parents and owners their paths give. -/
def initialNodes (pending : List (CodePath × PendingNode)) (paths : List CodePath) :
    List CodeNode :=
  pending.zipIdx.map fun entry =>
    { id := entry.2
      path := entry.1.1
      kind := entry.1.2.kind
      parentType := defaultParentType entry.1.1 entry.1.2.kind paths
      ownerType := ownerType entry.1.1 entry.1.2.kind paths
      inheritedMember := none
      childTypes := []
      declarations := []
      standard := entry.1.2.standard }

def initialDeclarations (pending : List (CodePath × PendingNode)) : List TreeDeclaration :=
  let declarations := pending.zipIdx.flatMap fun entry =>
    entry.1.2.declarations.map fun declaration =>
      { id := 0
        node := entry.2
        fileId := declaration.fileId
        definitionIndex := declaration.definitionIndex
        ordinal := declaration.ordinal
        kind := declaration.kind
        span := declaration.span : TreeDeclaration }
  (declarations.mergeSort (·.ordinal ≤ ·.ordinal)).zipIdx.map fun entry =>
    { entry.1 with id := entry.2 }

def attachDeclarations (nodes : List CodeNode) (declarations : List TreeDeclaration) :
    List CodeNode :=
  declarations.foldl (fun nodes declaration => nodes.modify declaration.node fun node =>
    { node with declarations := node.declarations ++ [declaration.id] }) nodes

def resolveDiagnosticDeclarations (diagnostics : List TreeDiagnostic)
    (declarations : List TreeDeclaration) : List TreeDiagnostic :=
  let find (ordinal : Option Nat) : Option DeclarationId :=
    ordinal.bind fun ordinal => (declarations.find? (·.ordinal = ordinal)).map (·.id)
  diagnostics.map fun diagnostic =>
    { diagnostic with
      previous := find diagnostic.previousOrdinal
      current := find diagnostic.currentOrdinal }

def finishTree (fuel : Nat) (declared : Declared) : Option BuildOutput := do
  let pending := declared.pending.toList
  let paths := pending.map (·.1)
  let declarations := initialDeclarations pending
  let nodes := attachDeclarations (initialNodes pending paths) declarations
  let (nodes, inheritanceDiagnostics) ← resolveParentAssignments fuel nodes paths declarations
    (declared.assignments.toList.map (·.2))
  let nodes ← attachInheritedMembers fuel (attachChildren nodes) paths
  let diagnostics := declared.diagnostics.mergeSort (·.encounterOrdinal ≤ ·.encounterOrdinal)
  return {
    tree := ⟨nodes, declarations, paths, inheritanceDiagnostics⟩
    diagnostics := resolveDiagnosticDeclarations diagnostics declarations }

def buildDefinitionUnits (fuel : Nat) (definitions : List OrderedDefinitionUnit)
    (diagnostics : List TreeDiagnostic) : Option BuildOutput :=
  finishTree fuel (declareAll definitions diagnostics)

end Dream64.ObjectTree
