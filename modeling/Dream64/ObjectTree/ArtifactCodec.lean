import Dream64.Library.Codec
import Dream64.ObjectTree.Tree

/-!
# The compiled code tree

The portable representation of a finished tree. The encoder writes the tables
of the tree one behind the other; the decoder reads them again, with a limit on
every length, and then checks the references between them. The platform has 64
bits, so every number of eight bytes is a `usize`.
-/

namespace Dream64.ObjectTree

open Codec

def codeTreeArtifactMagic : Bytes := utf8 "DREAM64-CODE-TREE" ++ [0, 1]

def maxArtifactItems : Nat := 16777216

def maxArtifactStringBytes : Nat := 268435456

/-! ## Tags -/

def artifactNodeKind : NodeKind → UInt8
  | .type => 0
  | .procedure => 1
  | .verb => 2
  | .variable => 3

def nodeKindOfTag (tag : UInt8) : Option NodeKind :=
  match tag.toNat with
  | 0 => some .type
  | 1 => some .procedure
  | 2 => some .verb
  | 3 => some .variable
  | _ => none

def artifactDefinitionKind : DefinitionKind → UInt8
  | .type => 0
  | .procedure => 1
  | .procedureOverride => 2
  | .verb => 3
  | .variable => 4
  | .variableOverride => 5

def definitionKindOfTag (tag : UInt8) : Option DefinitionKind :=
  match tag.toNat with
  | 0 => some .type
  | 1 => some .procedure
  | 2 => some .procedureOverride
  | 3 => some .verb
  | 4 => some .variable
  | 5 => some .variableOverride
  | _ => none

def artifactDiagnosticKind : InheritanceDiagnosticKind → UInt8
  | .nonConstantParentType => 0
  | .unknownParentType => 1
  | .parentTargetNotType => 2
  | .inheritanceCycle => 3

def diagnosticKindOfTag (tag : UInt8) : Option InheritanceDiagnosticKind :=
  match tag.toNat with
  | 0 => some .nonConstantParentType
  | 1 => some .unknownParentType
  | 2 => some .parentTargetNotType
  | 3 => some .inheritanceCycle
  | _ => none

/-- `u8::from` -/
def artifactBool : Bool → UInt8
  | false => 0
  | true => 1

def boolOfTag (tag : UInt8) : Option Bool :=
  match tag.toNat with
  | 0 => some false
  | 1 => some true
  | _ => none

/-! ## Writing -/

def artifactWriteU32 (value : Nat) : Bytes := toLittleEndian 4 value

def artifactWriteLen (value : Nat) : Bytes := toLittleEndian 8 value

def artifactWriteString (value : String) : Bytes :=
  artifactWriteLen (utf8 value).length ++ utf8 value

def artifactWritePath (path : CodePath) : Bytes :=
  artifactWriteLen path.length ++ path.flatMap artifactWriteString

def artifactWriteOptionalU32 (value : Option Nat) : Bytes := writeOption artifactWriteU32 value

def artifactWriteSpan (span : SourceSpan) : Bytes :=
  artifactWriteLen span.start ++ artifactWriteLen span.stop

def artifactWriteIds (ids : List Nat) : Bytes :=
  artifactWriteLen ids.length ++ ids.flatMap artifactWriteU32

def artifactWriteNode (node : CodeNode) : Bytes :=
  artifactWriteU32 node.id ++ artifactWritePath node.path ++ [artifactNodeKind node.kind] ++
    artifactWriteOptionalU32 node.parentType ++ artifactWriteOptionalU32 node.ownerType ++
    artifactWriteOptionalU32 node.inheritedMember ++ artifactWriteIds node.childTypes ++
    artifactWriteIds node.declarations ++ [artifactBool node.standard]

def artifactWriteDeclaration (declaration : TreeDeclaration) : Bytes :=
  artifactWriteU32 declaration.id ++ artifactWriteU32 declaration.node ++
    artifactWriteU32 declaration.fileId ++ artifactWriteLen declaration.definitionIndex ++
    artifactWriteLen declaration.ordinal ++ [artifactDefinitionKind declaration.kind] ++
    artifactWriteSpan declaration.span

def artifactWriteDiagnostic (diagnostic : InheritanceDiagnostic) : Bytes :=
  [artifactDiagnosticKind diagnostic.kind] ++ artifactWritePath diagnostic.owner ++
    writeOption artifactWritePath diagnostic.target ++
    artifactWriteOptionalU32 diagnostic.declaration ++ artifactWriteU32 diagnostic.fileId ++
    artifactWriteSpan diagnostic.span ++ artifactWriteLen diagnostic.declarationOrdinal

/-- `encode_compiled_artifact` -/
def CodeTree.encodeCompiledArtifact (tree : CodeTree) : Bytes :=
  codeTreeArtifactMagic ++
    (artifactWriteLen tree.nodes.length ++ tree.nodes.flatMap artifactWriteNode) ++
    (artifactWriteLen tree.declarations.length ++
      tree.declarations.flatMap artifactWriteDeclaration) ++
    (artifactWriteLen tree.inheritanceDiagnostics.length ++
      tree.inheritanceDiagnostics.flatMap artifactWriteDiagnostic)

/-! ## Reading -/

def artifactTruncated (what : String) : String :=
  s!"compiled code tree is truncated while reading {what}"

def artifactReadByte (what : String) : Reader String UInt8 := readByte (artifactTruncated what)

def artifactReadU32 (what : String) : Reader String Nat := readNumber 4 (artifactTruncated what)

def artifactReadLen (what : String) : Reader String Nat :=
  readNumber 8 (artifactTruncated what) |> refuse (fun value => maxArtifactItems < value) fun _ =>
    s!"compiled code tree {what} exceeds the limit of {maxArtifactItems}"

/-- The bytes of a string behind their number. -/
def artifactReadStringBytes : Reader String Bytes := do
  let length ← readNumber 8 (artifactTruncated "a string length")
  if maxArtifactStringBytes < length then
    throw s!"compiled code tree string exceeds the byte limit of {maxArtifactStringBytes}"
  else readExact length (artifactTruncated "a string")

def artifactReadString : Reader String String :=
  artifactReadStringBytes |> respell ofUtf8 fun _ =>
    "compiled code tree contains a non-UTF-8 string"

def artifactReadSegment : Reader String String :=
  artifactReadString |> refuse (· = "") fun _ => "compiled code tree contains an empty path segment"

def artifactReadSegmentCount : Reader String Nat :=
  artifactReadLen "path segment count" |> refuse (· = 0) fun _ =>
    "compiled code tree contains an empty path"

def artifactReadPath : Reader String CodePath := do
  let count ← artifactReadSegmentCount
  readMany (fun _ => artifactReadSegment) 0 count

def artifactInvalidOption (tag : UInt8) : String :=
  s!"compiled code tree has invalid option tag {tag}"

def artifactReadOptionalU32 (what : String) : Reader String (Option Nat) :=
  readOption (artifactReadByte what) (artifactReadU32 what) artifactInvalidOption

def artifactReadSpan : Reader String SourceSpan := do
  let start ← artifactReadLen "source span start"
  let stop ← artifactReadLen "source span end"
  if stop < start then throw "compiled code tree contains an inverted source span"
  else pure ⟨start, stop⟩

/-- A tag for a value of some kind. -/
def artifactReadTag {α : Type} (what : String) (ofTag : UInt8 → Option α) (unknown : String) :
    Reader String α :=
  artifactReadByte what |> respell ofTag fun tag => s!"compiled code tree has {unknown} {tag}"

def artifactReadDefinitionKind : Reader String DefinitionKind :=
  artifactReadTag "definition kind" definitionKindOfTag "unknown definition kind"

/-- The entries of a table behind their number. -/
def artifactReadTable {α : Type} (what : String) (read : Nat → Reader String α) :
    Reader String (List α) := do
  let count ← artifactReadLen what
  readMany read 0 count

def artifactReadIds (count identity : String) : Reader String (List Nat) :=
  artifactReadTable count fun _ => artifactReadU32 identity

def artifactReadNode (expectedIndex : Nat) : Reader String CodeNode := do
  let id ← artifactReadU32 "node identity"
  if id ≠ expectedIndex then
    throw s!"compiled code tree node identity {id} is out of sequence at {expectedIndex}"
  else do
    let path ← artifactReadPath
    let kind ← artifactReadTag "node kind" nodeKindOfTag "unknown node kind"
    let parentType ← artifactReadOptionalU32 "parent type"
    let ownerType ← artifactReadOptionalU32 "owner type"
    let inheritedMember ← artifactReadOptionalU32 "inherited member"
    let childTypes ← artifactReadIds "child count" "child identity"
    let declarations ← artifactReadIds "declaration count" "declaration identity"
    let standard ← artifactReadTag "standard flag" boolOfTag "invalid boolean tag"
    pure ⟨id, path, kind, parentType, ownerType, inheritedMember, childTypes, declarations,
      standard⟩

def artifactReadDeclaration (expectedIndex : Nat) : Reader String TreeDeclaration := do
  let id ← artifactReadU32 "tree declaration identity"
  if id ≠ expectedIndex then
    throw s!"compiled tree declaration identity {id} is out of sequence at {expectedIndex}"
  else do
    let node ← artifactReadU32 "declaration node"
    let fileId ← artifactReadU32 "declaration file identity"
    let definitionIndex ← artifactReadLen "definition index"
    let ordinal ← artifactReadLen "declaration ordinal"
    let kind ← artifactReadDefinitionKind
    let span ← artifactReadSpan
    pure ⟨id, node, fileId, definitionIndex, ordinal, kind, span⟩

def artifactReadDiagnostic : Reader String InheritanceDiagnostic := do
  let kind ← artifactReadTag "inheritance diagnostic kind" diagnosticKindOfTag
    "unknown inheritance diagnostic kind"
  let owner ← artifactReadPath
  let target ← readOption (artifactReadByte "diagnostic target tag") artifactReadPath
    artifactInvalidOption
  let declaration ← artifactReadOptionalU32 "diagnostic declaration"
  let fileId ← artifactReadU32 "diagnostic file identity"
  let span ← artifactReadSpan
  let declarationOrdinal ← artifactReadLen "diagnostic ordinal"
  pure ⟨kind, owner, target, declaration, fileId, span, declarationOrdinal⟩

def artifactReadMagic : Reader String Unit := do
  let magic ← readExact codeTreeArtifactMagic.length
    "compiled code tree is truncated before its header"
  if magic ≠ codeTreeArtifactMagic then throw "compiled code tree has an unsupported header"
  else pure ()

/-- The tables of a tree; its paths are those of its nodes. -/
def artifactReadTree : Reader String CodeTree := do
  artifactReadMagic
  let nodes ← artifactReadTable "node count" artifactReadNode
  let declarations ← artifactReadTable "tree declaration count" artifactReadDeclaration
  let inheritanceDiagnostics ← artifactReadTable "inheritance diagnostic count" fun _ =>
    artifactReadDiagnostic
  pure ⟨nodes, declarations, nodes.map (·.path), inheritanceDiagnostics⟩

/-! ## Checks -/

def CodeNode.references (node : CodeNode) : List NodeId :=
  node.parentType.toList ++ node.ownerType.toList ++ node.inheritedMember.toList ++ node.childTypes

/-- What a node refers to that is not there. -/
def CodeNode.missingReference (node : CodeNode) (nodeCount declarationCount : Nat) :
    Option String :=
  match node.references.find? fun reference => nodeCount ≤ reference with
  | some reference =>
    some s!"compiled code tree node {node.id} references missing node {reference}"
  | none =>
    if node.declarations.any fun declaration => declarationCount ≤ declaration then
      some s!"compiled code tree node {node.id} references a missing declaration"
    else none

def CodeTree.hasOutOfRangeIdentity (tree : CodeTree) : Bool :=
  (tree.declarations.any fun declaration => tree.nodes.length ≤ declaration.node) ||
    tree.inheritanceDiagnostics.any fun diagnostic =>
      diagnostic.declaration.any fun declaration => tree.declarations.length ≤ declaration

/-- The first path that has come before. -/
def duplicatePath (seen : List CodePath) : List CodePath → Option CodePath
  | [] => none
  | path :: paths => if path ∈ seen then some path else duplicatePath (path :: seen) paths

def displayPath (path : CodePath) : String := "/" ++ "/".intercalate path

/-- What the decoder finds wrong in the tables. -/
def CodeTree.inconsistency (tree : CodeTree) : Option String :=
  match tree.nodes.findSome? fun node =>
      node.missingReference tree.nodes.length tree.declarations.length with
  | some message => some message
  | none =>
    if tree.hasOutOfRangeIdentity then
      some "compiled code tree contains an out-of-range identity"
    else (duplicatePath [] (tree.nodes.map (·.path))).map fun path =>
      s!"compiled code tree contains duplicate path {displayPath path}"

/-- `decode_compiled_artifact` -/
def CodeTree.decodeCompiledArtifact (bytes : Bytes) : Except String CodeTree := do
  let (tree, rest) ← artifactReadTree bytes
  if rest ≠ [] then throw "compiled code tree contains trailing bytes"
  else match tree.inconsistency with
    | some message => throw message
    | none => pure tree

/-!
# Reading what was written

Each reader of the artifact is the inverse of its writer on the values that
fit, and accepts no other bytes (`Codes`). So the decoder accepts the
encodings of the consistent trees that fit, and nothing else
(`decodeCompiledArtifact_eq_ok`).
-/

/-! ## Numbers, text and paths -/

/-- The values of a `u32`. -/
def IsU32 (value : Nat) : Prop := value < 2 ^ 32

def FitsLen (value : Nat) : Prop := value ≤ maxArtifactItems

def FitsString (value : String) : Prop := (utf8 value).length ≤ maxArtifactStringBytes

/-- A path that has segments, none of them empty, and not too many or too long. -/
def FitsPath (path : CodePath) : Prop :=
  path ≠ [] ∧ FitsLen path.length ∧ ∀ segment ∈ path, segment ≠ "" ∧ FitsString segment

def FitsSpan (span : SourceSpan) : Prop :=
  span.start ≤ span.stop ∧ FitsLen span.start ∧ FitsLen span.stop

theorem codes_u32 (what : String) : Codes artifactWriteU32 (artifactReadU32 what) IsU32 :=
  (codes_readNumber 4 _).congr (fun _ => rfl) fun _ => Iff.rfl

theorem codes_len (what : String) : Codes artifactWriteLen (artifactReadLen what) FitsLen := by
  refine ((codes_readNumber 8 _).refused (fun value => maxArtifactItems < value) _).congr
    (fun _ => rfl) fun value => ?_
  rw [FitsLen, maxArtifactItems]
  omega

theorem codes_stringBytes :
    Codes (fun bytes => artifactWriteLen bytes.length ++ bytes) artifactReadStringBytes
      fun bytes => bytes.length ≤ maxArtifactStringBytes := by
  have hbytes (length : Nat) : Codes (fun bytes => bytes)
      (if maxArtifactStringBytes < length then
        throw s!"compiled code tree string exceeds the byte limit of {maxArtifactStringBytes}"
      else readExact length (artifactTruncated "a string"))
      fun bytes => (True ∧ bytes.length = length) ∧ bytes.length ≤ maxArtifactStringBytes ∧ True := by
    refine Codes.guard (fun bytes hlength => ?_) ?_
    · rw [hlength.2, Nat.not_lt]
    · refine (codes_readExact length _).congr (fun _ => rfl) fun bytes => ?_
      rw [true_and, and_true]
  refine (Codes.field List.length (codes_readNumber 8 _) hbytes).congr (fun _ => rfl) fun bytes => ?_
  rw [maxArtifactStringBytes]
  simp only [true_and, and_true]
  omega

theorem codes_string : Codes artifactWriteString artifactReadString FitsString :=
  codes_stringBytes.respelled (fun _ _ => ofUtf8_eq_some) _

theorem codes_path : Codes artifactWritePath artifactReadPath FitsPath := by
  have hsegment : Codes artifactWriteString artifactReadSegment
      fun segment => FitsString segment ∧ ¬ segment = "" := codes_string.refused _ _
  have hcount : Codes artifactWriteLen artifactReadSegmentCount
      fun count => FitsLen count ∧ ¬ count = 0 := (codes_len _).refused _ _
  refine (Codes.list hcount fun _ => hsegment).congr (fun _ => rfl) fun path => ?_
  rw [FitsPath, List.length_eq_zero_iff]
  constructor
  · rintro ⟨hnil, hlength, hall⟩
    refine ⟨⟨hlength, hnil⟩, fun i segment hi => ?_⟩
    exact (hall segment (List.mem_of_getElem? hi)).symm
  · rintro ⟨⟨hlength, hnil⟩, hall⟩
    refine ⟨hnil, hlength, fun segment hmem => ?_⟩
    obtain ⟨i, hi⟩ := List.mem_iff_getElem?.1 hmem
    exact (hall i segment hi).symm

theorem codes_optionalU32 (what : String) :
    Codes artifactWriteOptionalU32 (artifactReadOptionalU32 what)
      fun value => ∀ id, value = some id → IsU32 id :=
  codes_readOption (codes_u32 what) _ _

theorem codes_ids (count identity : String) :
    Codes artifactWriteIds (artifactReadIds count identity)
      fun ids => FitsLen ids.length ∧ ∀ id ∈ ids, IsU32 id := by
  refine (Codes.list (codes_len count) fun _ => codes_u32 identity).congr (fun _ => rfl)
    fun ids => and_congr_right fun _ => ?_
  constructor
  · exact fun hall i id hi => hall id (List.mem_of_getElem? hi)
  · intro hall id hmem
    obtain ⟨i, hi⟩ := List.mem_iff_getElem?.1 hmem
    exact hall i id hi

theorem codes_tag {α : Type} {tag : α → UInt8} {ofTag : UInt8 → Option α} (what unknown : String)
    (h : ∀ t a, ofTag t = some a ↔ t = tag a) :
    Codes (fun a => [tag a]) (artifactReadTag what ofTag unknown) fun _ => True :=
  (codes_readByte _).respelled h _

theorem codes_span : Codes artifactWriteSpan artifactReadSpan FitsSpan := by
  refine ((Codes.field (k := fun _ => True) SourceSpan.start (codes_len _)
    fun start => Codes.field SourceSpan.stop (codes_len _) fun stop =>
      Codes.guard (q := fun span : SourceSpan => span.start ≤ span.stop) (fun span hspan => ?_)
        (Codes.pure fun span => ?_))).congr (fun span => ?_) fun span => ?_
  · rw [hspan.2, hspan.1.2, Nat.not_lt]
  · obtain ⟨_, _⟩ := span
    simp
  · rw [artifactWriteSpan, List.append_nil]
  · rw [FitsSpan]
    tauto

/-! ## The tables -/

/-- A node at its place in the table. -/
structure FitsNode (index : Nat) (node : CodeNode) : Prop where
  id : node.id = index
  u32 : IsU32 node.id
  path : FitsPath node.path
  parentType : ∀ id, node.parentType = some id → IsU32 id
  ownerType : ∀ id, node.ownerType = some id → IsU32 id
  inheritedMember : ∀ id, node.inheritedMember = some id → IsU32 id
  childTypes : FitsLen node.childTypes.length ∧ ∀ id ∈ node.childTypes, IsU32 id
  declarations : FitsLen node.declarations.length ∧ ∀ id ∈ node.declarations, IsU32 id

structure FitsDeclaration (index : Nat) (declaration : TreeDeclaration) : Prop where
  id : declaration.id = index
  u32 : IsU32 declaration.id
  node : IsU32 declaration.node
  fileId : IsU32 declaration.fileId
  definitionIndex : FitsLen declaration.definitionIndex
  ordinal : FitsLen declaration.ordinal
  span : FitsSpan declaration.span

structure FitsDiagnostic (diagnostic : InheritanceDiagnostic) : Prop where
  owner : FitsPath diagnostic.owner
  target : ∀ path, diagnostic.target = some path → FitsPath path
  declaration : ∀ id, diagnostic.declaration = some id → IsU32 id
  fileId : IsU32 diagnostic.fileId
  span : FitsSpan diagnostic.span
  declarationOrdinal : FitsLen diagnostic.declarationOrdinal

theorem nodeKindOfTag_eq_some (tag : UInt8) (kind : NodeKind) :
    nodeKindOfTag tag = some kind ↔ tag = artifactNodeKind kind := by
  revert tag
  cases kind <;> decide +kernel

theorem definitionKindOfTag_eq_some (tag : UInt8) (kind : DefinitionKind) :
    definitionKindOfTag tag = some kind ↔ tag = artifactDefinitionKind kind := by
  revert tag
  cases kind <;> decide +kernel

theorem diagnosticKindOfTag_eq_some (tag : UInt8) (kind : InheritanceDiagnosticKind) :
    diagnosticKindOfTag tag = some kind ↔ tag = artifactDiagnosticKind kind := by
  revert tag
  cases kind <;> decide +kernel

theorem boolOfTag_eq_some (tag : UInt8) (value : Bool) :
    boolOfTag tag = some value ↔ tag = artifactBool value := by
  revert tag
  cases value <;> decide +kernel

theorem codes_node (index : Nat) :
    Codes artifactWriteNode (artifactReadNode index) (FitsNode index) := by
  refine (Codes.field (k := fun _ => True) CodeNode.id (codes_u32 _) fun id =>
    Codes.guard (q := fun node : CodeNode => node.id = index) (fun node hnode => ?_)
    (Codes.field CodeNode.path codes_path fun path =>
    Codes.field CodeNode.kind (codes_tag _ _ nodeKindOfTag_eq_some) fun kind =>
    Codes.field CodeNode.parentType (codes_optionalU32 _) fun parentType =>
    Codes.field CodeNode.ownerType (codes_optionalU32 _) fun ownerType =>
    Codes.field CodeNode.inheritedMember (codes_optionalU32 _) fun inheritedMember =>
    Codes.field CodeNode.childTypes (codes_ids _ _) fun childTypes =>
    Codes.field CodeNode.declarations (codes_ids _ _) fun declarations =>
    Codes.field CodeNode.standard (codes_tag _ _ boolOfTag_eq_some) fun standard =>
    Codes.pure fun node => ?_)).congr (fun node => ?_) fun node => ?_
  · rw [hnode.2, not_not]
  · obtain ⟨_, _, _, _, _, _, _, _, _⟩ := node
    simp only [CodeNode.mk.injEq, true_and, and_assoc]
  · simp only [artifactWriteNode, List.append_assoc, List.append_nil]
  · constructor
    · rintro ⟨hid, hu32, hpath, hparent, howner, hmember, hchildren, hdeclarations⟩
      exact ⟨trivial, hu32, hid, hpath, trivial, hparent, howner, hmember, hchildren,
        hdeclarations, trivial, trivial⟩
    · rintro ⟨-, hu32, hid, hpath, -, hparent, howner, hmember, hchildren, hdeclarations, -⟩
      exact ⟨hid, hu32, hpath, hparent, howner, hmember, hchildren, hdeclarations⟩

theorem codes_declaration (index : Nat) :
    Codes artifactWriteDeclaration (artifactReadDeclaration index) (FitsDeclaration index) := by
  refine (Codes.field (k := fun _ => True) TreeDeclaration.id (codes_u32 _) fun id =>
    Codes.guard (q := fun declaration : TreeDeclaration => declaration.id = index)
      (fun declaration hdeclaration => ?_)
    (Codes.field TreeDeclaration.node (codes_u32 _) fun node =>
    Codes.field TreeDeclaration.fileId (codes_u32 _) fun fileId =>
    Codes.field TreeDeclaration.definitionIndex (codes_len _) fun definitionIndex =>
    Codes.field TreeDeclaration.ordinal (codes_len _) fun ordinal =>
    Codes.field TreeDeclaration.kind (codes_tag _ _ definitionKindOfTag_eq_some) fun kind =>
    Codes.field TreeDeclaration.span codes_span fun span =>
    Codes.pure fun declaration => ?_)).congr (fun declaration => ?_) fun declaration => ?_
  · rw [hdeclaration.2, not_not]
  · obtain ⟨_, _, _, _, _, _, _⟩ := declaration
    simp only [TreeDeclaration.mk.injEq, true_and, and_assoc]
  · simp only [artifactWriteDeclaration, List.append_assoc, List.append_nil]
  · constructor
    · rintro ⟨hid, hu32, hnode, hfile, hindex, hordinal, hspan⟩
      exact ⟨trivial, hu32, hid, hnode, hfile, hindex, hordinal, trivial, hspan, trivial⟩
    · rintro ⟨-, hu32, hid, hnode, hfile, hindex, hordinal, -, hspan, -⟩
      exact ⟨hid, hu32, hnode, hfile, hindex, hordinal, hspan⟩

theorem codes_diagnostic :
    Codes artifactWriteDiagnostic artifactReadDiagnostic FitsDiagnostic := by
  refine (Codes.field (k := fun _ => True) InheritanceDiagnostic.kind
    (codes_tag _ _ diagnosticKindOfTag_eq_some) fun kind =>
    Codes.field InheritanceDiagnostic.owner codes_path fun owner =>
    Codes.field InheritanceDiagnostic.target (codes_readOption codes_path _ _) fun target =>
    Codes.field InheritanceDiagnostic.declaration (codes_optionalU32 _) fun declaration =>
    Codes.field InheritanceDiagnostic.fileId (codes_u32 _) fun fileId =>
    Codes.field InheritanceDiagnostic.span codes_span fun span =>
    Codes.field InheritanceDiagnostic.declarationOrdinal (codes_len _) fun ordinal =>
    Codes.pure fun diagnostic => ?_).congr (fun diagnostic => ?_) fun diagnostic => ?_
  · obtain ⟨_, _, _, _, _, _, _⟩ := diagnostic
    simp only [InheritanceDiagnostic.mk.injEq, true_and, and_assoc]
  · simp only [artifactWriteDiagnostic, List.append_assoc, List.append_nil]
  · constructor
    · rintro ⟨howner, htarget, hdeclaration, hfile, hspan, hordinal⟩
      exact ⟨trivial, trivial, howner, htarget, hdeclaration, hfile, hspan, hordinal, trivial⟩
    · rintro ⟨-, -, howner, htarget, hdeclaration, hfile, hspan, hordinal, -⟩
      exact ⟨howner, htarget, hdeclaration, hfile, hspan, hordinal⟩

structure FitsTree (tree : CodeTree) : Prop where
  nodes : FitsLen tree.nodes.length ∧ ∀ i node, tree.nodes[i]? = some node → FitsNode i node
  declarations : FitsLen tree.declarations.length ∧
    ∀ i declaration, tree.declarations[i]? = some declaration → FitsDeclaration i declaration
  inheritanceDiagnostics : FitsLen tree.inheritanceDiagnostics.length ∧
    ∀ diagnostic ∈ tree.inheritanceDiagnostics, FitsDiagnostic diagnostic
  paths : tree.paths = tree.nodes.map (·.path)

theorem codes_magic :
    Codes (fun _ => codeTreeArtifactMagic) artifactReadMagic fun _ => True := by
  constructor
  · intro _ rest _
    rw [artifactReadMagic, bind_apply, (codes_readExact _ _).read_write _ rest rfl]
    rfl
  · intro bytes _ rest hread
    rw [artifactReadMagic, bind_apply] at hread
    obtain ⟨⟨magic, rest'⟩, hmagic, hnext⟩ := bind_eq_ok hread
    obtain ⟨-, rfl⟩ := (codes_readExact _ _).write_read _ _ _ hmagic
    dsimp only at hnext
    split at hnext
    · cases hnext
    · rename_i heq
      cases hnext
      exact ⟨trivial, by rw [not_not.1 heq]⟩

theorem codes_table {α : Type} {write : α → Bytes} {read : Nat → Reader String α}
    {valid : Nat → α → Prop} (what : String)
    (h : ∀ index, Codes write (read index) (valid index)) :
    Codes (fun values : List α => artifactWriteLen values.length ++ values.flatMap write)
      (artifactReadTable what read) fun values =>
        FitsLen values.length ∧ ∀ i a, values[i]? = some a → valid i a :=
  Codes.list (codes_len what) h

theorem codes_tree : Codes CodeTree.encodeCompiledArtifact artifactReadTree FitsTree := by
  refine (Codes.field (k := fun tree => tree.paths = tree.nodes.map (·.path))
    (fun _ => ()) codes_magic fun _ =>
    Codes.field CodeTree.nodes (codes_table _ codes_node) fun nodes =>
    Codes.field CodeTree.declarations (codes_table _ codes_declaration) fun declarations =>
    Codes.field CodeTree.inheritanceDiagnostics
      (codes_table _ fun _ => codes_diagnostic) fun diagnostics =>
    Codes.pure fun tree => ?_).congr (fun tree => ?_) fun tree => ?_
  · obtain ⟨_, _, _, _⟩ := tree
    simp only [CodeTree.mk.injEq]
    constructor
    · rintro ⟨⟨⟨⟨hpaths, -⟩, rfl⟩, rfl⟩, rfl⟩
      exact ⟨rfl, rfl, hpaths, rfl⟩
    · rintro ⟨rfl, rfl, hpaths, rfl⟩
      exact ⟨⟨⟨⟨hpaths, trivial⟩, rfl⟩, rfl⟩, rfl⟩
  · simp only [CodeTree.encodeCompiledArtifact, List.append_assoc, List.append_nil]
  · constructor
    · rintro ⟨hnodes, hdeclarations, ⟨hlength, hdiagnostics⟩, hpaths⟩
      refine ⟨hpaths, trivial, hnodes, hdeclarations, ⟨hlength, fun i diagnostic hi => ?_⟩, trivial⟩
      exact hdiagnostics diagnostic (List.mem_of_getElem? hi)
    · rintro ⟨hpaths, -, hnodes, hdeclarations, ⟨hlength, hdiagnostics⟩, -⟩
      refine ⟨hnodes, hdeclarations, ⟨hlength, fun diagnostic hmem => ?_⟩, hpaths⟩
      obtain ⟨i, hi⟩ := List.mem_iff_getElem?.1 hmem
      exact hdiagnostics i diagnostic hi

/-! ## Checks -/

/-- The references of the tables are to entries that there are, and no path comes twice. -/
structure Consistent (tree : CodeTree) : Prop where
  references : ∀ node ∈ tree.nodes, ∀ id ∈ node.references, id < tree.nodes.length
  declarations : ∀ node ∈ tree.nodes, ∀ id ∈ node.declarations, id < tree.declarations.length
  declared : ∀ declaration ∈ tree.declarations, declaration.node < tree.nodes.length
  diagnosed : ∀ diagnostic ∈ tree.inheritanceDiagnostics, ∀ id, diagnostic.declaration = some id →
    id < tree.declarations.length
  distinct : (tree.nodes.map (·.path)).Nodup

theorem missingReference_eq_none {node : CodeNode} {nodeCount declarationCount : Nat} :
    node.missingReference nodeCount declarationCount = none ↔
      (∀ id ∈ node.references, id < nodeCount) ∧
        ∀ id ∈ node.declarations, id < declarationCount := by
  unfold CodeNode.missingReference
  cases hfind : node.references.find? fun reference => nodeCount ≤ reference with
  | some reference =>
    have hmem := List.mem_of_find?_eq_some hfind
    have hle := List.find?_some hfind
    rw [decide_eq_true_eq] at hle
    refine ⟨fun h => (by cases h), fun h => ?_⟩
    exact absurd (h.1 reference hmem) (Nat.not_lt.2 hle)
  | none =>
    rw [List.find?_eq_none] at hfind
    simp only [decide_eq_true_eq, Nat.not_le] at hfind
    simp only [ite_eq_right_iff, reduceCtorEq, imp_false, List.any_eq_true, decide_eq_true_eq,
      not_exists, not_and, Nat.not_le]
    exact ⟨fun h => ⟨hfind, h⟩, fun h => h.2⟩

theorem duplicatePath_eq_none {seen paths : List CodePath} :
    duplicatePath seen paths = none ↔ paths.Nodup ∧ ∀ path ∈ paths, path ∉ seen := by
  induction paths generalizing seen with
  | nil => simp [duplicatePath]
  | cons path paths ih =>
    rw [duplicatePath]
    by_cases hmem : path ∈ seen
    · rw [if_pos hmem]
      refine ⟨fun h => (by cases h), fun h => ?_⟩
      exact absurd hmem (h.2 path List.mem_cons_self)
    · rw [if_neg hmem, ih, List.nodup_cons]
      simp only [List.mem_cons, not_or, forall_eq_or_imp]
      constructor
      · rintro ⟨hnodup, hall⟩
        exact ⟨⟨fun h => (hall path h).1 rfl, hnodup⟩, hmem, fun other h => (hall other h).2⟩
      · rintro ⟨⟨hnot, hnodup⟩, -, hall⟩
        exact ⟨hnodup, fun other h => ⟨fun heq => hnot (heq ▸ h), hall other h⟩⟩

theorem hasOutOfRangeIdentity_eq_false {tree : CodeTree} :
    tree.hasOutOfRangeIdentity = false ↔
      (∀ declaration ∈ tree.declarations, declaration.node < tree.nodes.length) ∧
        ∀ diagnostic ∈ tree.inheritanceDiagnostics, ∀ id, diagnostic.declaration = some id →
          id < tree.declarations.length := by
  unfold CodeTree.hasOutOfRangeIdentity
  simp only [Bool.or_eq_false_iff, List.any_eq_false, Option.any_eq_true, decide_eq_true_eq,
    Nat.not_le, not_exists, not_and]

theorem inconsistency_eq_none {tree : CodeTree} : tree.inconsistency = none ↔ Consistent tree := by
  have hnodes : (tree.nodes.findSome? fun node =>
      node.missingReference tree.nodes.length tree.declarations.length) = none ↔
      ∀ node ∈ tree.nodes, (∀ id ∈ node.references, id < tree.nodes.length) ∧
        ∀ id ∈ node.declarations, id < tree.declarations.length := by
    rw [List.findSome?_eq_none_iff]
    exact forall₂_congr fun _ _ => missingReference_eq_none
  unfold CodeTree.inconsistency
  cases hfind : tree.nodes.findSome? fun node =>
      node.missingReference tree.nodes.length tree.declarations.length with
  | some message =>
    refine ⟨fun h => (by cases h), fun h => ?_⟩
    have hnone := hnodes.2 fun node hnode => ⟨h.references node hnode, h.declarations node hnode⟩
    rw [hfind] at hnone
    cases hnone
  | none =>
    have hreferences := hnodes.1 hfind
    dsimp only
    cases hrange : tree.hasOutOfRangeIdentity with
    | true =>
      rw [if_pos rfl]
      refine ⟨fun h => (by cases h), fun h => ?_⟩
      have hfalse := hasOutOfRangeIdentity_eq_false.2 ⟨h.declared, h.diagnosed⟩
      rw [hrange] at hfalse
      cases hfalse
    | false =>
      obtain ⟨hdeclared, hdiagnosed⟩ := hasOutOfRangeIdentity_eq_false.1 hrange
      rw [if_neg Bool.false_ne_true, Option.map_eq_none_iff, duplicatePath_eq_none]
      constructor
      · rintro ⟨hdistinct, -⟩
        exact ⟨fun node hnode => (hreferences node hnode).1,
          fun node hnode => (hreferences node hnode).2, hdeclared, hdiagnosed, hdistinct⟩
      · intro h
        exact ⟨h.distinct, fun _ _ => List.not_mem_nil⟩

/-- The decoder accepts the encodings of the consistent trees that fit. -/
theorem decodeCompiledArtifact_eq_ok {bytes : Bytes} {tree : CodeTree} :
    CodeTree.decodeCompiledArtifact bytes = .ok tree ↔
      bytes = tree.encodeCompiledArtifact ∧ FitsTree tree ∧ Consistent tree := by
  unfold CodeTree.decodeCompiledArtifact
  constructor
  · intro h
    obtain ⟨⟨read, rest⟩, hread, h⟩ := bind_eq_ok h
    obtain ⟨hfits, hbytes⟩ := codes_tree.write_read _ _ _ hread
    dsimp only at h
    split at h
    · cases h
    · rename_i hrest
      have hnil : rest = [] := not_not.1 hrest
      cases hcheck : read.inconsistency with
      | some message =>
        rw [hcheck] at h
        cases h
      | none =>
        rw [hcheck] at h
        cases h
        refine ⟨?_, hfits, inconsistency_eq_none.1 hcheck⟩
        rw [hbytes, hnil, List.append_nil]
  · rintro ⟨rfl, hfits, hconsistent⟩
    have hread := codes_tree.read_write tree [] hfits
    rw [List.append_nil] at hread
    have hchecked : tree.inconsistency = none := inconsistency_eq_none.2 hconsistent
    rw [hread]
    simp only [bind, Except.bind, ne_eq, not_true_eq_false, if_false, hchecked]
    rfl

end Dream64.ObjectTree
