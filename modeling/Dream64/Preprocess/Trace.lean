import Dream64.Preprocess.Expansion

/-!
# The includes of a loaded project

What the loader does with a file is an `Expansion`: the files that it discovers
meanwhile and the includes that it records are those of the expansion, in its
order (`Traced`). One rule for each kind of include puts the expansion of a
file together; `loadFile_traced` follows the loader with them.
-/

namespace Dream64.Preprocess

open String (utf8Len)

/-- What the loader knows of the files and their includes. -/
structure Graph (Path : Type) where
  ids : List FileId
  /-- The length of each file, and whether it can contain includes. -/
  info : List (Nat × Bool)
  includes : List (Nat × IncludeEdge)
  identities : Path → Option FileId
  nextOrdinal : Nat
  processed : List FileId

variable {Path : Type}

def Loader.graph (L : Loader Path) : Graph Path where
  ids := L.files.map (·.id)
  info := L.files.map fun file => (file.contents.size, file.kind.canContainIncludes)
  includes := L.includes
  identities := L.identities
  nextOrdinal := L.nextIncludeOrdinal
  processed := L.processed

/-- Includes with their ordinals. -/
def numbered (ordinal : Nat) (edges : List IncludeEdge) : List (Nat × IncludeEdge) :=
  (List.range' ordinal edges.length).zip edges

theorem numbered_cons (ordinal : Nat) (edge : IncludeEdge) (edges : List IncludeEdge) :
    numbered ordinal (edge :: edges) = (ordinal, edge) :: numbered (ordinal + 1) edges := by
  simp [numbered, List.range'_succ]

theorem numbered_append (ordinal : Nat) (a b : List IncludeEdge) :
    numbered ordinal (a ++ b) = numbered ordinal a ++ numbered (ordinal + a.length) b := by
  induction a generalizing ordinal with
  | nil => simp [numbered]
  | cons edge a ih =>
    rw [List.cons_append, numbered_cons, numbered_cons, ih, List.cons_append, List.length_cons]
    congr 3
    omega

namespace Graph

variable {G G' G₁ : Graph Path} {info : FileId → Nat × Bool} {file : FileId} {cursor : Nat}
  {body inner rest : Expansion} {edge : IncludeEdge}

/-- The identity of a file is its place, and identities are given to files that there are. -/
def Valid (G : Graph Path) : Prop :=
  G.ids = List.range G.info.length ∧ ∀ path id, G.identities path = some id → id < G.info.length

/-- What is known of the files, of those that have been discovered at least. -/
def Agrees (G : Graph Path) (info : FileId → Nat × Bool) : Prop :=
  ∀ id i, G.info[id]? = some i → info id = i

/-- The range is in a file that has been discovered. -/
def Holds (G : Graph Path) (mark : FileId × SourceSpan) : Prop :=
  mark.2.start ≤ mark.2.stop ∧ ∃ i, G.info[mark.1]? = some i ∧ mark.2.stop ≤ i.1

def record (G : Graph Path) (ordinal : Nat) (edge : IncludeEdge) : Graph Path :=
  { G with includes := G.includes ++ [(ordinal, edge)] }

def nextInclude (G : Graph Path) : Graph Path := { G with nextOrdinal := G.nextOrdinal + 1 }

/-- The graph with a file of some length, whose directives are processed if it can have any. -/
def add [DecidableEq Path] (G : Graph Path) (path : Path) (length : Nat) (isSource : Bool) :
    Graph Path :=
  { G with
    ids := G.ids ++ [G.info.length]
    info := G.info ++ [(length, isSource)]
    identities := Function.update G.identities path (some G.info.length)
    processed := G.processed ++ if isSource then [G.info.length] else [] }

theorem Valid.add [DecidableEq Path] (h : G.Valid) (path : Path) (length : Nat)
    (isSource : Bool) : (G.add path length isSource).Valid := by
  have hlength : (G.add path length isSource).info.length = G.info.length + 1 := List.length_append
  refine ⟨?_, fun other id hid => ?_⟩
  · rw [hlength, List.range_succ, ← h.1]
    rfl
  · rw [hlength]
    have hid : Function.update G.identities path (some G.info.length) other = some id := hid
    by_cases heq : other = path
    · rw [heq, Function.update_self] at hid
      cases hid
      exact Nat.lt_succ_self _
    · rw [Function.update_of_ne heq] at hid
      exact Nat.lt_succ_of_lt (h.2 other id hid)

end Graph

/-- From one graph to the next, the loader goes through `file` from `cursor` on. -/
structure Traced (G G' : Graph Path) (file : FileId) (cursor : Nat) (body : Expansion) : Prop where
  extends_info : G.info <+: G'.info
  valid : G.Valid → G'.Valid
  files : List.range G.info.length ++ body.files = List.range G'.info.length
  ordinals : G'.nextOrdinal = G.nextOrdinal + body.edges.length
  includes : G'.includes.Perm (G.includes ++ numbered G.nextOrdinal body.edges)
  once : body.Once (List.range G.info.length)
  laid : ∀ info, G'.Agrees info → body.Laid (fun id => (info id).1) file cursor
  processed : ∀ info, G'.Agrees info →
    G'.processed = G.processed ++ body.files.filter fun id => (info id).2

namespace Traced

variable {G G' G₁ : Graph Path} {file : FileId} {cursor cursor' length : Nat} {isSource : Bool}
  {body inner rest : Expansion} {edge : IncludeEdge} {path : Path}

theorem agrees (h : Traced G G' file cursor body) {info : FileId → Nat × Bool}
    (hinfo : G'.Agrees info) : G.Agrees info := by
  intro id i hi
  obtain ⟨more, hmore⟩ := h.extends_info
  refine hinfo id i ?_
  rw [← hmore, List.getElem?_append_left (List.getElem?_eq_some_iff.1 hi).1]
  exact hi

theorem done (hlength : ∀ info, G.Agrees info → cursor ≤ (info file).1) :
    Traced G G file cursor .done where
  extends_info := List.prefix_rfl
  valid h := h
  files := List.append_nil _
  ordinals := rfl
  includes := by simp [Expansion.edges, numbered]
  once := trivial
  laid := hlength
  processed _ _ := (List.append_nil _).symm

theorem Laid.mono {length : FileId → Nat} (h : body.Laid length file cursor)
    (hle : cursor' ≤ cursor) : body.Laid length file cursor' := by
  cases body with
  | done => exact hle.trans h
  | skip edge rest => exact ⟨h.1, hle.trans h.2.1, h.2.2⟩
  | splice edge target inner rest => exact ⟨h.1, hle.trans h.2.1, h.2.2⟩

theorem mono (h : Traced G G' file cursor body) (hle : cursor' ≤ cursor) :
    Traced G G' file cursor' body :=
  { h with laid := fun info hinfo => Laid.mono (h.laid info hinfo) hle }

/-- An include that opens no file. -/
theorem skip (hsource : edge.source = file) (hstart : cursor ≤ edge.span.start)
    (hstop : edge.span.start ≤ edge.span.stop) (hopens : edge.opens (List.range G.info.length) = none)
    (h : Traced (G.nextInclude.record G.nextOrdinal edge) G' file edge.span.stop rest) :
    Traced G G' file cursor (.skip edge rest) where
  extends_info := h.extends_info
  valid := h.valid
  files := h.files
  ordinals := by
    rw [h.ordinals, Expansion.edges, List.length_cons]
    show G.nextOrdinal + 1 + _ = _
    omega
  includes := by
    have hincludes := h.includes
    rw [Expansion.edges, numbered_cons]
    refine hincludes.trans (List.Perm.of_eq ?_)
    exact List.append_assoc ..
  once := ⟨hopens, h.once⟩
  laid info hinfo := ⟨hsource, hstart, hstop, h.laid info hinfo⟩
  processed := h.processed

variable [DecidableEq Path]

/-- An include of a new file. -/
theorem splice (hsource : edge.source = file) (hstart : cursor ≤ edge.span.start)
    (hstop : edge.span.start ≤ edge.span.stop) (htarget : edge.target = .file G.info.length)
    (hinner : Traced (G.nextInclude.add path length isSource) G₁ G.info.length 0 inner)
    (h : Traced (G₁.record G.nextOrdinal edge) G' file edge.span.stop rest) :
    Traced G G' file cursor (.splice edge G.info.length inner rest) where
  extends_info := ((List.prefix_append ..).trans hinner.extends_info).trans h.extends_info
  valid hvalid := h.valid (hinner.valid (Graph.Valid.add (G := G.nextInclude) hvalid _ _ _))
  files := by
    have hfiles := hinner.files
    have hadd : (G.nextInclude.add path length isSource).info.length = G.info.length + 1 :=
      List.length_append
    rw [hadd, List.range_succ, List.append_assoc] at hfiles
    have hall := h.files
    rw [← hall, Expansion.files]
    show _ = List.range G₁.info.length ++ rest.files
    rw [← hfiles]
    simp
  ordinals := by
    rw [h.ordinals, Expansion.edges, List.length_cons, List.length_append]
    show G₁.nextOrdinal + _ = _
    rw [hinner.ordinals]
    show G.nextOrdinal + 1 + _ + _ = _
    omega
  includes := by
    have hnumbered : numbered G.nextOrdinal (Expansion.splice edge G.info.length inner rest).edges =
        (G.nextOrdinal, edge) :: (numbered (G.nextOrdinal + 1) inner.edges ++
          numbered G₁.nextOrdinal rest.edges) := by
      rw [Expansion.edges, numbered_cons, numbered_append, hinner.ordinals]
      rfl
    have hinner' : G₁.includes.Perm (G.includes ++ numbered (G.nextOrdinal + 1) inner.edges) :=
      hinner.includes
    rw [hnumbered]
    refine h.includes.trans ?_
    show ((G₁.includes ++ [(G.nextOrdinal, edge)]) ++ numbered G₁.nextOrdinal rest.edges).Perm _
    rw [← List.cons_append, ← List.append_assoc G.includes]
    refine List.Perm.append_right _ ?_
    refine (hinner'.append_right _).trans ?_
    rw [List.append_assoc]
    exact (List.perm_append_comm.append_left _)
  once := by
    have hadd : (G.nextInclude.add path length isSource).info.length = G.info.length + 1 :=
      List.length_append
    have hinner' := hinner.once
    rw [hadd, List.range_succ] at hinner'
    have hrest : rest.Once (List.range G₁.info.length) := h.once
    rw [← hinner.files, hadd, List.range_succ, List.append_assoc] at hrest
    refine ⟨?_, hinner', hrest⟩
    rw [IncludeEdge.opens, htarget]
    simp
  laid info hinfo :=
    ⟨hsource, hstart, hstop, hinner.laid info (h.agrees hinfo), h.laid info hinfo⟩
  processed info hinfo := by
    have hrest := h.processed info hinfo
    have hinner' := hinner.processed info (h.agrees hinfo)
    have htarget : info G.info.length = (length, isSource) := by
      refine hinner.agrees (h.agrees hinfo) _ _ ?_
      exact List.getElem?_concat_length ..
    have hsplice : [G.info.length].filter (fun id => (info id).2) =
        if isSource then [G.info.length] else [] := by
      rw [List.filter_singleton, htarget]
      cases isSource <;> rfl
    rw [hrest]
    show G₁.processed ++ _ = _
    rw [hinner', Expansion.files, ← List.singleton_append, List.filter_append, List.filter_append,
      hsplice]
    show G.processed ++ _ ++ _ ++ _ = _
    simp only [List.append_assoc]
    rfl

end Traced

section

variable [DecidableEq Path]

/-- What a directive of `file` does to the graph. -/
inductive Processed (G : Graph Path) (file : FileId) (span : SourceSpan) : Graph Path → Prop
  | other : Processed G file span G
  | skip {edge : IncludeEdge} (source : edge.source = file) (hspan : edge.span = span)
      (opens : edge.opens (List.range G.info.length) = none) :
      Processed G file span (G.nextInclude.record G.nextOrdinal edge)
  | splice {edge : IncludeEdge} {path : Path} {length : Nat} {isSource : Bool} {inner : Expansion}
      {G₁ : Graph Path} (source : edge.source = file) (hspan : edge.span = span)
      (target : edge.target = .file G.info.length)
      (inner : Traced (G.nextInclude.add path length isSource) G₁ G.info.length 0 inner) :
      Processed G file span (G₁.record G.nextOrdinal edge)

theorem Processed.traced {G G₁ G' : Graph Path} {file : FileId} {cursor : Nat} {span : SourceSpan}
    {rest : Expansion} (h : Processed G file span G₁) (hstart : cursor ≤ span.start)
    (hstop : span.start ≤ span.stop) (hrest : Traced G₁ G' file span.stop rest) :
    ∃ body, Traced G G' file cursor body := by
  cases h with
  | other => exact ⟨rest, hrest.mono (hstart.trans hstop)⟩
  | skip source hspan opens =>
    subst hspan
    exact ⟨_, .skip source hstart hstop opens hrest⟩
  | splice source hspan target inner =>
    subst hspan
    exact ⟨_, .splice source hstart hstop target inner hrest⟩

/-- The graph keeps its files, and their identities valid. -/
theorem Processed.keeps {G G₁ : Graph Path} {file : FileId} {span : SourceSpan}
    (h : Processed G file span G₁) : G.info <+: G₁.info ∧ (G.Valid → G₁.Valid) := by
  cases h with
  | other => exact ⟨List.prefix_rfl, id⟩
  | skip => exact ⟨List.prefix_rfl, id⟩
  | splice source hspan target inner =>
    have hsource : (⟨file, .file G.info.length, "", ⟨0, 0⟩⟩ : IncludeEdge).source = file := rfl
    have htraced := Traced.splice hsource (Nat.zero_le _) le_rfl rfl inner
      (.done fun _ _ => Nat.zero_le _)
    exact ⟨htraced.extends_info, htraced.valid⟩

/-- Where the pragmas and the warnings of the loader stand. -/
def Loader.marks (L : Loader Path) : List (FileId × SourceSpan) :=
  L.diagnosticPragmas.map (fun pragma => (pragma.source, pragma.span)) ++
    L.warningDirectives.map fun warning => (warning.source, warning.span)

/-- They stand in files that have been discovered. -/
def Loader.Marked (L : Loader Path) : Prop := ∀ mark ∈ L.marks, L.graph.Holds mark

/-- A file that is loaded had been discovered, or is the next one; the marks stay in files. -/
def Loads (loadFile : Path → Loader Path → Load Path (FileId × Loader Path)) : Prop :=
  ∀ path L id L', loadFile path L = .ok (id, L') → L.graph.Valid →
    ((id < L.graph.info.length ∧ L'.graph = L.graph) ∨
      ∃ path length isSource inner, id = L.graph.info.length ∧
        Traced (L.graph.add path length isSource) L'.graph id 0 inner) ∧
    (L.Marked → L'.Marked)

theorem bind_eq_ok {ε α β : Type} {x : Except ε α} {f : α → Except ε β} {b : β}
    (h : x.bind f = .ok b) : ∃ a, x = .ok a ∧ f a = .ok b := by
  cases x with
  | error => cases h
  | ok a => exact ⟨a, rfl, h⟩

theorem map_eq_ok {ε α β : Type} {x : Except ε α} {f : α → β} {b : β}
    (h : x.map f = .ok b) : ∃ a, x = .ok a ∧ f a = b := by
  cases x with
  | error => cases h
  | ok a => exact ⟨a, rfl, Except.ok.inj h⟩

theorem IncludeEdge.opens_of_lt {edge : IncludeEdge} {id n : FileId}
    (htarget : edge.target = .file id) (hlt : id < n) : edge.opens (List.range n) = none := by
  rw [IncludeEdge.opens, htarget]
  exact if_pos (List.mem_range.2 hlt)

namespace Loader

variable {fs : FileSystem Path} {preprocessor : Preprocessor Path}
  {loadFile : Path → Loader Path → Load Path (FileId × Loader Path)} {L L' : Loader Path}
  {source : FileId} {path : Path}

theorem processInclude_processed (hloads : Loads loadFile) (hvalid : L.graph.Valid)
    {spelling : String} {delimiter : IncludeDelimiter} {span : SourceSpan}
    (h : processInclude fs L loadFile source path spelling delimiter span = .ok L') :
    Processed L.graph source span L'.graph ∧ (L.Marked → L'.Marked) := by
  obtain ⟨⟨target, L₁⟩, htarget, rfl⟩ := map_eq_ok h
  cases delimiter with
  | system =>
    cases htarget
    exact ⟨Processed.skip rfl rfl rfl, id⟩
  | quoted =>
    obtain ⟨targetPath, -, htarget⟩ := bind_eq_ok htarget
    split at htarget
    · cases htarget
    · obtain ⟨⟨id, L₁⟩, hload, heq⟩ := map_eq_ok htarget
      cases heq
      obtain ⟨hgraph, hmarks⟩ := hloads _ _ _ _ hload hvalid
      refine ⟨?_, hmarks⟩
      rcases hgraph with ⟨hlt, hgraph⟩ | ⟨path, length, isSource, inner, hid, hinner⟩
      · have hopens : (⟨source, .file id, spelling, span⟩ : IncludeEdge).opens
            (List.range L.graph.info.length) = none := IncludeEdge.opens_of_lt rfl hlt
        have hskip : Processed L.graph source span _ := .skip rfl rfl hopens
        show Processed L.graph source span (L₁.graph.record L.graph.nextOrdinal _)
        rw [hgraph]
        exact hskip
      · subst hid
        have hsource : (⟨source, .file L.graph.info.length, spelling, span⟩ : IncludeEdge).source =
          source := rfl
        exact Processed.splice (G := L.graph) hsource rfl rfl hinner

omit [DecidableEq Path] in
theorem Marked.step (h : L.Marked) {mark : FileId × SourceSpan} (hmark : L.graph.Holds mark)
    (hinfo : L'.graph.info = L.graph.info)
    (hmarks : ∀ other ∈ L'.marks, other ∈ L.marks ∨ other = mark) : L'.Marked := by
  intro other hmem
  have hheld : L.graph.Holds other := by
    rcases hmarks other hmem with hold | rfl
    · exact h other hold
    · exact hmark
  rwa [Graph.Holds, hinfo]

omit [DecidableEq Path] in
theorem applyPragma_marks {span : SourceSpan} {value : Text} {mark : FileId × SourceSpan}
    (h : mark ∈ (applyPragma L source span value).marks) : mark ∈ L.marks ∨ mark = (source, span) := by
  unfold applyPragma at h
  dsimp only at h
  split at h <;> split at h <;> grind [marks]

omit [DecidableEq Path] in
theorem applyPragma_graph (L : Loader Path) (span : SourceSpan) (value : Text) :
    (applyPragma L source span value).graph = L.graph := by
  unfold applyPragma
  dsimp only
  split <;> split <;> rfl

theorem processActive_processed (hloads : Loads loadFile) (hvalid : L.graph.Valid)
    {directive : Directive} (h : processActive fs L loadFile source path directive = .ok L') :
    Processed L.graph source directive.span L'.graph ∧
      (L.graph.Holds (source, directive.span) → L.Marked → L'.Marked) := by
  unfold processActive at h
  split at h
  · split at h
    · cases h
    · cases h
      exact ⟨.other, fun _ => id⟩
  · cases h
    exact ⟨.other, fun _ => id⟩
  · obtain ⟨hprocessed, hmarks⟩ := processInclude_processed hloads hvalid h
    exact ⟨hprocessed, fun _ => hmarks⟩
  · cases h
  · split at h
    · cases h
    · cases h
      refine ⟨.other, fun hmark hmarked => hmarked.step hmark rfl fun other hmem => ?_⟩
      grind [marks]
  · cases h
    have hgraph : ∀ value, (applyPragma L source directive.span value).graph = L.graph :=
      applyPragma_graph L directive.span
    refine ⟨?_, fun hmark hmarked => hmarked.step hmark ?_ fun other hmem => applyPragma_marks hmem⟩
    · rw [hgraph]
      exact .other
    · rw [hgraph]
  · cases h
    exact ⟨.other, fun _ => id⟩

theorem processDirective_processed (hloads : Loads loadFile) (hvalid : L.graph.Valid)
    {directive : Directive} {conditionals conditionals' : List ConditionalFrame}
    (h : processDirective fs preprocessor L loadFile source path directive conditionals =
      .ok (conditionals', L')) :
    Processed L.graph source directive.span L'.graph ∧
      (L.graph.Holds (source, directive.span) → L.Marked → L'.Marked) := by
  obtain ⟨_, -, h⟩ := bind_eq_ok h
  split at h
  · obtain ⟨_, hactive, heq⟩ := map_eq_ok h
    cases heq
    exact processActive_processed hloads hvalid hactive
  · cases h
    exact ⟨.other, fun _ => id⟩

/-- The loop over the directives of a file of length `limit`. -/
theorem processLoop_traced (hloads : Loads loadFile) {limit : Nat} {isSource : Bool}
    (directives : List Directive) {cursor : Nat} {rest rest' : Text} {state state' : SourceState}
    (hordered : Ordered limit cursor (directives.map (·.span)))
    (hlimit : L.graph.info[source]? = some (limit, isSource)) (hvalid : L.graph.Valid)
    (h : processLoop fs preprocessor loadFile source path directives cursor rest state L =
      .ok (state', rest', L')) :
    (∃ body, Traced L.graph L'.graph source cursor body) ∧ (L.Marked → L'.Marked) := by
  induction directives generalizing cursor rest state L with
  | nil =>
    cases h
    refine ⟨⟨_, .done fun info hinfo => ?_⟩, id⟩
    rw [hinfo source _ hlimit]
    exact hordered
  | cons directive directives ih =>
    obtain ⟨hstart, hstop, hordered⟩ := hordered
    rw [processLoop] at h
    split at h
    · cases h
    · split at h
      · cases h
      · obtain ⟨expanded, -, h⟩ := bind_eq_ok h
        obtain ⟨⟨conditionals, L₁⟩, hdirective, h⟩ := bind_eq_ok h
        obtain ⟨hprocessed, hmarks⟩ : Processed L.graph source directive.span L₁.graph ∧
            (L.graph.Holds (source, directive.span) → L.Marked → L₁.Marked) :=
          processDirective_processed (L := { L with macros := expanded.2 }) hloads hvalid hdirective
        obtain ⟨hinfo, hvalid₁⟩ := hprocessed.keeps
        have hlimit₁ : L₁.graph.info[source]? = some (limit, isSource) := by
          obtain ⟨more, hmore⟩ := hinfo
          rw [← hmore, List.getElem?_append_left (List.getElem?_eq_some_iff.1 hlimit).1]
          exact hlimit
        obtain ⟨⟨body, hbody⟩, hmarks₁⟩ := ih hordered hlimit₁ (hvalid₁ hvalid) h
        exact ⟨hprocessed.traced hstart hstop hbody,
          fun hmarked => hmarks₁ (hmarks ⟨hstop, _, hlimit, hordered.le⟩ hmarked)⟩

omit [DecidableEq Path] in
theorem setCompilerContents_graph (L : Loader Path) (original compilerSource : Text) :
    (setCompilerContents L source original compilerSource).graph = L.graph := by
  unfold setCompilerContents
  split
  · rfl
  · have hmodify {α : Type} (f : ProjectFile Path → α) (hf : ∀ file : ProjectFile Path,
        f { file with compilerContents := some compilerSource } = f file) :
        (L.files.modify source fun file =>
          { file with compilerContents := some compilerSource }).map f = L.files.map f := by
      refine List.ext_getElem? fun i => ?_
      rw [List.getElem?_map, List.getElem?_map, List.getElem?_modify]
      by_cases heq : source = i
      · cases L.files[i]? <;> simp [heq, hf]
      · simp [heq]
    unfold Loader.graph
    dsimp only
    rw [hmodify _ fun _ => rfl, hmodify _ fun _ => rfl]

omit [DecidableEq Path] in
theorem setCompilerContents_marked (h : L.Marked) (original compilerSource : Text) :
    (setCompilerContents L source original compilerSource).Marked := by
  have hgraph : (setCompilerContents L source original compilerSource).graph = L.graph :=
    setCompilerContents_graph L original compilerSource
  intro mark hmem
  rw [hgraph]
  refine h mark ?_
  unfold setCompilerContents at hmem
  split at hmem
  · exact hmem
  · exact hmem

theorem processDirectives_traced (hloads : Loads loadFile) {isSource : Bool} {text : Text}
    {directives : List Directive} (hscan : scanDirectives text = some directives)
    (hlimit : L.graph.info[source]? = some (utf8Len text, isSource)) (hvalid : L.graph.Valid)
    (h : processDirectives fs preprocessor L loadFile source path text directives = .ok L') :
    (∃ body, Traced L.graph L'.graph source 0 body) ∧ (L.Marked → L'.Marked) := by
  obtain ⟨⟨state, rest, L₁⟩, hloop, h⟩ := bind_eq_ok h
  obtain ⟨_, -, h⟩ := bind_eq_ok h
  obtain ⟨t, -, rfl⟩ := map_eq_ok h
  obtain ⟨htraced, hmarks⟩ :=
    processLoop_traced hloads directives (scanDirectives_spans hscan) hlimit hvalid hloop
  rw [setCompilerContents_graph]
  exact ⟨htraced, fun hmarked =>
    setCompilerContents_marked (L := { L₁ with macros := t.2 }) (hmarks hmarked) _ _⟩

theorem utf8Len_of_fromUTF8 {contents : ByteArray} {text : String}
    (h : String.fromUTF8? contents = some text) : utf8Len text.toList = contents.size := by
  unfold String.fromUTF8? at h
  split at h
  · cases h
    exact String.utf8Len_toList _
  · cases h

theorem addFile_graph (L : Loader Path) (path : Path) (contents : ByteArray) (isSource : Bool)
    (hsource : (FileKind.ofExtension (fs.extension path)).canContainIncludes = isSource) :
    { (addFile fs L path contents).graph with
        processed := L.processed ++ if isSource then [L.files.length] else [] } =
      L.graph.add path contents.size isSource := by
  have hlength : L.files.length = L.graph.info.length := (List.length_map _).symm
  have hinfo : (addFile fs L path contents).graph.info =
      L.graph.info ++ [(contents.size, isSource)] := by
    rw [← hsource]
    exact List.map_append
  have hids : (addFile fs L path contents).graph.ids = L.graph.ids ++ [L.files.length] :=
    List.map_append
  rw [Graph.add, ← hlength, ← hinfo, ← hids]
  rfl

theorem addFile_marked (h : L.Marked) (contents : ByteArray) :
    (addFile fs L path contents).Marked := by
  intro mark hmem
  obtain ⟨hordered, i, hi, hle⟩ := h mark hmem
  have hinfo : (addFile fs L path contents).graph.info = L.graph.info ++ _ := List.map_append
  refine ⟨hordered, i, ?_, hle⟩
  rw [hinfo, List.getElem?_append_left (List.getElem?_eq_some_iff.1 hi).1]
  exact hi

/-- A file that has been added is gone through from its begin. -/
theorem processFile_traced (hloads : Loads loadFile) {contents : ByteArray} {isSource : Bool}
    (hsource : (FileKind.ofExtension (fs.extension path)).canContainIncludes = isSource)
    (hvalid : L.graph.Valid)
    (h : processFile fs preprocessor (addFile fs L path contents) loadFile L.files.length path
      contents = .ok L') :
    (∃ body, Traced (L.graph.add path contents.size isSource) L'.graph L.files.length 0 body) ∧
      (L.Marked → L'.Marked) := by
  have hlength : L.files.length = L.graph.info.length := (List.length_map _).symm
  have hgraph := addFile_graph L path contents isSource hsource
  rw [processFile, hsource] at h
  cases isSource with
  | true =>
    rw [if_pos rfl] at h
    split at h
    · cases h
    · rename_i text htext
      split at h
      · cases h
      · rename_i directives hscan
        have hlimit : (L.graph.add path contents.size true).info[L.files.length]? =
            some (utf8Len text.toList, true) := by
          rw [utf8Len_of_fromUTF8 htext, hlength]
          exact List.getElem?_concat_length ..
        have hadded : ({ addFile fs L path contents with
            processed := L.processed ++ [L.files.length] } : Loader Path).graph =
              L.graph.add path contents.size true := hgraph
        rw [← hadded] at hlimit ⊢
        have hvalid' := hvalid.add path contents.size true
        rw [← hadded] at hvalid'
        obtain ⟨htraced, hmarks⟩ := processDirectives_traced (L := { addFile fs L path contents with
          processed := L.processed ++ [L.files.length] }) hloads hscan hlimit hvalid' h
        exact ⟨htraced, fun hmarked => hmarks (addFile_marked hmarked contents)⟩
  | false =>
    rw [if_neg Bool.false_ne_true] at h
    cases h
    have hsame : (addFile fs L path contents).graph = L.graph.add path contents.size false := by
      rw [← hgraph, if_neg Bool.false_ne_true, List.append_nil]
      rfl
    rw [hsame]
    exact ⟨⟨_, .done fun _ _ => Nat.zero_le _⟩, fun hmarked => addFile_marked hmarked contents⟩

theorem loadFile_loads (fuel : Nat) : Loads (Loader.loadFile fs preprocessor fuel) := by
  induction fuel with
  | zero => intro path L id L' h; cases h
  | succ fuel ih =>
    intro path L id L' h hvalid
    obtain ⟨path, -, h⟩ := bind_eq_ok h
    split at h
    · rename_i hidentity
      cases h
      exact ⟨Or.inl ⟨hvalid.2 path _ hidentity, rfl⟩, fun hmarked => hmarked⟩
    · split at h
      · split at h
        · cases h
        · rename_i contents _
          obtain ⟨L₁, hfile, heq⟩ := map_eq_ok h
          cases heq
          obtain ⟨⟨body, hbody⟩, hmarks⟩ := processFile_traced ih rfl hvalid hfile
          exact ⟨Or.inr ⟨path, contents.size, _, body, (List.length_map _).symm, hbody⟩, hmarks⟩
      · cases h

end Loader

end

end Dream64.Preprocess
