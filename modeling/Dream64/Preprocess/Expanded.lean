import Dream64.Library.Sorting
import Dream64.Preprocess.Trace

/-!
# The expansion of a loaded project

The segments of a project that has been loaded are those of the expansion that
the loader went through (`load_expansion`): the traversal meets the includes in
the order in which the loader recorded them. So every byte of every file comes
once, but for the lines of its includes, and in its order.
-/

namespace Dream64.Preprocess

namespace Expansion

variable {length : FileId → Nat} {file g : FileId} {cursor i : Nat} {body : Expansion}
  {edge : IncludeEdge} {E : FileId → List IncludeEdge}

/-! ## Includes by their files -/

theorem source_mem (h : body.Laid length file cursor) (hedge : edge ∈ body.edges) :
    edge.source ∈ file :: body.files := by
  induction body generalizing file cursor with
  | done => cases hedge
  | skip own rest ih =>
    rcases List.mem_cons.1 hedge with rfl | hedge
    · exact h.1 ▸ List.mem_cons_self
    · exact ih h.2.2.2 hedge
  | splice own target inner rest ihinner ihrest =>
    obtain ⟨hsource, -, -, hinner, hrest⟩ := h
    rcases List.mem_cons.1 hedge with rfl | hedge
    · exact hsource ▸ List.mem_cons_self
    · rw [files]
      rcases List.mem_append.1 hedge with hedge | hedge
      · have hmem := ihinner hinner hedge
        simp only [List.mem_cons, List.mem_append] at hmem ⊢
        tauto
      · have hmem := ihrest hrest hedge
        simp only [List.mem_cons, List.mem_append] at hmem ⊢
        tauto

/-- The includes of a file among all of an expansion. -/
def edgesBy (body : Expansion) (g : FileId) : List IncludeEdge :=
  body.edges.filter fun edge => edge.source = g

theorem edgesBy_of_not_mem (h : body.Laid length file cursor) (hg : g ∉ file :: body.files) :
    body.edgesBy g = [] := by
  rw [edgesBy, List.filter_eq_nil_iff]
  intro edge hedge heq
  rw [decide_eq_true_eq] at heq
  exact hg (heq ▸ source_mem h hedge)

theorem edgesBy_skip (edge : IncludeEdge) (rest : Expansion) (g : FileId) :
    (skip edge rest).edgesBy g = (if edge.source = g then [edge] else []) ++ rest.edgesBy g := by
  unfold edgesBy
  by_cases heq : edge.source = g <;> simp [edges, heq]

theorem edgesBy_splice (edge : IncludeEdge) (target : FileId) (inner rest : Expansion)
    (g : FileId) : (splice edge target inner rest).edgesBy g =
      (if edge.source = g then [edge] else []) ++ (inner.edgesBy g ++ rest.edgesBy g) := by
  unfold edgesBy
  by_cases heq : edge.source = g <;> simp [edges, heq]

/-- A file is spliced in once. -/
def Distinct (file : FileId) (body : Expansion) : Prop := (file :: body.files).Nodup

theorem Distinct.skip {rest : Expansion} (h : Distinct file (.skip edge rest)) :
    Distinct file rest := h

theorem Distinct.splice {target : FileId} {inner rest : Expansion}
    (h : Distinct file (.splice edge target inner rest)) :
    Distinct target inner ∧ Distinct file rest ∧
      (∀ g ∈ target :: inner.files, g ∉ file :: rest.files) := by
  have hfiles : (Expansion.splice edge target inner rest).files =
      target :: inner.files ++ rest.files := rfl
  rw [Distinct, hfiles] at h
  obtain ⟨hfile, hrest⟩ := List.nodup_cons.1 h
  obtain ⟨hinner, hrest, hdisjoint⟩ := List.nodup_append.1 hrest
  rw [List.mem_append, not_or] at hfile
  refine ⟨hinner, List.nodup_cons.2 ⟨hfile.2, hrest⟩, fun g hg hmem => ?_⟩
  rcases List.mem_cons.1 hmem with rfl | hmem
  · exact hfile.1 hg
  · exact hdisjoint g hg g hmem rfl

theorem edgesBy_own (h : body.Laid length file cursor) (hd : Distinct file body) :
    body.edgesBy file = body.own := by
  induction body generalizing cursor with
  | done => rfl
  | skip edge rest ih =>
    rw [edgesBy_skip, if_pos h.1, ih h.2.2.2 hd.skip]
    rfl
  | splice edge target inner rest _ ih =>
    obtain ⟨hsource, -, -, hinner, hrest⟩ := h
    obtain ⟨-, hdrest, hdisjoint⟩ := hd.splice
    have hnone : inner.edgesBy file = [] :=
      edgesBy_of_not_mem hinner fun hmem => hdisjoint file hmem List.mem_cons_self
    rw [edgesBy_splice, if_pos hsource, hnone, ih hrest hdrest]
    rfl

/-- The includes of each file that is spliced in are those that `E` has for it. -/
def Bodies (E : FileId → List IncludeEdge) : Expansion → Prop
  | done => True
  | skip _ rest => rest.Bodies E
  | splice _ target inner rest => E target = inner.own ∧ inner.Bodies E ∧ rest.Bodies E

theorem bodies (h : body.Laid length file cursor) (hd : Distinct file body)
    (hE : ∀ g ∈ body.files, E g = body.edgesBy g) : body.Bodies E := by
  induction body generalizing file cursor with
  | done => trivial
  | skip edge rest ih =>
    refine ih h.2.2.2 hd.skip fun g hg => ?_
    have hne : edge.source ≠ g := by
      rintro rfl
      exact (List.nodup_cons.1 hd).1 (h.1 ▸ hg)
    rw [hE g hg, edgesBy_skip, if_neg hne, List.nil_append]
  | splice edge target inner rest ihinner ihrest =>
    obtain ⟨hsource, -, -, hinner, hrest⟩ := h
    obtain ⟨hdinner, hdrest, hdisjoint⟩ := hd.splice
    have hE (g : FileId) (hg : g ∈ target :: (inner.files ++ rest.files)) :
        E g = inner.edgesBy g ++ rest.edgesBy g := by
      have hne : edge.source ≠ g := by
        rintro rfl
        exact (List.nodup_cons.1 hd).1 (hsource ▸ hg)
      rw [hE g hg, edgesBy_splice, if_neg hne, List.nil_append]
    have hinnerE (g : FileId) (hg : g ∈ target :: inner.files) : E g = inner.edgesBy g := by
      have hmem : g ∈ target :: (inner.files ++ rest.files) := by
        simp only [List.mem_cons, List.mem_append] at hg ⊢
        tauto
      rw [hE g hmem, edgesBy_of_not_mem hrest (hdisjoint g hg), List.append_nil]
    refine ⟨?_, ihinner hinner hdinner fun g hg => hinnerE g (List.mem_cons_of_mem _ hg),
      ihrest hrest hdrest fun g hg => ?_⟩
    · rw [hinnerE target List.mem_cons_self, edgesBy_own hinner hdinner]
    · have hnone : inner.edgesBy g = [] :=
        edgesBy_of_not_mem hinner fun hmem => hdisjoint g hmem (List.mem_cons_of_mem _ hg)
      rw [hE g (List.mem_cons_of_mem _ (List.mem_append_right _ hg)), hnone, List.nil_append]

/-- Of the two parts of a splice, one has no includes of the file. -/
theorem edgesBy_part {target : FileId} {inner rest : Expansion} {start : Nat}
    (hinner : inner.Laid length target 0) (hrest : rest.Laid length file start)
    (hd : Distinct file (.splice edge target inner rest)) (g : FileId) :
    inner.edgesBy g = [] ∨ g ≠ file ∧ rest.edgesBy g = [] := by
  obtain ⟨-, -, hdisjoint⟩ := hd.splice
  by_cases hg : g ∈ target :: inner.files
  · have hnot := hdisjoint g hg
    refine Or.inr ⟨fun heq => hnot (heq ▸ List.mem_cons_self), edgesBy_of_not_mem hrest hnot⟩
  · exact Or.inl (edgesBy_of_not_mem hinner hg)

/-- Includes of `g` lie behind each other, and behind the cursor if `g` is the file it is in. -/
def Lined (file : FileId) (cursor : Nat) (g : FileId) (edges : List IncludeEdge) : Prop :=
  (∀ edge ∈ edges, edge.span.start ≤ edge.span.stop ∧ (g = file → cursor ≤ edge.span.start)) ∧
    edges.Pairwise fun a b => a.span.stop ≤ b.span.start

theorem Lined.own {edges : List IncludeEdge} (h : Lined file edge.span.stop g edges)
    (hsource : edge.source = file) (hstart : cursor ≤ edge.span.start)
    (hstop : edge.span.start ≤ edge.span.stop) :
    Lined file cursor g ((if edge.source = g then [edge] else []) ++ edges) := by
  obtain ⟨hall, hpairwise⟩ := h
  by_cases hg : edge.source = g
  · have hfile : g = file := hg.symm.trans hsource
    rw [if_pos hg]
    refine ⟨fun e he => ?_, List.pairwise_cons.2 ⟨fun e he => (hall e he).2 hfile, hpairwise⟩⟩
    rcases List.mem_cons.1 he with rfl | he
    · exact ⟨hstop, fun _ => hstart⟩
    · exact ⟨(hall e he).1, fun _ => (hstart.trans hstop).trans ((hall e he).2 hfile)⟩
  · rw [if_neg hg, List.nil_append]
    refine ⟨fun e he => ⟨(hall e he).1, fun hfile => ?_⟩, hpairwise⟩
    exact absurd (hsource.trans hfile.symm) hg

theorem lined_edgesBy (h : body.Laid length file cursor) (hd : Distinct file body) (g : FileId) :
    Lined file cursor g (body.edgesBy g) := by
  induction body generalizing file cursor with
  | done => exact ⟨fun _ h => (by cases h), List.Pairwise.nil⟩
  | skip edge rest ih =>
    obtain ⟨hsource, hstart, hstop, hrest⟩ := h
    rw [edgesBy_skip]
    exact (ih hrest hd.skip).own hsource hstart hstop
  | splice edge target inner rest ihinner ihrest =>
    obtain ⟨hsource, hstart, hstop, hinner, hrest⟩ := h
    obtain ⟨hdinner, hdrest, -⟩ := hd.splice
    rw [edgesBy_splice]
    rcases edgesBy_part hinner hrest hd g with hnone | ⟨hne, hnone⟩
    · rw [hnone, List.nil_append]
      exact (ihrest hrest hdrest).own hsource hstart hstop
    · have hg : edge.source ≠ g := fun hg => hne (hg.symm.trans hsource)
      obtain ⟨hall, hpairwise⟩ := ihinner hinner hdinner
      rw [if_neg hg, hnone, List.nil_append, List.append_nil]
      exact ⟨fun e he => ⟨(hall e he).1, fun hfile => absurd hfile hne⟩, hpairwise⟩

/-! ## The traversal -/

/-- The turns that the traversal takes for an expansion. -/
def turns (body : Expansion) : Nat := body.edges.length + body.files.length + 1

end Expansion

section

variable {Path : Type} {project : Project Path} {body : Expansion} {file k cursor : FileId}
  {segments : List ExpansionSegment} {expanded : List FileId} {stack : List ExpansionFrame}

theorem expansionLoop_succ (turns : Nat) (frame : ExpansionFrame) :
    expansionLoop project (turns + 1) ⟨segments, expanded, frame :: stack⟩ =
      expansionLoop project turns (expansionStep project frame stack segments expanded) := rfl

theorem drop_cons {edges rest : List IncludeEdge} {edge : IncludeEdge}
    (h : edges.drop k = edge :: rest) : edges[k]? = some edge ∧ edges.drop (k + 1) = rest := by
  refine ⟨?_, ?_⟩
  · rw [← List.head?_drop, h]
    rfl
  · rw [← List.tail_drop, h]
    rfl

/-- The traversal goes through the includes of a file and then leaves it. -/
theorem expansionLoop_body (hown : (project.includesBy file).drop k = body.own)
    (hbodies : body.Bodies project.includesBy) (honce : body.Once expanded)
    (hlaid : body.Laid project.fileLength file cursor) (turns : Nat) :
    expansionLoop project (body.turns + turns) ⟨segments, expanded, ⟨file, k, cursor⟩ :: stack⟩ =
      expansionLoop project turns
        ⟨segments ++ body.segments project.fileLength file cursor, expanded ++ body.files, stack⟩ := by
  induction body generalizing file k cursor segments expanded stack turns with
  | done =>
    have hnone : (project.includesBy file)[k]? = none := by
      rw [← List.head?_drop, hown]
      rfl
    rw [show Expansion.done.turns + turns = turns + 1 from Nat.add_comm .., expansionLoop_succ,
      expansionStep, Expansion.segments, Expansion.files, List.append_nil]
    simp only [hnone]
  | skip edge rest ih =>
    obtain ⟨hedge, hrest⟩ := drop_cons hown
    obtain ⟨-, hstart, hstop, hlaid⟩ := hlaid
    have hturns : (Expansion.skip edge rest).turns + turns = rest.turns + turns + 1 := by
      simp only [Expansion.turns, Expansion.edges, Expansion.files, List.length_cons]
      omega
    rw [hturns, expansionLoop_succ, expansionStep]
    simp only [hedge, honce.1, max_eq_right (hstart.trans hstop)]
    rw [ih hrest hbodies honce.2 hlaid, Expansion.segments, List.append_assoc]
    rfl
  | splice edge target inner rest ihinner ihrest =>
    obtain ⟨hedge, hrest⟩ := drop_cons hown
    obtain ⟨-, hstart, hstop, hlaidinner, hlaid⟩ := hlaid
    obtain ⟨hopens, honceinner, honce⟩ := honce
    obtain ⟨htarget, hinner, hbodies⟩ := hbodies
    have hturns : (Expansion.splice edge target inner rest).turns + turns =
        inner.turns + (rest.turns + turns) + 1 := by
      simp only [Expansion.turns, Expansion.edges, Expansion.files, List.length_cons,
        List.length_append]
      omega
    rw [hturns, expansionLoop_succ, expansionStep]
    simp only [hedge, hopens, max_eq_right (hstart.trans hstop)]
    rw [ExpansionFrame.new, ihinner (k := 0) htarget hinner honceinner hlaidinner,
      List.append_assoc expanded, List.singleton_append]
    rw [ihrest hrest hbodies honce hlaid, Expansion.segments, Expansion.files]
    simp only [List.append_assoc, List.cons_append]

/-- The recorded includes are sorted into their order. -/
theorem mergeSort_numbered {includes : List (Nat × IncludeEdge)} {edges : List IncludeEdge}
    (h : includes.Perm (numbered 0 edges)) :
    (includes.mergeSort fun a b => a.1 ≤ b.1).map (·.2) = edges := by
  have hfst : (numbered 0 edges).map (·.1) = List.range' 0 edges.length :=
    List.map_fst_zip (by rw [List.length_range'])
  have hsnd : (numbered 0 edges).map (·.2) = edges :=
    List.map_snd_zip (by rw [List.length_range'])
  have hlt : ((numbered 0 edges).map (·.1)).Pairwise (· < ·) := by
    rw [hfst]
    exact List.pairwise_lt_range'
  have hordinals : (numbered 0 edges).Pairwise fun a b => a.1 < b.1 := List.pairwise_map.1 hlt
  rw [Sorting.mergeSort_eq_of_perm Prod.fst h hordinals, hsnd]

/-- Includes that lie behind each other are sorted by their position. -/
theorem includesBy_eq {length : FileId → Nat} {root : FileId}
    (hincludes : project.includes = body.edges) (h : body.Laid length root cursor)
    (hd : body.Distinct root) (g : FileId) : project.includesBy g = body.edgesBy g := by
  obtain ⟨hall, hpairwise⟩ := Expansion.lined_edgesBy h hd g
  rw [Project.includesBy, hincludes]
  refine List.mergeSort_of_pairwise (hpairwise.imp_of_mem fun {a b} ha hb hab => ?_)
  have hstart := (hall a ha).1
  have hstop := (hall b hb).1
  simp only [Bool.or_eq_true, Bool.and_eq_true, decide_eq_true_eq, beq_iff_eq]
  omega

end

end Dream64.Preprocess
