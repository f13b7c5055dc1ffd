import Dream64.Preprocess.Expanded

/-!
# What the segments cover

The segments of an expansion hold every byte of its files once, but for the
lines of the includes; those of each file come in their order, and the files
that an include splices in come at its place.
-/

namespace Dream64.Preprocess

/-- The byte is in the range. -/
def InSpan (span : SourceSpan) (i : Nat) : Prop := span.start ≤ i ∧ i < span.stop

instance (span : SourceSpan) (i : Nat) : Decidable (InSpan span i) :=
  inferInstanceAs (Decidable (_ ∧ _))

/-- How often the byte `i` of the file `g` comes in the segments. -/
def coverage (g : FileId) (i : Nat) (segments : List ExpansionSegment) : Nat :=
  segments.countP fun segment => segment.fileId = g ∧ InSpan segment.span i

/-- The segments of the file `g`, with those of the files that it splices in, stand together and at
the place of the first include of `g`. -/
structure SplicedAt (includes : List IncludeEdge) (length : FileId → Nat)
    (segments : List ExpansionSegment) (g : FileId) (edge : IncludeEdge) (inner : Expansion)
    (before after : List ExpansionSegment) : Prop where
  first : includes.find? (fun edge => edge.target = .file g) = some edge
  together : segments = before ++ (inner.segments length g 0 ++ after)
  apart : ∀ segment ∈ before ++ after, segment.fileId ∉ g :: inner.files
  before_include : ∀ segment ∈ before, segment.fileId = edge.source →
    segment.span.stop ≤ edge.span.start
  after_include : ∀ segment ∈ after, segment.fileId = edge.source →
    edge.span.stop ≤ segment.span.start

/-- The segments of a file come in their order. -/
def Increasing (g : FileId) (segments : List ExpansionSegment) : Prop :=
  (segments.filter fun segment => segment.fileId = g).Pairwise fun a b =>
    a.span.stop ≤ b.span.start

theorem coverage_append (g : FileId) (i : Nat) (a b : List ExpansionSegment) :
    coverage g i (a ++ b) = coverage g i a + coverage g i b := List.countP_append

theorem coverage_piece (g file : FileId) (i start stop : Nat) :
    coverage g i (piece file start stop) =
      if file = g ∧ start ≤ i ∧ i < stop then 1 else 0 := by
  unfold piece coverage
  by_cases hlt : start < stop
  · rw [if_pos hlt, List.countP_singleton]
    exact if_congr (by rw [decide_eq_true_eq]; rfl) rfl rfl
  · rw [if_neg hlt, if_neg (by omega)]
    rfl

theorem mem_piece {file : FileId} {start stop : Nat} {segment : ExpansionSegment}
    (h : segment ∈ piece file start stop) : segment = ⟨file, ⟨start, stop⟩⟩ ∧ start < stop := by
  unfold piece at h
  split at h
  · exact ⟨List.mem_singleton.1 h, ‹_›⟩
  · cases h

namespace Expansion

variable {length : FileId → Nat} {file g : FileId} {cursor i : Nat} {body : Expansion}
  {edge : IncludeEdge}

theorem cursor_le (h : body.Laid length file cursor) : cursor ≤ length file := by
  induction body generalizing cursor with
  | done => exact h
  | skip edge rest ih => exact (h.2.1.trans h.2.2.1).trans (ih h.2.2.2)
  | splice edge target inner rest _ ih => exact (h.2.1.trans h.2.2.1).trans (ih h.2.2.2.2)

/-- The includes lie in their files. -/
theorem span_of_mem (h : body.Laid length file cursor) (hedge : edge ∈ body.edges) :
    edge.span.start ≤ edge.span.stop ∧ edge.span.stop ≤ length edge.source := by
  induction body generalizing file cursor with
  | done => cases hedge
  | skip own rest ih =>
    obtain ⟨hsource, -, hordered, hrest⟩ := h
    rcases List.mem_cons.1 hedge with rfl | hedge
    · exact ⟨hordered, hsource ▸ cursor_le hrest⟩
    · exact ih hrest hedge
  | splice own target inner rest ihinner ihrest =>
    obtain ⟨hsource, -, hordered, hinner, hrest⟩ := h
    rcases List.mem_cons.1 hedge with rfl | hedge
    · exact ⟨hordered, hsource ▸ cursor_le hrest⟩
    · rcases List.mem_append.1 hedge with hedge | hedge
      · exact ihinner hinner hedge
      · exact ihrest hrest hedge

/-- A segment is in one of the files of the expansion, and behind the cursor in the file of it. -/
theorem segment_mem (h : body.Laid length file cursor) {segment : ExpansionSegment}
    (hsegment : segment ∈ body.segments length file cursor) :
    segment.fileId ∈ file :: body.files ∧ segment.span.stop ≤ length segment.fileId := by
  have hpiece {file : FileId} {start stop : Nat} (h : segment ∈ piece file start stop)
      (hstop : stop ≤ length file) (files : List FileId) :
      segment.fileId ∈ file :: files ∧ segment.span.stop ≤ length segment.fileId := by
    obtain ⟨rfl, -⟩ := mem_piece h
    exact ⟨List.mem_cons_self, hstop⟩
  induction body generalizing file cursor with
  | done => exact hpiece hsegment le_rfl _
  | skip edge rest ih =>
    obtain ⟨-, -, hstop, hrest⟩ := h
    rcases List.mem_append.1 hsegment with hsegment | hsegment
    · exact hpiece hsegment (hstop.trans (cursor_le hrest)) _
    · exact ih hrest hsegment
  | splice edge target inner rest ihinner ihrest =>
    obtain ⟨-, -, hstop, hinner, hrest⟩ := h
    rcases List.mem_append.1 hsegment with hsegment | hsegment
    · exact hpiece hsegment (hstop.trans (cursor_le hrest)) _
    · rw [files]
      rcases List.mem_append.1 hsegment with hsegment | hsegment
      · obtain ⟨hmem, hle⟩ := ihinner hinner hsegment
        refine ⟨?_, hle⟩
        simp only [List.mem_cons, List.mem_append] at hmem ⊢
        tauto
      · obtain ⟨hmem, hle⟩ := ihrest hrest hsegment
        refine ⟨?_, hle⟩
        simp only [List.mem_cons, List.mem_append] at hmem ⊢
        tauto

/-- The segments of the file itself are behind the cursor. -/
theorem cursor_le_start (h : body.Laid length file cursor) (hd : Distinct file body)
    {segment : ExpansionSegment} (hsegment : segment ∈ body.segments length file cursor)
    (hfile : segment.fileId = file) : cursor ≤ segment.span.start := by
  induction body generalizing cursor with
  | done =>
    obtain ⟨rfl, -⟩ := mem_piece hsegment
    exact le_rfl
  | skip edge rest ih =>
    obtain ⟨-, hstart, hstop, hrest⟩ := h
    rcases List.mem_append.1 hsegment with hsegment | hsegment
    · obtain ⟨rfl, -⟩ := mem_piece hsegment
      exact le_rfl
    · exact (hstart.trans hstop).trans (ih hrest hd.skip hsegment)
  | splice edge target inner rest _ ihrest =>
    obtain ⟨-, hstart, hstop, hinner, hrest⟩ := h
    obtain ⟨-, hdrest, hdisjoint⟩ := hd.splice
    rcases List.mem_append.1 hsegment with hsegment | hsegment
    · obtain ⟨rfl, -⟩ := mem_piece hsegment
      exact le_rfl
    · rcases List.mem_append.1 hsegment with hsegment | hsegment
      · have hmem := (segment_mem hinner hsegment).1
        exact absurd (hfile ▸ List.mem_cons_self) (hdisjoint _ hmem)
      · exact (hstart.trans hstop).trans (ihrest hrest hdrest hsegment)

/-- The byte is behind the cursor, if it is of the file of the cursor, and in no include. -/
def Kept (length : FileId → Nat) (file : FileId) (cursor : Nat) (body : Expansion) (g : FileId)
    (i : Nat) : Prop :=
  g ∈ file :: body.files ∧ i < length g ∧ (g = file → cursor ≤ i) ∧
    ∀ edge ∈ body.edgesBy g, ¬ InSpan edge.span i

instance : Decidable (Kept length file cursor body g i) :=
  inferInstanceAs (Decidable (_ ∧ _ ∧ (_ → _) ∧ _))

theorem coverage_of_not_mem (h : body.Laid length file cursor) (hg : g ∉ file :: body.files) :
    coverage g i (body.segments length file cursor) = 0 := by
  refine List.countP_eq_zero.2 fun segment hsegment hholds => hg ?_
  obtain ⟨hfile, -⟩ := of_decide_eq_true hholds
  exact hfile ▸ (segment_mem h hsegment).1

/-- A byte before an include or in it, or behind it. -/
theorem kept_own {rest : Expansion} (hsource : edge.source = file)
    (hstart : cursor ≤ edge.span.start) (hstop : edge.span.start ≤ edge.span.stop)
    (hrest : rest.Laid length file edge.span.stop) (hd : Distinct file rest) :
    coverage g i (piece file cursor edge.span.start) +
      (if Kept length file edge.span.stop rest g i then 1 else 0) =
        if Kept length file cursor (.skip edge rest) g i then 1 else 0 := by
  have hle := cursor_le hrest
  obtain ⟨hall, -⟩ := lined_edgesBy hrest hd g
  rw [coverage_piece]
  by_cases hg : file = g
  · subst hg
    have hmem : file ∈ file :: rest.files := List.mem_cons_self
    have hbehind (hi : i < edge.span.stop) (e : IncludeEdge) (he : e ∈ rest.edgesBy file) :
        ¬ InSpan e.span i := by
      have hcursor := (hall e he).2 rfl
      rintro ⟨hi', -⟩
      omega
    have hskip : Kept length file cursor (.skip edge rest) file i ↔
        i < length file ∧ cursor ≤ i ∧ ¬ (edge.span.start ≤ i ∧ i < edge.span.stop) ∧
          ∀ e ∈ rest.edgesBy file, ¬ InSpan e.span i := by
      rw [Kept, edgesBy_skip, if_pos hsource]
      simp [files, InSpan]
    have hkept : Kept length file edge.span.stop rest file i ↔
        i < length file ∧ edge.span.stop ≤ i ∧
          ∀ e ∈ rest.edgesBy file, ¬ InSpan e.span i := by
      simp [Kept]
    simp only [hskip, hkept]
    by_cases hi : i < edge.span.stop
    · have hnot : ¬ (i < length file ∧ edge.span.stop ≤ i ∧
          ∀ e ∈ rest.edgesBy file, ¬ InSpan e.span i) := by omega
      rw [if_neg hnot, Nat.add_zero]
      refine if_congr ⟨?_, ?_⟩ rfl rfl
      · rintro ⟨-, hcursor, hi'⟩
        exact ⟨by omega, hcursor, by omega, hbehind hi⟩
      · rintro ⟨-, hcursor, hi', -⟩
        exact ⟨trivial, hcursor, by omega⟩
    · rw [if_neg (by omega), Nat.zero_add]
      refine if_congr ⟨?_, ?_⟩ rfl rfl
      · rintro ⟨hlength, hi', hnone⟩
        exact ⟨hlength, by omega, by omega, hnone⟩
      · rintro ⟨hlength, -, -, hnone⟩
        exact ⟨hlength, by omega, hnone⟩
  · have hne : edge.source ≠ g := hsource ▸ hg
    have hiff : Kept length file edge.span.stop rest g i ↔
        Kept length file cursor (.skip edge rest) g i := by
      rw [Kept, Kept, edgesBy_skip, if_neg hne, List.nil_append]
      simp only [files, Ne.symm hg, false_implies]
    simp only [hiff, hg, false_and, if_false, Nat.zero_add]

theorem coverage_segments (h : body.Laid length file cursor) (hd : Distinct file body) :
    coverage g i (body.segments length file cursor) =
      if Kept length file cursor body g i then 1 else 0 := by
  induction body generalizing file cursor with
  | done =>
    rw [segments, coverage_piece]
    refine if_congr ?_ rfl rfl
    simp only [Kept, files, edgesBy, edges, List.mem_singleton, List.filter_nil]
    constructor
    · rintro ⟨rfl, hcursor, hlength⟩
      exact ⟨rfl, hlength, fun _ => hcursor, fun _ hmem => absurd hmem List.not_mem_nil⟩
    · rintro ⟨rfl, hlength, hcursor, -⟩
      exact ⟨rfl, hcursor rfl, hlength⟩
  | skip edge rest ih =>
    obtain ⟨hsource, hstart, hstop, hrest⟩ := h
    rw [segments, coverage_append, ih hrest hd.skip]
    exact kept_own hsource hstart hstop hrest hd.skip
  | splice edge target inner rest ihinner ihrest =>
    obtain ⟨hsource, hstart, hstop, hinner, hrest⟩ := h
    obtain ⟨hdinner, hdrest, hdisjoint⟩ := hd.splice
    have hown := kept_own (g := g) (i := i) hsource hstart hstop hrest hdrest
    rw [segments, coverage_append, coverage_append]
    by_cases hg : g ∈ target :: inner.files
    · -- a byte of the files that are spliced in
      have hnot := hdisjoint g hg
      have hne : g ≠ file := fun heq => hnot (heq ▸ List.mem_cons_self)
      have hsourceg : edge.source ≠ g := fun heq => hne (heq.symm.trans hsource)
      rw [coverage_of_not_mem hrest hnot, coverage_piece, if_neg (fun h => hne h.1.symm),
        ihinner hinner hdinner, Nat.zero_add, Nat.add_zero]
      refine if_congr ?_ rfl rfl
      have hmem : g ∈ file :: target :: (inner.files ++ rest.files) := by
        simp only [List.mem_cons, List.mem_append] at hg ⊢
        tauto
      rw [Kept, Kept, edgesBy_splice, if_neg hsourceg, edgesBy_of_not_mem hrest hnot,
        List.nil_append, List.append_nil]
      simp only [hg, files, hmem, hne, true_and, false_implies]
      simp
    · have hinnerg : inner.edgesBy g = [] := edgesBy_of_not_mem hinner hg
      rw [coverage_of_not_mem hinner hg, Nat.zero_add, ihrest hrest hdrest, hown]
      refine if_congr ?_ rfl rfl
      have hmem : g ∈ file :: target :: (inner.files ++ rest.files) ↔ g ∈ file :: rest.files := by
        simp only [List.mem_cons, List.mem_append] at hg ⊢
        tauto
      rw [Kept, Kept, edgesBy_splice, edgesBy_skip, hinnerg, List.nil_append]
      simp only [files, hmem]

/-- A piece of a file stands before what is behind it. -/
theorem increasing_piece {start : Nat} {segments : List ExpansionSegment}
    (h : Increasing g segments)
    (hbehind : ∀ segment ∈ segments, segment.fileId = file → start ≤ segment.span.start)
    (cursor : Nat) : Increasing g (piece file cursor start ++ segments) := by
  rw [Increasing, List.filter_append, List.pairwise_append]
  refine ⟨?_, h, fun a ha b hb => ?_⟩
  · unfold piece
    split
    · exact (List.pairwise_singleton ..).filter _
    · exact List.Pairwise.nil
  · obtain ⟨ha, hag⟩ := List.mem_filter.1 ha
    obtain ⟨hb, hbg⟩ := List.mem_filter.1 hb
    obtain ⟨rfl, -⟩ := mem_piece ha
    rw [decide_eq_true_eq] at hag hbg
    exact hbehind b hb (hbg.trans hag.symm)

theorem increasing_segments (h : body.Laid length file cursor) (hd : Distinct file body)
    (g : FileId) : Increasing g (body.segments length file cursor) := by
  induction body generalizing file cursor with
  | done =>
    rw [segments, ← List.append_nil (piece ..)]
    exact increasing_piece (show Increasing g [] from List.Pairwise.nil)
      (fun _ hmem => absurd hmem List.not_mem_nil) _
  | skip edge rest ih =>
    obtain ⟨-, hstart, hstop, hrest⟩ := h
    refine increasing_piece (ih hrest hd.skip) (fun segment hsegment hfile => ?_) _
    exact hstop.trans (cursor_le_start hrest hd.skip hsegment hfile)
  | splice edge target inner rest ihinner ihrest =>
    obtain ⟨-, hstart, hstop, hinner, hrest⟩ := h
    obtain ⟨hdinner, hdrest, hdisjoint⟩ := hd.splice
    refine increasing_piece ?_ (fun segment hsegment hfile => ?_) _
    · rw [Increasing, List.filter_append, List.pairwise_append]
      refine ⟨ihinner hinner hdinner, ihrest hrest hdrest, fun a ha b hb => ?_⟩
      obtain ⟨ha, hag⟩ := List.mem_filter.1 ha
      obtain ⟨hb, hbg⟩ := List.mem_filter.1 hb
      rw [decide_eq_true_eq] at hag hbg
      have hnot := hdisjoint _ (segment_mem hinner ha).1
      exact absurd (hag.trans hbg.symm ▸ (segment_mem hrest hb).1) hnot
    · rcases List.mem_append.1 hsegment with hsegment | hsegment
      · have hmem := (segment_mem hinner hsegment).1
        exact absurd (hfile ▸ List.mem_cons_self) (hdisjoint _ hmem)
      · exact hstop.trans (cursor_le_start hrest hdrest hsegment hfile)

/-! ## The place of a file -/

variable {met : List FileId}

theorem target_of_opens {target : FileId} (h : edge.opens met = some target) :
    edge.target = .file target ∧ target ∉ met := by
  unfold IncludeEdge.opens at h
  split at h
  · rename_i id hid
    split at h
    · cases h
    · cases h
      exact ⟨hid, ‹_›⟩
  · cases h

theorem mem_of_not_opens {target : FileId} (h : edge.opens met = none)
    (htarget : edge.target = .file target) : target ∈ met := by
  rw [IncludeEdge.opens, htarget] at h
  by_contra hnot
  simp [hnot] at h

theorem Once.fresh (h : body.Once met) (hg : g ∈ body.files) : g ∉ met := by
  induction body generalizing met with
  | done => cases hg
  | skip edge rest ih => exact ih h.2 hg
  | splice edge target inner rest ihinner ihrest =>
    obtain ⟨hopens, hinner, hrest⟩ := h
    rcases List.mem_cons.1 hg with rfl | hg
    · exact (target_of_opens hopens).2
    · rcases List.mem_append.1 hg with hg | hg
      · exact fun hmem => ihinner hinner hg (List.mem_append_left _ hmem)
      · exact fun hmem => ihrest hrest hg (List.mem_append_left _ hmem)

/-- The target of an include has been met, or is spliced in. -/
theorem Once.target_mem (h : body.Once met) (hedge : edge ∈ body.edges)
    (htarget : edge.target = .file g) : g ∈ met ∨ g ∈ body.files := by
  induction body generalizing met with
  | done => cases hedge
  | skip own rest ih =>
    rcases List.mem_cons.1 hedge with rfl | hedge
    · exact Or.inl (mem_of_not_opens h.1 htarget)
    · exact ih h.2 hedge
  | splice own target inner rest ihinner ihrest =>
    obtain ⟨hopens, hinner, hrest⟩ := h
    rw [files]
    simp only [List.mem_cons, List.mem_append]
    rcases List.mem_cons.1 hedge with rfl | hedge
    · have heq := htarget.symm.trans (target_of_opens hopens).1
      cases heq
      exact Or.inr (Or.inl rfl)
    · rcases List.mem_append.1 hedge with hedge | hedge
      · have hmem := ihinner hinner hedge
        simp only [List.mem_append, List.mem_singleton] at hmem
        tauto
      · have hmem := ihrest hrest hedge
        simp only [List.mem_append, List.mem_cons] at hmem
        tauto

end Expansion

section

open Expansion

variable {length : FileId → Nat} {file g : FileId} {cursor i : Nat} {body : Expansion}
  {edge : IncludeEdge}

variable {includes : List IncludeEdge} {segments before after : List ExpansionSegment}
  {inner : Expansion}

/-- What stands before the rest of a file, its includes and segments, keeps a place in it. -/
theorem SplicedAt.behind (edges : List IncludeEdge) {earlier : List ExpansionSegment}
    (h : SplicedAt includes length segments g edge inner before after)
    (hedges : ∀ e ∈ edges, e.target ≠ .file g)
    (hapart : ∀ segment ∈ earlier, segment.fileId ∉ g :: inner.files)
    (hbefore : ∀ segment ∈ earlier, segment.fileId = edge.source →
      segment.span.stop ≤ edge.span.start) :
    SplicedAt (edges ++ includes) length (earlier ++ segments) g edge inner (earlier ++ before)
      after where
  first := by
    have hnone : edges.find? (fun edge => edge.target = .file g) = none := by
      rw [List.find?_eq_none]
      intro e he
      rw [decide_eq_true_eq]
      exact hedges e he
    rw [List.find?_append, hnone, Option.none_or, h.first]
  together := by rw [h.together, List.append_assoc]
  apart segment hsegment := by
    rw [List.append_assoc] at hsegment
    rcases List.mem_append.1 hsegment with hsegment | hsegment
    · exact hapart segment hsegment
    · exact h.apart segment hsegment
  before_include segment hsegment := by
    rcases List.mem_append.1 hsegment with hsegment | hsegment
    · exact hbefore segment hsegment
    · exact h.before_include segment hsegment
  after_include := h.after_include

/-- So does what stands behind a file that is spliced in. -/
theorem SplicedAt.ahead {later : List ExpansionSegment}
    (h : SplicedAt includes length segments g edge inner before after) (edges : List IncludeEdge)
    (hapart : ∀ segment ∈ later, segment.fileId ∉ g :: inner.files)
    (hafter : ∀ segment ∈ later, segment.fileId ≠ edge.source) :
    SplicedAt (includes ++ edges) length (segments ++ later) g edge inner before
      (after ++ later) where
  first := by rw [List.find?_append, h.first, Option.some_or]
  together := by simp only [h.together, List.append_assoc]
  apart segment hsegment := by
    rw [← List.append_assoc] at hsegment
    rcases List.mem_append.1 hsegment with hsegment | hsegment
    · exact h.apart segment hsegment
    · exact hapart segment hsegment
  before_include := h.before_include
  after_include segment hsegment hfile := by
    rcases List.mem_append.1 hsegment with hsegment | hsegment
    · exact h.after_include segment hsegment hfile
    · exact absurd hfile (hafter segment hsegment)

/-- The includes of the rest of a file are behind the piece before an include of it. -/
theorem SplicedAt.behind_piece {rest : Expansion} {own : IncludeEdge}
    (h : SplicedAt includes length segments g edge inner before after) (hedge : edge ∈ rest.edges)
    (hown : own.target ≠ .file g) (hstop : own.span.start ≤ own.span.stop)
    (hrest : rest.Laid length file own.span.stop) (hd : Distinct file rest)
    (hfile : file ∉ g :: inner.files) :
    SplicedAt (own :: includes) length (piece file cursor own.span.start ++ segments) g edge inner
      (piece file cursor own.span.start ++ before) after := by
  refine h.behind [own] (fun e he => ?_) (fun segment hsegment => ?_)
    (fun segment hsegment hsource => ?_)
  · exact List.mem_singleton.1 he ▸ hown
  · obtain ⟨rfl, -⟩ := mem_piece hsegment
    exact hfile
  · obtain ⟨rfl, -⟩ := mem_piece hsegment
    have hedge : edge ∈ rest.edgesBy file :=
      List.mem_filter.2 ⟨hedge, decide_eq_true hsource.symm⟩
    exact hstop.trans (((lined_edgesBy hrest hd file).1 edge hedge).2 rfl)

/-- Each file that is spliced in stands at its first include. -/
theorem Expansion.exists_splicedAt {met : List FileId} (h : body.Laid length file cursor)
    (hd : Distinct file body) (honce : body.Once met) (hg : g ∈ body.files) :
    ∃ edge inner before after, g :: inner.files ⊆ body.files ∧
      SplicedAt body.edges length (body.segments length file cursor) g edge inner before after := by
  induction body generalizing file cursor met with
  | done => cases hg
  | skip own rest ih =>
    obtain ⟨hsource, hstart, hstop, hrest⟩ := h
    obtain ⟨edge, inner, before, after, hsubset, hspliced⟩ := ih hrest hd.skip honce.2 hg
    have hown : own.target ≠ .file g := fun htarget =>
      honce.2.fresh hg (mem_of_not_opens honce.1 htarget)
    have hfile : file ∉ g :: inner.files := fun hmem =>
      (List.nodup_cons.1 hd).1 (hsubset hmem)
    have hedge : edge ∈ rest.edges := List.mem_of_find?_eq_some hspliced.first
    exact ⟨edge, inner, _, after, hsubset,
      hspliced.behind_piece hedge hown hstop hrest hd.skip hfile⟩
  | splice own target inner rest ihinner ihrest =>
    obtain ⟨hsource, hstart, hstop, hinner, hrest⟩ := h
    obtain ⟨hopens, honceinner, honcerest⟩ := honce
    obtain ⟨htarget, -⟩ := target_of_opens hopens
    obtain ⟨hdinner, hdrest, hdisjoint⟩ := hd.splice
    have hfiles : (splice own target inner rest).files =
        target :: inner.files ++ rest.files := rfl
    have hfile : file ∉ target :: inner.files := fun hmem =>
      hdisjoint file hmem List.mem_cons_self
    rw [hfiles] at hg
    rcases List.mem_append.1 hg with hg | hg
    · rcases List.mem_cons.1 hg with rfl | hmeanwhile
      · -- the file is the one that the include splices in
        refine ⟨own, inner, piece file cursor own.span.start,
          rest.segments length file own.span.stop, ?_, ?_, rfl, ?_, ?_, ?_⟩
        · rw [hfiles]
          exact List.subset_append_left ..
        · exact List.find?_cons_of_pos (decide_eq_true htarget)
        · intro segment hsegment
          rcases List.mem_append.1 hsegment with hsegment | hsegment
          · obtain ⟨rfl, -⟩ := mem_piece hsegment
            exact hfile
          · exact fun hmem => hdisjoint _ hmem (segment_mem hrest hsegment).1
        · intro segment hsegment _
          obtain ⟨rfl, -⟩ := mem_piece hsegment
          exact le_rfl
        · intro segment hsegment heq
          exact cursor_le_start hrest hdrest hsegment (heq.trans hsource)
      · -- a file that is spliced in meanwhile
        obtain ⟨edge, deeper, before, after, hsubset, hspliced⟩ :=
          ihinner hinner hdinner honceinner hmeanwhile
        have hown : own.target ≠ .file g := by
          rw [htarget]
          rintro ⟨rfl⟩
          exact (List.nodup_cons.1 hdinner).1 hmeanwhile
        have hinnersource : edge.source ∈ target :: inner.files :=
          source_mem hinner (List.mem_of_find?_eq_some hspliced.first)
        have hpart {id : FileId} (hid : id ∈ g :: deeper.files) : id ∈ target :: inner.files :=
          List.mem_cons_of_mem _ (hsubset hid)
        refine ⟨edge, deeper, _, _, ?_, ((hspliced.ahead rest.edges (fun segment hsegment hmem => ?_)
          (fun segment hsegment heq => ?_)).behind [own] (fun e he => ?_)
          (fun segment hsegment => ?_) (fun segment hsegment heq => ?_))⟩
        · rw [hfiles]
          exact fun id hid => List.mem_append_left _ (hpart hid)
        · exact hdisjoint _ (hpart hmem) (segment_mem hrest hsegment).1
        · exact hdisjoint _ hinnersource (heq ▸ (segment_mem hrest hsegment).1)
        · exact List.mem_singleton.1 he ▸ hown
        · obtain ⟨rfl, -⟩ := mem_piece hsegment
          exact fun hmem => hfile (hpart hmem)
        · obtain ⟨rfl, -⟩ := mem_piece hsegment
          have heq : file = edge.source := heq
          exact absurd (heq ▸ hinnersource) hfile
    · -- a file that the rest splices in
      obtain ⟨edge, deeper, before, after, hsubset, hspliced⟩ :=
        ihrest hrest hdrest honcerest hg
      have hedge : edge ∈ rest.edges := List.mem_of_find?_eq_some hspliced.first
      have hnot : g ∉ target :: inner.files := fun hmem =>
        hdisjoint g hmem (List.mem_cons_of_mem _ hg)
      have hpart {id : FileId} (hid : id ∈ g :: deeper.files) : id ∉ target :: inner.files :=
        fun hmem => hdisjoint id hmem (List.mem_cons_of_mem _ (hsubset hid))
      have hown : own.target ≠ .file g := by
        rw [htarget]
        rintro ⟨rfl⟩
        exact hnot List.mem_cons_self
      refine ⟨edge, deeper, _, _, ?_, ((hspliced.behind inner.edges (fun e he heq => ?_)
        (fun segment hsegment hmem => ?_) (fun segment hsegment heq => ?_)).behind_piece hedge hown
        hstop hrest hdrest fun hmem => (List.nodup_cons.1 hdrest).1 (hsubset hmem))⟩
      · rw [hfiles]
        exact fun id hid => List.mem_append_right _ (hsubset hid)
      · have hmem := honceinner.target_mem he heq
        rw [List.mem_append, List.mem_singleton, or_assoc] at hmem
        rcases hmem with hmem | hmem
        · exact honcerest.fresh hg (List.mem_append_left _ hmem)
        · exact hnot (List.mem_cons.2 hmem)
      · exact hpart hmem (segment_mem hinner hsegment).1
      · have hmem := source_mem hrest hedge
        exact absurd (heq ▸ hmem) (hdisjoint _ (segment_mem hinner hsegment).1)

end

end Dream64.Preprocess
