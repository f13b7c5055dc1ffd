import Dream64.Preprocess.SourceMap

/-!
# Reading a source map

The mappings of a builder lie behind each other over its contents (`Tiles`), so
that one of them is found for each byte. `originalSpan` gives what the
mappings of the first and the last byte of a span give (`originalSpan_eq`). It
gives where these bytes come from if and only if the lengths tell every piece
apart (`mapped_eq_iff`).
-/

namespace Dream64.Preprocess

open String (utf8Len)

/-- Mappings that lie behind each other, from an offset on to the end. -/
def Tiles (length : Nat) : Nat → List SourceMapping → Prop
  | offset, [] => offset = length
  | offset, mapping :: mappings => mapping.expanded.start = offset ∧
      offset < mapping.expanded.stop ∧ Tiles length mapping.expanded.stop mappings

theorem Ordered.append {mid limit offset : Nat} {a b : List SourceSpan}
    (ha : Ordered mid offset a) (hb : Ordered limit mid b) : Ordered limit offset (a ++ b) := by
  induction a generalizing offset with
  | nil => exact hb.mono ha
  | cons span a ih => exact ⟨ha.1, ha.2.1, ih ha.2.2⟩

theorem Ordered.within {limit offset : Nat} {spans : List SourceSpan}
    (h : Ordered limit offset spans) : ∀ span ∈ spans,
      offset ≤ span.start ∧ span.start ≤ span.stop ∧ span.stop ≤ limit := by
  induction spans generalizing offset with
  | nil =>
    intro span hspan
    cases hspan
  | cons head spans ih =>
    obtain ⟨hstart, hstop, hrest⟩ := h
    have hlimit : head.stop ≤ limit := by
      cases spans with
      | nil => exact hrest
      | cons next spans =>
        have hnext := ih hrest next (List.mem_cons_self ..)
        omega
    intro span hspan
    rcases List.mem_cons.1 hspan with rfl | hspan
    · exact ⟨hstart, hstop, hlimit⟩
    · have hwithin := ih hrest span hspan
      exact ⟨by omega, hwithin.2⟩

theorem Ordered.pairwise {limit offset : Nat} {spans : List SourceSpan}
    (h : Ordered limit offset spans) : spans.Pairwise fun a b => a.stop ≤ b.start := by
  induction spans generalizing offset with
  | nil => exact .nil
  | cons head spans ih =>
    exact .cons (fun span hspan => (h.2.2.within span hspan).1) (ih h.2.2)

/-! ## The bytes that are copied -/

def bytes (text : Text) : List UInt8 := text.flatMap String.utf8EncodeChar

theorem bytes_append (a b : Text) : bytes (a ++ b) = bytes a ++ bytes b := List.flatMap_append

theorem bytes_length (text : Text) : (bytes text).length = utf8Len text := by
  induction text with
  | nil => rfl
  | cons c text ih =>
    rw [bytes, List.flatMap_cons, List.length_append, String.utf8Len_cons,
      String.length_utf8EncodeChar, Nat.add_comm]
    exact congrArg (· + _) ih

/-- Each byte of a text has an origin; one that comes from a byte of the view is that byte. -/
structure Reads (view text : Text) (origins : List Origin) : Prop where
  length : origins.length = utf8Len text
  identical : ∀ i offset : Nat, origins[i]? = some (.byte offset) →
    (bytes text)[i]? = (bytes view)[offset]?

namespace Reads

variable {view text a b : Text} {origins oa ob : List Origin} {start : Nat}

theorem nil : Reads view [] [] := ⟨rfl, fun i offset h => by cases h⟩

theorem append (ha : Reads view a oa) (hb : Reads view b ob) : Reads view (a ++ b) (oa ++ ob) where
  length := by rw [List.length_append, ha.length, hb.length, String.utf8Len_append]
  identical := by
    intro i offset h
    rw [bytes_append]
    by_cases hi : i < oa.length
    · rw [List.getElem?_append_left hi] at h
      rw [List.getElem?_append_left (by rw [bytes_length, ← ha.length]; exact hi)]
      exact ha.identical i offset h
    · rw [List.getElem?_append_right (by omega)] at h
      rw [List.getElem?_append_right (by rw [bytes_length, ← ha.length]; omega), bytes_length,
        ← ha.length]
      exact hb.identical _ offset h

/-- Text that stands in the view at an offset. -/
theorem copied {x y : Text} (hview : view = x ++ text ++ y) (hstart : utf8Len x = start) :
    Reads view text (Piece.oneByOne start (utf8Len text)) where
  length := by rw [Piece.oneByOne, List.length_map, List.length_range]
  identical := by
    intro i offset h
    rw [Piece.oneByOne] at h
    have hi : i < utf8Len text := by
      obtain ⟨hlt, -⟩ := List.getElem?_eq_some_iff.1 h
      rwa [List.length_map, List.length_range] at hlt
    rw [List.getElem?_map, List.getElem?_range hi, Option.map_some, Option.some.injEq,
      Origin.byte.injEq] at h
    rw [← h, hview, bytes_append, bytes_append, List.append_assoc,
      List.getElem?_append_right (by rw [bytes_length]; omega), bytes_length, hstart,
      Nat.add_sub_cancel_left, List.getElem?_append_left (by rw [bytes_length]; exact hi)]

theorem replaced (span : SourceSpan) :
    Reads view text (List.replicate (utf8Len text) (.invocation span)) where
  length := List.length_replicate ..
  identical := by
    intro i offset h
    rw [List.getElem?_replicate] at h
    split at h <;> cases h

theorem mono (h : Reads view text origins) (more : Text) : Reads (view ++ more) text origins where
  length := h.length
  identical := by
    intro i offset hi
    have hread := h.identical i offset hi
    have hlt : i < (bytes text).length := by
      obtain ⟨hlt, -⟩ := List.getElem?_eq_some_iff.1 hi
      rwa [bytes_length, ← h.length]
    rw [List.getElem?_eq_getElem hlt] at hread
    obtain ⟨hoffset, -⟩ := List.getElem?_eq_some_iff.1 hread.symm
    rw [bytes_append, List.getElem?_append_left hoffset, ← hread, List.getElem?_eq_getElem hlt]

/-- What is read in text at the end of a view is read in the view. -/
theorem shift {x : Text} (h : Reads a text origins) (hstart : utf8Len x = start) :
    Reads (x ++ a) text (origins.map (Origin.shift start)) where
  length := by rw [List.length_map, h.length]
  identical := by
    intro i offset hi
    rw [List.getElem?_map] at hi
    obtain ⟨origin, horigin, hshift⟩ := Option.map_eq_some_iff.1 hi
    cases origin with
    | byte k =>
      cases hshift
      rw [h.identical i k horigin, bytes_append,
        List.getElem?_append_right (by rw [bytes_length]; omega), bytes_length, hstart,
        Nat.add_sub_cancel_left]
    | invocation span => cases hshift

end Reads

/-! ## What the lengths tell -/

namespace Piece

/-- Where the map puts a byte of the piece. -/
def mappedByte (piece : Piece) (i : Nat) : SourceSpan :=
  if utf8Len piece.text = piece.original.length then
    ⟨piece.original.start + i, piece.original.start + i + 1⟩
  else piece.original

def mapped (piece : Piece) : List SourceSpan :=
  (List.range (utf8Len piece.text)).map piece.mappedByte

theorem mapped_length (piece : Piece) : piece.mapped.length = utf8Len piece.text := by
  rw [mapped, List.length_map, List.length_range]

theorem mapped_getElem? {piece : Piece} {i : Nat} (h : i < utf8Len piece.text) :
    piece.mapped[i]? = some (piece.mappedByte i) := by
  rw [mapped, List.getElem?_map, List.getElem?_range h, Option.map_some]

theorem mapped_eq_of_length {piece : Piece}
    (h : utf8Len piece.text = piece.original.length) :
    piece.mapped = (oneByOne piece.original.start (utf8Len piece.text)).map Origin.span := by
  rw [mapped, oneByOne, List.map_map]
  refine List.map_congr_left fun i _ => ?_
  rw [mappedByte, if_pos h]
  rfl

theorem mapped_eq_of_length_ne {piece : Piece}
    (h : utf8Len piece.text ≠ piece.original.length) :
    piece.mapped = List.replicate (utf8Len piece.text) piece.original := by
  refine List.eq_replicate_iff.2 ⟨piece.mapped_length, fun span hspan => ?_⟩
  obtain ⟨i, -, rfl⟩ := List.mem_map.1 hspan
  exact if_neg h

theorem mappedByte_within {piece : Piece} {i : Nat} (hi : i < utf8Len piece.text)
    (horder : piece.original.start ≤ piece.original.stop) :
    piece.original.start ≤ (piece.mappedByte i).start ∧
      (piece.mappedByte i).start ≤ (piece.mappedByte i).stop ∧
      (piece.mappedByte i).stop ≤ piece.original.stop := by
  rw [mappedByte]
  split
  · rename_i hlength
    rw [SourceSpan.length] at hlength
    exact ⟨by dsimp only; omega, by dsimp only; omega, by dsimp only; omega⟩
  · exact ⟨le_rfl, horder, le_rfl⟩

/-- What is known of a piece of a compiler source. -/
structure Fits (view : Text) (piece : Piece) : Prop where
  nonempty : piece.text ≠ []
  order : piece.original.start ≤ piece.original.stop
  reads : Reads view piece.text piece.origins
  copied : piece.provenance = .copied → utf8Len piece.text = piece.original.length

theorem utf8Len_pos {text : Text} (h : text ≠ []) : 0 < utf8Len text := by
  cases text with
  | nil => exact absurd rfl h
  | cons c text =>
    rw [String.utf8Len_cons]
    have hsize := c.utf8Size_pos
    omega

/-- The map puts the bytes of a piece where they come from if and only if the piece is told
apart by the lengths. -/
theorem mapped_eq_iff {view : Text} {piece : Piece} (h : piece.Fits view) :
    piece.mapped = piece.origins.map Origin.span ↔ piece.Distinct := by
  have hpos := utf8Len_pos h.nonempty
  have hlength := h.reads.length
  cases hprovenance : piece.provenance with
  | copied =>
    have hcopied := h.copied hprovenance
    rw [Distinct, origins, hprovenance]
    exact iff_of_true (mapped_eq_of_length hcopied) trivial
  | replaced =>
    have horigins : piece.origins.map Origin.span =
        List.replicate (utf8Len piece.text) piece.original := by
      rw [origins, hprovenance]
      exact List.map_replicate
    rw [horigins, Distinct, hprovenance]
    by_cases hsame : utf8Len piece.text = piece.original.length
    · constructor
      · -- The second byte of the text would be mapped behind the first byte of the invocation.
        intro heq _
        by_contra hlong
        have hsecond : piece.mapped[1]? =
            (List.replicate (utf8Len piece.text) piece.original)[1]? := by rw [heq]
        rw [mapped_getElem? (by omega), List.getElem?_replicate, if_pos (by omega), mappedByte,
          if_pos hsame] at hsecond
        have hstart := congrArg SourceSpan.start (Option.some.inj hsecond)
        dsimp only at hstart
        omega
      · intro hshort
        have hone : utf8Len piece.text = 1 := by have := hshort hsame; omega
        rw [mapped_eq_of_length hsame, hone]
        rw [hone, SourceSpan.length] at hsame
        have hstop : piece.original.stop = piece.original.start + 1 := by omega
        show [SourceSpan.mk (piece.original.start + 0) (piece.original.start + 0 + 1)] =
          [piece.original]
        rw [Nat.add_zero, ← hstop]
    · rw [mapped_eq_of_length_ne hsame]
      exact iff_of_true rfl fun hlength => absurd hlength hsame
  | deferred origins =>
    have horigins : piece.origins = origins := by
      rw [Piece.origins, hprovenance]
    rw [horigins] at hlength ⊢
    rw [Distinct, hprovenance]
    dsimp only
    split
    · rename_i hsame
      rw [mapped_eq_of_length hsame]
      exact eq_comm
    · rename_i hother
      rw [mapped_eq_of_length_ne hother, eq_comm, List.eq_replicate_iff]
      constructor
      · intro hall origin horigin
        exact hall.2 _ (List.mem_map_of_mem horigin)
      · intro hall
        refine ⟨by rw [List.length_map, hlength], fun span hspan => ?_⟩
        obtain ⟨origin, horigin, rfl⟩ := List.mem_map.1 hspan
        exact hall origin horigin

end Piece

/-! ## The mappings of pieces -/

/-- The mappings of pieces, the first of which begins at an offset. -/
def mappingsFrom : Nat → List Piece → List SourceMapping
  | _, [] => []
  | start, piece :: pieces =>
    ⟨⟨start, start + utf8Len piece.text⟩, piece.original⟩ ::
      mappingsFrom (start + utf8Len piece.text) pieces

theorem mappingsFrom_append (start : Nat) (a b : List Piece) :
    mappingsFrom start (a ++ b) =
      mappingsFrom start a ++ mappingsFrom (start + utf8Len (a.flatMap Piece.text)) b := by
  induction a generalizing start with
  | nil => rfl
  | cons piece a ih =>
    rw [List.cons_append, mappingsFrom, mappingsFrom, ih, List.flatMap_cons, String.utf8Len_append,
      Nat.add_assoc, List.cons_append]

theorem mappingsFrom_tiles (start : Nat) {view : Text} {pieces : List Piece}
    (h : ∀ piece ∈ pieces, piece.Fits view) :
    Tiles (start + utf8Len (pieces.flatMap Piece.text)) start (mappingsFrom start pieces) := by
  induction pieces generalizing start with
  | nil => rfl
  | cons piece pieces ih =>
    have hpos := Piece.utf8Len_pos (h piece (List.mem_cons_self ..)).nonempty
    rw [List.flatMap_cons, String.utf8Len_append, ← Nat.add_assoc]
    exact ⟨rfl, Nat.lt_add_of_pos_right hpos,
      ih (start + utf8Len piece.text) fun piece hpiece => h piece (List.mem_cons_of_mem _ hpiece)⟩

/-- The mapping that is found for a byte puts it where its piece does. -/
theorem find_mappingsFrom {view : Text} {pieces : List Piece} {span : SourceSpan} {i : Nat}
    (start : Nat) (hfits : ∀ piece ∈ pieces, piece.Fits view)
    (h : (pieces.flatMap Piece.mapped)[i]? = some span) :
    ∃ mapping, (mappingsFrom start pieces).find? (CompiledFile.covers (start + i)) = some mapping ∧
      CompiledFile.mapOffset (start + i) false mapping = span.start ∧
      CompiledFile.mapOffset (start + i + 1) true mapping = span.stop := by
  induction pieces generalizing start i with
  | nil => cases h
  | cons piece pieces ih =>
    have hpos := Piece.utf8Len_pos (hfits piece (List.mem_cons_self ..)).nonempty
    rw [List.flatMap_cons] at h
    rw [mappingsFrom, List.find?_cons]
    by_cases hi : i < utf8Len piece.text
    · rw [List.getElem?_append_left (by rw [Piece.mapped_length]; exact hi),
        Piece.mapped_getElem? hi] at h
      cases h
      have hcovers : CompiledFile.covers (start + i)
          ⟨⟨start, start + utf8Len piece.text⟩, piece.original⟩ = true := by
        simp [CompiledFile.covers, hi]
      rw [hcovers]
      refine ⟨_, rfl, ?_⟩
      simp only [CompiledFile.mapOffset, Piece.mappedByte]
      rw [show SourceSpan.length ⟨start, start + utf8Len piece.text⟩ = utf8Len piece.text from
        Nat.add_sub_cancel_left ..]
      split
      · exact ⟨by dsimp only; omega, by dsimp only; omega⟩
      · exact ⟨rfl, rfl⟩
    · have hcovers : CompiledFile.covers (start + i)
          ⟨⟨start, start + utf8Len piece.text⟩, piece.original⟩ = false := by
        simp only [CompiledFile.covers, Bool.and_eq_false_iff, Bool.or_eq_false_iff,
          decide_eq_false_iff_not, beq_eq_false_iff_ne]
        exact .inr ⟨by omega, .inl (by omega)⟩
      rw [hcovers]
      rw [List.getElem?_append_right (by rw [Piece.mapped_length]; omega),
        Piece.mapped_length] at h
      have hrest := ih (start + utf8Len piece.text)
        (fun piece hpiece => hfits piece (List.mem_cons_of_mem _ hpiece)) h
      rwa [show start + utf8Len piece.text + (i - utf8Len piece.text) = start + i by omega] at hrest

/-! ## Builders -/

/-- What the parts of a builder have to do with each other; its pieces come from the bytes of the
view up to a limit, in their order. -/
structure Built (view : Text) (limit : Nat) (builder : CompilerSourceBuilder) : Prop where
  contents : builder.contents = builder.pieces.flatMap Piece.text
  mappings : builder.mappings = mappingsFrom 0 builder.pieces
  fits : ∀ piece ∈ builder.pieces, piece.Fits view
  ordered : Ordered limit 0 (builder.pieces.map Piece.original)

namespace Built

variable {view : Text} {limit : Nat} {builder : CompilerSourceBuilder}

theorem new : Built [] 0 .new where
  contents := rfl
  mappings := rfl
  fits := by
    intro piece hpiece
    cases hpiece
  ordered := le_rfl

section

variable (h : Built view limit builder)

include h

theorem mono {limit' : Nat} (hle : limit ≤ limit') : Built view limit' builder where
  contents := h.contents
  mappings := h.mappings
  fits := h.fits
  ordered := by
    have hordered : Ordered limit' 0 (builder.pieces.map Piece.original ++ []) :=
      h.ordered.append hle
    rwa [List.append_nil] at hordered

theorem extend (more : Text) : Built (view ++ more) limit builder where
  contents := h.contents
  mappings := h.mappings
  fits := fun piece hpiece =>
    { h.fits piece hpiece with reads := (h.fits piece hpiece).reads.mono more }
  ordered := h.ordered

theorem append {piece : Piece} {limit' : Nat} (hfits : piece.text ≠ [] → piece.Fits view)
    (hstart : limit ≤ piece.original.start) (hstop : piece.original.stop ≤ limit')
    (horder : piece.original.start ≤ piece.original.stop) :
    Built view limit' (builder.append piece) := by
  rw [CompilerSourceBuilder.append]
  split
  · exact h.mono (by omega)
  · rename_i hempty
    have hnonempty : piece.text ≠ [] := fun heq => hempty (by rw [heq]; rfl)
    exact {
      contents := by
        show _ = (builder.pieces ++ [piece]).flatMap Piece.text
        rw [List.flatMap_append, ← h.contents, List.flatMap_singleton]
      mappings := by
        show _ = mappingsFrom 0 (builder.pieces ++ [piece])
        rw [mappingsFrom_append, ← h.mappings, ← h.contents, Nat.zero_add]
        rfl
      fits := fun other hother => by
        rcases List.mem_append.1 hother with hother | hother
        · exact h.fits other hother
        · rw [List.mem_singleton.1 hother]
          exact hfits hnonempty
      ordered := by
        show Ordered limit' 0 ((builder.pieces ++ [piece]).map Piece.original)
        rw [List.map_append]
        exact h.ordered.append ⟨hstart, horder, hstop⟩ }

theorem reads : Reads view builder.contents builder.origins := by
  rw [h.contents, CompilerSourceBuilder.origins]
  have hfits := h.fits
  generalize builder.pieces = pieces at hfits
  induction pieces with
  | nil => exact .nil
  | cons piece pieces ih =>
    have hrest := ih fun other hother => hfits other (List.mem_cons_of_mem _ hother)
    exact (hfits piece (List.mem_cons_self ..)).reads.append hrest

theorem tiles : Tiles (utf8Len builder.contents) 0 builder.mappings := by
  have htiles := mappingsFrom_tiles 0 h.fits
  rwa [Nat.zero_add, ← h.contents, ← h.mappings] at htiles

/-- Where the map puts the bytes of the contents. -/
theorem mapped_ordered :
    (builder.pieces.flatMap Piece.mapped).Pairwise (fun a b => a.start ≤ b.stop) ∧
      ∀ span ∈ builder.pieces.flatMap Piece.mapped, span.start ≤ span.stop ∧ span.stop ≤ limit := by
  have hwithin : ∀ piece ∈ builder.pieces, ∀ span ∈ piece.mapped,
      piece.original.start ≤ span.start ∧ span.start ≤ span.stop ∧
        span.stop ≤ piece.original.stop := by
    intro piece hpiece span hspan
    obtain ⟨i, hi, rfl⟩ := List.mem_map.1 hspan
    exact Piece.mappedByte_within (List.mem_range.1 hi) (h.fits piece hpiece).order
  constructor
  · rw [List.pairwise_flatMap]
    refine ⟨fun piece hpiece => ?_, ?_⟩
    · -- Within a piece the spans are one behind the other or all the same.
      rw [Piece.mapped, List.pairwise_map]
      refine List.pairwise_lt_range.imp fun {i j} hij => ?_
      simp only [Piece.mappedByte]
      have horder := (h.fits piece hpiece).order
      split
      · dsimp only
        omega
      · exact horder
    · have hpairwise := List.pairwise_map.1 h.ordered.pairwise
      refine hpairwise.imp_of_mem fun {p q} hp hq hpq a ha b hb => ?_
      have hfirst := hwithin p hp a ha
      have hsecond := hwithin q hq b hb
      omega
  · intro span hspan
    obtain ⟨piece, hpiece, hspan⟩ := List.mem_flatMap.1 hspan
    have hmapped := hwithin piece hpiece span hspan
    have hlimit := h.ordered.within piece.original (List.mem_map_of_mem hpiece)
    exact ⟨hmapped.2.1, by omega⟩

/-- A map puts the bytes of the contents where they come from if and only if the lengths tell each
piece apart. -/
theorem mapped_eq_iff : builder.pieces.flatMap Piece.mapped = builder.origins.map Origin.span ↔
      ∀ piece ∈ builder.pieces, piece.Distinct := by
  rw [CompilerSourceBuilder.origins, List.map_flatMap]
  have hfits := h.fits
  generalize builder.pieces = pieces at hfits
  induction pieces with
  | nil => simp
  | cons piece pieces ih =>
    have hpiece := hfits piece (List.mem_cons_self ..)
    have hlength : piece.mapped.length = (piece.origins.map Origin.span).length := by
      rw [Piece.mapped_length, List.length_map, hpiece.reads.length]
    have hrest := ih fun other hother => hfits other (List.mem_cons_of_mem _ hother)
    rw [List.flatMap_cons, List.flatMap_cons,
      List.append_eq_append_iff_of_size_eq_left hlength, List.forall_mem_cons]
    exact and_congr (Piece.mapped_eq_iff hpiece) hrest

end

end Built

/-! ## Spans of the compiler source -/

/-- The map of an expanded file leads back to what its compiler source is made of. -/
structure MapsBack (view : Text) (origins : List Origin) (file : CompiledFile) : Prop where
  tiles : Tiles (utf8Len file.compilerText) 0 file.compilerSourceMap
  reads : Reads view file.compilerText origins
  inside : ∀ span : SourceSpan, span.start ≤ span.stop → span.stop ≤ utf8Len file.compilerText →
    (file.originalSpan span).start ≤ (file.originalSpan span).stop ∧
      (file.originalSpan span).stop ≤ utf8Len file.contents
  /-- The bytes from `i` to `j` are mapped to what lies between the begin of the origin of the first
  and the end of that of the last. -/
  exact : ∀ (i j : Nat) (first last : Origin), i ≤ j → origins[i]? = some first →
    origins[j]? = some last → file.originalSpan ⟨i, j + 1⟩ = ⟨first.span.start, last.span.stop⟩

section

variable {view original : Text} {builder : CompilerSourceBuilder}

theorem CompiledFile.mapCompilerOffset_of_find (file : CompiledFile) (offset : Nat) (stop : Bool)
    {mapping : SourceMapping}
    (hfind : file.compilerSourceMap.find?
      (covers (if stop && offset != 0 then offset - 1 else offset)) = some mapping)
    (hlength : mapOffset offset stop mapping ≤ utf8Len file.contents) :
    file.mapCompilerOffset offset stop = mapOffset offset stop mapping := by
  rw [mapCompilerOffset]
  simp only [hfind, Option.some_or]
  exact Nat.min_eq_left hlength

theorem CompiledFile.mapCompilerOffset_le (file : CompiledFile) (offset : Nat) (stop : Bool) :
    file.mapCompilerOffset offset stop ≤ utf8Len file.contents := by
  rw [mapCompilerOffset]
  split
  · exact Nat.min_le_right ..
  · exact Nat.min_le_right ..

/-- The span of two bytes of the contents, from where the map puts the first to where it puts the
last. -/
theorem Built.originalSpan_eq {file : CompiledFile}
    (h : Built view (utf8Len file.contents) builder)
    (hmap : file.compilerSourceMap = builder.mappings) {i j : Nat} {first last : SourceSpan}
    (hij : i ≤ j) (hfirst : (builder.pieces.flatMap Piece.mapped)[i]? = some first)
    (hlast : (builder.pieces.flatMap Piece.mapped)[j]? = some last) :
    file.originalSpan ⟨i, j + 1⟩ = ⟨first.start, last.stop⟩ := by
  obtain ⟨hpairwise, hwithin⟩ := h.mapped_ordered
  have horder : first.start ≤ last.stop := by
    rcases hij.lt_or_eq with hlt | rfl
    · obtain ⟨hi, rfl⟩ := List.getElem?_eq_some_iff.1 hfirst
      obtain ⟨hj, rfl⟩ := List.getElem?_eq_some_iff.1 hlast
      exact List.pairwise_iff_getElem.1 hpairwise i j hi hj hlt
    · rw [hfirst] at hlast
      cases hlast
      exact (hwithin first (List.mem_of_getElem? hfirst)).1
  have hlimit := (hwithin last (List.mem_of_getElem? hlast)).2
  obtain ⟨m, hm, hmStart, -⟩ := find_mappingsFrom 0 h.fits hfirst
  obtain ⟨m', hm', -, hmStop⟩ := find_mappingsFrom 0 h.fits hlast
  rw [Nat.zero_add, ← h.mappings, ← hmap] at hm hm'
  rw [Nat.zero_add] at hmStart hmStop
  have hstart : file.mapCompilerOffset i false = first.start := by
    rw [file.mapCompilerOffset_of_find i false hm (by rw [hmStart]; exact horder.trans hlimit),
      hmStart]
  have hstop : file.mapCompilerOffset (j + 1) true = last.stop := by
    rw [file.mapCompilerOffset_of_find (j + 1) true hm' (by rw [hmStop]; exact hlimit), hmStop]
  have hnonempty : file.compilerSourceMap.isEmpty = false := by
    rw [List.isEmpty_eq_false_iff_exists_mem]
    exact ⟨m, List.mem_of_find?_eq_some hm⟩
  rw [CompiledFile.originalSpan, hnonempty]
  simp only [hstart, hstop, Bool.false_eq_true, if_false]
  rw [Nat.min_eq_left horder, Nat.max_eq_right horder]

theorem Built.inside (h : Built view (utf8Len original) builder) (span : SourceSpan)
    (horder : span.start ≤ span.stop) (hstop : span.stop ≤ utf8Len builder.contents) :
    let mapped := CompiledFile.originalSpan ⟨original, some builder.contents, builder.mappings⟩ span
    mapped.start ≤ mapped.stop ∧ mapped.stop ≤ utf8Len original := by
  dsimp only
  rw [CompiledFile.originalSpan]
  split
  · -- Nothing has been appended, so the span is empty.
    rename_i hempty
    have hpieces : builder.pieces = [] := by
      have hmappings := h.mappings
      cases hcases : builder.pieces with
      | nil => rfl
      | cons piece pieces =>
        rw [hcases, mappingsFrom] at hmappings
        simp [hmappings] at hempty
    rw [h.contents, hpieces] at hstop
    have hzero : utf8Len (List.flatMap Piece.text []) = 0 := rfl
    exact ⟨horder, by omega⟩
  · exact ⟨min_le_max, max_le (CompiledFile.mapCompilerOffset_le _ _ _)
      (CompiledFile.mapCompilerOffset_le _ _ _)⟩

/-- The map of an expanded file leads back if and only if the lengths tell every piece apart. -/
theorem Built.mapsBack_iff (h : Built view (utf8Len original) builder)
    (hexpanded : builder.contents ≠ original) :
    MapsBack view builder.origins (builder.compiled original) ↔
      ∀ piece ∈ builder.pieces, piece.Distinct := by
  rw [CompilerSourceBuilder.compiled, if_neg hexpanded, ← h.mapped_eq_iff]
  have hlength : (builder.pieces.flatMap Piece.mapped).length = builder.origins.length := by
    rw [CompilerSourceBuilder.origins]
    simp only [List.length_flatMap, Piece.mapped_length]
    congr 1
    refine List.map_congr_left fun piece hpiece => ?_
    exact ((h.fits piece hpiece).reads.length).symm
  constructor
  · -- A span of one byte tells where the map puts that byte.
    intro hback
    refine List.ext_getElem (by rw [hlength, List.length_map]) fun i hi _ => ?_
    have hmapped := List.getElem?_eq_getElem hi
    have horigin := List.getElem?_eq_getElem (hlength ▸ hi)
    have hspan := hback.exact i i _ _ le_rfl horigin horigin
    rw [Built.originalSpan_eq h rfl le_rfl hmapped hmapped] at hspan
    rw [List.getElem_map]
    exact hspan
  · intro heq
    refine ⟨h.tiles, h.reads, h.inside, fun i j first last hij hfirst hlast => ?_⟩
    have hmapped : ∀ (k : Nat) (origin : Origin), builder.origins[k]? = some origin →
        (builder.pieces.flatMap Piece.mapped)[k]? = some origin.span := by
      intro k origin horigin
      rw [heq, List.getElem?_map, horigin, Option.map_some]
    exact Built.originalSpan_eq h rfl hij (hmapped i first hfirst) (hmapped j last hlast)

end

end Dream64.Preprocess
