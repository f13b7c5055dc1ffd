import Dream64.Vm.InterpolationFragments
import Dream64.Vm.TemplateReading

/-!
# Faithful interpolation

The template of an interpolated text is put together from decoded fragments and
scanned for brackets and markers again. The scan finds the items of the text
itself exactly if no fragment has a reserved character or spells out a pair of
brackets, and nothing stands in front of an empty hole.
-/

namespace Dream64

open Preprocess (isWhitespace)

/-! ## Scanning a template -/

theorem templateItemsFrom_eq (n : Nat) (template : List Char) :
    templateItemsFrom n template = templateItems (template.drop n) := by
  induction template generalizing n with
  | nil => simp [templateItems, templateItemsFrom]
  | cons c rest ih =>
    cases n with
    | zero => rfl
    | succ n => rw [templateItemsFrom, ih, List.drop_succ_cons]

variable {c : Char}

theorem templateItems_marker (hc : isTextFormatMarker c = true) (rest : List Char) :
    templateItems (c :: rest) = .token (.marker c) :: templateItems rest := by
  rw [templateItems, templateItemsFrom, if_pos hc]
  rfl

theorem templateItems_literal (hc : isTextFormatMarker c = false) (hopen : c ≠ '[')
    (rest : List Char) :
    templateItems (c :: rest) = .token (.literal c) :: templateItems rest := by
  rw [templateItems, templateItemsFrom, if_neg (Bool.eq_false_iff.1 hc), if_pos hopen]
  rfl

variable {width : Nat}

theorem templateItems_hole {rest : List Char} (h : holeWidth rest = some width) :
    templateItems ('[' :: rest) = .hole :: templateItems (rest.drop width) := by
  rw [templateItems, templateItemsFrom, if_neg (by decide), if_neg (by decide), h]
  exact congrArg (TemplateItem.hole :: ·) (templateItemsFrom_eq width rest)

theorem templateItems_open {rest : List Char} (h : holeWidth rest = none) :
    templateItems ('[' :: rest) = .token (.literal '[') :: templateItems rest := by
  rw [templateItems, templateItemsFrom, if_neg (by decide), if_neg (by decide), h]
  rfl

@[simp]
theorem holeWidth_nil : holeWidth [] = none := rfl

theorem holeWidth_cons (c : Char) (rest : List Char) : holeWidth (c :: rest) =
    if isWhitespace c = true then (holeWidth rest).map (· + 1)
    else if c = ']' then some 1 else none := by
  by_cases hc : isWhitespace c = true
  · rw [if_pos hc, holeWidth, List.takeWhile_cons_of_pos hc, holeWidth]
    simp only [List.length_cons, List.drop_succ_cons]
    split_ifs <;> rfl
  · rw [if_neg hc, holeWidth, List.takeWhile_cons_of_neg hc]
    simp

theorem holeWidth_le {l : List Char} (h : holeWidth l = some width) : width ≤ l.length := by
  induction l generalizing width with
  | nil => exact absurd h (by simp)
  | cons c l ih =>
    rw [holeWidth_cons] at h
    rw [List.length_cons]
    split_ifs at h with hwhite hclose
    · obtain ⟨inner, hinner, rfl⟩ := Option.map_eq_some_iff.1 h
      have := ih hinner
      omega
    · have := Option.some.inj h
      omega

theorem holeWidth_append_open (l back : List Char) :
    holeWidth (l ++ '[' :: back) = holeWidth l := by
  induction l with
  | nil => rfl
  | cons c l ih => rw [List.cons_append, holeWidth_cons, holeWidth_cons, ih]

/-- Whitespace, then a closing bracket. -/
theorem holeWidth_closed {whitespace : List Char} (h : ∀ c ∈ whitespace, isWhitespace c = true)
    (back : List Char) : holeWidth (whitespace ++ ']' :: back) = some (whitespace.length + 1) := by
  induction whitespace with
  | nil => rfl
  | cons c whitespace ih =>
    rw [List.cons_append, holeWidth_cons, if_pos (h c List.mem_cons_self),
      ih fun d hd => h d (List.mem_cons_of_mem _ hd)]
    rfl

/-- A pair of brackets that the compiler writes is a hole, whatever stands in front of it. -/
theorem templateItems_append_hole (front back : List Char) :
    templateItems (front ++ '[' :: ']' :: back) =
      templateItems front ++ .hole :: templateItems back := by
  induction hn : front.length using Nat.strong_induction_on generalizing front with
  | _ n ih =>
  cases front with
  | nil =>
    have hwidth : holeWidth (']' :: back) = some 1 := rfl
    exact templateItems_hole hwidth
  | cons c front =>
    rw [List.length_cons] at hn
    rw [List.cons_append]
    by_cases hmarker : isTextFormatMarker c = true
    · rw [templateItems_marker hmarker, templateItems_marker hmarker, ih front.length (by omega)
        front rfl, List.cons_append]
    · rw [Bool.not_eq_true] at hmarker
      by_cases hc : c = '['
      · rw [hc]
        cases hwidth : holeWidth front with
        | none =>
          rw [templateItems_open hwidth,
            templateItems_open ((holeWidth_append_open front _).trans hwidth),
            ih front.length (by omega) front rfl, List.cons_append]
        | some width =>
          have hle := holeWidth_le hwidth
          rw [templateItems_hole hwidth,
            templateItems_hole ((holeWidth_append_open front _).trans hwidth),
            List.drop_append_of_le_length hle,
            ih (front.drop width).length (by rw [List.length_drop]; omega) _ rfl,
            List.cons_append]
      · rw [templateItems_literal hmarker hc, templateItems_literal hmarker hc,
          ih front.length (by omega) front rfl, List.cons_append]

variable {template : List Char}

/-- A character that is read as itself is there, and is no marker. -/
theorem literal_mem_templateItems (h : .token (.literal c) ∈ templateItems template) :
    c ∈ template ∧ isTextFormatMarker c = false := by
  induction hn : template.length using Nat.strong_induction_on generalizing template with
  | _ n ih =>
  cases template with
  | nil => exact absurd h List.not_mem_nil
  | cons d rest =>
    rw [List.length_cons] at hn
    have hrest : ∀ back : List Char, back.length < n → (∀ e ∈ back, e ∈ rest) →
        TemplateItem.token (.literal c) ∈ templateItems back →
        c ∈ d :: rest ∧ isTextFormatMarker c = false := by
      intro back hlt hsub hmem
      obtain ⟨hin, hmarker⟩ := ih back.length hlt hmem rfl
      exact ⟨List.mem_cons_of_mem _ (hsub c hin), hmarker⟩
    by_cases hmarker : isTextFormatMarker d = true
    · rw [templateItems_marker hmarker] at h
      have hmem := (List.mem_cons.1 h).resolve_left (by simp)
      exact hrest rest (by omega) (fun e he => he) hmem
    · rw [Bool.not_eq_true] at hmarker
      by_cases hd : d = '['
      · rw [hd] at h
        cases hwidth : holeWidth rest with
        | none =>
          rw [templateItems_open hwidth] at h
          rcases List.mem_cons.1 h with heq | hmem
          · have hc : c = d := by simpa [hd] using heq
            exact ⟨hc ▸ List.mem_cons_self, hc ▸ hmarker⟩
          · exact hrest rest (by omega) (fun e he => he) hmem
        | some width =>
          rw [templateItems_hole hwidth] at h
          have hmem := (List.mem_cons.1 h).resolve_left (by simp)
          have hlength : (rest.drop width).length ≤ rest.length := by
            rw [List.length_drop]
            omega
          exact hrest _ (by omega) (fun e he => List.mem_of_mem_drop he) hmem
      · rw [templateItems_literal hmarker hd] at h
        rcases List.mem_cons.1 h with heq | hmem
        · have hc : c = d := by simpa using heq
          exact ⟨hc ▸ List.mem_cons_self, hc ▸ hmarker⟩
        · exact hrest rest (by omega) (fun e he => he) hmem

/-! ## Scanning a fragment -/

/-- Brackets with nothing but whitespace between them. -/
def BracketPair (tokens : List TextToken) : Prop :=
  ∃ before whitespace after, tokens = before ++ .literal '[' ::
    (List.map .literal whitespace ++ .literal ']' :: after) ∧
    ∀ c ∈ whitespace, isWhitespace c = true

theorem BracketPair.cons {tokens : List TextToken} (h : BracketPair tokens) (token : TextToken) :
    BracketPair (token :: tokens) := by
  obtain ⟨before, whitespace, after, rfl, hwhite⟩ := h
  exact ⟨token :: before, whitespace, after, rfl, hwhite⟩

/-- Tokens whose markers are markers, and whose other characters are not. -/
structure Marked (tokens : List TextToken) : Prop where
  markers : ∀ m, .marker m ∈ tokens → isTextFormatMarker m = true
  literals : ∀ c, .literal c ∈ tokens → isTextFormatMarker c = false

variable {tokens : List TextToken}

theorem Marked.of_cons {token : TextToken} (h : Marked (token :: tokens)) : Marked tokens :=
  ⟨fun m hm => h.markers m (List.mem_cons_of_mem _ hm),
    fun c hc => h.literals c (List.mem_cons_of_mem _ hc)⟩

theorem isWhitespace_of_marker {m : Char} (h : isTextFormatMarker m = true) :
    isWhitespace m = false ∧ m ≠ ']' := by
  obtain ⟨-, -, -, hwhite, -, hclose, -⟩ := reserved_spec (mem_reserved_of_marker h)
  exact ⟨hwhite, hclose⟩

/-- The hole of a bracket is a pair of brackets of the fragment. -/
theorem tokens_of_holeWidth (hmarked : Marked tokens)
    (h : holeWidth (tokens.map TextToken.character) = some width) :
    ∃ whitespace after, tokens = List.map .literal whitespace ++ .literal ']' :: after ∧
      ∀ c ∈ whitespace, isWhitespace c = true := by
  induction tokens generalizing width with
  | nil => exact absurd h (by simp)
  | cons token tokens ih =>
    rw [List.map_cons, holeWidth_cons] at h
    cases token with
    | marker m =>
      obtain ⟨hwhite, hclose⟩ := isWhitespace_of_marker (hmarked.markers m List.mem_cons_self)
      rw [TextToken.character, if_neg (by rw [hwhite]; decide), if_neg hclose] at h
      exact absurd h (by simp)
    | literal c =>
      split_ifs at h with hwhite hclose
      · obtain ⟨inner, hinner, -⟩ := Option.map_eq_some_iff.1 h
        obtain ⟨whitespace, after, rfl, hall⟩ := ih hmarked.of_cons hinner
        refine ⟨c :: whitespace, after, rfl, fun d hd => ?_⟩
        rcases List.mem_cons.1 hd with rfl | hmem
        · exact hwhite
        · exact hall d hmem
      · have hc : c = ']' := hclose
        exact ⟨[], tokens, by rw [hc]; rfl, fun d hd => absurd hd List.not_mem_nil⟩

theorem templateItems_tokens (hmarked : Marked tokens) (hpair : ¬ BracketPair tokens) :
    templateItems (tokens.map TextToken.character) = tokens.map .token := by
  induction tokens with
  | nil => rfl
  | cons token tokens ih =>
    have hrest := ih hmarked.of_cons fun h => hpair (h.cons token)
    rw [List.map_cons, List.map_cons, ← hrest]
    cases token with
    | marker m => exact templateItems_marker (hmarked.markers m List.mem_cons_self) _
    | literal c =>
      have hmarker := hmarked.literals c List.mem_cons_self
      by_cases hc : c = '['
      · rw [hc]
        refine templateItems_open ?_
        cases hwidth : holeWidth (tokens.map TextToken.character) with
        | none => rfl
        | some width =>
          obtain ⟨whitespace, after, rfl, hall⟩ := tokens_of_holeWidth hmarked.of_cons hwidth
          exact absurd ⟨[], whitespace, after, by rw [hc]; rfl, hall⟩ hpair
      · exact templateItems_literal hmarker hc _

theorem holeWidth_of_no_hole {front back : List Char} (h : .hole ∉ templateItems template) (heq : template = front ++ '[' :: back) :
    holeWidth back = none := by
  induction template generalizing front with
  | nil => exact absurd heq (by simp)
  | cons c rest ih =>
    have hrest : .hole ∉ templateItems rest ∧ (c = '[' → holeWidth rest = none) := by
      by_cases hmarker : isTextFormatMarker c = true
      · rw [templateItems_marker hmarker] at h
        refine ⟨fun hmem => h (List.mem_cons_of_mem _ hmem), fun hc => ?_⟩
        rw [hc] at hmarker
        exact absurd hmarker (by decide)
      · rw [Bool.not_eq_true] at hmarker
        by_cases hc : c = '['
        · rw [hc] at h
          cases hwidth : holeWidth rest with
          | none =>
            rw [templateItems_open hwidth] at h
            exact ⟨fun hmem => h (List.mem_cons_of_mem _ hmem), fun _ => rfl⟩
          | some width =>
            rw [templateItems_hole hwidth] at h
            exact absurd List.mem_cons_self h
        · rw [templateItems_literal hmarker hc] at h
          exact ⟨fun hmem => h (List.mem_cons_of_mem _ hmem), fun hopen => absurd hopen hc⟩
    cases front with
    | nil =>
      obtain ⟨rfl, rfl⟩ := List.cons.inj heq
      exact hrest.2 rfl
    | cons d front => exact ih hrest.1 (List.cons.inj heq).2

theorem not_bracketPair_of_no_hole (h : .hole ∉ templateItems (tokens.map TextToken.character)) :
    ¬ BracketPair tokens := by
  rintro ⟨before, whitespace, after, rfl, hwhite⟩
  have hcharacters : (whitespace.map TextToken.literal).map TextToken.character = whitespace := by
    rw [List.map_map]
    exact List.map_id whitespace
  rw [List.map_append, List.map_cons, List.map_append, List.map_cons, hcharacters] at h
  have hnone := holeWidth_of_no_hole h rfl
  have hclosed := holeWidth_closed hwhite (after.map TextToken.character)
  exact absurd (hnone.symm.trans hclosed) (by simp)

/-! ## The template of the compiler -/

variable {E : Type}

/-- The decoded fragment as the compiler puts it into the template. -/
def fragmentTemplate (fragment : List Atom) : List Char :=
  literalText (fragment.map Atom.protectedCharacter)

def pieceTemplate (piece : List Atom × List Atom) : List Char :=
  if isBlank (holeText piece.2) then [] else fragmentTemplate piece.1 ++ "[]".toList

def protectedPiece (piece : List Atom × List Atom) : List Char × List Char :=
  (piece.1.map Atom.protectedCharacter, holeText piece.2)

def embeddedIn (pieces : List (List Atom × List Atom)) : List (List Char) :=
  (pieces.map fun piece => holeText piece.2).filter fun hole => !isBlank hole

theorem interpolate_eq_ok {parse : List Char → Except String E}
    {pieces : List (List Atom × List Atom)} {interpolations : List E}
    (h : interpolate parse (pieces.map protectedPiece) = .ok (template, interpolations)) :
    template = pieces.flatMap pieceTemplate ∧
      List.Forall₂ (fun hole expression => parse hole = .ok expression) (embeddedIn pieces)
        interpolations := by
  induction pieces generalizing template interpolations with
  | nil =>
    cases h
    exact ⟨rfl, .nil⟩
  | cons piece pieces ih =>
    rw [List.map_cons, protectedPiece, interpolate] at h
    by_cases hblank : isBlank (holeText piece.2) = true
    · rw [if_pos hblank] at h
      obtain ⟨rfl, hexpressions⟩ := ih h
      refine ⟨?_, ?_⟩
      · rw [List.flatMap_cons, pieceTemplate, if_pos hblank, List.nil_append]
      · rw [embeddedIn, List.map_cons, List.filter_cons_of_neg (by rw [hblank]; decide)]
        exact hexpressions
    · rw [if_neg hblank] at h
      cases hparse : parse (holeText piece.2) with
      | error e =>
        rw [hparse] at h
        cases h
      | ok expression =>
        cases hbehind : interpolate parse (pieces.map protectedPiece) with
        | error e =>
          rw [hparse, hbehind] at h
          cases h
        | ok behind =>
          rw [hparse, hbehind] at h
          obtain ⟨hbehindTemplate, hexpressions⟩ := ih hbehind
          cases h
          refine ⟨?_, ?_⟩
          · rw [List.flatMap_cons, pieceTemplate, if_neg hblank, ← hbehindTemplate]
            rfl
          · rw [embeddedIn, List.map_cons, List.filter_cons_of_pos (by simp [hblank])]
            exact .cons hparse hexpressions

variable {text : List Char}

theorem parseInterpolatedString_eq_template {parse : List Char → Except String E}
    {interpolations : List E}
    (h : parseInterpolatedString parse text = .ok (.template template interpolations)) :
    template = (pieces text).1.flatMap pieceTemplate ++ fragmentTemplate (pieces text).2 ∧
      List.Forall₂ (fun hole expression => parse hole = .ok expression) (embeddedTexts text)
        interpolations := by
  have hcut : cutAt (holeSpans (protectBrackets text)) (protectBrackets text) =
      ((pieces text).1.map protectedPiece, (pieces text).2.map Atom.protectedCharacter) := by
    rw [pieces, protectBrackets_eq, cutAt_map]
    rfl
  rw [parseInterpolatedString, hcut] at h
  cases hinterpolate : interpolate parse ((pieces text).1.map protectedPiece) with
  | error e =>
    rw [hinterpolate] at h
    cases h
  | ok interpolated =>
    obtain ⟨hpieces, hexpressions⟩ := interpolate_eq_ok hinterpolate
    rw [hinterpolate] at h
    change (if interpolated.2.isEmpty then _ else _) = _ at h
    split_ifs at h with hempty
    · cases h
    · cases h
      exact ⟨by rw [hpieces]; rfl, hexpressions⟩

/-- What the scan finds of a piece. -/
def scannedPiece (piece : List Atom × List Atom) : List TemplateItem :=
  if isBlank (holeText piece.2) then []
  else templateItems (fragmentTemplate piece.1) ++ [.hole]

theorem templateItems_flatMap (pieces : List (List Atom × List Atom)) (tail : List Char) :
    templateItems (pieces.flatMap pieceTemplate ++ tail) =
      pieces.flatMap scannedPiece ++ templateItems tail := by
  induction pieces with
  | nil => rfl
  | cons piece pieces ih =>
    rw [List.flatMap_cons, List.flatMap_cons, pieceTemplate, scannedPiece]
    split_ifs with hblank
    · exact ih
    · have hscan := templateItems_append_hole (fragmentTemplate piece.1)
        (pieces.flatMap pieceTemplate ++ tail)
      rw [ih] at hscan
      rw [List.append_assoc, List.append_assoc, List.append_assoc, List.append_assoc]
      exact hscan

theorem fragmentTemplate_eq (fragment : List Atom) : fragmentTemplate fragment =
    (decodedTokens (restored fragment)).map TextToken.character := rfl

/-- A character that protects a bracket is not in any template. -/
theorem not_mem_fragmentTemplate (hc : c = escapedOpen ∨ c = escapedClose) (fragment : List Atom) :
    c ∉ fragmentTemplate fragment := by
  intro hmem
  have hreserved : c ∈ reservedCharacters := by
    rcases hc with rfl | rfl
    · exact List.mem_cons_self
    · exact List.mem_cons_of_mem _ List.mem_cons_self
  have hmarker : isTextFormatMarker c = false := by
    rcases hc with rfl | rfl
    · rfl
    · rfl
  rw [fragmentTemplate_eq] at hmem
  obtain ⟨token, htoken, rfl⟩ := List.mem_map.1 hmem
  have hfrom := decodedTokens_from _ token htoken
  cases token with
  | marker m => exact absurd (hfrom : isTextFormatMarker m = true) (Bool.eq_false_iff.1 hmarker)
  | literal d =>
    obtain ⟨e, -, he⟩ := List.mem_map.1 ((hfrom : d ∈ reservedCharacters → _) hreserved)
    have hd : restoreBracket e = escapedOpen ∨ restoreBracket e = escapedClose := he ▸ hc
    unfold restoreBracket at hd
    split_ifs at hd with hopen hclose
    · exact absurd hd (by decide)
    · exact absurd hd (by decide)
    · exact hd.elim hopen hclose

/-! ## Agreement piece by piece -/

/-- Two lists of lists that agree in a sum of measures agree in each. -/
theorem measures_eq {α β : Type} {measure : List β → Nat} {f g : α → List β} {pieces : List α}
    {tail tail' : List β} (happend : ∀ x y, measure (x ++ y) = measure x + measure y)
    (hle : ∀ piece ∈ pieces, measure (f piece) ≤ measure (g piece))
    (htail : measure tail ≤ measure tail')
    (heq : measure (pieces.flatMap f ++ tail) = measure (pieces.flatMap g ++ tail')) :
    (∀ piece ∈ pieces, measure (f piece) = measure (g piece)) ∧ measure tail = measure tail' := by
  have htotal : ∀ pieces : List α, (∀ piece ∈ pieces, measure (f piece) ≤ measure (g piece)) →
      measure (pieces.flatMap f) ≤ measure (pieces.flatMap g) := by
    intro pieces hle
    induction pieces with
    | nil => exact le_rfl
    | cons piece pieces ih =>
      rw [List.flatMap_cons, List.flatMap_cons, happend, happend]
      exact Nat.add_le_add (hle piece List.mem_cons_self)
        (ih fun other hother => hle other (List.mem_cons_of_mem _ hother))
  induction pieces with
  | nil => exact ⟨fun piece h => absurd h List.not_mem_nil, heq⟩
  | cons piece pieces ih =>
    have hrest : ∀ other ∈ pieces, measure (f other) ≤ measure (g other) :=
      fun other hother => hle other (List.mem_cons_of_mem _ hother)
    have hpiece := hle piece List.mem_cons_self
    have hsum := htotal pieces hrest
    rw [List.flatMap_cons, List.flatMap_cons, List.append_assoc, List.append_assoc,
      happend (f piece), happend (g piece)] at heq
    have hbehind := heq
    rw [happend (pieces.flatMap f), happend (pieces.flatMap g)] at hbehind
    obtain ⟨hpieces, htails⟩ := ih hrest (by omega)
    refine ⟨fun other hother => ?_, htails⟩
    rcases List.mem_cons.1 hother with rfl | hmem
    · omega
    · exact hpieces other hmem

/-- No reserved characters, and no brackets that read as a hole. -/
structure Clean (fragment : List Atom) : Prop where
  unreserved : ∀ c ∈ sourceOf fragment, c ∉ reservedCharacters
  unpaired : ¬ BracketPair (fragmentTokens fragment)

variable {fragment : List Atom}

theorem mem_sourceOf (h : .plain c ∈ fragment) : c ∈ sourceOf fragment :=
  List.mem_flatMap.2 ⟨.plain c, h, List.mem_singleton.2 rfl⟩

theorem unprotected_of_unreserved (h : ∀ c ∈ sourceOf fragment, c ∉ reservedCharacters) :
    Unprotected fragment := by
  intro c hc
  have hreserved := h c (mem_sourceOf hc)
  refine ⟨fun heq => hreserved ?_, fun heq => hreserved ?_⟩
  · rw [heq]
    exact List.mem_cons_self
  · rw [heq]
    exact List.mem_cons_of_mem _ List.mem_cons_self

theorem marked_of_unreserved (h : ∀ c ∈ sourceOf fragment, c ∉ reservedCharacters) :
    Marked (fragmentTokens fragment) := by
  refine ⟨fun m hm => decodedTokens_from _ _ hm, fun c hc => ?_⟩
  cases hmarker : isTextFormatMarker c with
  | false => rfl
  | true =>
    have hreserved := mem_reserved_of_marker hmarker
    have hfrom : c ∈ reservedCharacters → c ∈ sourceOf fragment := decodedTokens_from _ _ hc
    exact absurd hreserved (h c (hfrom hreserved))

/-- An unreserved fragment is in the template as it decodes. -/
theorem fragmentTemplate_of_unreserved (ha : Aligned fragment)
    (h : ∀ c ∈ sourceOf fragment, c ∉ reservedCharacters) :
    fragmentTemplate fragment = (fragmentTokens fragment).map TextToken.character := by
  rw [fragmentTemplate_eq, decodedTokens_restored ha (unprotected_of_unreserved h)]

theorem Clean.scan (h : Clean fragment) (ha : Aligned fragment) :
    templateItems (fragmentTemplate fragment) = fragmentItems fragment := by
  rw [fragmentTemplate_of_unreserved ha h.unreserved,
    templateItems_tokens (marked_of_unreserved h.unreserved) h.unpaired]
  rfl

theorem count_fragmentItems (fragment : List Atom) : (fragmentItems fragment).count .hole = 0 := by
  refine List.count_eq_zero_of_not_mem fun hmem => ?_
  obtain ⟨token, -, heq⟩ := List.mem_map.1 hmem
  exact absurd heq (by simp)

theorem nil_of_fragmentItems (h : fragmentItems fragment = []) : fragment = [] := by
  cases fragment with
  | nil => rfl
  | cons a rest =>
    have hsource : sourceOf (a :: rest) ≠ [] := by
      cases a <;> exact List.cons_ne_nil _ _
    exact absurd (List.map_eq_nil_iff.1 h) (decodedTokens_ne_nil hsource)

/-! ## Faithful templates -/

variable {σ Target : Type}

/-- Clean fragments, and nothing in front of an empty hole. -/
structure Scannable (text : List Char) : Prop where
  clean : ∀ fragment ∈ fragments text, Clean fragment
  kept : ∀ piece ∈ (pieces text).1, isBlank (holeText piece.2) = true → piece.1 = []

theorem mem_fragments_of_piece {piece : List Atom × List Atom} (h : piece ∈ (pieces text).1) :
    piece.1 ∈ fragments text :=
  List.mem_append_left _ (List.mem_map_of_mem h)

theorem rest_mem_fragments (text : List Char) : (pieces text).2 ∈ fragments text :=
  List.mem_append_right _ List.mem_cons_self

/-- The template that the compiler makes of a text. -/
def compiledTemplate (text : List Char) : List Char :=
  (pieces text).1.flatMap pieceTemplate ++ fragmentTemplate (pieces text).2

theorem scan_of_scannable (h : Scannable text) :
    templateItems (compiledTemplate text) = literalItems text := by
  rw [compiledTemplate, templateItems_flatMap, literalItems]
  have hrest := rest_mem_fragments text
  rw [(h.clean _ hrest).scan (aligned_of_mem hrest)]
  congr 1
  refine List.flatMap_congr fun piece hpiece => ?_
  have hmem := mem_fragments_of_piece hpiece
  rw [scannedPiece, pieceItems, holeItems]
  split_ifs with hblank
  · rw [h.kept piece hpiece hblank]
    rfl
  · rw [(h.clean _ hmem).scan (aligned_of_mem hmem)]

theorem unreserved_of_scan (h : templateItems (compiledTemplate text) = literalItems text) :
    ∀ fragment ∈ fragments text, ∀ c ∈ sourceOf fragment, c ∉ reservedCharacters := by
  intro fragment hfragment c hc hreserved
  have htoken := literal_mem_decodedTokens hreserved hc
  have hitem : .token (.literal c) ∈ literalItems text := by
    rw [literalItems, List.mem_append]
    rcases List.mem_append.1 hfragment with hmem | hmem
    · left
      obtain ⟨piece, hpiece, rfl⟩ := List.mem_map.1 hmem
      exact List.mem_flatMap.2 ⟨piece, hpiece, List.mem_append_left _ (List.mem_map_of_mem htoken)⟩
    · right
      rw [← List.mem_singleton.1 hmem]
      exact List.mem_map_of_mem htoken
  rw [← h] at hitem
  obtain ⟨hin, hmarker⟩ := literal_mem_templateItems hitem
  have hprotecting : c = escapedOpen ∨ c = escapedClose := by
    rcases List.mem_cons.1 hreserved with heq | htail
    · exact .inl heq
    · rcases List.mem_cons.1 htail with heq | hmarkers
      · exact .inr heq
      · exact absurd (List.elem_iff.2 hmarkers) (Bool.eq_false_iff.1 hmarker)
  rcases List.mem_append.1 hin with hmem | hmem
  · obtain ⟨piece, -, hpiece⟩ := List.mem_flatMap.1 hmem
    rw [pieceTemplate] at hpiece
    split_ifs at hpiece with hblank
    · exact absurd hpiece List.not_mem_nil
    · rcases List.mem_append.1 hpiece with hfront | hpair
      · exact not_mem_fragmentTemplate hprotecting _ hfront
      · rcases hprotecting with rfl | rfl
        · exact absurd hpair (by decide)
        · exact absurd hpair (by decide)
  · exact not_mem_fragmentTemplate hprotecting _ hmem

theorem scannable_of_scan (h : templateItems (compiledTemplate text) = literalItems text) :
    Scannable text := by
  have hunreserved := unreserved_of_scan h
  have hscan := h
  rw [compiledTemplate, templateItems_flatMap, literalItems] at hscan
  -- No fragment in the template adds a hole to those of the text.
  have hholes := congrArg (List.count TemplateItem.hole) hscan.symm
  obtain ⟨hpieceHoles, hrestHoles⟩ := measures_eq (fun x y => List.count_append) (by
    intro piece _
    rw [pieceItems, scannedPiece, List.count_append, count_fragmentItems, holeItems]
    split_ifs with hblank
    · exact le_rfl
    · rw [List.count_append]
      omega) (by rw [count_fragmentItems]; exact Nat.zero_le _) hholes
  have hunpaired : ∀ fragment, fragment ∈ fragments text →
      (templateItems (fragmentTemplate fragment)).count .hole = 0 →
      ¬ BracketPair (fragmentTokens fragment) := by
    intro fragment hfragment hcount
    rw [fragmentTemplate_of_unreserved (aligned_of_mem hfragment)
      (hunreserved fragment hfragment)] at hcount
    exact not_bracketPair_of_no_hole (List.count_eq_zero.1 hcount)
  have hclean : ∀ piece ∈ (pieces text).1, isBlank (holeText piece.2) ≠ true → Clean piece.1 := by
    intro piece hpiece hblank
    have hmem := mem_fragments_of_piece hpiece
    have hcount := hpieceHoles piece hpiece
    rw [pieceItems, scannedPiece, List.count_append, count_fragmentItems, holeItems,
      if_neg hblank, if_neg hblank, List.count_append] at hcount
    exact ⟨hunreserved _ hmem, hunpaired _ hmem (by omega)⟩
  have hrest : Clean (pieces text).2 := by
    rw [count_fragmentItems] at hrestHoles
    exact ⟨hunreserved _ (rest_mem_fragments text),
      hunpaired _ (rest_mem_fragments text) hrestHoles.symm⟩
  -- So what is scanned is as long as the text only if nothing is dropped.
  have hlengths := congrArg List.length hscan
  obtain ⟨hpieceLengths, -⟩ := measures_eq (fun x y => List.length_append) (by
    intro piece hpiece
    rw [pieceItems, scannedPiece, holeItems]
    split_ifs with hblank
    · exact Nat.zero_le _
    · rw [(hclean piece hpiece hblank).scan (aligned_of_mem (mem_fragments_of_piece hpiece))])
    (by rw [hrest.scan (aligned_of_mem (rest_mem_fragments text))]) hlengths
  have hkept : ∀ piece ∈ (pieces text).1, isBlank (holeText piece.2) = true → piece.1 = [] := by
    intro piece hpiece hblank
    have hlength := hpieceLengths piece hpiece
    rw [pieceItems, scannedPiece, holeItems, if_pos hblank, if_pos hblank, List.append_nil] at hlength
    exact nil_of_fragmentItems (List.eq_nil_of_length_eq_zero hlength.symm)
  refine ⟨fun fragment hfragment => ?_, hkept⟩
  rcases List.mem_append.1 hfragment with hmem | hmem
  · obtain ⟨piece, hpiece, rfl⟩ := List.mem_map.1 hmem
    by_cases hblank : isBlank (holeText piece.2) = true
    · rw [hkept piece hpiece hblank]
      refine ⟨fun c hc => absurd hc List.not_mem_nil, ?_⟩
      rintro ⟨before, whitespace, after, heq, -⟩
      exact absurd heq (by simp [fragmentTokens, sourceOf])
    · exact hclean piece hpiece hblank
  · rw [List.mem_singleton.1 hmem]
    exact hrest

variable (host : TemplateHost σ Target) (state : σ)

/--
The template of a text is faithful: the formatter finds the decoded fragments and
one hole for every embedded expression, the expressions are those of the holes in
order, and whatever their values are, formatting gives the reading of the text.
-/
structure Faithful (parse : List Char → Except String E) (text template : List Char)
    (interpolations : List E) : Prop where
  items : templateItems template = literalItems text
  expressions : List.Forall₂ (fun hole expression => parse hole = .ok expression)
    (embeddedTexts text) interpolations
  reading : ∀ values : List Value, values.length = interpolations.length →
    textTemplate host state (.ofChars template :: values) = literalReading host state text values
  plain : (∀ m, .token (.marker m) ∉ literalItems text) → ∀ (values : List Value) texts,
    values.length = interpolations.length →
    List.Forall₂ (fun value text => textMacroVisible host state value = .value text) values texts →
    textTemplate host state (.ofChars template :: values) =
      .value (concatenation (literalItems text) texts)

/-- Scannable, and no ordinal behind a character that stands behind its value. -/
structure Unambiguous (text : List Char) : Prop extends Scannable text where
  ordinals : OrdinalsFollow false false (literalItems text)

theorem count_literalItems (text : List Char) :
    (literalItems text).count .hole = (embeddedTexts text).length := by
  rw [literalItems, List.count_append, count_fragmentItems, embeddedTexts, Nat.add_zero]
  generalize (pieces text).1 = pieces
  induction pieces with
  | nil => rfl
  | cons piece pieces ih =>
    rw [List.flatMap_cons, List.count_append, ih, List.map_cons, pieceItems, List.count_append,
      count_fragmentItems, holeItems]
    by_cases hblank : isBlank (holeText piece.2) = true
    · rw [if_pos hblank, List.filter_cons_of_neg (by simp [hblank])]
      exact Nat.zero_add _
    · rw [if_neg hblank, List.filter_cons_of_pos (by simp [hblank]), List.length_cons,
        Nat.add_comm]
      rfl

/--
An interpolated text with embedded expressions is faithful exactly if it is
unambiguous: no fragment has a reserved private character, spells a pair of
brackets, or stands in front of an empty hole, and every ordinal follows its value
with no character of a fragment between them.
-/
theorem interpolation_faithful_iff {parse : List Char → Except String E}
    {text template : List Char} {interpolations : List E}
    (h : parseInterpolatedString parse text = .ok (.template template interpolations)) :
    Faithful host state parse text template interpolations ↔ Unambiguous text := by
  obtain ⟨htemplate, hexpressions⟩ := parseInterpolatedString_eq_template h
  have hlength : interpolations.length = (literalItems text).count .hole := by
    rw [count_literalItems, hexpressions.length_eq]
  constructor
  · intro hfaithful
    have hscan := hfaithful.items
    rw [htemplate] at hscan
    refine ⟨scannable_of_scan hscan, ?_⟩
    refine follow_of_readings host state hfaithful.items fun values hvalues => ?_
    exact hfaithful.reading values (hvalues.trans hlength.symm)
  · intro hunambiguous
    have hitems : templateItems template = literalItems text := by
      rw [htemplate]
      exact scan_of_scannable hunambiguous.toScannable
    have hreading (values : List Value) (hvalues : values.length = interpolations.length) :=
      textTemplate_of_follow host state hitems (hvalues.trans hlength) hunambiguous.ordinals
    refine ⟨hitems, hexpressions, hreading, fun hplain values texts hvalues htexts => ?_⟩
    exact (hreading values hvalues).trans
      (readItems_eq_concatenation host state hplain (hvalues.trans hlength).symm htexts)

/-- A host without datums. -/
def plainTemplateHost : TemplateHost Unit Unit where
  texts := plainHost
  datumFieldOrInitial := fun _ _ _ => .error "stale datum handle"
  isUppercase := Char.isUpper

/-- Embedded expressions that are names. -/
def parseName (hole : List Char) : Except String String := .ok (String.ofList hole)

def greeting : List Char := "\\the [name] is the [place]\\th \\[of [n]\\]".toList

theorem greeting_faithful : Faithful plainTemplateHost () parseName greeting
    ([textMacroThe] ++ "[] is the []".toList ++ [textMacroOrdinal] ++ " [of []]".toList)
    ["name", "place", "n"] := by
  have hparse : parseInterpolatedString parseName greeting = .ok (.template
      ([textMacroThe] ++ "[] is the []".toList ++ [textMacroOrdinal] ++ " [of []]".toList)
      ["name", "place", "n"]) := rfl
  have hclean : ((fragments greeting).all fun fragment =>
      ((sourceOf fragment).all fun c => !reservedCharacters.elem c) &&
        !(templateItems ((fragmentTokens fragment).map TextToken.character)).elem .hole) = true :=
    rfl
  have hkept : ((pieces greeting).1.all fun piece => !isBlank (holeText piece.2)) = true := rfl
  refine (interpolation_faithful_iff plainTemplateHost () hparse).2
    ⟨⟨fun fragment hfragment => ?_, fun piece hpiece hblank => ?_⟩, by decide⟩
  · have h := List.all_eq_true.1 hclean fragment hfragment
    rw [Bool.and_eq_true, List.all_eq_true, Bool.not_eq_true'] at h
    refine ⟨fun c hc hreserved => ?_, not_bracketPair_of_no_hole fun hmem => ?_⟩
    · have hunreserved := h.1 c hc
      rw [List.elem_iff.2 hreserved] at hunreserved
      exact absurd hunreserved (by decide)
    · rw [List.elem_iff.2 hmem] at h
      exact absurd h.2 (by decide)
  · have h := List.all_eq_true.1 hkept piece hpiece
    rw [hblank] at h
    exact absurd h (by decide)

/-- Escaped brackets are taken as a hole, and what stands in front of an empty hole is dropped. -/
theorem brackets_not_faithful :
    (∃ template interpolations,
      parseInterpolatedString parseName "\\[\\][name]".toList =
        .ok (.template template interpolations) ∧
      ¬ Faithful plainTemplateHost () parseName "\\[\\][name]".toList template interpolations) ∧
    ∃ template interpolations,
      parseInterpolatedString parseName "a[]b[name]".toList =
        .ok (.template template interpolations) ∧
      ¬ Faithful plainTemplateHost () parseName "a[]b[name]".toList template interpolations := by
  refine ⟨⟨"[][]".toList, ["name"], rfl, fun h => ?_⟩, "b[]".toList, ["name"], rfl, fun h => ?_⟩
  · have hreading := h.reading [.text "Bob"] rfl
    have hwritten : textTemplate plainTemplateHost () [.ofChars "[][]".toList, .text "Bob"] =
        .error "text() has fewer arguments than template holes" := rfl
    have hread : literalReading plainTemplateHost () "\\[\\][name]".toList [.text "Bob"] =
        .value "[]Bob".toList := rfl
    rw [hwritten, hread] at hreading
    cases hreading
  · have hreading := h.reading [.text "Bob"] rfl
    have hwritten : textTemplate plainTemplateHost () [.ofChars "b[]".toList, .text "Bob"] =
        .value "bBob".toList := rfl
    have hread : literalReading plainTemplateHost () "a[]b[name]".toList [.text "Bob"] =
        .value "abBob".toList := rfl
    rw [hwritten, hread] at hreading
    exact absurd (Fallible.value.inj hreading) (by decide)

end Dream64
