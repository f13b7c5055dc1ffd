import Dream64.Vm.InterpolatedText

/-!
# Decoded fragments

Which characters decoding keeps, where the fragments of a text begin and end,
and that decoding a fragment with its brackets protected gives what decoding
its source gives, unless the source has a character that protects brackets.
-/

namespace Dream64

open Preprocess (isWhitespace)

/-! ## Reserved characters -/

/-- The private characters that the compiler and the formatter have a use for. -/
def reservedCharacters : List Char := escapedOpen :: escapedClose :: (prefixMarkers ++ suffixMarkers)

variable {c : Char}

theorem mem_reserved_of_marker (h : isTextFormatMarker c = true) : c ∈ reservedCharacters :=
  List.mem_cons_of_mem _ (List.mem_cons_of_mem _ (List.elem_iff.1 h))

theorem reserved_facts : (reservedCharacters.all fun c =>
    (escapedCharacter c == ['\\', c]) && (c != ' ') && (c != '\\') && !isWhitespace c &&
      (c != '[') && (c != ']') && (c != '\n') && (c != '\r') && (c != '\t') && (c != '"') &&
      textMacros.all fun spelled => !spelled.spelling.elem c) = true := rfl

theorem spelling_facts : (textMacros.all fun spelled =>
    (spelled.spelling != []) && isTextFormatMarker spelled.marker &&
      spelled.spelling.all fun c => (c != '[') && (c != ']') && (c != '\\')) = true := rfl

theorem reserved_spec (hc : c ∈ reservedCharacters) :
    escapedCharacter c = ['\\', c] ∧ c ≠ ' ' ∧ c ≠ '\\' ∧
    isWhitespace c = false ∧ c ≠ '[' ∧ c ≠ ']' ∧ c ∉ ['\n', '\r', '\t', '"'] ∧
    ∀ spelled ∈ textMacros, c ∉ spelled.spelling := by
  have h := List.all_eq_true.1 reserved_facts c hc
  simp only [Bool.and_eq_true, bne_iff_ne, beq_iff_eq, Bool.not_eq_true', List.all_eq_true] at h
  obtain ⟨⟨⟨⟨⟨⟨⟨⟨⟨⟨hescaped, hspace⟩, hslash⟩, hwhite⟩, hopen⟩, hclose⟩, hn⟩, hr⟩, ht⟩, hq⟩, hspell⟩ := h
  refine ⟨hescaped, hspace, hslash, hwhite, hopen, hclose, ?_, fun spelled hmem hin => ?_⟩
  · simp [hn, hr, ht, hq]
  · have := hspell spelled hmem
    simp [hin] at this

theorem spelling_spec {spelled : TextMacro} (h : spelled ∈ textMacros) :
    spelled.spelling ≠ [] ∧ isTextFormatMarker spelled.marker = true ∧
      ∀ c ∈ spelled.spelling, c ≠ '[' ∧ c ≠ ']' ∧ c ≠ '\\' := by
  have h := List.all_eq_true.1 spelling_facts spelled h
  simp only [Bool.and_eq_true, bne_iff_ne, List.all_eq_true] at h
  exact ⟨h.1.1, h.1.2, fun c hc => ⟨(h.2 c hc).1.1, (h.2 c hc).1.2, (h.2 c hc).2⟩⟩

/-! ## Decoding -/

theorem decodeFrom_eq (n : Nat) (text : List Char) :
    decodeFrom n text = decodedTokens (text.drop n) := by
  induction text generalizing n with
  | nil => simp [decodedTokens, decodeFrom]
  | cons c rest ih =>
    cases n with
    | zero => rfl
    | succ n => rw [decodeFrom, ih, List.drop_succ_cons]

@[simp]
theorem decodedTokens_nil : decodedTokens [] = [] := rfl

theorem decodedTokens_cons (hc : c ≠ '\\') (rest : List Char) :
    decodedTokens (c :: rest) = .literal c :: decodedTokens rest := by
  rw [decodedTokens, decodeFrom, if_pos hc, ← decodedTokens]

theorem decodedTokens_escape (rest : List Char) : decodedTokens ('\\' :: rest) =
    (decodeEscape rest).1 ++ decodedTokens (rest.drop (decodeEscape rest).2) := by
  rw [decodedTokens, decodeFrom, if_neg (not_not.2 rfl), decodeFrom_eq]

theorem decodeEscape_found {escaped : Char} {rest behind : List Char} {spelled : TextMacro}
    (hfind : (textMacros.find? fun spelled => spelled.spelling.isPrefixOf (escaped :: rest)) =
      some spelled) (hbehind : escaped :: rest = spelled.spelling ++ behind) :
    decodeEscape (escaped :: rest) = ([.marker spelled.marker],
      if spelled.isPrefix && behind.head? == some ' ' then spelled.spelling.length + 1
      else spelled.spelling.length) := by
  have hdrop : (escaped :: rest).drop spelled.spelling.length = behind := by
    rw [hbehind, List.drop_left]
  rw [decodeEscape, hfind]
  show (_, if spelled.isPrefix &&
    ((escaped :: rest).drop spelled.spelling.length).head? == some ' ' then _ else _) = _
  rw [hdrop]

/-- A macro, with the space behind it if it is a prefix, or one character. -/
theorem decodeEscape_cases (escaped : Char) (rest : List Char) :
    (∃ spelled ∈ textMacros, ∃ gap, (gap = [] ∨ gap = [' ']) ∧
      decodeEscape (escaped :: rest) =
        ([.marker spelled.marker], (spelled.spelling ++ gap).length) ∧
      spelled.spelling ++ gap <+: escaped :: rest) ∨
    decodeEscape (escaped :: rest) = ((escapedCharacter escaped).map .literal, 1) := by
  cases hfind : textMacros.find? fun spelled => spelled.spelling.isPrefixOf (escaped :: rest) with
  | none =>
    right
    rw [decodeEscape, hfind]
  | some spelled =>
    left
    have hprefix : spelled.spelling <+: escaped :: rest :=
      List.isPrefixOf_iff_prefix.1 (by simpa using List.find?_some hfind)
    obtain ⟨behind, hbehind⟩ := hprefix
    have hfound := decodeEscape_found hfind hbehind.symm
    refine ⟨spelled, List.mem_of_find?_eq_some hfind, ?_⟩
    by_cases hgap : (spelled.isPrefix && behind.head? == some ' ') = true
    · rw [if_pos hgap] at hfound
      obtain ⟨tail, rfl⟩ : ∃ tail, behind = ' ' :: tail := by
        rw [Bool.and_eq_true, beq_iff_eq] at hgap
        cases behind with
        | nil => exact absurd hgap.2 (by simp)
        | cons d tail => exact ⟨tail, by simpa using hgap.2⟩
      refine ⟨[' '], .inr rfl, ?_, tail, ?_⟩
      · rw [hfound, List.length_append, List.length_singleton]
      · rw [← hbehind, List.append_assoc]
        rfl
    · rw [if_neg hgap] at hfound
      exact ⟨[], .inl rfl, by rw [hfound, List.append_nil], behind, by
        rw [← hbehind, List.append_nil]⟩

variable {text : List Char}

/-- Decoding keeps every reserved character. -/
theorem literal_mem_decodedTokens (hc : c ∈ reservedCharacters) (h : c ∈ text) :
    TextToken.literal c ∈ decodedTokens text := by
  obtain ⟨hescaped, hspace, hslash, -, -, -, -, hspell⟩ := reserved_spec hc
  induction hn : text.length using Nat.strong_induction_on generalizing text with
  | _ n ih =>
  cases text with
  | nil => exact absurd h List.not_mem_nil
  | cons d rest =>
    rw [List.length_cons] at hn
    by_cases hd : d = '\\'
    · rw [hd] at h ⊢
      have hrest : c ∈ rest := (List.mem_cons.1 h).resolve_left hslash
      rw [decodedTokens_escape, List.mem_append]
      cases rest with
      | nil => exact absurd hrest List.not_mem_nil
      | cons escaped rest =>
        rcases decodeEscape_cases escaped rest with ⟨spelled, hmem, gap, hgap, heq, behind, hbehind⟩ | heq
        · right
          rw [heq]
          show TextToken.literal c ∈
            decodedTokens ((escaped :: rest).drop (spelled.spelling ++ gap).length)
          rw [← hbehind, List.drop_left]
          rw [← hbehind, List.mem_append, List.mem_append] at hrest
          have hlength := congrArg List.length hbehind
          simp only [List.length_append, List.length_cons] at hlength hn
          have hpos := List.length_pos_of_ne_nil (spelling_spec hmem).1
          refine ih behind.length (by omega) (hrest.resolve_left ?_) rfl
          rintro (hin | hin)
          · exact hspell spelled hmem hin
          · rcases hgap with rfl | rfl
            · exact absurd hin List.not_mem_nil
            · exact hspace (List.mem_singleton.1 hin)
        · rw [heq]
          rcases List.mem_cons.1 hrest with rfl | hin
          · left
            rw [hescaped]
            simp
          · right
            rw [List.length_cons] at hn
            exact ih rest.length (by omega) hin rfl
    · rw [decodedTokens_cons hd]
      rcases List.mem_cons.1 h with rfl | hin
      · exact List.mem_cons_self
      · exact List.mem_cons_of_mem _ (ih rest.length (by omega) hin rfl)

theorem mem_escapedCharacter {e : Char} (h : c ∈ escapedCharacter e) :
    c = e ∨ c = '\\' ∨ c ∈ ['\n', '\r', '\t', '"'] := by
  unfold escapedCharacter at h
  split at h <;> grind

/-- A marker of a macro, or a character that is not reserved unless it is in the text. -/
def TextToken.From (text : List Char) : TextToken → Prop
  | .literal c => c ∈ reservedCharacters → c ∈ text
  | .marker m => isTextFormatMarker m = true

theorem TextToken.From.mono {text' : List Char} {token : TextToken} (h : token.From text)
    (hsub : ∀ c ∈ text, c ∈ text') : token.From text' := by
  cases token with
  | literal c => exact fun hc => hsub c (h hc)
  | marker m => exact h

theorem decodeEscape_from (rest : List Char) :
    ∀ token ∈ (decodeEscape rest).1, token.From ('\\' :: rest) := by
  intro token hmem
  cases rest with
  | nil =>
    have htoken : token = .literal '\\' := List.mem_singleton.1 hmem
    rw [htoken]
    exact fun _ => List.mem_cons_self
  | cons escaped rest =>
    rcases decodeEscape_cases escaped rest with ⟨spelled, hspelled, gap, -, heq, -⟩ | heq
    · rw [heq] at hmem
      rw [List.mem_singleton.1 hmem]
      exact (spelling_spec hspelled).2.1
    · rw [heq] at hmem
      obtain ⟨c, hc, rfl⟩ := List.mem_map.1 hmem
      intro hreserved
      obtain ⟨-, -, hslash, -, -, -, hother, -⟩ := reserved_spec hreserved
      rcases mem_escapedCharacter hc with rfl | h | h
      · exact List.mem_cons_of_mem _ List.mem_cons_self
      · exact absurd h hslash
      · exact absurd h hother

theorem decodedTokens_from (text : List Char) : ∀ token ∈ decodedTokens text, token.From text := by
  induction hn : text.length using Nat.strong_induction_on generalizing text with
  | _ n ih =>
  cases text with
  | nil => exact fun token h => absurd h List.not_mem_nil
  | cons c rest =>
    intro token h
    rw [List.length_cons] at hn
    by_cases hc : c = '\\'
    · rw [hc, decodedTokens_escape] at h
      rcases List.mem_append.1 h with hmem | hmem
      · exact hc ▸ decodeEscape_from rest token hmem
      · have hle : (rest.drop (decodeEscape rest).2).length ≤ rest.length := by
          rw [List.length_drop]
          omega
        refine (ih _ (by omega) _ rfl token hmem).mono fun d hd => ?_
        exact List.mem_cons_of_mem _ (List.mem_of_mem_drop hd)
    · rw [decodedTokens_cons hc] at h
      rcases List.mem_cons.1 h with rfl | hmem
      · exact fun _ => List.mem_cons_self
      · exact (ih _ (by omega) rest rfl token hmem).mono fun d hd => List.mem_cons_of_mem _ hd

/-- A text that is not empty does not decode to nothing. -/
theorem decodedTokens_ne_nil (h : text ≠ []) : decodedTokens text ≠ [] := by
  cases text with
  | nil => exact absurd rfl h
  | cons c rest =>
    by_cases hc : c = '\\'
    · rw [hc, decodedTokens_escape]
      have htokens : (decodeEscape rest).1 ≠ [] := by
        cases rest with
        | nil => exact List.cons_ne_nil _ _
        | cons escaped rest =>
          rcases decodeEscape_cases escaped rest with ⟨spelled, -, gap, -, heq, -⟩ | heq
          · rw [heq]
            exact List.cons_ne_nil _ _
          · rw [heq]
            unfold escapedCharacter
            split <;> exact List.cons_ne_nil _ _
      exact fun hnil => htokens (List.append_eq_nil_iff.1 hnil).1
    · rw [decodedTokens_cons hc]
      exact List.cons_ne_nil _ _

/-! ## Escape pairs -/

/-- Atoms of which every backslash has its character behind it, and none is a bracket. -/
inductive Aligned : List Atom → Prop where
  | nil : Aligned []
  | dangling : Aligned [.plain '\\']
  | plain {c : Char} {rest : List Atom} : c ≠ '\\' → Aligned rest → Aligned (.plain c :: rest)
  | pair {c : Char} {rest : List Atom} : c ≠ '[' → c ≠ ']' → Aligned rest →
      Aligned (.plain '\\' :: .plain c :: rest)
  | opening {rest : List Atom} : Aligned rest → Aligned (.escapedOpen :: rest)
  | closing {rest : List Atom} : Aligned rest → Aligned (.escapedClose :: rest)

theorem aligned_atoms (text : List Char) : Aligned (atoms text) := by
  induction text using atoms.induct with
  | case1 => exact .nil
  | case2 c =>
    rw [atoms]
    by_cases hc : c = '\\'
    · exact hc ▸ .dangling
    · exact .plain hc .nil
  | case3 c escaped rest hne ih =>
    rw [atoms, if_pos hne]
    exact .plain hne ih
  | case4 c escaped rest heq ih =>
    rw [atoms, if_neg heq, escapedAtoms]
    split_ifs with hopen hclose
    · exact .opening ih
    · exact .closing ih
    · exact .pair hopen hclose ih

/-- Nothing runs over a bracket of a hole. -/
theorem Aligned.split {front back : List Atom} {b : Char} (hb : b = '[' ∨ b = ']')
    (h : Aligned (front ++ .plain b :: back)) : Aligned front ∧ Aligned back := by
  have hslash : b ≠ '\\' := by
    rcases hb with rfl | rfl
    · decide
    · decide
  generalize hl : front ++ .plain b :: back = l at h
  induction h generalizing front with
  | nil => exact absurd hl (by simp)
  | dangling =>
    cases front with
    | nil => exact absurd (Atom.plain.inj (List.cons.inj hl).1) hslash
    | cons a front => exact absurd (List.cons.inj hl).2 (by simp)
  | @plain c rest hc hrest ih =>
    cases front with
    | nil => exact ⟨.nil, (List.cons.inj hl).2 ▸ hrest⟩
    | cons a front =>
      obtain ⟨hfront, hback⟩ := ih (List.cons.inj hl).2
      exact ⟨(List.cons.inj hl).1 ▸ .plain hc hfront, hback⟩
  | @pair c rest hopen hclose hrest ih =>
    cases front with
    | nil => exact absurd (Atom.plain.inj (List.cons.inj hl).1) hslash
    | cons a front =>
      obtain ⟨rfl, htail⟩ := List.cons.inj hl
      cases front with
      | nil =>
        have hbc := Atom.plain.inj (List.cons.inj htail).1
        rcases hb with rfl | rfl
        · exact absurd hbc.symm hopen
        · exact absurd hbc.symm hclose
      | cons a front =>
        change a :: (front ++ .plain b :: back) = .plain c :: rest at htail
        obtain ⟨hfront, hback⟩ := ih (List.cons.inj htail).2
        exact ⟨(List.cons.inj htail).1 ▸ .pair hopen hclose hfront, hback⟩
  | opening hrest ih =>
    cases front with
    | nil => exact absurd (List.cons.inj hl).1 (by simp)
    | cons a front =>
      obtain ⟨rfl, htail⟩ := List.cons.inj hl
      exact ⟨.opening (ih htail).1, (ih htail).2⟩
  | closing hrest ih =>
    cases front with
    | nil => exact absurd (List.cons.inj hl).1 (by simp)
    | cons a front =>
      obtain ⟨rfl, htail⟩ := List.cons.inj hl
      exact ⟨.closing (ih htail).1, (ih htail).2⟩

variable {word : List Char}

theorem Aligned.of_word {rest : List Atom} (hword : ∀ c ∈ word, c ≠ '\\')
    (h : Aligned (word.map .plain ++ rest)) : Aligned rest := by
  induction word with
  | nil => exact h
  | cons c word ih =>
    have hc := hword c List.mem_cons_self
    refine ih (fun d hd => hword d (List.mem_cons_of_mem _ hd)) ?_
    generalize hl : (c :: word).map Atom.plain ++ rest = l at h
    rw [List.map_cons, List.cons_append] at hl
    cases h with
    | nil => exact absurd hl (by simp)
    | plain _ hrest => exact (List.cons.inj hl).2 ▸ hrest
    | opening _ | closing _ => exact absurd (List.cons.inj hl).1 (by simp)
    | dangling | pair _ _ _ => exact absurd (Atom.plain.inj (List.cons.inj hl).1) hc

/-! ## Protected fragments -/

def restored (fragment : List Atom) : List Char :=
  (fragment.map Atom.protectedCharacter).map restoreBracket

/-- The source has no character that stands for a bracket. -/
def Unprotected (fragment : List Atom) : Prop :=
  ∀ c, .plain c ∈ fragment → c ≠ escapedOpen ∧ c ≠ escapedClose

variable {fragment : List Atom}

theorem Unprotected.of_cons {a : Atom} (h : Unprotected (a :: fragment)) :
    Unprotected fragment := fun c hc => h c (List.mem_cons_of_mem _ hc)

theorem Unprotected.of_append {front : List Atom} (h : Unprotected (front ++ fragment)) :
    Unprotected fragment := fun c hc => h c (List.mem_append_right _ hc)

@[simp]
theorem restored_plain (h : Unprotected (.plain c :: fragment)) :
    restored (.plain c :: fragment) = c :: restored fragment := by
  obtain ⟨hopen, hclose⟩ := h c List.mem_cons_self
  show restoreBracket c :: restored fragment = _
  rw [restoreBracket, if_neg hopen, if_neg hclose]

theorem restored_word (h : Unprotected (word.map .plain ++ fragment)) :
    restored (word.map .plain ++ fragment) = word ++ restored fragment := by
  induction word with
  | nil => rfl
  | cons c word ih =>
    rw [List.map_cons, List.cons_append] at h ⊢
    rw [restored_plain h, ih h.of_cons, List.cons_append]

theorem sourceOf_word (word : List Char) (fragment : List Atom) :
    sourceOf (word.map .plain ++ fragment) = word ++ sourceOf fragment := by
  induction word with
  | nil => rfl
  | cons c word ih =>
    show c :: sourceOf (word.map .plain ++ fragment) = _
    rw [ih, List.cons_append]

/-- A word of a macro is in the source where it is in the protected fragment. -/
theorem isPrefixOf_restored (hword : ∀ c ∈ word, c ≠ '[' ∧ c ≠ ']' ∧ c ≠ '\\')
    (h : Unprotected fragment) :
    word.isPrefixOf (restored fragment) = word.isPrefixOf (sourceOf fragment) := by
  induction word generalizing fragment with
  | nil => rfl
  | cons c word ih =>
    obtain ⟨hopen, hclose, hslash⟩ := hword c List.mem_cons_self
    cases fragment with
    | nil => rfl
    | cons a fragment =>
      cases a with
      | plain d =>
        rw [restored_plain h]
        show (c == d && word.isPrefixOf (restored fragment)) =
          (c == d && word.isPrefixOf (sourceOf fragment))
        rw [ih (fun e he => hword e (List.mem_cons_of_mem _ he)) h.of_cons]
      | escapedOpen =>
        show (c == '[' && word.isPrefixOf (restored fragment)) =
          (c == '\\' && word.isPrefixOf ('[' :: sourceOf fragment))
        rw [beq_false_of_ne hopen, beq_false_of_ne hslash, Bool.false_and, Bool.false_and]
      | escapedClose =>
        show (c == ']' && word.isPrefixOf (restored fragment)) =
          (c == '\\' && word.isPrefixOf (']' :: sourceOf fragment))
        rw [beq_false_of_ne hclose, beq_false_of_ne hslash, Bool.false_and, Bool.false_and]

/-- The atoms of a word that the source begins with. -/
theorem word_of_prefix (hword : ∀ c ∈ word, c ≠ '[' ∧ c ≠ ']' ∧ c ≠ '\\')
    (h : word <+: sourceOf fragment) : ∃ behind, fragment = word.map .plain ++ behind := by
  induction word generalizing fragment with
  | nil => exact ⟨fragment, rfl⟩
  | cons c word ih =>
    obtain ⟨tail, htail⟩ := h
    obtain ⟨-, -, hslash⟩ := hword c List.mem_cons_self
    cases fragment with
    | nil => exact absurd htail (by simp [sourceOf])
    | cons a fragment =>
      cases a with
      | plain d =>
        have hcons : c :: (word ++ tail) = d :: sourceOf fragment := htail
        obtain ⟨rfl, hrest⟩ := List.cons.inj hcons
        obtain ⟨behind, rfl⟩ := ih (fun e he => hword e (List.mem_cons_of_mem _ he))
          ⟨tail, hrest⟩
        exact ⟨behind, rfl⟩
      | escapedOpen =>
        have hcons : c :: (word ++ tail) = '\\' :: '[' :: sourceOf fragment := htail
        exact absurd (List.cons.inj hcons).1 hslash
      | escapedClose =>
        have hcons : c :: (word ++ tail) = '\\' :: ']' :: sourceOf fragment := htail
        exact absurd (List.cons.inj hcons).1 hslash

theorem space_restored (h : Unprotected fragment) :
    ((restored fragment).head? == some ' ') = ((sourceOf fragment).head? == some ' ') := by
  cases fragment with
  | nil => rfl
  | cons a fragment =>
    cases a with
    | plain d =>
      rw [restored_plain h]
      rfl
    | escapedOpen | escapedClose => rfl

theorem atom_of_space (h : (sourceOf fragment).head? = some ' ') :
    ∃ behind, fragment = .plain ' ' :: behind := by
  cases fragment with
  | nil => exact absurd h (by simp [sourceOf])
  | cons a fragment =>
    cases a with
    | plain d =>
      have hd : some d = some ' ' := h
      exact ⟨fragment, by rw [Option.some.inj hd]⟩
    | escapedOpen | escapedClose =>
      have hd : some '\\' = some ' ' := h
      exact absurd hd (by decide)

theorem find_macro_restored (h : Unprotected fragment) :
    (textMacros.find? fun spelled => spelled.spelling.isPrefixOf (restored fragment)) =
      textMacros.find? fun spelled => spelled.spelling.isPrefixOf (sourceOf fragment) :=
  List.find?_congr fun _ hspelled => isPrefixOf_restored (spelling_spec hspelled).2.2 h

/-- What is behind a backslash reads the same, and is the same atoms. -/
theorem decodeEscape_restored {rest : List Atom} (hrest : Aligned rest)
    (h : Unprotected (.plain c :: rest)) :
    ∃ tokens word behind, .plain c :: rest = word.map .plain ++ behind ∧ word ≠ [] ∧
      Aligned behind ∧ decodeEscape (restored (.plain c :: rest)) = (tokens, word.length) ∧
      decodeEscape (sourceOf (.plain c :: rest)) = (tokens, word.length) := by
  have hrestored : restored (.plain c :: rest) = c :: restored rest := restored_plain h
  have hsource : sourceOf (.plain c :: rest) = c :: sourceOf rest := rfl
  have hmacro := find_macro_restored h
  rw [hrestored, hsource] at hmacro ⊢
  cases hfind : textMacros.find? fun spelled => spelled.spelling.isPrefixOf (c :: sourceOf rest) with
  | none =>
    rw [hfind] at hmacro
    refine ⟨(escapedCharacter c).map .literal, [c], rest, rfl, List.cons_ne_nil _ _, hrest, ?_, ?_⟩
    · rw [decodeEscape, hmacro]
      rfl
    · rw [decodeEscape, hfind]
      rfl
  | some spelled =>
    rw [hfind] at hmacro
    obtain ⟨hne, -, hspell⟩ := spelling_spec (List.mem_of_find?_eq_some hfind)
    have hfront : spelled.spelling <+: c :: sourceOf rest :=
      List.isPrefixOf_iff_prefix.1 (by simpa using List.find?_some hfind)
    obtain ⟨behind, hbehind⟩ := word_of_prefix hspell (hsource ▸ hfront)
    have hunprotected : Unprotected (spelled.spelling.map .plain ++ behind) := hbehind ▸ h
    have hsourceBehind : c :: sourceOf rest = spelled.spelling ++ sourceOf behind := by
      rw [← hsource, hbehind, sourceOf_word]
    have hrestoredBehind : c :: restored rest = spelled.spelling ++ restored behind := by
      rw [← hrestored, hbehind, restored_word hunprotected]
    have haligned : Aligned behind := by
      cases hword : spelled.spelling with
      | nil => exact absurd hword hne
      | cons d word =>
        rw [hword] at hbehind hspell
        have htail : rest = word.map .plain ++ behind := (List.cons.inj hbehind).2
        have hslash : ∀ e ∈ word, e ≠ '\\' := fun e he => (hspell e (List.mem_cons_of_mem _ he)).2.2
        exact Aligned.of_word hslash (htail ▸ hrest)
    have hfoundSource := decodeEscape_found hfind hsourceBehind
    have hfoundRestored := decodeEscape_found hmacro hrestoredBehind
    rw [space_restored hunprotected.of_append] at hfoundRestored
    by_cases hgap : (spelled.isPrefix && (sourceOf behind).head? == some ' ') = true
    · rw [if_pos hgap] at hfoundSource hfoundRestored
      rw [Bool.and_eq_true, beq_iff_eq] at hgap
      obtain ⟨tail, rfl⟩ := atom_of_space hgap.2
      refine ⟨[.marker spelled.marker], spelled.spelling ++ [' '], tail, ?_, ?_, ?_, ?_, ?_⟩
      · rw [hbehind, List.map_append, List.append_assoc]
        rfl
      · simp
      · exact Aligned.of_word (by simp) (show Aligned ([' '].map .plain ++ tail) from haligned)
      · rw [hfoundRestored, List.length_append, List.length_singleton]
      · rw [hfoundSource, List.length_append, List.length_singleton]
    · rw [if_neg hgap] at hfoundSource hfoundRestored
      exact ⟨_, spelled.spelling, behind, hbehind, hne, haligned, hfoundRestored, hfoundSource⟩

/-- Decoding a protected fragment gives what decoding its source gives. -/
theorem decodedTokens_restored (ha : Aligned fragment) (h : Unprotected fragment) :
    decodedTokens (restored fragment) = fragmentTokens fragment := by
  induction hn : fragment.length using Nat.strong_induction_on generalizing fragment with
  | _ n ih =>
  rw [fragmentTokens]
  cases ha with
  | nil | dangling => rfl
  | @plain c rest hc hrest =>
    rw [restored_plain h, decodedTokens_cons hc]
    show _ = decodedTokens (c :: sourceOf rest)
    rw [decodedTokens_cons hc, ih rest.length (by rw [← hn, List.length_cons]; omega) hrest
      h.of_cons rfl, fragmentTokens]
  | @pair c rest hopen hclose hrest =>
    obtain ⟨tokens, word, behind, heq, hword, haligned, hrestored, hsource⟩ :=
      decodeEscape_restored hrest h.of_cons
    have hunprotected := h.of_cons
    rw [heq] at hunprotected
    rw [restored_plain h, decodedTokens_escape, hrestored]
    show _ = decodedTokens ('\\' :: sourceOf (.plain c :: rest))
    rw [decodedTokens_escape, hsource, heq, restored_word hunprotected, sourceOf_word,
      List.drop_left, List.drop_left]
    have hlength := congrArg List.length heq
    rw [List.length_append, List.length_map, List.length_cons] at hlength
    have hpos := List.length_pos_of_ne_nil hword
    rw [List.length_cons, List.length_cons] at hn
    rw [ih behind.length (by omega) haligned hunprotected.of_append rfl, fragmentTokens]
  | @opening rest hrest =>
    show decodedTokens ('[' :: restored rest) = decodedTokens ('\\' :: '[' :: sourceOf rest)
    rw [decodedTokens_cons (by decide), decodedTokens_escape,
      ih rest.length (by rw [← hn, List.length_cons]; omega) hrest h.of_cons rfl]
    rfl
  | @closing rest hrest =>
    show decodedTokens (']' :: restored rest) = decodedTokens ('\\' :: ']' :: sourceOf rest)
    rw [decodedTokens_cons (by decide), decodedTokens_escape,
      ih rest.length (by rw [← hn, List.length_cons]; omega) hrest h.of_cons rfl]
    rfl

/-! ## Where holes are -/

theorem closeFrom_spec {depth : Nat} {quote : Option Char} {escaped : Bool} {n : Nat}
    (h : closeFrom depth quote escaped text = some n) :
    ∃ hole behind, text = hole ++ ']' :: behind ∧ hole.length = n := by
  induction text generalizing depth quote escaped n with
  | nil => exact absurd h (by simp [closeFrom])
  | cons c text ih =>
    have hstep : (c = ']' ∧ n = 0) ∨
        ∃ depth quote escaped m, closeFrom depth quote escaped text = some m ∧ n = m + 1 := by
      cases quote with
      | none =>
        rw [closeFrom] at h
        split_ifs at h with hquote hopen hclose hdepth
        · obtain ⟨m, hm, rfl⟩ := Option.map_eq_some_iff.1 h
          exact .inr ⟨_, _, _, m, hm, rfl⟩
        · obtain ⟨m, hm, rfl⟩ := Option.map_eq_some_iff.1 h
          exact .inr ⟨_, _, _, m, hm, rfl⟩
        · exact .inl ⟨hclose, (Option.some.inj h).symm⟩
        · obtain ⟨m, hm, rfl⟩ := Option.map_eq_some_iff.1 h
          exact .inr ⟨_, _, _, m, hm, rfl⟩
        · obtain ⟨m, hm, rfl⟩ := Option.map_eq_some_iff.1 h
          exact .inr ⟨_, _, _, m, hm, rfl⟩
      | some delimiter =>
        rw [closeFrom] at h
        obtain ⟨m, hm, rfl⟩ := Option.map_eq_some_iff.1 h
        split_ifs at hm with h1 h2 h3
        · exact .inr ⟨_, _, _, m, hm, rfl⟩
        · exact .inr ⟨_, _, _, m, hm, rfl⟩
        · exact .inr ⟨_, _, _, m, hm, rfl⟩
        · exact .inr ⟨_, _, _, m, hm, rfl⟩
    rcases hstep with ⟨rfl, rfl⟩ | ⟨_, _, _, m, hm, rfl⟩
    · exact ⟨[], text, rfl, rfl⟩
    · obtain ⟨hole, behind, rfl, rfl⟩ := ih hm
      exact ⟨c :: hole, behind, rfl, rfl⟩

theorem holeSpansFrom_skip (before skip : Nat) (text : List Char) :
    holeSpansFrom before skip text = holeSpansFrom before 0 (text.drop skip) := by
  induction text generalizing skip with
  | nil => simp [holeSpansFrom]
  | cons c text ih =>
    cases skip with
    | zero => rfl
    | succ skip => rw [holeSpansFrom, ih, List.drop_succ_cons]

/-- The first hole: a fragment, a bracket, the hole, and its bracket. -/
theorem holeSpansFrom_cases (before : Nat) (text : List Char) :
    holeSpansFrom before 0 text = [] ∨
    ∃ fragment hole behind, text = fragment ++ '[' :: (hole ++ ']' :: behind) ∧
      holeSpansFrom before 0 text = (before + fragment.length, hole.length) :: holeSpans behind := by
  induction text generalizing before with
  | nil => exact .inl rfl
  | cons c text ih =>
    rw [holeSpansFrom]
    by_cases hc : c = '['
    · rw [if_pos hc]
      cases hclose : interpolatedExpressionClose text with
      | none => exact .inl rfl
      | some n =>
        right
        obtain ⟨hole, behind, rfl, rfl⟩ := closeFrom_spec hclose
        refine ⟨[], hole, behind, by rw [hc]; rfl, ?_⟩
        show (before, hole.length) ::
          holeSpansFrom 0 (hole.length + 1) (hole ++ ']' :: behind) = _
        rw [holeSpansFrom_skip, List.drop_append, List.drop_eq_nil_of_le (by omega),
          Nat.add_sub_cancel_left]
        rfl
    · rw [if_neg hc]
      rcases ih (before + 1) with hnil | ⟨fragment, hole, behind, rfl, heq⟩
      · exact .inl hnil
      · refine .inr ⟨c :: fragment, hole, behind, rfl, ?_⟩
        rw [heq, List.length_cons, Nat.add_assoc, Nat.add_comm 1]

def piecesOf (text : List Atom) : List (List Atom × List Atom) × List Atom :=
  cutAt (holeSpans (text.map Atom.protectedCharacter)) text

theorem pieces_eq (text : List Char) : pieces text = piecesOf (atoms text) := by
  rw [pieces, piecesOf, protectBrackets_eq]

theorem plain_of_protected {a : Atom} {b : Char} (hb : b = '[' ∨ b = ']')
    (h : a.protectedCharacter = b) : a = .plain b := by
  cases a with
  | plain c => exact congrArg Atom.plain h
  | escapedOpen | escapedClose =>
    rcases hb with rfl | rfl
    · exact absurd h (by decide)
    · exact absurd h (by decide)

/-- The first piece of a text. -/
theorem piecesOf_cases (text : List Atom) : piecesOf text = ([], text) ∨
    ∃ fragment hole behind,
      text = fragment ++ .plain '[' :: (hole ++ .plain ']' :: behind) ∧
      piecesOf text = ((fragment, hole) :: (piecesOf behind).1, (piecesOf behind).2) := by
  rcases holeSpansFrom_cases 0 (text.map Atom.protectedCharacter) with
    hnil | ⟨fragment, hole, behind, htext, hspans⟩
  · left
    rw [piecesOf, holeSpans, hnil]
    rfl
  · right
    obtain ⟨fragment, tail, rfl, rfl, htail⟩ := List.map_eq_append_iff.1 htext
    obtain ⟨opening, inside, rfl, hopening, hinside⟩ := List.map_eq_cons_iff.1 htail
    obtain ⟨hole, back, rfl, rfl, hback⟩ := List.map_eq_append_iff.1 hinside
    obtain ⟨closing, behind, rfl, hclosing, rfl⟩ := List.map_eq_cons_iff.1 hback
    rw [plain_of_protected (.inl rfl) hopening, plain_of_protected (.inr rfl) hclosing] at hspans ⊢
    refine ⟨fragment, hole, behind, rfl, ?_⟩
    rw [piecesOf, holeSpans, hspans, List.length_map, List.length_map, Nat.zero_add, cutAt]
    have htake : (fragment ++ Atom.plain '[' :: (hole ++ .plain ']' :: behind)).take
        fragment.length = fragment := List.take_left
    have hdrop : (fragment ++ Atom.plain '[' :: (hole ++ .plain ']' :: behind)).drop
        (fragment.length + 1) = hole ++ .plain ']' :: behind := by
      rw [← List.drop_drop, List.drop_left]
      rfl
    have hbehind : (fragment ++ Atom.plain '[' :: (hole ++ .plain ']' :: behind)).drop
        (fragment.length + hole.length + 2) = behind := by
      rw [show fragment.length + hole.length + 2 = fragment.length + 1 + (hole.length + 1) by omega,
        ← List.drop_drop, hdrop, ← List.drop_drop, List.drop_left]
      rfl
    rw [htake, hdrop, hbehind, List.take_left]
    rfl

/-- Every fragment begins and ends between escape pairs. -/
theorem aligned_piecesOf {text : List Atom} (h : Aligned text) :
    (∀ piece ∈ (piecesOf text).1, Aligned piece.1) ∧ Aligned (piecesOf text).2 := by
  induction hn : text.length using Nat.strong_induction_on generalizing text with
  | _ n ih =>
  rcases piecesOf_cases text with heq | ⟨fragment, hole, behind, rfl, heq⟩
  · rw [heq]
    exact ⟨fun piece hpiece => absurd hpiece List.not_mem_nil, h⟩
  · obtain ⟨hfragment, hback⟩ := h.split (.inl rfl)
    obtain ⟨-, hbehind⟩ := hback.split (.inr rfl)
    simp only [List.length_append, List.length_cons] at hn
    obtain ⟨hpieces, hrest⟩ := ih behind.length (by omega) hbehind rfl
    rw [heq]
    refine ⟨fun piece hpiece => ?_, hrest⟩
    rcases List.mem_cons.1 hpiece with rfl | hmem
    · exact hfragment
    · exact hpieces piece hmem

theorem aligned_of_mem (h : fragment ∈ fragments text) : Aligned fragment := by
  obtain ⟨hpieces, hrest⟩ := aligned_piecesOf (aligned_atoms text)
  rw [fragments, pieces_eq] at h
  rcases List.mem_append.1 h with hmem | hmem
  · obtain ⟨piece, hpiece, rfl⟩ := List.mem_map.1 hmem
    exact hpieces piece hpiece
  · exact List.mem_singleton.1 hmem ▸ hrest

/-! ## What the compiler cuts -/

theorem cutAt_map {α β : Type} (f : α → β) (spans : List (Nat × Nat)) (text : List α) :
    cutAt spans (text.map f) =
      ((cutAt spans text).1.map fun piece => (piece.1.map f, piece.2.map f),
        (cutAt spans text).2.map f) := by
  induction spans generalizing text with
  | nil => rfl
  | cons span spans ih =>
    obtain ⟨before, length⟩ := span
    simp only [cutAt, ← List.map_drop, ← List.map_take, ih, List.map_cons]

end Dream64
