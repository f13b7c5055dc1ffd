import Dream64.Vm.RegexMatches

/-!
# What a regex replaces

The text with its successive matches replaced, each once, is what the loop
comes to if the edits do not disturb the search: in the edited text, from the
cursor of the loop, it finds the next match of the original text, and behind
the last one nothing. That is so for a regex that does not look in front of the
start of a search, if the search of the original text finds from the place of
the cursor what it finds behind the match (`Resumes.undisturbed`). With an empty
replacement the loop skips a byte, and with it a match that follows at once. An
empty match is found again behind the text that is put in for it, for ever
(`run_never`).
-/

namespace Dream64

open ByteText (IsBoundary boundaries slice sliceFrom sliceTo)
open String (utf8Len)

variable {σ Target : Type} {host : TextHost σ Target}

/-! ## Definitions -/

/-- A match at another place. -/
def RegexMatch.moved (found : RegexMatch) (origin place : Nat) : RegexMatch :=
  ⟨found.start - origin + place, found.finish - origin + place, found.captures⟩

/-- Only a global regex replaces more than the first match. -/
def toReplace (global : Bool) (found : List RegexMatch) : List RegexMatch :=
  if global then found else found.take 1

/-- What some matches of a text are replaced with, one after the other. -/
def replacements (host : TextHost σ Target) (replacement : Replacement Target)
    (target : List Char) : List RegexMatch → σ →
      Fallible String (List (RegexMatch × List Char) × σ)
  | [], state => .value ([], state)
  | found :: rest, state =>
    (slice target found.start found.finish).bind fun matched =>
    (replacement.apply host matched found.captures state).bind fun result =>
    (replacements host replacement target rest result.2).map fun later =>
      ((found, result.1) :: later.1, later.2)

/-- The text from an offset on with its matches replaced. -/
def replacedText (target : List Char) :
    Nat → List (RegexMatch × List Char) → Fallible String (List Char)
  | place, [] => sliceFrom target place
  | place, (found, replaced) :: rest =>
    (slice target place found.start).bind fun gap =>
    (replacedText target found.finish rest).map fun later => gap ++ replaced ++ later

/-- Behind each edit the search finds the next match of the original text, at its new place; `done`
is what the text up to an offset has become. -/
inductive Undisturbed (search : List Char → Nat → Fallible String (Option RegexMatch))
    (target : List Char) :
    List Char → Nat → Nat → List (RegexMatch × List Char) → Prop where
  | last {done rest : List Char} {place cursor : Nat}
    (hrest : sliceFrom target place = (.value rest : Fallible String (List Char)))
    (hsearch : search (done ++ rest) cursor = .value none) :
    Undisturbed search target done place cursor []
  | next {done rest gap replaced : List Char} {place cursor : Nat} {found : RegexMatch}
    {edits : List (RegexMatch × List Char)}
    (hrest : sliceFrom target place = (.value rest : Fallible String (List Char)))
    (hsearch : search (done ++ rest) cursor = .value (some (found.moved place (utf8Len done))))
    (hgap : slice target place found.start = (.value gap : Fallible String (List Char)))
    (hlater : Undisturbed search target (done ++ gap ++ replaced) found.finish
      (utf8Len (done ++ gap) + max (utf8Len replaced) 1) edits) :
    Undisturbed search target done place cursor ((found, replaced) :: edits)

/-! ## The loop -/

section

variable {search : List Char → Nat → Fallible String (Option RegexMatch)} {target : List Char}
  {replacement : Replacement Target} {state after : σ} {global : Bool}

/-- A turn edits the text at the place of the next match. -/
theorem replaceTurn_found {done gap matched rest replaced : List Char} {cursor : Nat}
    {found : RegexMatch}
    (hsearch : search (done ++ (gap ++ (matched ++ rest))) cursor = .value (some found))
    (hstart : found.start = utf8Len (done ++ gap))
    (hfinish : found.finish = utf8Len (done ++ gap) + utf8Len matched)
    (happly : replacement.apply host matched found.captures state = .value (replaced, after)) :
    replaceTurn host search replacement global ⟨done ++ (gap ++ (matched ++ rest)), cursor, state⟩ =
      .value (if global then
        .next ⟨done ++ gap ++ replaced ++ rest, utf8Len (done ++ gap) + max (utf8Len replaced) 1,
          after⟩
      else
        .last ⟨done ++ gap ++ replaced ++ rest, utf8Len (done ++ gap) + max (utf8Len replaced) 1,
          after⟩) := by
  have htext : done ++ (gap ++ (matched ++ rest)) = done ++ gap ++ (matched ++ rest) :=
    (List.append_assoc ..).symm
  have hslice : (slice (done ++ (gap ++ (matched ++ rest))) found.start found.finish :
      Fallible String (List Char)) = .value matched :=
    ByteText.slice_eq_value_iff.2 ⟨done ++ gap, rest, htext.symm, hstart.symm, hfinish.symm⟩
  have hfront : (sliceTo (done ++ (gap ++ (matched ++ rest))) found.start :
      Fallible String (List Char)) = .value (done ++ gap) :=
    ByteText.sliceTo_eq_value_iff.2 ⟨matched ++ rest, htext.symm, hstart.symm⟩
  have hback : (sliceFrom (done ++ (gap ++ (matched ++ rest))) found.finish :
      Fallible String (List Char)) = .value rest := by
    refine ByteText.sliceFrom_eq_value_iff.2 ⟨done ++ gap ++ matched, ?_, ?_⟩
    · rw [htext, List.append_assoc (done ++ gap)]
    · rw [String.utf8Len_append, hfinish]
  rw [replaceTurn, hsearch, Fallible.value_bind]
  simp only [hslice, Fallible.value_bind, happly, hfront, hback, Fallible.map_value]
  rw [hstart]

/-- The parts of a text around a match behind an offset. -/
theorem parts_of_match {rest gap matched : List Char} {place : Nat} {found : RegexMatch}
    (hrest : sliceFrom target place = (.value rest : Fallible String (List Char)))
    (hgap : slice target place found.start = (.value gap : Fallible String (List Char)))
    (hmatched : slice target found.start found.finish =
      (.value matched : Fallible String (List Char))) :
    ∃ later, rest = gap ++ (matched ++ later) ∧
      sliceFrom target found.finish = (.value later : Fallible String (List Char)) ∧
      found.start = place + utf8Len gap ∧ found.finish = found.start + utf8Len matched := by
  obtain ⟨a, ha, hplace⟩ := ByteText.sliceFrom_eq_value_iff.1 hrest
  obtain ⟨b, c, hbc, hb, hgaplen⟩ := ByteText.slice_eq_value_iff.1 hgap
  obtain ⟨d, later, hd, hdlen, hmatchedlen⟩ := ByteText.slice_eq_value_iff.1 hmatched
  obtain ⟨rfl, hrest'⟩ := ByteText.append_unique (ha.trans hbc.symm) (hplace.trans hb.symm)
  rw [← List.append_assoc] at hbc
  have hdlen' : utf8Len d = utf8Len (a ++ gap) := by rw [String.utf8Len_append, hdlen, hgaplen]
  obtain ⟨rfl, hlater⟩ := ByteText.append_unique (hd.trans hbc.symm) hdlen'
  refine ⟨later, by rw [hrest', hlater], ?_, by omega, by omega⟩
  refine ByteText.sliceFrom_eq_value_iff.2 ⟨a ++ gap ++ matched, ?_, ?_⟩
  · rw [List.append_assoc (a ++ gap), hd]
  · rw [String.utf8Len_append, hmatchedlen]

/-- The loop of a global regex makes the edits one after the other. -/
theorem run_replaceTurn {done rest : List Char} {place cursor : Nat} {found : List RegexMatch}
    {edits : List (RegexMatch × List Char)}
    (hrest : sliceFrom target place = (.value rest : Fallible String (List Char)))
    (hedits : replacements host replacement target found state = .value (edits, after))
    (hundisturbed : Undisturbed search target done place cursor edits) : ∃ fuel last later,
      Advance.run (replaceTurn host search replacement true) fuel ⟨done ++ rest, cursor, state⟩ =
        .value last ∧
      replacedText target place edits = .value later ∧ last.target = done ++ later ∧
        last.state = after := by
  induction found generalizing done rest place cursor edits state with
  | nil =>
    cases hedits
    cases hundisturbed with
    | last hrest' hsearch =>
      rw [hrest, Fallible.value.injEq] at hrest'
      rw [← hrest'] at hsearch
      refine ⟨1, ⟨done ++ rest, cursor, _⟩, rest, ?_, hrest, rfl, rfl⟩
      rw [Advance.run, replaceTurn, hsearch, Fallible.value_bind]
  | cons first more ih =>
    obtain ⟨matched, hmatched, hedits⟩ := Fallible.bind_eq_value.1 hedits
    obtain ⟨⟨replaced, next⟩, happly, hedits⟩ := Fallible.bind_eq_value.1 hedits
    obtain ⟨⟨later, final⟩, hlater, heq⟩ := Fallible.map_eq_value.1 hedits
    cases heq
    cases hundisturbed with
    | @next _ rest' gap _ _ _ _ _ hrest' hsearch hgap hundisturbed =>
      rw [hrest, Fallible.value.injEq] at hrest'
      rw [← hrest'] at hsearch
      obtain ⟨behind, rfl, hbehind, hstart, hfinish⟩ := parts_of_match hrest hgap hmatched
      have hmovedStart : first.start - place + utf8Len done = utf8Len (done ++ gap) := by
        rw [String.utf8Len_append]
        omega
      have hmovedFinish : first.finish - place + utf8Len done =
          utf8Len (done ++ gap) + utf8Len matched := by
        rw [String.utf8Len_append]
        omega
      have hturn := @replaceTurn_found _ _ host search replacement state next true done gap matched
        behind replaced cursor (first.moved place (utf8Len done)) hsearch hmovedStart hmovedFinish
        happly
      obtain ⟨fuel, last, text, hrun, htext, hlast, hstate⟩ := ih hbehind hlater hundisturbed
      refine ⟨fuel + 1, last, gap ++ replaced ++ text, ?_, ?_, ?_, hstate⟩
      · rw [Advance.run_next hturn]
        exact hrun
      · rw [replacedText, hgap, Fallible.value_bind, htext, Fallible.map_value]
      · rw [hlast]
        simp only [List.append_assoc]

/-- Without the flag the loop makes the first edit. -/
theorem run_replaceTurn_once {found : List RegexMatch}
    {edits : List (RegexMatch × List Char)}
    (hfound : Successive (search target) target (utf8Len target) 0 found)
    (hedits : replacements host replacement target (found.take 1) state = .value (edits, after))
    (hgaps : ∀ first ∈ found.head?, IsBoundary target first.start) : ∃ fuel last,
      Advance.run (replaceTurn host search replacement false) fuel ⟨target, 0, state⟩ =
        .value last ∧
      replacedText target 0 edits = .value last.target ∧ last.state = after := by
  have hwhole : sliceFrom target 0 = (.value target : Fallible String (List Char)) :=
    ByteText.sliceFrom_eq_value_iff.2 ⟨[], rfl, rfl⟩
  cases hfound with
  | past h => omega
  | missing h hsearch =>
    cases hedits
    refine ⟨1, ⟨target, 0, _⟩, ?_, hwhole, rfl⟩
    rw [Advance.run, replaceTurn, hsearch, Fallible.value_bind]
  | @found _ first more h hsearch hmore =>
    obtain ⟨matched, hmatched, hedits⟩ := Fallible.bind_eq_value.1 hedits
    obtain ⟨⟨replaced, next⟩, happly, hedits⟩ := Fallible.bind_eq_value.1 hedits
    cases hedits
    obtain ⟨a, gap, c, htarget, ha, hgaplen, hgap⟩ :=
      ByteText.slice_eq_value (ε := String) (ByteText.isBoundary_zero target)
        (hgaps first rfl) (Nat.zero_le _)
    obtain ⟨behind, hbehind, hlater, hstart, hfinish⟩ := parts_of_match hwhole hgap hmatched
    have hturn := @replaceTurn_found _ _ host search replacement state next false [] gap matched
      behind replaced 0 first (by rw [List.nil_append, ← hbehind]; exact hsearch)
      (by rw [List.nil_append]; omega) (by rw [List.nil_append]; omega) happly
    rw [List.nil_append, List.nil_append, ← hbehind] at hturn
    refine ⟨1, _, by rw [Advance.run, hturn]; rfl, ?_, rfl⟩
    rw [replacedText, hgap, Fallible.value_bind, replacedText, hlater, Fallible.map_value]

end

/-! ## Searches that look forward only -/

/-- What a search from an offset in a text finds does not depend on what stands in front of it. -/
def LooksForwardFrom (offset : Nat)
    (search : List Char → Nat → Fallible String (Option RegexMatch)) : Prop :=
  ∀ a text : List Char, search (a ++ text) (utf8Len a + offset) =
    (search text offset).map (Option.map fun found => found.moved 0 (utf8Len a))

/-- What a search finds depends on the text behind its start alone. -/
def LooksForward (search : List Char → Nat → Fallible String (Option RegexMatch)) : Prop :=
  ∀ a text : List Char, search (a ++ text) (utf8Len a) =
    (search text 0).map (Option.map fun found => found.moved 0 (utf8Len a))

/-- Edits of matches that are not empty, by texts that are not empty. -/
def Solid (edits : List (RegexMatch × List Char)) : Prop :=
  ∀ edit ∈ edits, edit.1.start < edit.1.finish ∧ edit.2 ≠ []

/-- How far behind a replacement the loop goes on: an empty one takes a byte with it. -/
def skipped (replaced : List Char) : Nat := max (utf8Len replaced) 1 - utf8Len replaced

/-- A search that ends with the text. -/
def searchWithin (search : List Char → Nat → Fallible String (Option RegexMatch))
    (target : List Char) (start : Nat) : Fallible String (Option RegexMatch) :=
  if start ≤ utf8Len target then search target start else .value none

/-- In the original text the search from the place of the cursor behind each edit finds what it
finds behind the match. -/
structure Resumes (search : List Char → Nat → Fallible String (Option RegexMatch))
    (target : List Char) (edits : List (RegexMatch × List Char)) : Prop where
  forward : ∀ edit ∈ edits, LooksForwardFrom (skipped edit.2) search
  same : ∀ edit ∈ edits, search target (edit.1.finish + skipped edit.2) =
    searchWithin search target (nextStart target edit.1)

section

variable {search : List Char → Nat → Fallible String (Option RegexMatch)} {target : List Char}

theorem utf8Len_pos {text : List Char} (h : text ≠ []) : 1 ≤ utf8Len text := by
  cases text with
  | nil => exact absurd rfl h
  | cons c text =>
    rw [String.utf8Len_cons]
    exact Nat.add_pos_right _ c.utf8Size_pos

theorem skipped_of_ne_nil {text : List Char} (h : text ≠ []) : skipped text = 0 := by
  have hpos := utf8Len_pos h
  rw [skipped]
  omega

/-- The same text behind another one. -/
theorem LooksForwardFrom.moved {offset : Nat} (h : LooksForwardFrom offset search)
    (a b text : List Char) : search (b ++ text) (utf8Len b + offset) =
      (search (a ++ text) (utf8Len a + offset)).map
        (Option.map fun found => found.moved (utf8Len a) (utf8Len b)) := by
  rw [h a text, h b text]
  cases search text offset with
  | value outcome =>
    cases outcome with
    | none => rfl
    | some found => simp [Fallible.map_value, RegexMatch.moved]
  | error e => rfl
  | panic => rfl

/-- The search finds the first of the successive matches. -/
theorem Successive.searchWithin {start : Nat} {found : List RegexMatch}
    (h : Successive (search target) target (utf8Len target) start found) :
    searchWithin search target start = .value found.head? := by
  cases h with
  | past h => rw [Dream64.searchWithin, if_neg (by omega), List.head?_nil]
  | missing h hsearch => rw [Dream64.searchWithin, if_pos h, hsearch, List.head?_nil]
  | found h hsearch hmore => rw [Dream64.searchWithin, if_pos h, hsearch, List.head?_cons]

/-- Edits behind which the search goes on as in the original text do not disturb it. -/
theorem Resumes.undisturbed (hsound : SearchSound (search target) target (utf8Len target))
    {done rest : List Char} {place start cursor : Nat} {edits : List (RegexMatch × List Char)}
    (h : Resumes search target edits)
    (hfound : Successive (search target) target (utf8Len target) start (edits.map (·.1)))
    (hrest : sliceFrom target place = (.value rest : Fallible String (List Char)))
    (hplace : place ≤ start)
    (hsearch : search (done ++ rest) cursor =
      .value ((edits.map (·.1)).head?.map fun found => found.moved place (utf8Len done))) :
    Undisturbed search target done place cursor edits := by
  induction edits generalizing done rest place start cursor with
  | nil => exact .last hrest hsearch
  | cons edit edits ih =>
    obtain ⟨first, replaced⟩ := edit
    rw [List.map_cons] at hfound
    cases hfound with
    | found hle hfirst hmore =>
      obtain ⟨hstart, hordered, -, hbefore, hbehind⟩ := hsound.inside _ first hfirst
      obtain ⟨a, happend, ha⟩ := ByteText.sliceFrom_eq_value_iff.1 hrest
      obtain ⟨-, gap, -, -, -, -, hgap⟩ := ByteText.slice_eq_value (ε := String)
        ⟨a, rest, happend, ha⟩ hbefore (hplace.trans hstart)
      obtain ⟨b, later, hlater, hblen, hlaterSlice⟩ :=
        ByteText.sliceFrom_eq_value (ε := String) hbehind
      -- behind the replacement the search meets the same text as behind the match
      have hforward := (h.forward _ List.mem_cons_self).moved b (done ++ gap ++ replaced) later
      have hsame := h.same _ List.mem_cons_self
      dsimp only at hforward hsame
      rw [hlater, hblen, hsame, hmore.searchWithin, Fallible.map_value] at hforward
      have hcursor : utf8Len (done ++ gap) + max (utf8Len replaced) 1 =
          utf8Len (done ++ gap ++ replaced) + skipped replaced := by
        rw [String.utf8Len_append (done ++ gap), skipped]
        omega
      have hnext : first.finish ≤ nextStart target first := by
        rw [nextStart]
        split <;> omega
      refine .next hrest hsearch hgap ?_
      rw [hcursor]
      exact ih ⟨fun edit hedit => h.forward edit (List.mem_cons_of_mem _ hedit),
        fun edit hedit => h.same edit (List.mem_cons_of_mem _ hedit)⟩ hmore hlaterSlice hnext hforward

/-- Solid edits are made where the search goes on. -/
theorem Solid.resumes {start : Nat} {edits : List (RegexMatch × List Char)} (h : Solid edits)
    (hforward : LooksForward search)
    (hsound : SearchSound (search target) target (utf8Len target))
    (hfound : Successive (search target) target (utf8Len target) start (edits.map (·.1))) :
    Resumes search target edits := by
  induction edits generalizing start with
  | nil => exact ⟨nofun, nofun⟩
  | cons edit edits ih =>
    obtain ⟨hstrict, hreplaced⟩ := h edit List.mem_cons_self
    rw [List.map_cons] at hfound
    cases hfound with
    | found hle hfirst hmore =>
      have hlater := ih (fun edit hedit => h edit (List.mem_cons_of_mem _ hedit)) hmore
      obtain ⟨-, -, hfinish, -⟩ := hsound.inside _ _ hfirst
      refine ⟨List.forall_mem_cons.2 ⟨?_, hlater.forward⟩,
        List.forall_mem_cons.2 ⟨?_, hlater.same⟩⟩
      · rw [skipped_of_ne_nil hreplaced]
        exact hforward
      · rw [skipped_of_ne_nil hreplaced, nextStart, if_pos hstrict, searchWithin, if_pos hfinish,
          Nat.add_zero]

end

/-! ## Matches that are found for ever -/

/-- A match is found again from its own start. -/
def Leftmost (search : Nat → Fallible String (Option RegexMatch)) : Prop :=
  ∀ start found, search start = .value (some found) → search found.start = .value (some found)

section

variable {search : List Char → Nat → Fallible String (Option RegexMatch)} {target : List Char}
  {inserted : List Char} {state : σ}

theorem behind_inserted (h : inserted ≠ []) (front : List Char) :
    utf8Len front + max (utf8Len inserted) 1 = utf8Len (front ++ inserted) := by
  have hpos := utf8Len_pos h
  rw [String.utf8Len_append]
  omega

/-- Behind the text that was put in for an empty match there is the same empty match. -/
theorem run_stuck (hforward : LooksForward search) (hinserted : inserted ≠ [])
    {a done rest : List Char} {found : RegexMatch}
    (hsearch : search (a ++ rest) (utf8Len a) = .value (some found))
    (hstart : found.start = utf8Len a) (hfinish : found.finish = utf8Len a) (fuel : Nat) :
    Advance.run (replaceTurn host search (.text inserted) true) fuel
      ⟨done ++ rest, utf8Len done, state⟩ = .error .outOfFuel := by
  induction fuel generalizing done with
  | zero => rfl
  | succ fuel ih =>
    have hfrom : LooksForwardFrom 0 search := hforward
    have hmoved := hfrom.moved a done rest
    simp only [Nat.add_zero] at hmoved
    rw [hsearch, Fallible.map_value, Option.map_some] at hmoved
    have hturn := @replaceTurn_found _ _ host search (.text inserted) state state true done [] []
      rest inserted _ _ hmoved (by simp [RegexMatch.moved, hstart])
      (by simp [RegexMatch.moved, hfinish]) rfl
    rw [if_pos rfl, List.append_nil, behind_inserted hinserted] at hturn
    exact (Advance.run_next hturn fuel).trans ih

/-- A loop that puts in a text where an empty match is never ends. -/
theorem run_never (hforward : LooksForward search) (hleftmost : Leftmost (search target))
    (hsound : SearchSound (search target) target (utf8Len target)) (hinserted : inserted ≠ [])
    {done rest : List Char} {place : Nat} {found : List RegexMatch}
    (hfound : Successive (search target) target (utf8Len target) place found)
    (hrest : sliceFrom target place = (.value rest : Fallible String (List Char)))
    (hempty : ∃ empty ∈ found, empty.start = empty.finish) (fuel : Nat) :
    Advance.run (replaceTurn host search (.text inserted) true) fuel
      ⟨done ++ rest, utf8Len done, state⟩ = .error .outOfFuel := by
  induction found generalizing done rest place fuel with
  | nil =>
    obtain ⟨_, hmem, -⟩ := hempty
    cases hmem
  | cons first more ih =>
    cases fuel with
    | zero => rfl
    | succ fuel =>
    cases hfound with
    | found hle hfirst hmore =>
      obtain ⟨hstart, hordered, hfinish, hbefore, hbehind⟩ := hsound.inside _ first hfirst
      obtain ⟨a, happend, ha⟩ := ByteText.sliceFrom_eq_value_iff.1 hrest
      obtain ⟨-, gap, -, -, -, -, hgap⟩ :=
        ByteText.slice_eq_value (ε := String) ⟨a, rest, happend, ha⟩ hbefore hstart
      obtain ⟨-, matched, -, -, -, -, hmatched⟩ :=
        ByteText.slice_eq_value (ε := String) hbefore hbehind hordered
      obtain ⟨later, rfl, hlater, hfirstStart, hfirstFinish⟩ := parts_of_match hrest hgap hmatched
      have hfrom : LooksForwardFrom 0 search := hforward
      have hmoved := hfrom.moved a done (gap ++ (matched ++ later))
      simp only [Nat.add_zero] at hmoved
      rw [happend, ha, hfirst, Fallible.map_value, Option.map_some] at hmoved
      have hturn := @replaceTurn_found _ _ host search (.text inserted) state state true done gap
        matched later inserted _ _ hmoved
        (by rw [String.utf8Len_append, RegexMatch.moved]; dsimp only; omega)
        (by rw [String.utf8Len_append, RegexMatch.moved]; dsimp only; omega) rfl
      rw [if_pos rfl, behind_inserted hinserted] at hturn
      rw [Advance.run_next hturn]
      rcases hordered.lt_or_eq with hstrict | heq
      · -- the loop goes on behind the match
        rw [nextStart, if_pos hstrict] at hmore
        obtain ⟨empty, hmem, heq⟩ := hempty
        rcases List.mem_cons.1 hmem with rfl | hmem
        · omega
        · exact ih hmore hlater ⟨empty, hmem, heq⟩ fuel
      · obtain rfl : matched = [] := by
          by_contra hne
          have hpos := utf8Len_pos hne
          omega
        have hagain := hleftmost _ _ hfirst
        rw [← happend, hfirstStart, ← ha, ← String.utf8Len_append, List.nil_append,
          ← List.append_assoc] at hagain
        exact run_stuck hforward hinserted hagain (by rw [String.utf8Len_append]; omega)
          (by rw [String.utf8Len_append]; omega) fuel

end

/-! ## The builtin -/

section

variable {state after : σ} {regex : DatumId} {source : String} {value : Value}
  {start finish : Option Value} {characterIndices : Bool} {pattern target : List Char}
  {bounds : Nat × Nat} {replacement : Replacement Target}
  {found : List RegexMatch} {edits : List (RegexMatch × List Char)}

/-- What a call evaluates its arguments to. -/
structure ReplaceCall (host : TextHost σ Target) (state : σ) (regex : DatumId) (source : String)
    (value : Value) (start finish : Option Value) (characterIndices : Bool)
    (pattern : List Char) (bounds : Nat × Nat) (target : List Char)
    (replacement : Replacement Target) : Prop where
  readsPattern : ((Fallible.ofExcept (host.datumField state regex "_dream64_pattern")).bind
    fun value => builtinText host state value "regex pattern") = .value pattern
  hasBounds : replacementBounds host source.toList start finish characterIndices = .value bounds
  hasTarget : slice source.toList bounds.1 bounds.2 = (.value target : Fallible String (List Char))
  hasReplacement : replacementOf host state value = .value replacement

/-- The search in a text, up to its end. -/
def searchIn (host : TextHost σ Target) (pattern flags : List Char) (target : List Char)
    (cursor : Nat) : Fallible String (Option RegexMatch) :=
  regexSearch host pattern flags target cursor (utf8Len target)

/-- The call ends, and gives the source with these edits of the region. -/
def Replaces (host : TextHost σ Target) (state : σ) (regex : DatumId) (source : String)
    (value : Value) (start finish : Option Value) (characterIndices : Bool) (bounds : Nat × Nat)
    (target : List Char) (edits : List (RegexMatch × List Char)) (after : σ) : Prop :=
  ∃ fuel front text back, front ++ (target ++ back) = source.toList ∧ utf8Len front = bounds.1 ∧
    replacedText target 0 edits = .value text ∧
    replaceTextRegex host state fuel regex (.text source) value start finish characterIndices =
      .value (.ofChars (front ++ text ++ back), after)

theorem replaceTextRegex_eq {fuel : Nat} {front back : List Char}
    (h : ReplaceCall host state regex source value start finish characterIndices pattern bounds
      target replacement) (happend : front ++ (target ++ back) = source.toList)
    (hfront : utf8Len front = bounds.1) (hback : utf8Len front + utf8Len target = bounds.2) :
    replaceTextRegex host state fuel regex (.text source) value start finish characterIndices =
      (Advance.run (replaceTurn host (searchIn host pattern (regexFlags host state regex))
        replacement ((regexFlags host state regex).contains 'g')) fuel ⟨target, 0, state⟩).map
          fun last => (.ofChars (front ++ last.target ++ back), last.state) := by
  obtain ⟨text, htext, hpattern⟩ := Fallible.bind_eq_value.1 h.readsPattern
  have hto : (sliceTo source.toList bounds.1 : Fallible String (List Char)) = .value front :=
    ByteText.sliceTo_eq_value_iff.2 ⟨target ++ back, happend, hfront⟩
  have hfrom : (sliceFrom source.toList bounds.2 : Fallible String (List Char)) = .value back := by
    refine ByteText.sliceFrom_eq_value_iff.2 ⟨front ++ target, ?_, ?_⟩
    · rw [List.append_assoc, happend]
    · rw [String.utf8Len_append, hback]
  rw [replaceTextRegex, htext, Fallible.raise_value, Fallible.value_bind, hpattern,
    Fallible.raise_value, Fallible.value_bind, h.hasBounds, Fallible.raise_value, Fallible.value_bind,
    hto, Fallible.raise_value, Fallible.value_bind, hfrom, Fallible.raise_value,
    Fallible.value_bind, h.hasTarget, Fallible.raise_value, Fallible.value_bind, h.hasReplacement]
  rfl

theorem replacements_matches (h : replacements host replacement target found state =
    .value (edits, after)) : edits.map (·.1) = found := by
  induction found generalizing edits state with
  | nil =>
    cases h
    rfl
  | cons first more ih =>
    obtain ⟨_, -, h⟩ := Fallible.bind_eq_value.1 h
    obtain ⟨_, -, h⟩ := Fallible.bind_eq_value.1 h
    obtain ⟨later, hlater, heq⟩ := Fallible.map_eq_value.1 h
    cases heq
    rw [List.map_cons, ih hlater]

/-- A text is put in for every match. -/
theorem replacements_text {inserted : List Char}
    (hsound : ∀ first ∈ found, IsBoundary target first.start ∧ IsBoundary target first.finish ∧
      first.start ≤ first.finish) :
    replacements host (.text inserted) target found state =
      .value (found.map (·, inserted), state) := by
  induction found with
  | nil => rfl
  | cons first more ih =>
    obtain ⟨⟨hbefore, hbehind, hordered⟩, hmore⟩ := List.forall_mem_cons.1 hsound
    obtain ⟨-, matched, -, -, -, -, hmatched⟩ :=
      ByteText.slice_eq_value (ε := String) hbefore hbehind hordered
    rw [replacements, hmatched, Fallible.value_bind, Replacement.apply, Fallible.value_bind,
      ih hmore, Fallible.map_value, List.map_cons]

theorem run_replaces
    (h : ReplaceCall host state regex source value start finish characterIndices pattern bounds
      target replacement)
    (hglobal : (regexFlags host state regex).contains 'g' = true)
    (hfound : Successive (searchIn host pattern (regexFlags host state regex) target) target
      (utf8Len target) 0 found)
    (hedits : replacements host replacement target found state = .value (edits, after))
    (hresumes : Resumes (searchIn host pattern (regexFlags host state regex)) target edits) :
    Replaces host state regex source value start finish characterIndices bounds target edits
      after := by
  obtain ⟨front, back, happend, hfront, hback⟩ := ByteText.slice_eq_value_iff.1 h.hasTarget
  have hwhole : sliceFrom target 0 = (.value target : Fallible String (List Char)) :=
    ByteText.sliceFrom_eq_value_iff.2 ⟨[], rfl, rfl⟩
  rw [← replacements_matches hedits] at hfound
  have hsearch : searchIn host pattern (regexFlags host state regex) ([] ++ target) 0 =
      .value ((edits.map (·.1)).head?.map fun found => found.moved 0 (utf8Len [])) := by
    have hfirst := hfound.searchWithin
    rw [searchWithin, if_pos (Nat.zero_le _)] at hfirst
    rw [List.nil_append, hfirst]
    exact congrArg Fallible.value (congrFun Option.map_id _).symm
  obtain ⟨fuel, last, text, hrun, htext, hlast, hstate⟩ := run_replaceTurn hwhole hedits
    (hresumes.undisturbed (regexSearch_searchSound ..) hfound hwhole le_rfl hsearch)
  refine ⟨fuel, front, text, back, happend, hfront, htext, ?_⟩
  rw [List.nil_append] at hrun hlast
  rw [replaceTextRegex_eq h happend hfront hback, hglobal, hrun, Fallible.map_value, hlast, hstate]

/-- A regex that is not global replaces the first match. -/
theorem run_replaces_once
    (h : ReplaceCall host state regex source value start finish characterIndices pattern bounds
      target replacement)
    (hglobal : (regexFlags host state regex).contains 'g' = false)
    (hfound : Successive (searchIn host pattern (regexFlags host state regex) target) target
      (utf8Len target) 0 found)
    (hedits : replacements host replacement target (found.take 1) state =
      .value (edits, after)) :
    Replaces host state regex source value start finish characterIndices bounds target edits
      after := by
  obtain ⟨front, back, happend, hfront, hback⟩ := ByteText.slice_eq_value_iff.1 h.hasTarget
  have hgaps : ∀ first ∈ found.head?, IsBoundary target first.start := by
    intro first hfirst
    cases hfound with
    | past h => cases hfirst
    | missing h hsearch => cases hfirst
    | found h hsearch hmore =>
      cases hfirst
      exact (regexSearch_sound host hsearch).2.2.2.1
  obtain ⟨fuel, last, hrun, htext, hstate⟩ := run_replaceTurn_once hfound hedits hgaps
  refine ⟨fuel, front, last.target, back, happend, hfront, htext, ?_⟩
  rw [replaceTextRegex_eq h happend hfront hback, hglobal, hrun, Fallible.map_value, hstate]

/-- The matches of a search lie between boundaries. -/
theorem Successive.between {search : Nat → Fallible String (Option RegexMatch)} {place last : Nat}
    (hsound : SearchSound search target last) (h : Successive search target last place found) :
    ∀ first ∈ found, IsBoundary target first.start ∧ IsBoundary target first.finish ∧
      first.start ≤ first.finish := by
  induction h with
  | past h | missing h hsearch => exact nofun
  | found h hsearch hmore ih =>
    obtain ⟨-, hordered, -, hbefore, hbehind⟩ := hsound.inside _ _ hsearch
    exact List.forall_mem_cons.2 ⟨⟨hbefore, hbehind, hordered⟩, ih⟩

/-- A text that is not empty is put in for every match, by a regex that looks forward only, exactly
if no match is empty. -/
theorem inserts_iff {inserted : List Char}
    (h : ReplaceCall host state regex source value start finish characterIndices pattern bounds
      target (.text inserted))
    (hglobal : (regexFlags host state regex).contains 'g' = true) (hinserted : inserted ≠ [])
    (hforward : LooksForward (searchIn host pattern (regexFlags host state regex)))
    (hleftmost : Leftmost (searchIn host pattern (regexFlags host state regex) target))
    (hfound : Successive (searchIn host pattern (regexFlags host state regex) target) target
      (utf8Len target) 0 found) :
    Replaces host state regex source value start finish characterIndices bounds target
      (found.map (·, inserted)) state ↔ ∀ first ∈ found, first.start < first.finish := by
  have hsound : SearchSound (searchIn host pattern (regexFlags host state regex) target) target
    (utf8Len target) := regexSearch_searchSound ..
  have hbetween := hfound.between hsound
  constructor
  · rintro ⟨fuel, front, text, back, happend, hfront, htext, hrun⟩ first hmem
    by_contra hnot
    have hempty : first.start = first.finish :=
      (hbetween first hmem).2.2.antisymm (Nat.not_lt.1 hnot)
    have hback : utf8Len front + utf8Len target = bounds.2 := by
      obtain ⟨a, c, ha, halen, hlen⟩ := ByteText.slice_eq_value_iff.1 h.hasTarget
      rw [hfront, ← halen, hlen]
    have hwhole : sliceFrom target 0 = (.value target : Fallible String (List Char)) :=
      ByteText.sliceFrom_eq_value_iff.2 ⟨[], rfl, rfl⟩
    have hnever : Advance.run (replaceTurn host _ (.text inserted) true) fuel
        ⟨[] ++ target, utf8Len [], state⟩ = .error .outOfFuel :=
      run_never hforward hleftmost hsound hinserted hfound hwhole ⟨first, hmem, hempty⟩ fuel
    rw [List.nil_append, String.utf8Len_nil] at hnever
    rw [replaceTextRegex_eq h happend hfront hback, hglobal, hnever] at hrun
    cases hrun
  · intro hstrict
    refine run_replaces h hglobal hfound (replacements_text hbetween) ?_
    refine Solid.resumes ?_ hforward hsound (?_ : Successive _ _ _ 0 _)
    · intro edit hedit
      obtain ⟨first, hmem, rfl⟩ := List.mem_map.1 hedit
      exact ⟨hstrict first hmem, hinserted⟩
    · rw [List.map_map]
      exact (List.map_id found).symm ▸ hfound

/-- The region has successive matches, and the call ends and replaces them, each once, if behind each
edit the search of the region goes on as behind the match. A text that is not empty is put in
exactly if no match is empty. -/
theorem replaceTextRegex_replaces
    (h : ReplaceCall host state regex source value start finish characterIndices pattern bounds
      target replacement)
    (hcalm : ∀ place ≤ utf8Len target, ∃ outcome,
      searchIn host pattern (regexFlags host state regex) target place = .value outcome) :
    ∃ found, Successive (searchIn host pattern (regexFlags host state regex) target) target
        (utf8Len target) 0 found ∧
      (∀ edits after, replacements host replacement target
          (toReplace ((regexFlags host state regex).contains 'g') found) state =
            .value (edits, after) →
        ((regexFlags host state regex).contains 'g' = true →
          Resumes (searchIn host pattern (regexFlags host state regex)) target edits) →
        Replaces host state regex source value start finish characterIndices bounds target edits
          after) ∧
      (∀ inserted ≠ [], replacement = .text inserted →
        (regexFlags host state regex).contains 'g' = true →
        LooksForward (searchIn host pattern (regexFlags host state regex)) →
        Leftmost (searchIn host pattern (regexFlags host state regex) target) →
        (Replaces host state regex source value start finish characterIndices bounds target
          (found.map (·, inserted)) state ↔ ∀ first ∈ found, first.start < first.finish)) := by
  obtain ⟨found, hfound⟩ := exists_successive (regexSearch_searchSound ..) hcalm 0
  refine ⟨found, hfound, fun edits after hedits hresumes => ?_, ?_⟩
  · cases hglobal : (regexFlags host state regex).contains 'g' with
    | true =>
      rw [hglobal] at hedits
      exact run_replaces h hglobal hfound hedits (hresumes hglobal)
    | false =>
      rw [hglobal] at hedits
      exact run_replaces_once h hglobal hfound hedits
  · rintro inserted hinserted rfl hglobal hforward hleftmost
    exact inserts_iff h hglobal hinserted hforward hleftmost hfound

/-- A global regex that looks forward only replaces the matches of the region and nothing it has
put in, if no match and no replacement is empty. -/
theorem replaceTextRegex_forward
    (h : ReplaceCall host state regex source value start finish characterIndices pattern bounds
      target replacement) (hglobal : (regexFlags host state regex).contains 'g' = true)
    (hforward : LooksForward (searchIn host pattern (regexFlags host state regex)))
    (hfound : Successive (searchIn host pattern (regexFlags host state regex) target) target
      (utf8Len target) 0 found)
    (hedits : replacements host replacement target found state = .value (edits, after))
    (hsolid : Solid edits) :
    edits.map (·.1) = found ∧ Replaces host state regex source value start finish characterIndices
      bounds target edits after := by
  have hmatches := replacements_matches hedits
  refine ⟨hmatches, run_replaces h hglobal hfound hedits ?_⟩
  rw [← hmatches] at hfound
  exact hsolid.resumes hforward (regexSearch_searchSound ..) hfound

end

/-! ## The rest of the text -/

/-- The match of all that is behind an offset. -/
def restAt (text : List Char) (offset : Nat) : Option RegexMatch :=
  if ByteText.isCharBoundary text offset ∧ offset < utf8Len text then
    some ⟨offset, utf8Len text, []⟩
  else none

/-- Every datum is the global regex of one character or more. -/
def restHost : TextHost Unit Unit :=
  { plainHost with
    datumTypePath := fun _ _ => .ok "/regex"
    datumField := fun _ _ field => .ok (.text (if field = "flags" then "g" else "(?s).+"))
    compileRegex := fun _ _ _ => .ok {
      search := fun text start => .ok (restAt text start)
      sound := by
        intro text start found h
        have h := Except.ok.inj h
        rw [restAt] at h
        split_ifs at h with hinside
        cases h
        exact ⟨le_rfl, hinside.2.le, ByteText.isCharBoundary_iff.1 hinside.1,
          ByteText.isBoundary_utf8Len text⟩ } }

theorem rest_forward : LooksForward (searchIn restHost "(?s).+".toList ['g']) := by
  intro a text
  have hboundary : ByteText.isCharBoundary (a ++ text) (utf8Len a) = true :=
    ByteText.isCharBoundary_iff.2 ⟨a, text, rfl, rfl⟩
  have hzero : ByteText.isCharBoundary text 0 = true :=
    ByteText.isCharBoundary_iff.2 (ByteText.isBoundary_zero text)
  show Fallible.value ((restAt (a ++ text) (utf8Len a)).filter _) =
    Fallible.value (((restAt text 0).filter _).map _)
  rw [restAt, restAt, hboundary, hzero]
  rcases Nat.eq_zero_or_pos (utf8Len text) with hlen | hlen
  · simp [hlen]
  · simp [hlen, RegexMatch.moved, Option.filter_some, Nat.add_comm]

/-- Three bytes become a letter. -/
theorem rest_replaced : Replaces restHost () ⟨0, 0⟩ "aé" (.text "b") none none false (0, 3)
    ['a', 'é'] [(⟨0, 3, []⟩, ['b'])] () :=
  (replaceTextRegex_forward ⟨rfl, rfl, rfl, rfl⟩ rfl rest_forward
    (.found (by decide) rfl (.missing (by decide) rfl)) rfl fun edit hedit => by
      rw [List.mem_singleton.1 hedit]
      decide).2

/-! ## A letter -/

/-- The first letter `a` from a start on, in a text that stands at an offset. -/
def findLetter (start : Nat) : Nat → List Char → Option RegexMatch
  | _, [] => none
  | offset, c :: text =>
    if start ≤ offset ∧ c = 'a' then some ⟨offset, offset + 1, []⟩
    else findLetter start (offset + c.utf8Size) text

theorem findLetter_sound {start offset : Nat} {text : List Char} {found : RegexMatch}
    (h : findLetter start offset text = some found) : ∃ before behind,
      before ++ 'a' :: behind = text ∧ found.start = offset + utf8Len before ∧
        found.finish = found.start + 1 ∧ start ≤ found.start := by
  induction text generalizing offset with
  | nil => cases h
  | cons c text ih =>
    rw [findLetter] at h
    split_ifs at h with hletter
    · cases h
      exact ⟨[], text, by rw [hletter.2]; rfl, rfl, rfl, hletter.1⟩
    · obtain ⟨before, behind, rfl, hstart, hfinish, hle⟩ := ih h
      refine ⟨c :: before, behind, rfl, ?_, hfinish, hle⟩
      rw [String.utf8Len_cons]
      omega

theorem findLetter_append {start offset : Nat} (a text : List Char)
    (h : offset + utf8Len a ≤ start) :
    findLetter start offset (a ++ text) = findLetter start (offset + utf8Len a) text := by
  induction a generalizing offset with
  | nil => rfl
  | cons c a ih =>
    have hpos := c.utf8Size_pos
    rw [String.utf8Len_cons] at h ⊢
    rw [List.cons_append, findLetter, if_neg (by omega), ih (by omega)]
    congr 1
    omega

theorem findLetter_moved (start offset place : Nat) (text : List Char) :
    findLetter (place + start) (place + offset) text =
      (findLetter start offset text).map fun found => found.moved 0 place := by
  induction text generalizing offset with
  | nil => rfl
  | cons c text ih =>
    rw [findLetter, findLetter]
    by_cases hletter : start ≤ offset ∧ c = 'a'
    · rw [if_pos hletter, if_pos ⟨Nat.add_le_add_left hletter.1 _, hletter.2⟩, Option.map_some]
      simp only [RegexMatch.moved, Nat.sub_zero, Option.some.injEq, RegexMatch.mk.injEq, and_true]
      omega
    · rw [if_neg hletter, if_neg fun h => hletter ⟨by omega, h.2⟩, Nat.add_assoc, ih]

/-- The regex of the letter `a`. -/
def letterRegex : Regex where
  search := fun text start => .ok (findLetter start 0 text)
  sound := by
    intro text start found h
    obtain ⟨before, behind, rfl, hstart, hfinish, hle⟩ := findLetter_sound (Except.ok.inj h)
    refine ⟨hle, by omega, ⟨before, 'a' :: behind, rfl, by omega⟩,
      ⟨before ++ ['a'], behind, by rw [List.append_assoc]; rfl, ?_⟩⟩
    rw [String.utf8Len_append, hfinish, hstart, Nat.zero_add]
    rfl

/-- Every datum is the global regex of the letter `a`. -/
def letterHost : TextHost Unit Unit :=
  { plainHost with
    datumTypePath := fun _ _ => .ok "/regex"
    datumField := fun _ _ field => .ok (.text (if field = "flags" then "g" else "a"))
    compileRegex := fun _ _ _ => .ok letterRegex }

theorem letters_call (replacement : String) :
    ReplaceCall letterHost () ⟨0, 0⟩ "aa" (.text replacement) none none false ['a'] (0, 2)
      ['a', 'a'] (.text replacement.toList) :=
  ⟨rfl, rfl, rfl, rfl⟩

theorem letters_found : Successive (searchIn letterHost ['a'] ['g'] ['a', 'a']) ['a', 'a'] 2 0
    [⟨0, 1, []⟩, ⟨1, 2, []⟩] :=
  .found (by decide) rfl (.found (by decide) rfl (.missing (by decide) rfl))

theorem letters_forward : LooksForwardFrom 0 (searchIn letterHost ['a'] ['g']) := by
  intro a text
  show Fallible.value ((findLetter (utf8Len a + 0) 0 (a ++ text)).filter _) =
    Fallible.value (((findLetter 0 0 text).filter _).map _)
  rw [findLetter_append a text (by omega), Nat.zero_add, Nat.add_zero]
  have hmoved := findLetter_moved 0 0 (utf8Len a) text
  rw [Nat.add_zero] at hmoved
  rw [hmoved, String.utf8Len_append]
  cases findLetter 0 0 text with
  | none => rfl
  | some found => simp [RegexMatch.moved, Option.filter_some, Nat.add_comm (utf8Len a)]

/-- Each of two letters is replaced with another one. -/
theorem letters_replaced : Replaces letterHost () ⟨0, 0⟩ "aa" (.text "b") none none false (0, 2)
    ['a', 'a'] [(⟨0, 1, []⟩, ['b']), (⟨1, 2, []⟩, ['b'])] () := by
  obtain ⟨found, hfound, hreplaces, -⟩ :=
    replaceTextRegex_replaces (letters_call "b") fun place _ => ⟨_, rfl⟩
  cases hfound.unique letters_found
  refine hreplaces _ _ rfl fun _ => ⟨fun edit hedit => ?_, fun edit hedit => ?_⟩
  · simp only [List.mem_cons, List.not_mem_nil, or_false] at hedit
    rcases hedit with rfl | rfl
    · exact letters_forward
    · exact letters_forward
  · simp only [List.mem_cons, List.not_mem_nil, or_false] at hedit
    rcases hedit with rfl | rfl
    · rfl
    · rfl

/-- Of two letters that are deleted one is left. -/
theorem letters_not_deleted :
    replacements letterHost (.text []) ['a', 'a'] [⟨0, 1, []⟩, ⟨1, 2, []⟩] () =
      .value ([(⟨0, 1, []⟩, []), (⟨1, 2, []⟩, [])], ()) ∧
    ¬ Replaces letterHost () ⟨0, 0⟩ "aa" (.text "") none none false (0, 2) ['a', 'a']
      [(⟨0, 1, []⟩, []), (⟨1, 2, []⟩, [])] () := by
  refine ⟨rfl, ?_⟩
  rintro ⟨fuel, front, text, back, happend, hfront, htext, hrun⟩
  have hempty : text = [] := (Fallible.value.inj htext).symm
  have hcall := letters_call ""
  have hback : utf8Len front + utf8Len ['a', 'a'] = 2 := by rw [hfront]; rfl
  rw [replaceTextRegex_eq hcall happend hfront hback] at hrun
  obtain ⟨last, hlast, hresult⟩ := Fallible.map_eq_value.1 hrun
  have hthree : Advance.run (replaceTurn letterHost (searchIn letterHost ['a'] ['g'])
      (.text []) true) 3 ⟨['a', 'a'], 0, ()⟩ = .value ⟨['a'], 1, ()⟩ := rfl
  have hmost := Advance.run_of_le hthree (Nat.le_max_right fuel 3)
  have hsame := (Advance.run_of_le hlast (Nat.le_max_left fuel 3)).symm.trans hmost
  rw [Fallible.value.inj hsame] at hresult
  have htexts := congrArg Prod.fst hresult
  have hleft : front ++ ['a'] ++ back = front ++ text ++ back :=
    String.ofList_injective (Value.text.inj htexts)
  rw [hempty, List.append_nil] at hleft
  have hlength := congrArg List.length hleft
  rw [List.length_append, List.length_append, List.length_append, List.length_singleton] at hlength
  omega

end Dream64
