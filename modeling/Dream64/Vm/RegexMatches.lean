import Dream64.Vm.TextBuiltins

/-!
# Successive matches

The matches of a search from an offset on: each is looked for behind the one
before it, behind an empty match after the next character. A search that does
not fail has them, for every text (`exists_successive`).
-/

namespace Dream64

open ByteText (IsBoundary splitBytes)
open String (utf8Len)

/-- The bytes of the character at an offset. -/
def characterSize (text : List Char) (offset : Nat) : Nat :=
  match splitBytes offset text with
  | some (_, c :: _) => c.utf8Size
  | _ => 1

/-- Where the search goes on behind a match. -/
def nextStart (text : List Char) (found : RegexMatch) : Nat :=
  if found.start < found.finish then found.finish
  else found.finish + characterSize text found.finish

/-- Matches lie between boundaries, behind the start of the search and in front of an end. -/
structure SearchSound (search : Nat → Fallible String (Option RegexMatch)) (text : List Char)
    (last : Nat) : Prop where
  calm : ∀ start, search start ≠ .panic
  inside : ∀ start found, search start = .value (some found) →
    start ≤ found.start ∧ found.start ≤ found.finish ∧ found.finish ≤ last ∧
      IsBoundary text found.start ∧ IsBoundary text found.finish

/-- The matches that are found one behind the other from an offset to an end. -/
inductive Successive (search : Nat → Fallible String (Option RegexMatch)) (text : List Char)
    (last : Nat) : Nat → List RegexMatch → Prop where
  | past {start : Nat} (h : last < start) : Successive search text last start []
  | missing {start : Nat} (h : start ≤ last) (hsearch : search start = .value none) :
    Successive search text last start []
  | found {start : Nat} {found : RegexMatch} {rest : List RegexMatch} (h : start ≤ last)
    (hsearch : search start = .value (some found))
    (hrest : Successive search text last (nextStart text found) rest) :
    Successive search text last start (found :: rest)

variable {σ Target : Type} {host : TextHost σ Target} {text : List Char} {start last : Nat}
  {search : Nat → Fallible String (Option RegexMatch)} {found : RegexMatch}

theorem regexSearch_searchSound (pattern flags text : List Char) (last : Nat) :
    SearchSound (regexSearch host pattern flags text · last) text last :=
  ⟨fun start => regexSearch_ne_panic host pattern flags text start last,
    fun _ _ h => regexSearch_sound host h⟩

theorem characterSize_append (a : List Char) (c : Char) (b : List Char) :
    characterSize (a ++ c :: b) (utf8Len a) = c.utf8Size := by
  rw [characterSize, ByteText.splitBytes_utf8Len]

theorem characterSize_pos (text : List Char) (offset : Nat) : 0 < characterSize text offset := by
  rw [characterSize]
  split
  · exact Char.utf8Size_pos _
  · exact Nat.one_pos

theorem lt_nextStart (h : found.start ≤ found.finish) (text : List Char) :
    found.start < nextStart text found := by
  have hpos := characterSize_pos text found.finish
  rw [nextStart]
  split <;> omega

/-- Behind the end there is nothing to be found. -/
theorem Successive.eq_nil {found : List RegexMatch} (h : Successive search text last start found)
    (hlt : last < start) : found = [] := by
  cases h with
  | past h => rfl
  | missing h hsearch => rfl
  | found h hsearch hrest => omega

/-- A search has one list of successive matches. -/
theorem Successive.unique {found found' : List RegexMatch}
    (h : Successive search text last start found) (h' : Successive search text last start found') :
    found = found' := by
  induction h generalizing found' with
  | past h => exact (h'.eq_nil h).symm
  | missing h hsearch =>
    cases h' with
    | past h' => omega
    | missing h' hsearch' => rfl
    | found h' hsearch' hrest' =>
      rw [hsearch] at hsearch'
      cases hsearch'
  | found h hsearch hrest ih =>
    cases h' with
    | past h' => omega
    | missing h' hsearch' =>
      rw [hsearch] at hsearch'
      cases hsearch'
    | found h' hsearch' hrest' =>
      rw [hsearch] at hsearch'
      cases hsearch'
      rw [ih hrest']

theorem exists_successive (hsearch : SearchSound search text last)
    (hvalue : ∀ start ≤ last, ∃ outcome, search start = .value outcome) (start : Nat) :
    ∃ found, Successive search text last start found := by
  induction hk : last + 1 - start using Nat.strongRecOn generalizing start with
  | ind k ih =>
    by_cases hle : start ≤ last
    · obtain ⟨outcome, houtcome⟩ := hvalue start hle
      cases outcome with
      | none => exact ⟨[], .missing hle houtcome⟩
      | some found =>
        obtain ⟨hstart, hordered, -⟩ := hsearch.inside start found houtcome
        have hlater := lt_nextStart hordered text
        obtain ⟨rest, hrest⟩ := ih (last + 1 - nextStart text found) (by omega) _ rfl
        exact ⟨found :: rest, .found hle houtcome hrest⟩
    · exact ⟨[], .past (by omega)⟩

end Dream64

/-!
# Replacing the matches of a regex

`replacetext` with a regex. The matches are looked for one after the other in
the text that has been edited so far, each behind the replacement of the one
before it, and at least one byte behind the start of that one. The replacement
is a text, or what a procedure gives for the match and its groups.
-/

namespace Dream64

open ByteText (slice sliceFrom sliceTo)
open String (utf8Len)

variable {σ Target : Type} (host : TextHost σ Target)

/-- What takes the place of a match. -/
inductive Replacement (Target : Type) where
  | text (characters : List Char)
  | procedure (target : Target)

/-- What a procedure gave, as a text. -/
def callbackText : Value → List Char
  | .null => []
  | .text text => text.toList
  | .number bits => (host.displayNumber bits).toList
  | .typePath path => path.path.toList
  | value => (host.display value).toList

def captureArgument (capture : Option (List Char)) : Value :=
  capture.elim .null Value.ofChars

/-- The replacement of a match with its groups. -/
def Replacement.apply (replacement : Replacement Target) (matched : List Char)
    (captures : List (Option (List Char))) (state : σ) : Fallible String (List Char × σ) :=
  match replacement with
  | .text characters => .value (characters, state)
  | .procedure target =>
    (Fallible.ofExcept (host.call target (.ofChars matched :: captures.map captureArgument)
        state)).map fun result =>
      (callbackText host result.1, result.2)

structure ReplaceLoop (σ : Type) where
  target : List Char
  cursor : Nat
  state : σ

/-- One turn of the loop: the next match, and what it is replaced with. -/
def replaceTurn (search : List Char → Nat → Fallible String (Option RegexMatch))
    (replacement : Replacement Target) (global : Bool) (s : ReplaceLoop σ) :
    Fallible String (Advance.Turn (ReplaceLoop σ) (ReplaceLoop σ)) :=
  (search s.target s.cursor).bind fun found =>
  match found with
  | none => .value (.last s)
  | some found =>
    (slice s.target found.start found.finish).bind fun matched =>
    (replacement.apply host matched found.captures s.state).bind fun result =>
    (sliceTo s.target found.start).bind fun front =>
    (sliceFrom s.target found.finish).map fun back =>
      let next : ReplaceLoop σ := {
        target := front ++ result.1 ++ back
        cursor := found.start + max (utf8Len result.1) 1
        state := result.2 }
      if global then .next next else .last next

/-- The ends of the text in which matches are replaced. -/
def replacementBounds (source : List Char) (start finish : Option Value) (characterIndices : Bool) :
    Fallible String (Nat × Nat) :=
  let limit := logicalLength source characterIndices + 1
  (optionalTextIndex host start 1).bind fun start =>
  (optionalTextIndex host finish 0).map fun finish =>
    let start := max 1 (min start limit)
    let finish := if finish = 0 then limit else max start (min finish limit)
    (byteOffset source (start - 1) characterIndices, byteOffset source (finish - 1) characterIndices)

section

variable (state : σ)

def replacementOf (value : Value) : Fallible String (Replacement Target) :=
  match value with
  | .typePath path =>
    (Fallible.ofExcept (host.callTarget state (.typePath path))).map Replacement.procedure
  | value => (builtinText host state value "replacetext replacement").map Replacement.text

def replaceTextRegex (fuel : Nat) (regex : DatumId) (source replacement : Value)
    (start finish : Option Value) (characterIndices : Bool) :
    Fallible (Halt String) (Value × σ) :=
  match source with
  | .text source =>
    (Fallible.ofExcept (host.datumField state regex "_dream64_pattern")).raise.bind fun pattern =>
    (builtinText host state pattern "regex pattern").raise.bind fun pattern =>
    let flags := regexFlags host state regex
    (replacementBounds host source.toList start finish characterIndices).raise.bind fun bounds =>
    (sliceTo source.toList bounds.1).raise.bind fun front =>
    (sliceFrom source.toList bounds.2).raise.bind fun back =>
    (slice source.toList bounds.1 bounds.2).raise.bind fun target =>
    (replacementOf host state replacement).raise.bind fun replacement =>
    (Advance.run (replaceTurn host
        (fun target cursor => regexSearch host pattern flags target cursor (utf8Len target))
        replacement (flags.contains 'g')) fuel ⟨target, 0, state⟩).map fun last =>
      (.ofChars (front ++ last.target ++ back), last.state)
  | _ => .value (.null, state)

end

end Dream64
