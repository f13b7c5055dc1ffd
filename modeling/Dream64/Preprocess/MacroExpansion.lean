import Dream64.Preprocess.Loader

/-!
# Reading text that has macros

The expander of macros cuts a text into comments, literals, identifiers and the
arguments of invocations. A function of the source that gives the offset where
such a part ends gives here the part and what lies behind it. The recursion
through quoted text and its interpolations takes fuel; every character takes one
unit at most.
-/

namespace Dream64.Preprocess

/-- A part at the front of a text, and what lies behind it. -/
abbrev Cut := Text × Text

/-- The part goes on behind a text that has been taken already. -/
def Cut.behind (taken : Text) (cut : Cut) : Cut := (taken ++ cut.1, cut.2)

/-- Everything up to the end of a pattern, or to the end of the text. -/
def cutThrough (pattern : Text) : Text → Cut
  | [] => ([], [])
  | c :: text =>
    if pattern.isPrefixOf (c :: text) then (c :: text).splitAt pattern.length
    else (cutThrough pattern text).behind [c]

/-! ## Quoted text -/

/-- `escaped_interpolation_quote_end`, behind the opening quote; so many backslashes stand before
the text. -/
def escapedInterpolationQuoteEnd : (slashes : Nat) → Text → Cut
  | _, [] => ([], [])
  | slashes, c :: text =>
    if c = '\\' then (escapedInterpolationQuoteEnd (slashes + 1) text).behind [c]
    -- Behind 1, 5, 9, … backslashes stands a quote that the expression itself has.
    else if c = '"' ∧ slashes % 4 = 1 then ([c], text)
    else (escapedInterpolationQuoteEnd 0 text).behind [c]

mutual

/-- `quoted_text_end`, behind the opening delimiter. -/
def quotedTextEnd : (fuel : Nat) → (delimiter : Char) → (escaped : Bool) → Text → Cut
  | 0, _, _, text => (text, [])
  | _ + 1, _, _, [] => ([], [])
  | fuel + 1, delimiter, true, c :: text => (quotedTextEnd fuel delimiter false text).behind [c]
  | fuel + 1, delimiter, false, c :: text =>
    if c = '\\' then (quotedTextEnd fuel delimiter true text).behind [c]
    else if delimiter = '"' ∧ c = '[' then
      let inner := interpolationEnd fuel 1 text
      (quotedTextEnd fuel delimiter false inner.2).behind (c :: inner.1)
    else if c = delimiter then ([c], text)
    else (quotedTextEnd fuel delimiter false text).behind [c]

/-- `interpolation_end`, with the number of brackets that are open. -/
def interpolationEnd : (fuel : Nat) → (depth : Nat) → Text → Cut
  | 0, _, text => (text, [])
  | _ + 1, _, [] => ([], [])
  | fuel + 1, depth, c :: text =>
    if c = '\\' ∧ text.head? = some '"' then
      let inner := escapedInterpolationQuoteEnd 0 text.tail
      (interpolationEnd fuel depth inner.2).behind (c :: '"' :: inner.1)
    else if c = '"' ∨ c = '\'' then
      let inner := quotedTextEnd fuel c false text
      (interpolationEnd fuel depth inner.2).behind (c :: inner.1)
    else if c = ']' then
      if depth = 1 then ([c], text) else (interpolationEnd fuel (depth - 1) text).behind [c]
    else (interpolationEnd fuel (if c = '[' then depth + 1 else depth) text).behind [c]

end

/-- `protected_text_end`: a comment, a raw string or a literal at the front of a text. -/
def protectedText (text : Text) : Option Cut :=
  match text with
  | '/' :: '/' :: _ => some (text.span (· != '\n'))
  | '/' :: '*' :: rest => some ((cutThrough "*/".toList rest).behind "/*".toList)
  | '\x7b' :: '"' :: rest =>
    some ((cutThrough "\"\x7d".toList rest).behind "\x7b\"".toList)
  | c :: rest =>
    if c = '"' ∨ c = '\'' then some ((quotedTextEnd rest.length c false rest).behind [c]) else none
  | [] => none

/-! ## Identifiers and arguments -/

def isIdentifierStart (c : Char) : Bool := c.isAlpha || c == '_'

/-- `identifier_end` -/
def cutIdentifier (text : Text) : Cut := text.span isIdentifierCharacter

/-- `skip_horizontal_whitespace` -/
def skipHorizontalWhitespace (text : Text) : Text :=
  text.dropWhile fun c => c == ' ' || c == '\t' || c == '\r' || c == '\n'

/-- Arguments that have been read, with the last of them not at its end, and the brackets that are
open. -/
structure ArgumentState where
  arguments : List Text
  argument : Text
  stack : List Char

namespace ArgumentState

def push (state : ArgumentState) (text : Text) : ArgumentState :=
  { state with argument := state.argument ++ text }

def closing (c : Char) : Option Char :=
  if c = '(' then some ')' else if c = '[' then some ']'
  else if c = '\x7b' then some '\x7d' else none

/-- A character that does not end the arguments. -/
def step (state : ArgumentState) (c : Char) : ArgumentState :=
  match closing c with
  | some bracket => { state.push [c] with stack := bracket :: state.stack }
  | none =>
    if (c = ')' ∨ c = ']' ∨ c = '\x7d') ∧ state.stack.head? = some c then
      { state.push [c] with stack := state.stack.tail }
    else if c = ',' ∧ state.stack.length = 1 then
      { state with arguments := state.arguments ++ [trim state.argument], argument := [] }
    else state.push [c]

/-- The arguments with the last of them, unless the parentheses are empty. -/
def finish (state : ArgumentState) : List Text :=
  if (trim state.argument).isEmpty && state.arguments.isEmpty then []
  else state.arguments ++ [trim state.argument]

end ArgumentState

/-- `parse_macro_arguments`, behind the opening parenthesis: the arguments and the text up to the
closing one, if there is one. -/
def parseMacroArguments : (fuel : Nat) → ArgumentState → Text → Option (List Text × Cut)
  | 0, _, _ => none
  | _ + 1, _, [] => none
  | fuel + 1, state, c :: text =>
    match protectedText (c :: text) with
    | some cut =>
      (parseMacroArguments fuel (state.push cut.1) cut.2).map fun r => (r.1, r.2.behind cut.1)
    | none =>
      if state.stack = [c] then some (state.finish, [c], text)
      else (parseMacroArguments fuel (state.step c) text).map fun r => (r.1, r.2.behind [c])

/-- The arguments of an invocation whose name stands before the text: the text up to the closing
parenthesis, and what lies behind it; `none` if no parenthesis opens. -/
def macroInvocation (text : Text) : Option (Option (List Text × Cut)) :=
  match skipHorizontalWhitespace text with
  | '(' :: rest =>
    let spaces := text.take (text.length - (rest.length + 1))
    some ((parseMacroArguments (rest.length + 1) ⟨[], [], [')']⟩ rest).map fun r =>
      (r.1, r.2.behind (spaces ++ ['('])))
  | _ => none

/-! ## Nothing is lost -/

theorem Cut.behind_append (taken : Text) (cut : Cut) :
    (cut.behind taken).1 ++ (cut.behind taken).2 = taken ++ (cut.1 ++ cut.2) :=
  List.append_assoc ..

theorem cutThrough_append (pattern text : Text) :
    (cutThrough pattern text).1 ++ (cutThrough pattern text).2 = text := by
  induction text with
  | nil => rfl
  | cons c text ih =>
    rw [cutThrough]
    split
    · rw [List.splitAt_eq]
      exact List.take_append_drop ..
    · rw [Cut.behind_append, ih]
      rfl

theorem escapedInterpolationQuoteEnd_append (slashes : Nat) (text : Text) :
    (escapedInterpolationQuoteEnd slashes text).1 ++ (escapedInterpolationQuoteEnd slashes text).2 =
      text := by
  induction text generalizing slashes with
  | nil => rfl
  | cons c text ih =>
    rw [escapedInterpolationQuoteEnd]
    split_ifs
    · rw [Cut.behind_append, ih]
      rfl
    · rfl
    · rw [Cut.behind_append, ih]
      rfl

theorem quotedTextEnd_interpolationEnd_append (fuel : Nat) :
    (∀ delimiter escaped text, (quotedTextEnd fuel delimiter escaped text).1 ++
        (quotedTextEnd fuel delimiter escaped text).2 = text) ∧
      ∀ depth text, (interpolationEnd fuel depth text).1 ++ (interpolationEnd fuel depth text).2 =
        text := by
  induction fuel with
  | zero => exact ⟨fun _ _ text => List.append_nil text, fun _ text => List.append_nil text⟩
  | succ fuel ih =>
    obtain ⟨ihQuoted, ihInner⟩ := ih
    constructor
    · intro delimiter escaped text
      cases text with
      | nil => rfl
      | cons c text =>
        cases escaped with
        | true =>
          rw [quotedTextEnd, Cut.behind_append, ihQuoted]
          rfl
        | false =>
          rw [quotedTextEnd]
          split_ifs
          · rw [Cut.behind_append, ihQuoted]
            rfl
          · rw [Cut.behind_append, ihQuoted, List.cons_append, ihInner]
          · rfl
          · rw [Cut.behind_append, ihQuoted]
            rfl
    · intro depth text
      cases text with
      | nil => rfl
      | cons c text =>
        rw [interpolationEnd]
        split_ifs with hescaped
        · obtain ⟨-, hquote⟩ := hescaped
          rw [Cut.behind_append, ihInner, List.cons_append, List.cons_append,
            escapedInterpolationQuoteEnd_append]
          exact congrArg _ (List.cons_head?_tail hquote)
        · rw [Cut.behind_append, ihInner, List.cons_append, ihQuoted]
        · rfl
        all_goals
          rw [Cut.behind_append, ihInner]
          rfl

theorem protectedText_append {text : Text} {cut : Cut} (h : protectedText text = some cut) :
    cut.1 ++ cut.2 = text := by
  unfold protectedText at h
  split at h
  · cases h
    rw [List.span_eq_takeWhile_dropWhile]
    exact List.takeWhile_append_dropWhile
  · cases h
    rw [Cut.behind_append, cutThrough_append]
    rfl
  · cases h
    rw [Cut.behind_append, cutThrough_append]
    rfl
  · split at h
    · cases h
      rw [Cut.behind_append, (quotedTextEnd_interpolationEnd_append _).1]
      rfl
    · cases h
  · cases h

theorem cutIdentifier_append (text : Text) :
    (cutIdentifier text).1 ++ (cutIdentifier text).2 = text := by
  rw [cutIdentifier, List.span_eq_takeWhile_dropWhile]
  exact List.takeWhile_append_dropWhile

theorem parseMacroArguments_append {fuel : Nat} {state : ArgumentState} {text : Text}
    {r : List Text × Cut} (h : parseMacroArguments fuel state text = some r) :
    r.2.1 ++ r.2.2 = text := by
  induction fuel generalizing state text r with
  | zero => cases h
  | succ fuel ih =>
    cases text with
    | nil => cases h
    | cons c text =>
      rw [parseMacroArguments] at h
      split at h
      · rename_i cut hcut
        obtain ⟨r', hr, rfl⟩ := Option.map_eq_some_iff.1 h
        rw [Cut.behind_append, ih hr]
        exact protectedText_append hcut
      · split at h
        · cases h
          rfl
        · obtain ⟨r', hr, rfl⟩ := Option.map_eq_some_iff.1 h
          rw [Cut.behind_append, ih hr]
          rfl

theorem macroInvocation_append {text : Text} {r : List Text × Cut}
    (h : macroInvocation text = some (some r)) : r.2.1 ++ r.2.2 = text := by
  rw [macroInvocation] at h
  split at h
  · rename_i rest hrest
    obtain ⟨r', hr, rfl⟩ := Option.map_eq_some_iff.1 (Option.some.inj h)
    have hsuffix : ('(' :: rest) <:+ text := hrest ▸ List.dropWhile_suffix _
    obtain ⟨spaces, hspaces⟩ := hsuffix
    rw [Cut.behind_append, parseMacroArguments_append hr, ← hspaces]
    simp
  · cases h

/-!
# The expansion of macros

`expandMacro` expands one invocation. The arguments of a function macro are
expanded before they are put into its replacement, and the result is expanded
again. An expansion gives a text or a message; a slice that is cut within a
character makes it panic. The recursion takes fuel. Arguments are expanded in
the order of their parameters.
-/

inductive ExpansionError where
  | failed (message : String)
  | panicked
  | outOfFuel
deriving DecidableEq, Repr

abbrev Expand (α : Type) := Except ExpansionError α

def maxMacroExpansionDepth : Nat := 64

def decimal (n : Nat) : Text := (toString n).toList

/-! ## Substitutions -/

/-- The texts of the parameters of a function macro. -/
abbrev Substitutions := List (String × Text)

/-- A later text of a parameter takes the place of an earlier one. -/
def insertSubstitution (substitutions : Substitutions) (parameter : String) (argument : Text) :
    Substitutions :=
  substitutions.filter (·.1 != parameter) ++ [(parameter, argument)]

def substitutionOf (substitutions : Substitutions) (parameter : String) : Option Text :=
  (substitutions.find? (·.1 == parameter)).map (·.2)

/-- The arguments of an invocation, as they are written. -/
def macroSubstitutions (parameters : MacroParameters) (arguments : List Text) : Substitutions :=
  let arguments := arguments.map fun argument => spliceContinuations false (trim argument)
  let fixed := (parameters.fixed.zip arguments).foldl (fun s p => insertSubstitution s p.1 p.2) []
  match parameters.variadic with
  | some variadic => insertSubstitution fixed variadic
      (", ".toList.intercalate (arguments.drop parameters.fixed.length))
  | none => fixed

def escapeArgument (argument : Text) : Text :=
  argument.flatMap fun c => if c = '\\' ∨ c = '"' then ['\\', c] else [c]

/-- The argument of a parameter behind the operator `#`, and the text behind the parameter. -/
def stringified (substitutions : Substitutions) (text : Text) : Option Cut :=
  match text with
  | '#' :: rest =>
    let spelled := skipHorizontalWhitespace rest
    let cut := cutIdentifier spelled
    if spelled.head?.any isIdentifierStart then
      (substitutionOf substitutions (String.ofList cut.1)).map (·, cut.2)
    else none
  | _ => none

/-- A backslash with the character behind it; a slice of two bytes does not cut that character. -/
def escapePair (text : Text) : Expand Cut :=
  match text with
  | [] => .ok (['\\'], [])
  | c :: text => if c.utf8Size = 1 then .ok (['\\', c], text) else .error .panicked

/-- An interpolation with its brackets at the front of quoted text: what stands between them. -/
def interpolation (text : Text) : Option Cut :=
  match text with
  | '[' :: rest =>
    let cut := interpolationEnd rest.length 1 rest
    if cut.1.getLast? = some ']' then some (cut.1.dropLast, cut.2) else none
  | _ => none

mutual

/-- `substitute_quoted_macro_parameters` -/
def substituteQuoted (substitutions : Substitutions) : (fuel : Nat) → Text → Expand Text
  | 0, _ => .error .outOfFuel
  | _ + 1, [] => .ok []
  | fuel + 1, c :: text =>
    if c = '\\' then
      (escapePair text).bind fun cut =>
        (substituteQuoted substitutions fuel cut.2).map (cut.1 ++ ·)
    else match interpolation (c :: text) with
      | some cut =>
        (substituteFragment substitutions fuel cut.1).bind fun output =>
          (substituteQuoted substitutions fuel cut.2).map ('[' :: output ++ ']' :: ·)
      | none => (substituteQuoted substitutions fuel text).map (c :: ·)

/-- `substitute_macro_parameter_fragment` -/
def substituteFragment (substitutions : Substitutions) : (fuel : Nat) → Text → Expand Text
  | 0, _ => .error .outOfFuel
  | _ + 1, [] => .ok []
  | fuel + 1, c :: text =>
    match protectedText (c :: text) with
    | some cut =>
      (if c = '"' then substituteQuoted substitutions fuel cut.1 else .ok cut.1).bind fun output =>
        (substituteFragment substitutions fuel cut.2).map (output ++ ·)
    | none =>
      if "##".toList.isPrefixOf (c :: text) then substituteFragment substitutions fuel text.tail
      else match stringified substitutions (c :: text) with
        | some cut =>
          (substituteFragment substitutions fuel cut.2).map
            ("\\\"".toList ++ escapeArgument cut.1 ++ "\\\"".toList ++ ·)
        | none =>
          if isIdentifierStart c then
            let cut := cutIdentifier (c :: text)
            (substituteFragment substitutions fuel cut.2).map
              ((substitutionOf substitutions (String.ofList cut.1)).getD cut.1 ++ ·)
          else (substituteFragment substitutions fuel text).map (c :: ·)

end

/-- The loop of `substitute_function_macro` over the replacement; a parameter that is pasted keeps
its argument as it is written. -/
def substituteParameters (raw expanded : Substitutions) :
    (fuel : Nat) → (pasted : Bool) → Text → Expand Text
  | 0, _, _ => .error .outOfFuel
  | _ + 1, _, [] => .ok []
  | fuel + 1, pasted, c :: text =>
    match protectedText (c :: text) with
    | some cut =>
      (if c = '"' then substituteQuoted raw fuel cut.1 else .ok cut.1).bind fun output =>
        (substituteParameters raw expanded fuel pasted cut.2).map (output ++ ·)
    | none =>
      if "##".toList.isPrefixOf (c :: text) then substituteParameters raw expanded fuel true text.tail
      else match stringified raw (c :: text) with
        | some cut =>
          (substituteParameters raw expanded fuel pasted cut.2).map
            ('"' :: escapeArgument cut.1 ++ '"' :: ·)
        | none =>
          if isIdentifierStart c then
            let cut := cutIdentifier (c :: text)
            let parameter := String.ofList cut.1
            let output := match substitutionOf raw parameter with
              | some argument =>
                if pasted then argument else (substitutionOf expanded parameter).getD []
              | none => cut.1
            (substituteParameters raw expanded fuel false cut.2).map (output ++ ·)
          else (substituteParameters raw expanded fuel false text).map (c :: ·)

/-! ## Expansions -/

/-- What an expansion has of its surroundings. -/
structure Site where
  macros : Macros
  /-- The path of the file as a string literal. -/
  fileLiteral : Text
  line : Nat

def recursionMessage (stack : List String) (name : String) : String :=
  "recursive macro expansion: " ++ " -> ".intercalate (stack.dropWhile (· != name) ++ [name])

def countMessage (name : String) (expected received : Nat) : String :=
  s!"function macro {name} expects {expected} argument" ++ (if expected = 1 then "" else "s") ++
    s!" but received {received}"

/-- Whether a function macro takes so many arguments. -/
def MacroParameters.accepts (parameters : MacroParameters) (arguments : Nat) : Bool :=
  parameters.fixed.length ≤ arguments &&
    (parameters.variadic.isSome || arguments ≤ parameters.fixed.length)

namespace Site

variable (site : Site)

mutual

/-- `expand_macro` -/
def expandMacro : (fuel : Nat) → (stack : List String) → (name : String) →
    (arguments : Option (List Text)) → Expand Text
  | 0, _, _, _ => .error .outOfFuel
  | fuel + 1, stack, name, arguments =>
    if name = "__FILE__" then .ok site.fileLiteral
    else if name = "__LINE__" then .ok (decimal site.line)
    else if name ∈ stack then .error (.failed (recursionMessage stack name))
    else if maxMacroExpansionDepth ≤ stack.length then
      .error (.failed
        s!"macro expansion exceeded {maxMacroExpansionDepth} levels while expanding {name}")
    else match site.macros name with
      | none => .ok name.toList
      | some definition =>
        match definition.parameters, arguments with
        | some parameters, some arguments =>
          substituteFunctionMacro fuel (stack ++ [name]) name definition.replacement parameters
            arguments
        | some _, none => .error (.failed s!"function macro {name} requires a call")
        | none, _ => expandReplacement fuel (stack ++ [name]) definition.replacement

/-- `expand_replacement` -/
def expandReplacement : (fuel : Nat) → (stack : List String) → Text → Expand Text
  | 0, _, _ => .error .outOfFuel
  | _ + 1, _, [] => .ok []
  | fuel + 1, stack, c :: text =>
    match protectedText (c :: text) with
    | some cut =>
      (if c = '"' then expandQuoted fuel stack cut.1 else .ok cut.1).bind fun output =>
        (expandReplacement fuel stack cut.2).map (output ++ ·)
    | none =>
      if isIdentifierStart c then
        let cut := cutIdentifier (c :: text)
        (expandIdentifier fuel stack (String.ofList cut.1) cut.2).bind fun cut =>
          (expandReplacement fuel stack cut.2).map (cut.1 ++ ·)
      else (expandReplacement fuel stack text).map (c :: ·)

/-- An identifier with the text behind it: what it expands to, and what is left of the text. -/
def expandIdentifier : (fuel : Nat) → (stack : List String) → (name : String) → Text → Expand Cut
  | 0, _, _, _ => .error .outOfFuel
  | fuel + 1, stack, name, text =>
    if name = "__FILE__" then .ok (site.fileLiteral, text)
    else if name = "__LINE__" then .ok (decimal site.line, text)
    else match site.macros name with
      | none => .ok (name.toList, text)
      | some definition =>
        if definition.parameters.isNone then (expandMacro fuel stack name none).map (·, text)
        else match macroInvocation text with
          | none => .ok (name.toList, text)
          | some none =>
            .error (.failed s!"while expanding {name}: {unterminatedInvocation}")
          | some (some (arguments, cut)) =>
            if name ∈ stack then .ok (name.toList ++ cut.1, cut.2)
            else (expandMacro fuel stack name (some arguments)).map (·, cut.2)

/-- `expand_quoted_macro_interpolations` -/
def expandQuoted : (fuel : Nat) → (stack : List String) → Text → Expand Text
  | 0, _, _ => .error .outOfFuel
  | _ + 1, _, [] => .ok []
  | fuel + 1, stack, c :: text =>
    if c = '\\' then
      (escapePair text).bind fun cut => (expandQuoted fuel stack cut.2).map (cut.1 ++ ·)
    else match interpolation (c :: text) with
      | some cut =>
        (expandReplacement fuel stack cut.1).bind fun output =>
          (expandQuoted fuel stack cut.2).map ('[' :: output ++ ']' :: ·)
      | none => (expandQuoted fuel stack text).map (c :: ·)

/-- `substitute_function_macro`, with the macro itself on top of the stack. -/
def substituteFunctionMacro : (fuel : Nat) → (stack : List String) → (name : String) →
    (replacement : Text) → MacroParameters → (arguments : List Text) → Expand Text
  | 0, _, _, _, _, _ => .error .outOfFuel
  | fuel + 1, stack, name, replacement, parameters, arguments =>
    if parameters.accepts arguments.length then
      let raw := macroSubstitutions parameters arguments
      (expandArguments fuel stack.dropLast raw).bind fun expanded =>
        (substituteParameters raw expanded (replacement.length + 1) false replacement).bind
          (expandReplacement fuel stack)
    else .error (.failed (countMessage name parameters.fixed.length arguments.length))

/-- The arguments, where the invoked macro is not disabled yet. -/
def expandArguments : (fuel : Nat) → (stack : List String) → Substitutions → Expand Substitutions
  | 0, _, _ => .error .outOfFuel
  | _ + 1, _, [] => .ok []
  | fuel + 1, stack, (parameter, argument) :: substitutions =>
    (expandReplacement fuel stack argument).bind fun expanded =>
      (expandArguments fuel stack substitutions).map ((parameter, expanded) :: ·)

end

end Site

end Dream64.Preprocess
