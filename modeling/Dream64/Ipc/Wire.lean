import Dream64.Ipc.TextEncoding

/-!
# Parsing a frame

A frame is a line of words: the name of a command, the session and the
arguments. Each argument is taken and checked in turn, so the first thing
that is wrong gives the error. Texts are hex fields; the pointer commands take
`-` for an empty text. How a binary32 number is displayed and parsed is a
parameter.
-/

namespace Dream64.Ipc

open Words (splitAsciiWhitespace splitOnce)

/-- `Display` and `FromStr` of `f32`. -/
structure FloatText where
  display : DmNumberBits → String
  parse : String → Option DmNumberBits

abbrev Word := List Char

/-- `p.next().ok_or(missing)?` -/
def nextWord {α : Type} (missing : String) (p : List Word)
    (rest : Word → List Word → Fallible String α) : Fallible String α :=
  match p with
  | [] => .error missing
  | word :: p => rest word p

/-- There must be no more words. -/
def ended {α : Type} (trailing : String) (p : List Word) (rest : Fallible String α) :
    Fallible String α :=
  match p with
  | [] => rest
  | _ => .error trailing

def parseU64 (word : Word) : Option (BitVec 64) :=
  (Numerals.parseNat 10 (2 ^ 64) word).map (BitVec.ofNat 64)

def parseU32 (word : Word) : Option (BitVec 32) :=
  (Numerals.parseNat 10 (2 ^ 32) word).map (BitVec.ofNat 32)

def parseU32Hex (word : Word) : Option (BitVec 32) :=
  (Numerals.parseNat 16 (2 ^ 32) word).map (BitVec.ofNat 32)

def parseI32 (word : Word) : Option (BitVec 32) := Numerals.parseInt 31 word

/-- A command that has a session only. -/
def parseSession (missing trailing : String) (command : String → Command) (p : List Word) :
    Fallible String Command :=
  nextWord missing p fun session p => ended trailing p (.value (command (String.ofList session)))

def parseMove (p : List Word) : Fallible String Command :=
  nextWord "move session is missing" p fun session p =>
    let direction := p.head?.bind fun word =>
      match String.ofList word with
      | "north" => some .north
      | "south" => some .south
      | "east" => some .east
      | "west" => some .west
      | _ => none
    (Fallible.orError direction "move direction is invalid").bind fun direction =>
      ended "move has trailing arguments" p.tail (.value (.move (String.ofList session) direction))

/-- A session and one hex field. -/
def parsePayload (sessionMissing missing trailing invalid : String)
    (command : String → String → Command) (p : List Word) : Fallible String Command :=
  nextWord sessionMissing p fun session p =>
    nextWord missing p fun payload p =>
      ended trailing p <|
        (unhexText invalid payload).map fun text => command (String.ofList session) text

def parseResource : List Word → Fallible String Command :=
  parsePayload "resource session is missing" "resource path is missing"
    "resource has trailing arguments" "resource path is not UTF-8" .resource

def maxResourceChunkBytes : Nat := 256 * 1024

def parseResourceChunk (p : List Word) : Fallible String Command :=
  nextWord "resource_chunk session is missing" p fun session p =>
    nextWord "resource_chunk path is missing" p fun path p =>
      nextWord "resource_chunk offset is missing" p fun offset p =>
        (Fallible.orError (parseU64 offset) "resource_chunk offset is invalid").bind fun offset =>
          nextWord "resource_chunk length is missing" p fun length p =>
            (Fallible.orError (parseU32 length) "resource_chunk length is invalid").bind
              fun length =>
                ended "resource_chunk has trailing arguments" p <|
                  if length.toNat = 0 ∨ maxResourceChunkBytes < length.toNat then
                    .error "resource_chunk length is out of range"
                  else
                    (unhexText "resource_chunk path is not UTF-8" path).map fun path =>
                      .resourceChunk (String.ofList session) path offset length

def parseUiAck (p : List Word) : Fallible String Command :=
  nextWord "ui_ack session is missing" p fun session p =>
    nextWord "ui_ack sequence is missing" p fun sequence p =>
      (Fallible.orError (parseU64 sequence) "ui_ack sequence is invalid").bind fun sequence =>
        ended "ui_ack has trailing arguments" p (.value (.uiAck (String.ofList session) sequence))

/-- The datum that a pointer event is for. -/
def parseTarget {α : Type} (kind : String) (p : List Word)
    (rest : BitVec 32 → BitVec 32 → List Word → Fallible String α) : Fallible String α :=
  nextWord (kind ++ " target is missing") p fun target p =>
    (Fallible.orError (splitOnce ':' target) (kind ++ " target is invalid")).bind fun parts =>
      (Fallible.orError (parseU32Hex parts.1) (kind ++ " index is invalid")).bind fun index =>
        (Fallible.orError (parseU32Hex parts.2) (kind ++ " generation is invalid")).bind
          fun generation => rest index generation p

/-- A hex field in which `-` is the empty text. -/
def decodeText (message : String) (value : Word) : Fallible String String :=
  if value = ['-'] then .value "" else unhexText message value

/-- The last two fields of a pointer event. -/
def parseTexts {α : Type} (kind first : String) (p : List Word)
    (rest : String → String → Fallible String α) : Fallible String α :=
  nextWord (kind ++ " " ++ first ++ " is missing") p fun value p =>
    (decodeText (kind ++ " field is not UTF-8") value).bind fun firstText =>
      nextWord (kind ++ " params are missing") p fun value p =>
        (decodeText (kind ++ " field is not UTF-8") value).bind fun params =>
          ended (kind ++ " has trailing arguments") p (rest firstText params)

def pointerEvent (word : Word) : Option LocalScreenPointerEvent :=
  match String.ofList word with
  | "entered" => some .entered
  | "exited" => some .exited
  | "click" => some .click
  | _ => none

def parseScreenPointer (p : List Word) : Fallible String Command :=
  nextWord "screen_pointer session is missing" p fun session p =>
    parseTarget "screen_pointer" p fun index generation p =>
      (Fallible.orError (p.head?.bind pointerEvent) "screen_pointer event is invalid").bind
        fun event =>
          parseTexts "screen_pointer" "location" p.tail fun location params =>
            .value (.screenPointer (String.ofList session) index generation event location params)

/-- A coordinate of a map pointer. -/
def parseCoordinate {α : Type} (name : String) (p : List Word)
    (rest : BitVec 32 → List Word → Fallible String α) : Fallible String α :=
  nextWord ("map_pointer " ++ name ++ " is missing") p fun word p =>
    (Fallible.orError (parseI32 word) ("map_pointer " ++ name ++ " is invalid")).bind
      fun coordinate => rest coordinate p

def parseMapPointer (p : List Word) : Fallible String Command :=
  nextWord "map_pointer session is missing" p fun session p =>
    parseTarget "map_pointer" p fun index generation p =>
      parseCoordinate "x" p fun x p =>
        parseCoordinate "y" p fun y p =>
          parseCoordinate "z" p fun z p =>
            parseTexts "map_pointer" "control" p fun control params =>
              .value (.mapPointer (String.ofList session) index generation x y z control params)

def parseBrowserTopic : List Word → Fallible String Command :=
  parsePayload "browser_topic session is missing" "browser_topic payload is missing"
    "browser_topic has trailing arguments" "browser_topic payload is not UTF-8" .browserTopic

def parseClientCommand : List Word → Fallible String Command :=
  parsePayload "client_command session is missing" "client_command payload is missing"
    "client_command has trailing arguments" "client_command payload is not UTF-8" .clientCommand

def parseResponse (floats : FloatText) (kind payload : Word) :
    Fallible String LocalClientPromptResponse :=
  match String.ofList kind with
  | "null" =>
    if payload = ['-'] then .value .null else .error "prompt_response kind is invalid"
  | "text" =>
    (unhexText "prompt_response text is not UTF-8" payload).map LocalClientPromptResponse.text
  | "number" =>
    (Fallible.orError (floats.parse (String.ofList payload))
      "prompt_response number is invalid").map LocalClientPromptResponse.number
  | "choice" =>
    (Fallible.orError (parseU64 payload) "prompt_response choice is invalid").map
      LocalClientPromptResponse.choice
  | _ => .error "prompt_response kind is invalid"

def parsePromptResponse (floats : FloatText) (p : List Word) : Fallible String Command :=
  nextWord "prompt_response session is missing" p fun session p =>
    nextWord "prompt_response id is missing" p fun id p =>
      (Fallible.orError (parseU64 id) "prompt_response id is invalid").bind fun id =>
        nextWord "prompt_response kind is missing" p fun kind p =>
          nextWord "prompt_response payload is missing" p fun payload p =>
            ended "prompt_response has trailing arguments" p <|
              (parseResponse floats kind payload).map fun response =>
                .promptResponse (String.ofList session) id response

def parseWords (floats : FloatText) : List Word → Fallible String Command
  | [] => .error "empty command"
  | command :: p =>
    match String.ofList command with
    | "ping" => if p = [] then .value .ping else .error "unknown command"
    | "attach" => if p = [] then .value .attach else .error "unknown command"
    | "map_snapshot" =>
      parseSession "map_snapshot session is missing" "map_snapshot has trailing arguments"
        .mapSnapshot p
    | "screen_snapshot" =>
      parseSession "screen_snapshot session is missing" "screen_snapshot has trailing arguments"
        .screenSnapshot p
    | "move" => parseMove p
    | "resource" => parseResource p
    | "resource_chunk" => parseResourceChunk p
    | "ui_events" =>
      parseSession "ui_events session is missing" "ui_events has trailing arguments" .uiEvents p
    | "ui_ack" => parseUiAck p
    | "skin_ready" =>
      parseSession "readiness session is missing" "readiness command has trailing arguments"
        .skinReady p
    | "resources_ready" =>
      parseSession "readiness session is missing" "readiness command has trailing arguments"
        .resourcesReady p
    | "input_ready" =>
      parseSession "readiness session is missing" "readiness command has trailing arguments"
        .inputReady p
    | "screen_pointer" => parseScreenPointer p
    | "map_pointer" => parseMapPointer p
    | "browser_topic" => parseBrowserTopic p
    | "client_command" => parseClientCommand p
    | "prompt_response" => parsePromptResponse floats p
    | _ => .error "unknown command"

def parseCommand (floats : FloatText) (frame : List UInt8) : Fallible String Command :=
  (Fallible.orError (Codec.ofUtf8 frame) "frame is not UTF-8").bind fun text =>
    parseWords floats (splitAsciiWhitespace text.toList)

/-! ## Frames that panic -/

/-- A session and a hex field that is cut inside a character. -/
def payloadCut : List Word → Bool
  | [_, payload] => cutsHexField payload
  | _ => false

/-- The field of the path is decoded behind the checks of the numbers. -/
def chunkCut : List Word → Bool
  | [_, path, offset, length] =>
    (parseU64 offset).isSome &&
      (parseU32 length).any (fun length =>
        decide (¬ (length.toNat = 0 ∨ maxResourceChunkBytes < length.toNat))) && cutsHexField path
  | _ => false

/-- One of the texts of a pointer event, with a decodable text in front of it. -/
def textsCut : List Word → Bool
  | [] => false
  | first :: p =>
    (first != ['-'] && cutsHexField first) ||
      ((first == ['-'] || (hexPairsText first).isSome) &&
        p.head?.any fun second => second != ['-'] && cutsHexField second)

def isTarget (target : Word) : Bool :=
  (splitOnce ':' target).any fun parts =>
    (parseU32Hex parts.1).isSome && (parseU32Hex parts.2).isSome

def screenPointerCut : List Word → Bool
  | _ :: target :: event :: p => isTarget target && (pointerEvent event).isSome && textsCut p
  | _ => false

def mapPointerCut : List Word → Bool
  | _ :: target :: x :: y :: z :: p =>
    isTarget target && (parseI32 x).isSome && (parseI32 y).isSome && (parseI32 z).isSome &&
      textsCut p
  | _ => false

def promptCut : List Word → Bool
  | [_, id, kind, payload] =>
    (parseU64 id).isSome && String.ofList kind == "text" && cutsHexField payload
  | _ => false

/-- A hex field that the parser comes to is cut inside a character. -/
def wordsCut : List Word → Bool
  | [] => false
  | command :: p =>
    match String.ofList command with
    | "resource" => payloadCut p
    | "resource_chunk" => chunkCut p
    | "screen_pointer" => screenPointerCut p
    | "map_pointer" => mapPointerCut p
    | "browser_topic" => payloadCut p
    | "client_command" => payloadCut p
    | "prompt_response" => promptCut p
    | _ => false

def frameCut (frame : List UInt8) : Bool :=
  (Codec.ofUtf8 frame).any fun text => wordsCut (splitAsciiWhitespace text.toList)

section

variable {α β : Type}

theorem nextWord_eq_panic {missing : String} {p : List Word}
    {rest : Word → List Word → Fallible String α} :
    nextWord missing p rest = .panic ↔ ∃ word words, p = word :: words ∧ rest word words = .panic := by
  cases p with
  | nil => simp [nextWord]
  | cons word words => simp [nextWord]

theorem ended_eq_panic {trailing : String} {p : List Word} {rest : Fallible String α} :
    ended trailing p rest = .panic ↔ p = [] ∧ rest = .panic := by
  cases p with
  | nil => simp [ended]
  | cons word words => simp [ended]

theorem orError_bind_eq_panic {x : Option α} {message : String} {f : α → Fallible String β} :
    (Fallible.orError x message).bind f = .panic ↔ ∃ a, x = some a ∧ f a = .panic := by
  cases x with
  | none => simp
  | some a => simp

end

theorem parseSession_ne_panic (missing trailing : String) (command : String → Command)
    (p : List Word) : parseSession missing trailing command p ≠ .panic := by
  rw [parseSession, ne_eq, nextWord_eq_panic]
  rintro ⟨word, words, -, h⟩
  cases (ended_eq_panic.1 h).2

theorem parseMove_ne_panic (p : List Word) : parseMove p ≠ .panic := by
  rw [parseMove, ne_eq, nextWord_eq_panic]
  rintro ⟨word, words, -, h⟩
  obtain ⟨direction, -, h⟩ := orError_bind_eq_panic.1 h
  cases (ended_eq_panic.1 h).2

theorem parseUiAck_ne_panic (p : List Word) : parseUiAck p ≠ .panic := by
  rw [parseUiAck, ne_eq, nextWord_eq_panic]
  rintro ⟨word, words, -, h⟩
  obtain ⟨word, words, -, h⟩ := nextWord_eq_panic.1 h
  obtain ⟨sequence, -, h⟩ := orError_bind_eq_panic.1 h
  cases (ended_eq_panic.1 h).2

theorem parsePayload_eq_panic {sessionMissing missing trailing invalid : String}
    {command : String → String → Command} (p : List Word) :
    parsePayload sessionMissing missing trailing invalid command p = .panic ↔
      payloadCut p = true := by
  rw [parsePayload]
  simp only [nextWord_eq_panic, ended_eq_panic, Fallible.map_eq_panic, unhexText_eq_panic]
  constructor
  · rintro ⟨session, words, rfl, payload, rest, rfl, rfl, hcut⟩
    exact hcut
  · intro hcut
    unfold payloadCut at hcut
    split at hcut
    · exact ⟨_, _, rfl, _, _, rfl, rfl, hcut⟩
    · cases hcut

theorem parseResourceChunk_eq_panic (p : List Word) :
    parseResourceChunk p = .panic ↔ chunkCut p = true := by
  rw [parseResourceChunk]
  simp only [nextWord_eq_panic, ended_eq_panic, orError_bind_eq_panic]
  constructor
  · rintro ⟨session, words, rfl, path, words, rfl, word, words, rfl, offset, hoffset, word', words,
      rfl, length, hlength, rfl, h⟩
    split at h
    · cases h
    · rename_i hrange
      have hcut := unhexText_eq_panic.1 (Fallible.map_eq_panic.1 h)
      simp only [chunkCut, hoffset, hlength, hcut, Option.isSome_some, Option.any_some,
        decide_eq_true hrange, Bool.and_self]
  · intro hcut
    unfold chunkCut at hcut
    split at hcut
    · rename_i session path offset length
      simp only [Bool.and_eq_true] at hcut
      obtain ⟨⟨hoffset, hlength⟩, hpath⟩ := hcut
      obtain ⟨offset', hoffset'⟩ := Option.isSome_iff_exists.1 hoffset
      obtain ⟨length', hlength', hrange⟩ := (Option.any_eq_true _ _).1 hlength
      refine ⟨_, _, rfl, _, _, rfl, _, _, rfl, offset', hoffset', _, _, rfl, length', hlength', rfl,
        ?_⟩
      rw [if_neg (of_decide_eq_true hrange)]
      exact Fallible.map_eq_panic.2 (unhexText_eq_panic.2 hpath)
    · cases hcut

theorem parseTarget_eq_panic {α : Type} {kind : String} {p : List Word}
    {rest : BitVec 32 → BitVec 32 → List Word → Fallible String α} :
    parseTarget kind p rest = .panic ↔ ∃ target words parts index generation,
      p = target :: words ∧ splitOnce ':' target = some parts ∧
        parseU32Hex parts.1 = some index ∧ parseU32Hex parts.2 = some generation ∧
          rest index generation words = .panic := by
  rw [parseTarget]
  simp only [nextWord_eq_panic, orError_bind_eq_panic]
  constructor
  · rintro ⟨target, words, hp, parts, hparts, index, hindex, generation, hgeneration, h⟩
    exact ⟨target, words, parts, index, generation, hp, hparts, hindex, hgeneration, h⟩
  · rintro ⟨target, words, parts, index, generation, hp, hparts, hindex, hgeneration, h⟩
    exact ⟨target, words, hp, parts, hparts, index, hindex, generation, hgeneration, h⟩

theorem isTarget_iff {target : Word} : isTarget target = true ↔
    ∃ parts index generation, splitOnce ':' target = some parts ∧
      parseU32Hex parts.1 = some index ∧ parseU32Hex parts.2 = some generation := by
  rw [isTarget, Option.any_eq_true]
  simp only [Bool.and_eq_true, Option.isSome_iff_exists]
  constructor
  · rintro ⟨parts, hparts, ⟨index, hindex⟩, generation, hgeneration⟩
    exact ⟨parts, index, generation, hparts, hindex, hgeneration⟩
  · rintro ⟨parts, index, generation, hparts, hindex, hgeneration⟩
    exact ⟨parts, hparts, ⟨index, hindex⟩, generation, hgeneration⟩

theorem decodeText_eq_panic {message : String} {value : Word} :
    decodeText message value = .panic ↔ (value != ['-'] && cutsHexField value) = true := by
  rw [decodeText]
  split
  · rename_i hdash
    simp [hdash]
  · rename_i hdash
    rw [unhexText_eq_panic]
    simp [hdash]

theorem decodeText_isValue (message : String) {value : Word} :
    (∃ text, decodeText message value = .value text) ↔
      (value == ['-'] || (hexPairsText value).isSome) = true := by
  rw [decodeText]
  split
  · rename_i hdash
    simp [hdash]
  · rename_i hdash
    simp only [unhexText_eq_value, Bool.or_eq_true, Option.isSome_iff_exists, beq_iff_eq, hdash,
      false_or]

theorem parseTexts_eq_panic {α : Type} {kind first : String} {p : List Word}
    {rest : String → String → Fallible String α} (hrest : ∀ a b, rest a b ≠ .panic) :
    parseTexts kind first p rest = .panic ↔ textsCut p = true := by
  rw [parseTexts]
  cases p with
  | nil => simp [nextWord, textsCut]
  | cons value p =>
    rw [nextWord, textsCut, Fallible.bind_eq_panic, decodeText_eq_panic, Bool.or_eq_true,
      Bool.and_eq_true (_ || _)]
    refine or_congr Iff.rfl ?_
    have hsecond : ∀ firstText, nextWord (kind ++ " params are missing") p (fun value p =>
        (decodeText (kind ++ " field is not UTF-8") value).bind fun params =>
          ended (kind ++ " has trailing arguments") p (rest firstText params)) = .panic ↔
        (p.head?.any fun second => second != ['-'] && cutsHexField second) = true := by
      intro firstText
      rw [nextWord_eq_panic]
      cases p with
      | nil => simp
      | cons second p =>
        simp only [Fallible.bind_eq_panic, decodeText_eq_panic, ended_eq_panic, hrest, and_false,
          exists_false, or_false, List.cons.injEq, List.head?_cons, Option.any_some]
        constructor
        · rintro ⟨word, words, ⟨rfl, rfl⟩, h⟩
          exact h
        · intro h
          exact ⟨second, p, ⟨rfl, rfl⟩, h⟩
    constructor
    · rintro ⟨firstText, hfirst, h⟩
      exact ⟨(decodeText_isValue _).1 ⟨firstText, hfirst⟩, (hsecond firstText).1 h⟩
    · rintro ⟨hfirst, h⟩
      obtain ⟨firstText, hfirst⟩ :=
        (decodeText_isValue (kind ++ " field is not UTF-8")).2 hfirst
      exact ⟨firstText, hfirst, (hsecond firstText).2 h⟩

theorem parseScreenPointer_eq_panic (p : List Word) :
    parseScreenPointer p = .panic ↔ screenPointerCut p = true := by
  rw [parseScreenPointer, nextWord_eq_panic]
  simp only [parseTarget_eq_panic, orError_bind_eq_panic]
  constructor
  · rintro ⟨session, words, rfl, target, words, parts, index, generation, rfl, hparts, hindex,
      hgeneration, event, hevent, h⟩
    have htexts := (parseTexts_eq_panic fun _ _ heq => by cases heq).1 h
    have htarget := isTarget_iff.2 ⟨parts, index, generation, hparts, hindex, hgeneration⟩
    cases words with
    | nil => cases hevent
    | cons word words =>
      have hevent : pointerEvent word = some event := hevent
      have htexts : textsCut words = true := htexts
      simp [screenPointerCut, htarget, hevent, htexts]
  · intro hcut
    unfold screenPointerCut at hcut
    split at hcut
    · rename_i session target word words
      simp only [Bool.and_eq_true] at hcut
      obtain ⟨⟨htarget, hevent⟩, htexts⟩ := hcut
      obtain ⟨parts, index, generation, hparts, hindex, hgeneration⟩ := isTarget_iff.1 htarget
      obtain ⟨event, hevent⟩ := Option.isSome_iff_exists.1 hevent
      exact ⟨session, _, rfl, target, _, parts, index, generation, rfl, hparts, hindex,
        hgeneration, event, hevent,
        (parseTexts_eq_panic fun _ _ heq => by cases heq).2 htexts⟩
    · cases hcut

theorem parseCoordinate_eq_panic {α : Type} {name : String} {p : List Word}
    {rest : BitVec 32 → List Word → Fallible String α} :
    parseCoordinate name p rest = .panic ↔
      ∃ word words coordinate, p = word :: words ∧ parseI32 word = some coordinate ∧
        rest coordinate words = .panic := by
  rw [parseCoordinate]
  simp only [nextWord_eq_panic, orError_bind_eq_panic]
  constructor
  · rintro ⟨word, words, hp, coordinate, hword, h⟩
    exact ⟨word, words, coordinate, hp, hword, h⟩
  · rintro ⟨word, words, coordinate, hp, hword, h⟩
    exact ⟨word, words, hp, coordinate, hword, h⟩

theorem parseMapPointer_eq_panic (p : List Word) :
    parseMapPointer p = .panic ↔ mapPointerCut p = true := by
  rw [parseMapPointer, nextWord_eq_panic]
  simp only [parseTarget_eq_panic, parseCoordinate_eq_panic]
  constructor
  · rintro ⟨session, words, rfl, target, words, parts, index, generation, rfl, hparts, hindex,
      hgeneration, wx, words, x, rfl, hx, wy, words, y, rfl, hy, wz, words, z, rfl, hz, h⟩
    have htexts := (parseTexts_eq_panic fun _ _ heq => by cases heq).1 h
    have htarget := isTarget_iff.2 ⟨parts, index, generation, hparts, hindex, hgeneration⟩
    simp [mapPointerCut, htarget, hx, hy, hz, htexts]
  · intro hcut
    unfold mapPointerCut at hcut
    split at hcut
    · simp only [Bool.and_eq_true] at hcut
      obtain ⟨⟨⟨⟨htarget, hx⟩, hy⟩, hz⟩, htexts⟩ := hcut
      obtain ⟨parts, index, generation, hparts, hindex, hgeneration⟩ := isTarget_iff.1 htarget
      obtain ⟨x, hx⟩ := Option.isSome_iff_exists.1 hx
      obtain ⟨y, hy⟩ := Option.isSome_iff_exists.1 hy
      obtain ⟨z, hz⟩ := Option.isSome_iff_exists.1 hz
      exact ⟨_, _, rfl, _, _, parts, index, generation, rfl, hparts, hindex, hgeneration, _, _, x,
        rfl, hx, _, _, y, rfl, hy, _, _, z, rfl, hz,
        (parseTexts_eq_panic fun _ _ heq => by cases heq).2 htexts⟩
    · cases hcut

theorem parseResponse_eq_panic (floats : FloatText) (kind payload : Word) :
    parseResponse floats kind payload = .panic ↔
      (String.ofList kind == "text" && cutsHexField payload) = true := by
  rw [parseResponse]
  split
  · rename_i hkind
    rw [hkind]
    split
    · simp
    · simp
  · rename_i hkind
    rw [hkind, Fallible.map_eq_panic, unhexText_eq_panic]
    simp
  · rename_i hkind
    rw [hkind, Fallible.map_eq_panic]
    simp [Fallible.orError_ne_panic]
  · rename_i hkind
    rw [hkind, Fallible.map_eq_panic]
    simp [Fallible.orError_ne_panic]
  · rename_i htext _ _
    rw [beq_eq_false_iff_ne.2 htext]
    simp

theorem parsePromptResponse_eq_panic (floats : FloatText) (p : List Word) :
    parsePromptResponse floats p = .panic ↔ promptCut p = true := by
  rw [parsePromptResponse]
  simp only [nextWord_eq_panic, orError_bind_eq_panic, ended_eq_panic, Fallible.map_eq_panic,
    parseResponse_eq_panic]
  constructor
  · rintro ⟨session, words, rfl, word, words, rfl, id, hid, kind, words, rfl, payload, words, rfl,
      rfl, hcut⟩
    rw [promptCut, hid, Bool.and_assoc, hcut]
    rfl
  · intro hcut
    unfold promptCut at hcut
    split at hcut
    · rw [Bool.and_assoc, Bool.and_eq_true] at hcut
      obtain ⟨id, hid⟩ := Option.isSome_iff_exists.1 hcut.1
      exact ⟨_, _, rfl, _, _, rfl, id, hid, _, _, rfl, _, _, rfl, rfl, hcut.2⟩
    · cases hcut

theorem parseWords_eq_panic (floats : FloatText) (words : List Word) :
    parseWords floats words = .panic ↔ wordsCut words = true := by
  cases words with
  | nil => simp [parseWords, wordsCut]
  | cons command p =>
    rw [parseWords, wordsCut]
    generalize String.ofList command = name
    split
    · split
      · simp
      · simp
    · split
      · simp
      · simp
    · simp [parseSession_ne_panic]
    · simp [parseSession_ne_panic]
    · simp [parseMove_ne_panic]
    · exact parsePayload_eq_panic p
    · exact parseResourceChunk_eq_panic p
    · simp [parseSession_ne_panic]
    · simp [parseUiAck_ne_panic]
    · simp [parseSession_ne_panic]
    · simp [parseSession_ne_panic]
    · simp [parseSession_ne_panic]
    · exact parseScreenPointer_eq_panic p
    · exact parseMapPointer_eq_panic p
    · exact parsePayload_eq_panic p
    · exact parsePayload_eq_panic p
    · exact parsePromptResponse_eq_panic floats p
    · split
      all_goals first | contradiction | simp

/-- A frame panics exactly if a hex field that the parser comes to is cut inside a character. -/
theorem parseCommand_eq_panic (floats : FloatText) (frame : List UInt8) :
    parseCommand floats frame = .panic ↔ frameCut frame = true := by
  rw [parseCommand, orError_bind_eq_panic, frameCut, Option.any_eq_true]
  simp only [parseWords_eq_panic]

end Dream64.Ipc
