import Dream64.Ipc.Wire

/-!
# The requests of the client

What the transport of the client writes for each of its operations, and the
command that the operation means. The pointer operations write `-` for an
empty text; topics, commands, text answers and resource paths are written as
they are, so that an empty one gives an empty field, which is no word of the
frame. `requests_understood` says that these are the only requests that are
not understood.
-/

namespace Dream64.Ipc

open Words (Unspaced joined splitOnce)

/-- A session as the server names it: one word. -/
structure SessionToken where
  text : String
  ne_empty : text ≠ ""
  unspaced : Unspaced text.toList

inductive ClientRequest where
  | attach
  | requestSnapshot
  | requestScreenSnapshot
  | sendMovement (direction : LocalMovementDirection)
  /-- The whole resource, as recordings have it. -/
  | requestRecordedResource (path : String)
  | requestResource (path : String) (offset : BitVec 64)
  | pollUiEvents
  | acknowledgeUi (sequence : BitVec 64)
  | sendReadiness (phase : ReadinessPhase)
  | sendScreenPointer (index generation : BitVec 32) (event : LocalScreenPointerEvent)
      (location params : String)
  | sendMapPointer (index generation : BitVec 32) (x y z : BitVec 32) (control params : String)
  | sendBrowserTopic (topic : String)
  | sendCommand (command : String)
  | sendPromptResponse (id : BitVec 64) (response : LocalClientPromptResponse)
deriving DecidableEq, Repr

def resourceChunkBytes : BitVec 32 := 256 * 1024

def encodeHex (text : String) : Word := hex (Codec.utf8 text)

def textField (text : String) : Word := if text.isEmpty then ['-'] else encodeHex text

def LocalMovementDirection.word : LocalMovementDirection → String
  | .north => "north"
  | .south => "south"
  | .east => "east"
  | .west => "west"

def LocalScreenPointerEvent.word : LocalScreenPointerEvent → String
  | .entered => "entered"
  | .exited => "exited"
  | .click => "click"

def ReadinessPhase.word : ReadinessPhase → String
  | .skin => "skin_ready"
  | .resources => "resources_ready"
  | .input => "input_ready"

def targetField (index generation : BitVec 32) : Word :=
  Numerals.printNat 16 index.toNat ++ ':' :: Numerals.printNat 16 generation.toNat

def responseFields (floats : FloatText) : LocalClientPromptResponse → List Word
  | .null => ["null".toList, ['-']]
  | .text text => ["text".toList, encodeHex text]
  | .number bits => ["number".toList, (floats.display bits).toList]
  | .choice index => ["choice".toList, Numerals.printNat 10 index.toNat]

namespace ClientRequest

/-- The fields of the line that the transport writes. -/
def fields (floats : FloatText) (session : Word) : ClientRequest → List Word
  | .attach => ["attach".toList]
  | .requestSnapshot => ["map_snapshot".toList, session]
  | .requestScreenSnapshot => ["screen_snapshot".toList, session]
  | .sendMovement direction => ["move".toList, session, direction.word.toList]
  | .requestRecordedResource path => ["resource".toList, session, encodeHex path]
  | .requestResource path offset =>
    ["resource_chunk".toList, session, encodeHex path, Numerals.printNat 10 offset.toNat,
      Numerals.printNat 10 resourceChunkBytes.toNat]
  | .pollUiEvents => ["ui_events".toList, session]
  | .acknowledgeUi sequence => ["ui_ack".toList, session, Numerals.printNat 10 sequence.toNat]
  | .sendReadiness phase => [phase.word.toList, session]
  | .sendScreenPointer index generation event location params =>
    ["screen_pointer".toList, session, targetField index generation, event.word.toList,
      textField location, textField params]
  | .sendMapPointer index generation x y z control params =>
    ["map_pointer".toList, session, targetField index generation, Numerals.printInt x.toInt,
      Numerals.printInt y.toInt, Numerals.printInt z.toInt, textField control, textField params]
  | .sendBrowserTopic topic => ["browser_topic".toList, session, encodeHex topic]
  | .sendCommand command => ["client_command".toList, session, encodeHex command]
  | .sendPromptResponse id response =>
    "prompt_response".toList :: session :: Numerals.printNat 10 id.toNat ::
      responseFields floats response

def frame (floats : FloatText) (session : SessionToken) (request : ClientRequest) : List UInt8 :=
  Codec.utf8 (String.ofList (joined (request.fields floats session.text.toList)))

/-- The command with the arguments of the operation. -/
def command (session : String) : ClientRequest → Command
  | .attach => .attach
  | .requestSnapshot => .mapSnapshot session
  | .requestScreenSnapshot => .screenSnapshot session
  | .sendMovement direction => .move session direction
  | .requestRecordedResource path => .resource session path
  | .requestResource path offset => .resourceChunk session path offset resourceChunkBytes
  | .pollUiEvents => .uiEvents session
  | .acknowledgeUi sequence => .uiAck session sequence
  | .sendReadiness .skin => .skinReady session
  | .sendReadiness .resources => .resourcesReady session
  | .sendReadiness .input => .inputReady session
  | .sendScreenPointer index generation event location params =>
    .screenPointer session index generation event location params
  | .sendMapPointer index generation x y z control params =>
    .mapPointer session index generation x y z control params
  | .sendBrowserTopic topic => .browserTopic session topic
  | .sendCommand command => .clientCommand session command
  | .sendPromptResponse id response => .promptResponse session id response

/-- The texts that are written without a mark for the empty text are not empty. -/
def HasText : ClientRequest → Prop
  | .requestRecordedResource path => path ≠ ""
  | .requestResource path _ => path ≠ ""
  | .sendBrowserTopic topic => topic ≠ ""
  | .sendCommand command => command ≠ ""
  | .sendPromptResponse _ (.text text) => text ≠ ""
  | _ => True

end ClientRequest

/-! ## Numbers -/

def isNaN (bits : DmNumberBits) : Bool :=
  bits &&& 0x7f800000#32 = 0x7f800000#32 && bits &&& 0x007fffff#32 ≠ 0#32

/-- The same number: equal, or both not a number. -/
def SameNumber (a b : DmNumberBits) : Prop := a = b ∨ (isNaN a = true ∧ isNaN b = true)

/-- What is documented of `Display` and `FromStr`: a displayed number is one word, and it is
parsed as the same number. -/
structure FloatText.Lawful (floats : FloatText) : Prop where
  ne_empty : ∀ bits, floats.display bits ≠ ""
  unspaced : ∀ bits, Unspaced (floats.display bits).toList
  parse_display : ∀ bits, ∃ parsed, floats.parse (floats.display bits) = some parsed ∧
    SameNumber bits parsed

/-- The same command, up to the payload of a number that is none. -/
def SameCommand : Command → Command → Prop
  | .promptResponse session id (.number bits), .promptResponse session' id' (.number bits') =>
    session = session' ∧ id = id' ∧ SameNumber bits bits'
  | command, command' => command = command'

/-! ## Fields -/

theorem unspaced_of_isAlphanum {word : Word} (h : ∀ c ∈ word, c.isAlphanum = true) :
    Unspaced word := by
  intro c hc
  have halpha := h c hc
  rw [Words.isAsciiWhitespace]
  by_contra hspace
  rw [Bool.not_eq_false] at hspace
  simp only [Bool.or_eq_true, beq_iff_eq] at hspace
  rcases hspace with (((rfl | rfl) | rfl) | rfl) | rfl
  all_goals exact absurd halpha (by decide)

theorem unspaced_printNat {radix n : Nat} (hone : 1 < radix) (hradix : radix ≤ 16) :
    Unspaced (Numerals.printNat radix n) :=
  unspaced_of_isAlphanum fun _ hc => Numerals.isAlphanum_of_mem_printNat hone hradix hc

theorem unspaced_cons {c : Char} {word : Word} (hc : Words.isAsciiWhitespace c = false)
    (h : Unspaced word) : Unspaced (c :: word) := by
  intro d hd
  rcases List.mem_cons.1 hd with rfl | hd
  · exact hc
  · exact h d hd

theorem unspaced_append {first second : Word} (hfirst : Unspaced first)
    (hsecond : Unspaced second) : Unspaced (first ++ second) := by
  intro c hc
  rcases List.mem_append.1 hc with hc | hc
  · exact hfirst c hc
  · exact hsecond c hc

theorem unspaced_printInt (n : Int) : Unspaced (Numerals.printInt n) := by
  cases n with
  | ofNat n => exact unspaced_printNat (by decide) (by decide)
  | negSucc n => exact unspaced_cons (by decide) (unspaced_printNat (by decide) (by decide))

theorem unspaced_hex (bytes : List UInt8) : Unspaced (hex bytes) := by
  refine unspaced_of_isAlphanum fun c hc => ?_
  obtain ⟨byte, -, hbyte⟩ := List.mem_flatMap.1 hc
  have hall : ∀ d < 16, d.digitChar.isAlphanum = true := by decide
  have hlt := byte.toNat_lt
  rw [hexByte, List.mem_cons, List.mem_singleton] at hbyte
  rcases hbyte with rfl | rfl
  · exact hall _ (by omega)
  · exact hall _ (by omega)

theorem hex_eq_nil {bytes : List UInt8} : hex bytes = [] ↔ bytes = [] := by
  cases bytes with
  | nil => simp [hex]
  | cons byte rest => simp [hex, hexByte]

theorem encodeHex_eq_nil {text : String} : encodeHex text = [] ↔ text = "" := by
  rw [encodeHex, hex_eq_nil]
  constructor
  · intro h
    have htext := Codec.ofUtf8_eq_some.2 h.symm
    have hempty := Codec.ofUtf8_eq_some.2 (show [] = Codec.utf8 "" from rfl)
    rw [htext] at hempty
    exact Option.some.inj hempty
  · rintro rfl
    rfl

theorem unspaced_textField (text : String) : Unspaced (textField text) := by
  rw [textField]
  split
  · exact unspaced_cons (by decide) fun c hc => absurd hc List.not_mem_nil
  · exact unspaced_hex _

theorem textField_ne_nil (text : String) : textField text ≠ [] := by
  rw [textField]
  split
  · exact List.cons_ne_nil _ _
  · rename_i hempty
    rw [ne_eq, encodeHex_eq_nil]
    simpa using hempty

theorem unspaced_targetField (index generation : BitVec 32) :
    Unspaced (targetField index generation) :=
  unspaced_append (unspaced_printNat (by decide) (by decide))
    (unspaced_cons (by decide) (unspaced_printNat (by decide) (by decide)))

/-- A word of letters and underscores. -/
theorem unspaced_name {word : String}
    (h : word.toList.all (fun c => !Words.isAsciiWhitespace c) = true) : Unspaced word.toList := by
  intro c hc
  have := List.all_eq_true.1 h c hc
  simpa using this

variable {floats : FloatText}

theorem toList_ne_nil {text : String} (h : text ≠ "") : text.toList ≠ [] := by
  intro hnil
  exact h (String.toList_inj.1 hnil)

/-- A field is one word of the frame where it is not empty; without the texts it may be. -/
structure IsField (full : Prop) (field : Word) : Prop where
  unspaced : Unspaced field
  ne_nil : full → field ≠ []

namespace IsField

variable {full : Prop}

theorem name {word : String} (h : word.toList ≠ [] ∧
    word.toList.all (fun c => !Words.isAsciiWhitespace c) = true) : IsField full word.toList :=
  ⟨unspaced_name h.2, fun _ => h.1⟩

theorem session (session : SessionToken) : IsField full session.text.toList :=
  ⟨session.unspaced, fun _ => toList_ne_nil session.ne_empty⟩

theorem number (n : Nat) : IsField full (Numerals.printNat 10 n) :=
  ⟨unspaced_printNat (by decide) (by decide), fun _ => Numerals.printNat_ne_nil 10 n⟩

theorem integer (n : Int) : IsField full (Numerals.printInt n) := by
  refine ⟨unspaced_printInt n, fun _ => ?_⟩
  cases n with
  | ofNat n => exact Numerals.printNat_ne_nil 10 n
  | negSucc n => exact List.cons_ne_nil _ _

theorem target (index generation : BitVec 32) : IsField full (targetField index generation) :=
  ⟨unspaced_targetField index generation, fun _ =>
    List.append_ne_nil_of_right_ne_nil _ (List.cons_ne_nil _ _)⟩

theorem textField (text : String) : IsField full (textField text) :=
  ⟨unspaced_textField text, fun _ => textField_ne_nil text⟩

theorem encodeHex {text : String} (h : full → text ≠ "") : IsField full (encodeHex text) :=
  ⟨unspaced_hex _, fun hfull hnil => h hfull (encodeHex_eq_nil.1 hnil)⟩

end IsField

theorem responseFields_isField {full : Prop} (hfloats : floats.Lawful)
    {response : LocalClientPromptResponse}
    (h : full → ∀ text, response = .text text → text ≠ "") :
    ∀ field ∈ responseFields floats response, IsField full field := by
  cases response <;> simp only [responseFields, List.forall_mem_cons]
  case null => exact ⟨.name (by decide), @IsField.name _ "-" (by decide), nofun⟩
  case text text => exact ⟨.name (by decide), .encodeHex fun hfull => h hfull text rfl, nofun⟩
  case number bits =>
    exact ⟨.name (by decide),
      ⟨hfloats.unspaced bits, fun _ => toList_ne_nil (hfloats.ne_empty bits)⟩, nofun⟩
  case choice index => exact ⟨.name (by decide), .number _, nofun⟩

theorem fields_isField (hfloats : floats.Lawful) (session : SessionToken) (request : ClientRequest) :
    ∀ field ∈ request.fields floats session.text.toList, IsField request.HasText field := by
  cases request <;> simp only [ClientRequest.fields, List.forall_mem_cons]
  case attach => exact ⟨.name (by decide), nofun⟩
  case requestSnapshot | requestScreenSnapshot | pollUiEvents =>
    exact ⟨.name (by decide), .session session, nofun⟩
  case sendMovement direction =>
    exact ⟨.name (by decide), .session session, by cases direction <;> exact .name (by decide), nofun⟩
  case requestRecordedResource path =>
    exact ⟨.name (by decide), .session session, .encodeHex id, nofun⟩
  case requestResource path offset =>
    exact ⟨.name (by decide), .session session, .encodeHex id, .number _, .number _, nofun⟩
  case acknowledgeUi sequence => exact ⟨.name (by decide), .session session, .number _, nofun⟩
  case sendReadiness phase =>
    exact ⟨by cases phase <;> exact .name (by decide), .session session, nofun⟩
  case sendScreenPointer index generation event location params =>
    exact ⟨.name (by decide), .session session, .target _ _,
      by cases event <;> exact .name (by decide), .textField _, .textField _, nofun⟩
  case sendMapPointer index generation x y z control params =>
    exact ⟨.name (by decide), .session session, .target _ _, .integer _, .integer _, .integer _,
      .textField _, .textField _, nofun⟩
  case sendBrowserTopic topic | sendCommand topic =>
    exact ⟨.name (by decide), .session session, .encodeHex id, nofun⟩
  case sendPromptResponse id response =>
    refine ⟨.name (by decide), .session session, .number _, responseFields_isField hfloats ?_⟩
    rintro hfull text rfl
    exact hfull

theorem unspaced_fields (hfloats : floats.Lawful) (session : SessionToken) (request : ClientRequest) :
    ∀ field ∈ request.fields floats session.text.toList, Unspaced field :=
  fun field hfield => (fields_isField hfloats session request field hfield).unspaced

/-- The parser sees the fields that are not empty. -/
theorem parseCommand_frame (hfloats : floats.Lawful) (session : SessionToken)
    (request : ClientRequest) : parseCommand floats (request.frame floats session) =
      parseWords floats ((request.fields floats session.text.toList).filter
        fun word => !word.isEmpty) := by
  rw [parseCommand, ClientRequest.frame, Codec.ofUtf8_eq_some.2 rfl, Fallible.orError_some,
    Fallible.value_bind, String.toList_ofList,
    Words.splitAsciiWhitespace_joined (unspaced_fields hfloats session request)]

/-! ## Reading the fields back -/

theorem parseU64_printNat (x : BitVec 64) : parseU64 (Numerals.printNat 10 x.toNat) = some x := by
  rw [parseU64, Numerals.parseNat_printNat (by decide) (by decide) x.isLt, Option.map_some,
    BitVec.ofNat_toNat, BitVec.setWidth_eq]

theorem parseU32_printNat (x : BitVec 32) : parseU32 (Numerals.printNat 10 x.toNat) = some x := by
  rw [parseU32, Numerals.parseNat_printNat (by decide) (by decide) x.isLt, Option.map_some,
    BitVec.ofNat_toNat, BitVec.setWidth_eq]

theorem parseU32Hex_printNat (x : BitVec 32) :
    parseU32Hex (Numerals.printNat 16 x.toNat) = some x := by
  rw [parseU32Hex, Numerals.parseNat_printNat (by decide) (by decide) x.isLt, Option.map_some,
    BitVec.ofNat_toNat, BitVec.setWidth_eq]

theorem parseI32_printInt (x : BitVec 32) : parseI32 (Numerals.printInt x.toInt) = some x :=
  Numerals.parseInt_printInt x

theorem splitOnce_targetField (index generation : BitVec 32) :
    splitOnce ':' (targetField index generation) =
      some (Numerals.printNat 16 index.toNat, Numerals.printNat 16 generation.toNat) := by
  refine Words.splitOnce_append (fun hmem => ?_) _
  have halpha := Numerals.isAlphanum_of_mem_printNat (by decide) (by decide) hmem
  exact absurd halpha (by decide)

theorem parseTarget_targetField {α : Type} (kind : String) (index generation : BitVec 32)
    (p : List Word) (rest : BitVec 32 → BitVec 32 → List Word → Fallible String α) :
    parseTarget kind (targetField index generation :: p) rest = rest index generation p := by
  rw [parseTarget, nextWord, splitOnce_targetField, Fallible.orError_some, Fallible.value_bind,
    parseU32Hex_printNat, Fallible.orError_some, Fallible.value_bind, parseU32Hex_printNat,
    Fallible.orError_some, Fallible.value_bind]

theorem encodeHex_ne_dash (text : String) : encodeHex text ≠ ['-'] := by
  intro h
  have hlength : (encodeHex text).length % 2 = 0 := by
    rw [encodeHex, hex, List.length_flatMap]
    simp [hexByte]
  rw [h] at hlength
  cases hlength

theorem decodeText_textField (message text : String) :
    decodeText message (textField text) = .value text := by
  rw [decodeText, textField]
  by_cases hempty : text.isEmpty = true
  · rw [if_pos hempty, if_pos rfl]
    congr 1
    simpa using Eq.symm (by simpa using hempty : text = "")
  · rw [if_neg hempty, if_neg (encodeHex_ne_dash text)]
    exact unhexText_hex message text

theorem parseTexts_textField {α : Type} (kind name first second : String)
    (rest : String → String → Fallible String α) :
    parseTexts kind name [textField first, textField second] rest = rest first second := by
  rw [parseTexts, nextWord, decodeText_textField, Fallible.value_bind, nextWord,
    decodeText_textField, Fallible.value_bind, ended]

/-! ## Requests with text -/

theorem filter_nonempty {fields : List Word} (h : ∀ field ∈ fields, field ≠ []) :
    fields.filter (fun word => !word.isEmpty) = fields := by
  rw [List.filter_eq_self]
  intro field hfield
  simpa using h field hfield

variable {request : ClientRequest}

theorem fields_ne_nil (hfloats : floats.Lawful) (session : SessionToken) (h : request.HasText) :
    ∀ field ∈ request.fields floats session.text.toList, field ≠ [] :=
  fun field hfield => (fields_isField hfloats session request field hfield).ne_nil h

theorem parsePayload_encodeHex {sessionMissing missing trailing invalid : String}
    {command : String → String → Command} (session text : String) :
    parsePayload sessionMissing missing trailing invalid command
      [session.toList, encodeHex text] = .value (command session text) := by
  rw [parsePayload, nextWord, nextWord, ended, encodeHex, unhexText_hex, Fallible.map_value,
    String.ofList_toList]

theorem SameCommand.refl (command : Command) : SameCommand command command := by
  cases command with
  | promptResponse session id response =>
    cases response with
    | number bits => exact ⟨rfl, rfl, .inl rfl⟩
    | _ => rfl
  | _ => rfl

theorem parseWords_requestResource (floats : FloatText) (session path : String)
    (offset : BitVec 64) : parseWords floats
      ((ClientRequest.requestResource path offset).fields floats session.toList) =
        .value (.resourceChunk session path offset resourceChunkBytes) := by
  rw [ClientRequest.fields, parseWords, String.ofList_toList]
  show parseResourceChunk _ = _
  rw [parseResourceChunk, nextWord, nextWord, nextWord, parseU64_printNat, Fallible.orError_some,
    Fallible.value_bind, nextWord, parseU32_printNat, Fallible.orError_some, Fallible.value_bind,
    ended, if_neg (by decide), encodeHex, unhexText_hex, Fallible.map_value, String.ofList_toList]

/-- Without empty fields, the parser gives the command of the operation. -/
theorem parseWords_fields (hfloats : floats.Lawful) (session : String) (request : ClientRequest) :
    ∃ command, parseWords floats (request.fields floats session.toList) = .value command ∧
      SameCommand (request.command session) command := by
  cases request with
  | attach => exact ⟨_, rfl, .refl _⟩
  | requestSnapshot | requestScreenSnapshot | pollUiEvents =>
    refine ⟨_, ?_, .refl _⟩
    simp [ClientRequest.fields, ClientRequest.command, parseWords, parseSession, nextWord, ended]
  | sendMovement direction =>
    refine ⟨_, ?_, .refl _⟩
    cases direction <;>
      simp [ClientRequest.fields, ClientRequest.command, parseWords, parseMove, nextWord, ended,
        LocalMovementDirection.word]
  | requestRecordedResource text | sendBrowserTopic text | sendCommand text =>
    refine ⟨_, ?_, .refl _⟩
    rw [ClientRequest.fields, parseWords, String.ofList_toList]
    exact parsePayload_encodeHex session text
  | requestResource path offset =>
    exact ⟨_, parseWords_requestResource floats session path offset, .refl _⟩
  | acknowledgeUi sequence =>
    refine ⟨_, ?_, .refl _⟩
    simp [ClientRequest.fields, ClientRequest.command, parseWords, parseUiAck, nextWord, ended,
      parseU64_printNat]
  | sendReadiness phase =>
    refine ⟨_, ?_, .refl _⟩
    cases phase <;>
      simp [ClientRequest.fields, ClientRequest.command, parseWords, parseSession, nextWord, ended,
        ReadinessPhase.word]
  | sendScreenPointer index generation event location params =>
    refine ⟨_, ?_, .refl _⟩
    have hevent : pointerEvent event.word.toList = some event := by
      cases event <;> rfl
    rw [ClientRequest.fields, parseWords, String.ofList_toList]
    show parseScreenPointer _ = _
    rw [parseScreenPointer, nextWord, parseTarget_targetField, List.head?_cons, Option.bind_some,
      hevent, Fallible.orError_some, Fallible.value_bind, List.tail_cons, parseTexts_textField,
      String.ofList_toList]
    rfl
  | sendMapPointer index generation x y z control params =>
    refine ⟨_, ?_, .refl _⟩
    have hcoordinate : ∀ (name : String) (x : BitVec 32) (p : List Word)
        (rest : BitVec 32 → List Word → Fallible String Command),
        parseCoordinate name (Numerals.printInt x.toInt :: p) rest = rest x p := by
      intro name x p rest
      rw [parseCoordinate, nextWord, parseI32_printInt, Fallible.orError_some, Fallible.value_bind]
    rw [ClientRequest.fields, parseWords, String.ofList_toList]
    show parseMapPointer _ = _
    rw [parseMapPointer, nextWord, parseTarget_targetField, hcoordinate, hcoordinate, hcoordinate,
      parseTexts_textField, String.ofList_toList]
    rfl
  | sendPromptResponse id response =>
    have hprompt : ∀ kind payload parsed,
        parseResponse floats kind payload = .value parsed →
        parseWords floats
          ["prompt_response".toList, session.toList, Numerals.printNat 10 id.toNat, kind, payload] =
          .value (.promptResponse session id parsed) := by
      intro kind payload parsed hparsed
      rw [parseWords, String.ofList_toList]
      show parsePromptResponse floats _ = _
      rw [parsePromptResponse, nextWord, nextWord, parseU64_printNat, Fallible.orError_some,
        Fallible.value_bind, nextWord, nextWord, ended, hparsed, Fallible.map_value,
        String.ofList_toList]
    cases response with
    | null => exact ⟨_, hprompt _ _ _ rfl, .refl _⟩
    | text text =>
      refine ⟨_, hprompt _ _ (.text text) ?_, .refl _⟩
      rw [parseResponse, String.ofList_toList]
      show (unhexText _ (hex (Codec.utf8 text))).map _ = _
      rw [unhexText_hex, Fallible.map_value]
    | number bits =>
      obtain ⟨parsed, hparsed, hsame⟩ := hfloats.parse_display bits
      refine ⟨_, hprompt _ _ (.number parsed) ?_, rfl, rfl, hsame⟩
      rw [parseResponse, String.ofList_toList]
      show (Fallible.orError (floats.parse _) _).map _ = _
      rw [String.ofList_toList, hparsed]
      rfl
    | choice index =>
      refine ⟨_, hprompt _ _ (.choice index) ?_, .refl _⟩
      rw [parseResponse, String.ofList_toList]
      show (Fallible.orError (parseU64 _) _).map _ = _
      rw [parseU64_printNat]
      rfl

/-! ## Requests without text -/

/-- The frame is parsed as the command of the operation. -/
def Understood (floats : FloatText) (session : SessionToken) (request : ClientRequest) : Prop :=
  ∃ command, parseCommand floats (request.frame floats session) = .value command ∧
    SameCommand (request.command session.text) command

theorem filter_dropped (first second : List Word) (hfirst : ∀ field ∈ first, field ≠ [])
    (hsecond : ∀ field ∈ second, field ≠ []) :
    (first ++ [] :: second).filter (fun word => !word.isEmpty) = first ++ second := by
  rw [List.filter_append, List.filter_cons_of_neg (by decide), filter_nonempty hfirst,
    filter_nonempty hsecond]

/-- The payload is the last field, so that it is missing. -/
theorem not_understood_of_payload (hfloats : floats.Lawful) {session : SessionToken}
    (name message : String) (hname : name.toList ≠ [])
    (hfields : request.fields floats session.text.toList =
      [name.toList, session.text.toList, []])
    (hparse : parseWords floats [name.toList, session.text.toList] = .error message) :
    ¬ Understood floats session request := by
  rintro ⟨command, hcommand, -⟩
  have hfilter := filter_dropped [name.toList, session.text.toList] []
    (by simpa only [List.forall_mem_cons] using
      ⟨hname, toList_ne_nil session.ne_empty, List.forall_mem_nil _⟩)
    (List.forall_mem_nil _)
  rw [parseCommand_frame hfloats, hfields] at hcommand
  rw [show [name.toList, session.text.toList, []] =
    [name.toList, session.text.toList] ++ [] :: [] from rfl, hfilter, List.append_nil, hparse]
    at hcommand
  cases hcommand

theorem not_understood_of_empty (hfloats : floats.Lawful) (session : SessionToken)
    (h : ¬ request.HasText) : ¬ Understood floats session request := by
  cases request with
  | requestRecordedResource path =>
    have hpath : path = "" := not_not.1 h
    subst hpath
    refine not_understood_of_payload hfloats "resource" "resource path is missing"
      (by decide) rfl ?_
    rw [parseWords, String.ofList_toList]
    rfl
  | sendBrowserTopic topic =>
    have htopic : topic = "" := not_not.1 h
    subst htopic
    refine not_understood_of_payload hfloats "browser_topic"
      "browser_topic payload is missing" (by decide) rfl ?_
    rw [parseWords, String.ofList_toList]
    rfl
  | sendCommand command =>
    have hcommand : command = "" := not_not.1 h
    subst hcommand
    refine not_understood_of_payload hfloats "client_command"
      "client_command payload is missing" (by decide) rfl ?_
    rw [parseWords, String.ofList_toList]
    rfl
  | requestResource path offset =>
    have hpath : path = "" := not_not.1 h
    subst hpath
    rintro ⟨command, hcommand, -⟩
    have hfilter := filter_dropped ["resource_chunk".toList, session.text.toList]
      [Numerals.printNat 10 offset.toNat, Numerals.printNat 10 resourceChunkBytes.toNat]
      (by simpa only [List.forall_mem_cons] using
        ⟨by decide, toList_ne_nil session.ne_empty, List.forall_mem_nil _⟩)
      (by simpa only [List.forall_mem_cons] using
        ⟨Numerals.printNat_ne_nil _ _, Numerals.printNat_ne_nil _ _, List.forall_mem_nil _⟩)
    rw [parseCommand_frame hfloats] at hcommand
    rw [show ClientRequest.fields floats session.text.toList (.requestResource "" offset) =
      ["resource_chunk".toList, session.text.toList] ++ [] :: [Numerals.printNat 10 offset.toNat,
        Numerals.printNat 10 resourceChunkBytes.toNat] from rfl, hfilter] at hcommand
    -- The offset is taken for the path, the length for the offset.
    have herror : parseWords floats (["resource_chunk".toList, session.text.toList] ++
        [Numerals.printNat 10 offset.toNat, Numerals.printNat 10 resourceChunkBytes.toNat]) =
        .error "resource_chunk length is missing" := by
      have hlength : parseU64 (Numerals.printNat 10 resourceChunkBytes.toNat) =
          some (256 * 1024) := parseU64_printNat (256 * 1024)
      rw [List.cons_append, parseWords, String.ofList_toList]
      show parseResourceChunk [session.text.toList, _, _] = _
      rw [parseResourceChunk, nextWord, nextWord, nextWord, hlength]
      rfl
    rw [herror] at hcommand
    cases hcommand
  | sendPromptResponse id response =>
    cases response with
    | text text =>
      have htext : text = "" := not_not.1 h
      subst htext
      rintro ⟨command, hcommand, -⟩
      have hfilter := filter_dropped
        ["prompt_response".toList, session.text.toList, Numerals.printNat 10 id.toNat,
          "text".toList] []
        (by simpa only [List.forall_mem_cons] using
          ⟨by decide, toList_ne_nil session.ne_empty, Numerals.printNat_ne_nil _ _, by decide, List.forall_mem_nil _⟩)
        (List.forall_mem_nil _)
      rw [parseCommand_frame hfloats] at hcommand
      rw [show ClientRequest.fields floats session.text.toList (.sendPromptResponse id (.text "")) =
        ["prompt_response".toList, session.text.toList, Numerals.printNat 10 id.toNat,
          "text".toList] ++ [] :: [] from rfl, hfilter, List.append_nil] at hcommand
      have herror : parseWords floats ["prompt_response".toList, session.text.toList,
          Numerals.printNat 10 id.toNat, "text".toList] =
          .error "prompt_response payload is missing" := by
        rw [parseWords, String.ofList_toList]
        show parsePromptResponse floats [session.text.toList, _, _] = _
        rw [parsePromptResponse, nextWord, nextWord, parseU64_printNat]
        rfl
      rw [herror] at hcommand
      cases hcommand
    | _ => exact absurd trivial h
  | _ => exact absurd trivial h

theorem understood_of_hasText (hfloats : floats.Lawful) (session : SessionToken)
    (h : request.HasText) : Understood floats session request := by
  obtain ⟨command, hcommand, hsame⟩ := parseWords_fields hfloats session.text request
  refine ⟨command, ?_, hsame⟩
  rw [parseCommand_frame hfloats, filter_nonempty (fields_ne_nil hfloats session h), hcommand]

/-- A request is understood exactly if its texts are there; a frame panics exactly if a hex field
that the parser comes to is cut inside a character. -/
theorem requests_understood (floats : FloatText) (hfloats : floats.Lawful)
    (session : SessionToken) (request : ClientRequest) (frame : List UInt8) :
    (Understood floats session request ↔ request.HasText) ∧
      (parseCommand floats frame ≠ .panic ↔ frameCut frame = false) := by
  refine ⟨⟨fun hunderstood => ?_, understood_of_hasText hfloats session⟩, ?_⟩
  · by_contra hempty
    exact not_understood_of_empty hfloats session hempty hunderstood
  · rw [ne_eq, parseCommand_eq_panic, Bool.not_eq_true]

/-! ## An empty answer -/

def firstSession : SessionToken := ⟨"s1", by decide, unspaced_name (by decide)⟩

/-- Numbers as the decimal numeral of their bits. -/
def numeralFloats : FloatText where
  display bits := String.ofList (Numerals.printNat 10 bits.toNat)
  parse text := parseU32 text.toList

theorem numeralFloats_lawful : numeralFloats.Lawful where
  ne_empty bits h := by
    have hnil : Numerals.printNat 10 bits.toNat = [] := by
      have := congrArg String.toList h
      simpa [numeralFloats] using this
    exact Numerals.printNat_ne_nil _ _ hnil
  unspaced bits := by
    show Unspaced (String.ofList _).toList
    rw [String.toList_ofList]
    exact unspaced_printNat (by decide) (by decide)
  parse_display bits := by
    refine ⟨bits, ?_, .inl rfl⟩
    show parseU32 (String.ofList _).toList = _
    rw [String.toList_ofList, parseU32_printNat]

theorem requests_understood_topic :
    (Understood numeralFloats firstSession (.sendBrowserTopic "é") ↔
      (ClientRequest.sendBrowserTopic "é").HasText) ∧
      (parseCommand numeralFloats (Codec.utf8 "resource s1 aéb") ≠ .panic ↔
        frameCut (Codec.utf8 "resource s1 aéb") = false) :=
  requests_understood numeralFloats numeralFloats_lawful firstSession (.sendBrowserTopic "é")
    (Codec.utf8 "resource s1 aéb")

/-- An empty answer to a text prompt is not understood, and a frame panics. -/
theorem empty_answer_not_understood :
    ¬ ∀ (floats : FloatText) (session : SessionToken) (request : ClientRequest)
      (frame : List UInt8), floats.Lawful →
        Understood floats session request ∧ parseCommand floats frame ≠ .panic := by
  intro h
  have hunderstood := (h numeralFloats firstSession (.sendPromptResponse 1 (.text "")) []
    numeralFloats_lawful).1
  have hempty : ¬ (ClientRequest.sendPromptResponse 1 (.text "")).HasText := fun htext => htext rfl
  exact not_understood_of_empty numeralFloats_lawful firstSession hempty hunderstood

end Dream64.Ipc
