import Mathlib

/-!
# Tokens, names and numbers

The representation-level contracts of `dm-core`, the token kinds of
`dm-lexer`, and the validated identifiers of `dm-value`, which every later
module reads. A `FieldName` and a `TypePath` can only be built from a
spelling that `parse` accepts.
-/

namespace Dream64

/-- A byte range of the expanded source. -/
structure SourceSpan where
  start : Nat
  stop : Nat
deriving DecidableEq, Repr

/-- The bits of a binary32 number. -/
abbrev DmNumberBits := BitVec 32

/-- `DmNumberBits::from_f32(0.0)` and the other constants the compiler emits. -/
def DmNumberBits.zero : DmNumberBits := 0x00000000#32
def DmNumberBits.one : DmNumberBits := 0x3f800000#32

inductive TokenKind where
  | lineStart (tabs spaces : Nat)
  | newline
  | lineContinuation
  | identifier (name : String)
  | number (spelling : String)
  | string (text : String)
  | rawString (text : String)
  | textBlock (text : String)
  | resource (text : String)
  | punctuation (mark : Char)
  | operator (spelling : String)
deriving DecidableEq, Repr

structure SpannedToken where
  kind : TokenKind
  span : SourceSpan
deriving DecidableEq, Repr

/-- A character in `{:?}`; those beyond ASCII are left as they are. -/
def debugChar : Char → String
  | '"' => "\\\""
  | '\\' => "\\\\"
  | '\n' => "\\n"
  | '\r' => "\\r"
  | '\t' => "\\t"
  | '\x00' => "\\0"
  | c =>
    if c.toNat < 32 ∨ c.toNat = 127 then
      "\\u\x7b" ++ String.ofList (Nat.toDigits 16 c.toNat) ++ "\x7d"
    else c.toString

/-- A text in `{:?}`. -/
def debugText (text : String) : String :=
  "\"" ++ String.join (text.toList.map debugChar) ++ "\""

/-- The spelling check of `FieldName::parse`. -/
def isFieldName (name : String) : Bool :=
  match name.toList with
  | [] => false
  | first :: rest =>
    (first.isAlpha || first == '_') && rest.all fun c => c.isAlphanum || c == '_'

/-- A canonical case-sensitive DM field identifier. -/
structure FieldName where
  name : String
  valid : isFieldName name = true
deriving DecidableEq, Repr

def FieldName.parse (name : String) : Except String FieldName :=
  if h : isFieldName name = true then .ok ⟨name, h⟩
  else .error ("invalid DM field name " ++ debugText name)

/-- The slash-separated segments of a spelling. -/
def splitSlash : List Char → List (List Char)
  | [] => [[]]
  | '/' :: rest => [] :: splitSlash rest
  | c :: rest =>
    match splitSlash rest with
    | [] => [[c]]
    | segment :: segments => (c :: segment) :: segments

/-- The spelling check of `TypePath::parse`: absolute, no empty segment. -/
def isTypePath (path : String) : Bool :=
  match path.toList with
  | '/' :: rest => (splitSlash rest).all fun segment => !segment.isEmpty
  | _ => false

/-- A canonical absolute type path. -/
structure TypePath where
  path : String
  valid : isTypePath path = true
deriving DecidableEq, Repr

def TypePath.parse (path : String) : Except String TypePath :=
  if h : isTypePath path = true then .ok ⟨path, h⟩
  else .error ("invalid absolute type path " ++ debugText path)

end Dream64
