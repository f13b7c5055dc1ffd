import Dream64.Ipc.ClientRequests
import Dream64.Library.Advance

/-!
# Resources in chunks

The client asks for a resource chunk by chunk, from the offset of what it has,
until a reply says that the end is reached; what it has is then put into its
cache. The replies are lines of words with fields `key=value`. What comes back
for a request is given from outside, for each exchange; `respond` is what the
server replies, with the files of the project and the sessions as parameters.
-/

namespace Dream64.Ipc

open String (utf8Len)
open Words (joined splitAsciiWhitespace splitOnce)

def maxResourceBytes : Nat := 16 * 1024 * 1024

/-! ## The server -/

/-- `read_project_resource_chunk` -/
def readProjectResourceChunk (openResource : String → Except String (List UInt8)) (path : String)
    (offset length : Nat) : Except String ResourceChunk :=
  if length = 0 ∨ maxResourceChunkBytes < length then
    .error "resource chunk length is out of range"
  else
    (openResource path).bind fun file =>
      if file.length < offset then .error "resource chunk offset exceeds file length"
      else
        let take := min (file.length - offset) length
        .ok ⟨(file.drop offset).take take, file.length, decide (offset + take = file.length)⟩

/-- A field of a reply. -/
def keyValue (key : String) (value : Word) : Word := key.toList ++ '=' :: value

def chunkReply (path : String) (offset : BitVec 64) (chunk : ResourceChunk) : List Char :=
  joined ["ok".toList, "resource_chunk".toList, keyValue "protocol" ['3'],
    keyValue "pathhex" (encodeHex path),
    keyValue "offset" (Numerals.printNat 10 offset.toNat),
    keyValue "total" (Numerals.printNat 10 chunk.total),
    keyValue "eof" (Numerals.printNat 10 chunk.eof.toNat),
    keyValue "datahex" (hex chunk.bytes)]

/-- What the server replies to a frame; the replies to the other commands are a parameter. -/
def respond (floats : FloatText) (sessions : String → Bool)
    (openResource : String → Except String (List UInt8)) (other : Command → List Char)
    (frame : List UInt8) : Except String (List Char) :=
  match parseCommand floats frame with
  | .value (.resourceChunk session path offset length) =>
    if sessions session then
      match readProjectResourceChunk openResource path offset.toNat length.toNat with
      | .ok chunk => .ok (chunkReply path offset chunk)
      | .error error => .ok ("error ".toList ++ error.toList)
    else .ok "error unknown-session".toList
  | .value command => .ok (other command)
  | .error error => .ok ("error ".toList ++ error.toList)
  | .panic => .error "server closed the connection"

/-! ## The reply -/

def requireOk (operation : String) (response : List Char) : Except String Unit :=
  if "ok ".toList.isPrefixOf response then .ok ()
  else .error (operation ++ " rejected: " ++ String.ofList response)

/-- `response_fields`; the carriage return at the end of a line is white space. -/
def replyFields (response : List Char) : List (Word × Word) :=
  (splitAsciiWhitespace (response.takeWhile (· ≠ '\n'))).filterMap (splitOnce '=')

/-- Of two fields with one key the later one counts. -/
def replyField (fields : List (Word × Word)) (key : String) : Option Word :=
  (fields.reverse.find? fun field => field.1 == key.toList).map (·.2)

def decodeHexBounded (value : Word) (maxBytes : Nat) : Fallible String (List UInt8) :=
  if utf8Len value % 2 ≠ 0 then .error "hex payload has odd length"
  else if maxBytes < utf8Len value / 2 then .error "payload exceeds resource byte limit"
  else
    (unhexPairs (utf8Len value / 2) value).mapError fun _ => "hex payload contains an invalid digit"

/-! ## The client -/

/-- How far the transfer has come. -/
structure Transfer where
  bytes : List UInt8
  expectedTotal : Option (BitVec 64)
  exchanges : Nat
deriving DecidableEq, Repr

namespace Transfer

def start : Transfer := ⟨[], none, 0⟩

def offset (transfer : Transfer) : BitVec 64 := BitVec.ofNat 64 transfer.bytes.length

variable (floats : FloatText) (exchange : Nat → List UInt8 → Except String (List Char))
  (session : SessionToken) (path : String)

/-- What comes back for the next request. -/
def response (transfer : Transfer) : Except String (List Char) :=
  exchange transfer.exchanges
    ((ClientRequest.requestResource path transfer.offset).frame floats session)

/-- The advertised length and the encoded chunk of a reply that fits. -/
def received (transfer : Transfer) (response : List Char) : Except String (BitVec 64 × Word) :=
  (requireOk "resource_chunk" response).bind fun _ =>
    let fields := replyFields response
    match replyField fields "offset" with
    | none => .error "resource chunk omitted offset"
    | some offset =>
      match parseU64 offset with
      | none => .error "resource chunk offset is invalid"
      | some offset =>
        if offset ≠ transfer.offset then .error "resource chunk offset does not match request"
        else
          match replyField fields "total" with
          | none => .error "resource chunk omitted total length"
          | some total =>
            match parseU64 total with
            | none => .error "resource chunk total length is invalid"
            | some total =>
              if maxResourceBytes < total.toNat then
                .error ("invalid resource " ++ path ++ ": payload exceeds resource byte limit")
              else if transfer.expectedTotal.any (· ≠ total) then
                .error "resource length changed during transfer"
              else
                match replyField fields "datahex" with
                | none => .error ("resource chunk omitted data for " ++ path)
                | some encoded => .ok (total, encoded)

/-- What follows from a chunk: an error, another request, or the resource. -/
def extend (transfer : Transfer) (response : List Char) (total : BitVec 64)
    (chunk : List UInt8) : Fallible String (Advance.Turn Transfer (List UInt8)) :=
  let eof := replyField (replyFields response) "eof"
  let bytes := transfer.bytes ++ chunk
  if chunk = [] ∧ transfer.offset ≠ total then .error "resource chunk made no progress"
  else if total.toNat < bytes.length then .error "resource chunks exceed advertised length"
  else if eof = some ['0'] then .value (.next ⟨bytes, some total, transfer.exchanges + 1⟩)
  else if eof = some ['1'] then
    if bytes.length ≠ total.toNat then .error "resource ended before advertised length"
    else .value (.last bytes)
  else .error "resource chunk EOF flag is invalid"

/-- One exchange. -/
def turn (transfer : Transfer) : Fallible String (Advance.Turn Transfer (List UInt8)) :=
  (Fallible.ofExcept (transfer.response floats exchange session path)).bind fun response =>
    (Fallible.ofExcept (transfer.received path response)).bind fun reply =>
      ((decodeHexBounded reply.2 resourceChunkBytes.toNat).mapError fun error =>
          "invalid resource " ++ path ++ ": " ++ error).bind fun chunk =>
        transfer.extend response reply.1 chunk

end Transfer

abbrev ResourceCache := String → Option (List UInt8)

/-- `request_resource` of a live transport, with as many exchanges as there is fuel for; the cache
is what it is afterwards. -/
def requestResource (floats : FloatText)
    (exchange : Nat → List UInt8 → Except String (List Char)) (token : Option SessionToken)
    (cache : ResourceCache) (path : String) (fuel : Nat) :
    Fallible (Halt String) (List UInt8) × ResourceCache :=
  match cache path with
  | some bytes => (.value bytes, cache)
  | none =>
    match token with
    | none => (.error (.raised "server attach response did not identify the client"), cache)
    | some session =>
      match Advance.run (Transfer.turn floats exchange session path) fuel Transfer.start with
      | .value bytes => (.value bytes, Function.update cache path (some bytes))
      | outcome => (outcome, cache)

end Dream64.Ipc
