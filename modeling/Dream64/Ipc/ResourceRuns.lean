import Dream64.Ipc.ResourceChunks

/-!
# Transfers of resources

A transfer comes to an end unless a reply cuts its hex data inside a character,
which panics, or from some exchange on every reply says, without data and at
the advertised length, that the end is not reached. What it comes to is what
the replies carried, as long as advertised, and nothing else enters the cache.
From the server it is the file. `resource_transferred` puts this together.
-/

namespace Dream64.Ipc

open String (utf8Len)
open Words (Unspaced joined splitOnce)

/-! ## Replies that fit -/

/-- What a reply says, if it fits what the client has. -/
structure Transfer.Fits (transfer : Transfer) (response : List Char)
    (advertised : BitVec 64) (encoded : Word) : Prop where
  ok : "ok ".toList.isPrefixOf response = true
  offset : (replyField (replyFields response) "offset").bind parseU64 = some transfer.offset
  total : (replyField (replyFields response) "total").bind parseU64 = some advertised
  bound : advertised.toNat ≤ maxResourceBytes
  expected : transfer.expectedTotal.any (· ≠ advertised) = false
  data : replyField (replyFields response) "datahex" = some encoded

theorem Transfer.received_eq_ok {transfer : Transfer} {path : String} {response : List Char}
    {total : BitVec 64} {encoded : Word} :
    transfer.received path response = .ok (total, encoded) ↔
      transfer.Fits response total encoded := by
  constructor
  · intro h
    rw [received] at h
    obtain ⟨_, hok, h⟩ := Codec.bind_eq_ok h
    have hprefixed : "ok ".toList.isPrefixOf response = true := by
      by_contra hnot
      rw [requireOk, if_neg hnot] at hok
      cases hok
    cases hoffset : replyField (replyFields response) "offset" with
    | none => simp only [hoffset, reduceCtorEq] at h
    | some offset =>
      simp only [hoffset] at h
      cases hparsed : parseU64 offset with
      | none => simp only [hparsed, reduceCtorEq] at h
      | some offset =>
        simp only [hparsed] at h
        split at h
        · cases h
        · rename_i hsame
          cases htotal : replyField (replyFields response) "total" with
          | none => simp only [htotal, reduceCtorEq] at h
          | some advertised =>
            simp only [htotal] at h
            cases hadvertised : parseU64 advertised with
            | none => simp only [hadvertised, reduceCtorEq] at h
            | some advertised =>
              simp only [hadvertised] at h
              split at h
              · cases h
              · rename_i hbound
                split at h
                · cases h
                · rename_i hexpected
                  cases hdata : replyField (replyFields response) "datahex" with
                  | none => simp only [hdata, reduceCtorEq] at h
                  | some data =>
                    simp only [hdata, Except.ok.injEq, Prod.mk.injEq] at h
                    obtain ⟨rfl, rfl⟩ := h
                    refine ⟨hprefixed, ?_, ?_, by omega, by simpa using hexpected, hdata⟩
                    · rw [hoffset, Option.bind_some, hparsed, not_not.1 hsame]
                    · rw [htotal, Option.bind_some, hadvertised]
  · rintro ⟨hok, hoffset, htotal, hbound, hexpected, hdata⟩
    obtain ⟨offset, hoffset, hparsed⟩ := Option.bind_eq_some_iff.1 hoffset
    obtain ⟨advertised, htotal, hadvertised⟩ := Option.bind_eq_some_iff.1 htotal
    rw [received, requireOk, if_pos hok]
    simp only [Except.bind, hoffset, hparsed, htotal, hadvertised, hdata, hexpected, ne_eq, not_true_eq_false,
      if_false, if_neg (Nat.not_lt.2 hbound), Bool.false_eq_true]

section

variable {floats : FloatText} {exchange : Nat → List UInt8 → Except String (List Char)}
  {session : SessionToken} {path : String} {transfer : Transfer} {response : List Char}
  {total : BitVec 64} {encoded : Word} {chunk : List UInt8}

theorem Transfer.turn_of_fits (hresponse : transfer.response floats exchange session path =
    .ok response) (hfits : transfer.Fits response total encoded) :
    turn floats exchange session path transfer =
      ((decodeHexBounded encoded resourceChunkBytes.toNat).mapError fun error =>
        "invalid resource " ++ path ++ ": " ++ error).bind fun chunk =>
          transfer.extend response total chunk := by
  rw [turn, hresponse]
  show Fallible.bind (Fallible.ofExcept (transfer.received path response)) _ = _
  rw [received_eq_ok.2 hfits]
  rfl

theorem Transfer.turn_eq_value {outcome : Advance.Turn Transfer (List UInt8)} :
    turn floats exchange session path transfer = .value outcome ↔
      ∃ response total encoded chunk, transfer.response floats exchange session path = .ok response ∧
        transfer.Fits response total encoded ∧
        decodeHexBounded encoded resourceChunkBytes.toNat = .value chunk ∧
        transfer.extend response total chunk = .value outcome := by
  constructor
  · intro h
    rw [turn, Fallible.bind_eq_value] at h
    obtain ⟨response, hresponse, h⟩ := h
    obtain ⟨⟨total, encoded⟩, hreceived, h⟩ := Fallible.bind_eq_value.1 h
    obtain ⟨chunk, hchunk, h⟩ := Fallible.bind_eq_value.1 h
    exact ⟨response, total, encoded, chunk, Fallible.ofExcept_eq_value.1 hresponse,
      received_eq_ok.1 (Fallible.ofExcept_eq_value.1 hreceived),
      Fallible.mapError_eq_value.1 hchunk, h⟩
  · rintro ⟨response, total, encoded, chunk, hresponse, hfits, hdecode, hextend⟩
    rw [turn_of_fits hresponse hfits, Fallible.mapError_eq_value.2 hdecode, Fallible.value_bind,
      hextend]

theorem Transfer.extend_ne_panic : transfer.extend response total chunk ≠ .panic := by
  rw [extend]
  split_ifs <;> simp

theorem decodeHexBounded_eq_panic {maxBytes : Nat} : decodeHexBounded encoded maxBytes = .panic ↔
    utf8Len encoded % 2 = 0 ∧ utf8Len encoded / 2 ≤ maxBytes ∧ cutsCharacter encoded = true := by
  rw [decodeHexBounded]
  by_cases hodd : utf8Len encoded % 2 = 0
  · rw [if_neg (by omega)]
    by_cases hlarge : maxBytes < utf8Len encoded / 2
    · rw [if_pos hlarge]
      simp only [reduceCtorEq, false_iff, not_and]
      omega
    · rw [if_neg hlarge, Fallible.mapError_eq_panic, unhexPairs_eq_panic _ _ (by omega)]
      exact ⟨fun h => ⟨hodd, by omega, h⟩, fun h => h.2.2⟩
  · rw [if_pos hodd]
    simp only [reduceCtorEq, false_iff, not_and]
    exact fun h => absurd h hodd

/-- The chunk is the bytes of the hex pairs. -/
theorem hexPairs_of_decodeHexBounded {maxBytes : Nat}
    (h : decodeHexBounded encoded maxBytes = .value chunk) : hexPairs encoded = some chunk := by
  rw [decodeHexBounded] at h
  split at h
  · cases h
  · rename_i hodd
    split at h
    · cases h
    · exact (unhexPairs_eq_value _ _ _ (by omega)).1 (Fallible.mapError_eq_value.1 h)

end

/-! ## What the server replies -/

theorem parseCommand_requestResource (floats : FloatText) (session : SessionToken) {path : String}
    (hpath : path ≠ "") (offset : BitVec 64) :
    parseCommand floats ((ClientRequest.requestResource path offset).frame floats session) =
      .value (.resourceChunk session.text path offset resourceChunkBytes) := by
  have hunspaced := unspaced_fields numeralFloats_lawful session (.requestResource path offset)
  have hrequest : (ClientRequest.requestResource path offset).HasText := hpath
  have hnonempty := filter_nonempty
    (fields_ne_nil numeralFloats_lawful session hrequest)
  rw [parseCommand, ClientRequest.frame, Codec.ofUtf8_eq_some.2 rfl, Fallible.orError_some,
    Fallible.value_bind, String.toList_ofList]
  rw [show ClientRequest.fields floats session.text.toList (.requestResource path offset) =
    ClientRequest.fields numeralFloats session.text.toList (.requestResource path offset) from rfl,
    Words.splitAsciiWhitespace_joined hunspaced, hnonempty]
  exact parseWords_requestResource floats session.text path offset

theorem unspaced_keyValue {key : String} {value : Word} (hkey : Unspaced key.toList)
    (hvalue : Unspaced value) : Unspaced (keyValue key value) :=
  unspaced_append hkey (unspaced_cons (by decide) hvalue)

theorem splitOnce_keyValue {key : String} (hkey : '=' ∉ key.toList) (value : Word) :
    splitOnce '=' (keyValue key value) = some (key.toList, value) :=
  Words.splitOnce_append hkey value

/-- Without white space in its fields, a line is one line. -/
theorem takeWhile_joined {fields : List Word} (h : ∀ field ∈ fields, Unspaced field) :
    (joined fields).takeWhile (· ≠ '\n') = joined fields := by
  rw [List.takeWhile_eq_self_iff]
  induction fields with
  | nil => exact List.forall_mem_nil _
  | cons field rest ih =>
    have hfield : ∀ c ∈ field, decide (c ≠ '\n') = true := by
      intro c hc
      rw [decide_eq_true_eq]
      rintro rfl
      exact absurd (h field List.mem_cons_self '\n' hc) (by decide)
    have hrest := ih fun other hother => h other (List.mem_cons_of_mem _ hother)
    cases rest with
    | nil => exact hfield
    | cons next rest =>
      intro c hc
      rw [joined, List.mem_append, List.mem_cons] at hc
      · rcases hc with hc | rfl | hc
        · exact hfield c hc
        · decide
        · exact hrest c hc
      · exact List.cons_ne_nil _ _

theorem replyFields_chunkReply (path : String) (offset : BitVec 64) (chunk : ResourceChunk) :
    replyFields (chunkReply path offset chunk) =
      [("protocol".toList, ['3']), ("pathhex".toList, encodeHex path),
        ("offset".toList, Numerals.printNat 10 offset.toNat),
        ("total".toList, Numerals.printNat 10 chunk.total),
        ("eof".toList, Numerals.printNat 10 chunk.eof.toNat),
        ("datahex".toList, hex chunk.bytes)] := by
  have hnumber (n : Nat) : Unspaced (Numerals.printNat 10 n) :=
    unspaced_printNat (by decide) (by decide)
  have hversion : Unspaced ['3'] := by
    intro c hc
    rw [List.mem_singleton] at hc
    rw [hc]
    decide
  have hunspaced : ∀ field ∈ ["ok".toList, "resource_chunk".toList, keyValue "protocol" ['3'],
      keyValue "pathhex" (encodeHex path), keyValue "offset" (Numerals.printNat 10 offset.toNat),
      keyValue "total" (Numerals.printNat 10 chunk.total),
      keyValue "eof" (Numerals.printNat 10 chunk.eof.toNat),
      keyValue "datahex" (hex chunk.bytes)], Unspaced field := by
    simp only [List.forall_mem_cons]
    exact ⟨unspaced_name (by decide), unspaced_name (by decide),
      unspaced_keyValue (unspaced_name (by decide)) hversion,
      unspaced_keyValue (unspaced_name (by decide)) (unspaced_hex _),
      unspaced_keyValue (unspaced_name (by decide)) (hnumber _),
      unspaced_keyValue (unspaced_name (by decide)) (hnumber _),
      unspaced_keyValue (unspaced_name (by decide)) (hnumber _),
      unspaced_keyValue (unspaced_name (by decide)) (unspaced_hex _), List.forall_mem_nil _⟩
  have hnonempty (key : String) (value : Word) : (!(keyValue key value).isEmpty) = true := by
    rw [keyValue]
    simp
  rw [replyFields, chunkReply, takeWhile_joined hunspaced,
    Words.splitAsciiWhitespace_joined hunspaced]
  rw [List.filter_cons_of_pos (by decide), List.filter_cons_of_pos (by decide)]
  simp only [List.filter_cons_of_pos (p := fun word : Word => !word.isEmpty) (hnonempty _ _),
    List.filter_nil]
  rw [List.filterMap_cons_none (by decide), List.filterMap_cons_none (by decide)]
  simp only [List.filterMap_cons_some (splitOnce_keyValue (by decide : '=' ∉ "protocol".toList) _),
    List.filterMap_cons_some (splitOnce_keyValue (by decide : '=' ∉ "pathhex".toList) _),
    List.filterMap_cons_some (splitOnce_keyValue (by decide : '=' ∉ "offset".toList) _),
    List.filterMap_cons_some (splitOnce_keyValue (by decide : '=' ∉ "total".toList) _),
    List.filterMap_cons_some (splitOnce_keyValue (by decide : '=' ∉ "eof".toList) _),
    List.filterMap_cons_some (splitOnce_keyValue (by decide : '=' ∉ "datahex".toList) _),
    List.filterMap_nil]

theorem ok_isPrefixOf_chunkReply (path : String) (offset : BitVec 64) (chunk : ResourceChunk) :
    "ok ".toList.isPrefixOf (chunkReply path offset chunk) = true := rfl

theorem decodeHexBounded_hex {bytes : List UInt8} {maxBytes : Nat} (h : bytes.length ≤ maxBytes) :
    decodeHexBounded (hex bytes) maxBytes = .value bytes := by
  rw [decodeHexBounded, utf8Len_hex, if_neg (by omega), Nat.mul_div_cancel_left _ (by decide),
    if_neg (by omega), unhexPairs_hex]
  rfl

/-! ## The transfer of a file -/

section Server

variable (floats : FloatText) {sessions : String → Bool}
  {openResource : String → Except String (List UInt8)} (other : Command → List Char)
  {session : SessionToken} {path : String} {file : List UInt8}

theorem respond_requestResource (hsession : sessions session.text = true) (hpath : path ≠ "")
    (hfile : openResource path = .ok file) (offset : BitVec 64) (hoffset : offset.toNat ≤ file.length) :
    respond floats sessions openResource other
        ((ClientRequest.requestResource path offset).frame floats session) =
      .ok (chunkReply path offset ⟨(file.drop offset.toNat).take (min (file.length - offset.toNat)
        maxResourceChunkBytes), file.length, decide (offset.toNat + min (file.length - offset.toNat)
        maxResourceChunkBytes = file.length)⟩) := by
  rw [respond, parseCommand_requestResource floats session hpath]
  show (if sessions session.text = true then _ else _) = _
  rw [if_pos hsession]
  have hread : readProjectResourceChunk openResource path offset.toNat resourceChunkBytes.toNat =
      .ok ⟨(file.drop offset.toNat).take (min (file.length - offset.toNat) maxResourceChunkBytes),
        file.length, decide (offset.toNat + min (file.length - offset.toNat)
          maxResourceChunkBytes = file.length)⟩ := by
    rw [readProjectResourceChunk, if_neg (by decide), hfile]
    show (if _ then _ else _) = _
    rw [if_neg (by omega)]
    rfl
  rw [hread]

/-- The client has the file up to its offset. -/
structure UpTo (file : List UInt8) (transfer : Transfer) : Prop where
  bytes : transfer.bytes = file.take transfer.bytes.length
  total : transfer.expectedTotal.any (· ≠ BitVec.ofNat 64 file.length) = false

section

variable {transfer : Transfer} (hsession : sessions session.text = true) (hpath : path ≠ "")
  (hfile : openResource path = .ok file) (hlength : file.length ≤ maxResourceBytes)
  (h : UpTo file transfer)

include hsession hpath hfile hlength h

theorem turn_of_upTo :
    Transfer.turn floats (fun _ => respond floats sessions openResource other) session path transfer =
      .value (.last file) ∨
    ∃ next, Transfer.turn floats (fun _ => respond floats sessions openResource other) session path
        transfer = .value (.next next) ∧ UpTo file next ∧
      transfer.bytes.length < next.bytes.length ∧ next.bytes.length ≤ file.length := by
  have hmax : maxResourceBytes < 2 ^ 64 := by decide
  have hlen : transfer.bytes.length ≤ file.length := by
    rw [h.bytes]
    exact List.length_take_le' _ _
  have hoffset : transfer.offset.toNat = transfer.bytes.length := by
    rw [Transfer.offset, BitVec.toNat_ofNat, Nat.mod_eq_of_lt (by omega)]
  have htotal : (BitVec.ofNat 64 file.length).toNat = file.length := by
    rw [BitVec.toNat_ofNat, Nat.mod_eq_of_lt (by omega)]
  generalize hn : transfer.bytes.length = n at *
  have hresponse := respond_requestResource floats other hsession hpath hfile transfer.offset
    (by omega)
  rw [hoffset] at hresponse
  generalize htake : min (file.length - n) maxResourceChunkBytes = take at *
  have hfits : transfer.Fits (chunkReply path transfer.offset
      ⟨(file.drop n).take take, file.length, decide (n + take = file.length)⟩)
      (BitVec.ofNat 64 file.length) (hex ((file.drop n).take take)) := by
    have hparse : parseU64 (Numerals.printNat 10 file.length) =
        some (BitVec.ofNat 64 file.length) := by
      rw [parseU64, Numerals.parseNat_printNat (by decide) (by decide) (by omega)]
      rfl
    refine ⟨ok_isPrefixOf_chunkReply _ _ _, ?_, ?_, by omega, h.total, ?_⟩
    · rw [replyFields_chunkReply]
      exact parseU64_printNat transfer.offset
    · rw [replyFields_chunkReply]
      exact hparse
    · rw [replyFields_chunkReply]
      rfl
  have hchunk : ((file.drop n).take take).length = take := by
    rw [List.length_take, List.length_drop]
    omega
  have hdecode : decodeHexBounded (hex ((file.drop n).take take)) resourceChunkBytes.toNat =
      .value ((file.drop n).take take) := by
    apply decodeHexBounded_hex
    rw [hchunk]
    show take ≤ maxResourceChunkBytes
    omega
  have hbytes : transfer.bytes = file.take n := by
    have := h.bytes
    rwa [hn] at this
  have hnext : transfer.bytes ++ (file.drop n).take take = file.take (n + take) := by
    rw [List.take_add, hbytes]
  have hlast : (file.take (n + take)).length = n + take := by
    rw [List.length_take]
    omega
  have hprogress : ¬ ((file.drop n).take take = [] ∧
      transfer.offset ≠ BitVec.ofNat 64 file.length) := by
    rintro ⟨hnil, hne⟩
    rw [hnil, List.length_nil] at hchunk
    have hpos : 0 < maxResourceChunkBytes := by decide
    apply hne
    apply BitVec.eq_of_toNat_eq
    omega
  have heof : replyField (replyFields (chunkReply path transfer.offset
      ⟨(file.drop n).take take, file.length, decide (n + take = file.length)⟩)) "eof" =
      some (Numerals.printNat 10 (decide (n + take = file.length)).toNat) := by
    rw [replyFields_chunkReply]
    rfl
  by_cases hend : n + take = file.length
  · left
    refine Transfer.turn_eq_value.2 ⟨_, _, _, _, hresponse, hfits, hdecode, ?_⟩
    rw [decide_eq_true hend] at heof ⊢
    have hone : Numerals.printNat 10 (true.toNat) = ['1'] := by decide
    rw [hone] at heof
    have hfileEnd : file.take (n + take) = file := by
      rw [hend]
      exact List.take_length
    rw [Transfer.extend, if_neg hprogress, hnext, hfileEnd, htotal, if_neg (by omega), heof,
      if_neg (by decide), if_pos rfl, if_neg (by omega)]
  · right
    have hpos : 0 < maxResourceChunkBytes := by decide
    refine ⟨⟨file.take (n + take), some (BitVec.ofNat 64 file.length), transfer.exchanges + 1⟩,
      Transfer.turn_eq_value.2 ⟨_, _, _, _, hresponse, hfits, hdecode, ?_⟩, ⟨?_, ?_⟩, ?_, ?_⟩
    · rw [decide_eq_false hend] at heof ⊢
      have hzero : Numerals.printNat 10 (false.toNat) = ['0'] := by decide
      rw [hzero] at heof
      rw [Transfer.extend, if_neg hprogress, hnext, htotal, if_neg (by omega), heof, if_pos rfl]
    · show file.take (n + take) = file.take (file.take (n + take)).length
      rw [hlast]
    · simp
    · show n < (file.take (n + take)).length
      omega
    · show (file.take (n + take)).length ≤ file.length
      omega

/-- From any place of it, the rest of the file is transferred. -/
theorem run_of_upTo : ∃ n, ∀ m ≥ n, Advance.run (Transfer.turn floats
      (fun _ => respond floats sessions openResource other) session path) m transfer =
        .value file := by
  induction hk : file.length - transfer.bytes.length using Nat.strongRecOn generalizing transfer with
  | ind k ih =>
    rcases turn_of_upTo floats other hsession hpath hfile hlength h with
      hlast | ⟨next, hnext, hupTo, hlt, hle⟩
    · refine ⟨1, fun m hm => ?_⟩
      obtain ⟨m, rfl⟩ : ∃ l, m = l + 1 := ⟨m - 1, by omega⟩
      rw [Advance.run, hlast]
    · obtain ⟨n, hn⟩ := ih (file.length - next.bytes.length) (by omega) hupTo rfl
      refine ⟨n + 1, fun m hm => ?_⟩
      obtain ⟨m, rfl⟩ : ∃ l, m = l + 1 := ⟨m - 1, by omega⟩
      rw [Advance.run_next hnext]
      exact hn m (by omega)

end

end Server

/-! ## Any replies -/

section Replies

variable (floats : FloatText) (exchange : Nat → List UInt8 → Except String (List Char))
  (session : SessionToken) (path : String)

/-- The reply to request `i`, at this offset, carried the chunk and advertised the length. -/
def Carried (i offset : Nat) (total : BitVec 64) (chunk : List UInt8) : Prop :=
  ∃ response, exchange i ((ClientRequest.requestResource path (BitVec.ofNat 64 offset)).frame floats
      session) = .ok response ∧
    (replyField (replyFields response) "total").bind parseU64 = some total ∧
    (replyField (replyFields response) "datahex").bind hexPairs = some chunk

/-- The bytes are what the replies carried, one behind the other. -/
def Collected (total : BitVec 64) (count : Nat) (bytes : List UInt8) : Prop :=
  ∃ chunks : List (List UInt8), chunks.length = count ∧ chunks.flatten = bytes ∧
    ∀ i chunk, chunks[i]? = some chunk →
      Carried floats exchange session path i (chunks.take i).flatten.length total chunk

/-- A transfer that has exactly what was advertised. -/
def Assembled (bytes : List UInt8) : Prop :=
  ∃ total count, bytes.length = total.toNat ∧ Collected floats exchange session path total count bytes

/-- The reply that comes next fits, and its data are cut inside a character. -/
def Transfer.Cut (transfer : Transfer) : Prop :=
  ∃ response total encoded, transfer.response floats exchange session path = .ok response ∧
    transfer.Fits response total encoded ∧ utf8Len encoded % 2 = 0 ∧
    utf8Len encoded / 2 ≤ resourceChunkBytes.toNat ∧ cutsCharacter encoded = true

/-- The reply that comes next fits, has no data at the advertised length, and denies the end. -/
def Transfer.Empty (transfer : Transfer) : Prop :=
  ∃ response, transfer.response floats exchange session path = .ok response ∧
    transfer.Fits response transfer.offset [] ∧
    replyField (replyFields response) "eof" = some ['0']

/-- What holds in front of every exchange. -/
structure Transfer.Sound (transfer : Transfer) : Prop where
  bound : transfer.bytes.length ≤ maxResourceBytes
  collected : ∀ total, transfer.expectedTotal = none ∨ transfer.expectedTotal = some total →
    Collected floats exchange session path total transfer.exchanges transfer.bytes

variable {floats exchange session path} {transfer next : Transfer} {total : BitVec 64}
  {response : List Char} {encoded : Word} {bytes chunk : List UInt8}

theorem sound_start : Transfer.Sound floats exchange session path Transfer.start := by
  refine ⟨Nat.zero_le _, fun total _ => ⟨[], rfl, rfl, fun i chunk h => ?_⟩⟩
  rw [List.getElem?_nil] at h
  cases h

theorem Collected.snoc {count : Nat} (h : Collected floats exchange session path total count bytes)
    (hcarried : Carried floats exchange session path count bytes.length total chunk) :
    Collected floats exchange session path total (count + 1) (bytes ++ chunk) := by
  obtain ⟨chunks, rfl, rfl, hall⟩ := h
  refine ⟨chunks ++ [chunk], by simp, by simp, fun i other hother => ?_⟩
  rcases Nat.lt_trichotomy i chunks.length with hlt | rfl | hgt
  · rw [List.getElem?_append_left hlt] at hother
    rw [List.take_append_of_le_length (Nat.le_of_lt hlt)]
    exact hall i other hother
  · rw [List.getElem?_append_right (Nat.le_refl _), Nat.sub_self, List.getElem?_cons_zero,
      Option.some.injEq] at hother
    subst hother
    rw [List.take_append_of_le_length (Nat.le_refl _), List.take_length]
    exact hcarried
  · rw [List.getElem?_eq_none (by rw [List.length_append, List.length_singleton]; omega)] at hother
    cases hother

theorem carried_of_fits (hresponse : transfer.response floats exchange session path = .ok response)
    (hfits : transfer.Fits response total encoded)
    (hdecode : decodeHexBounded encoded resourceChunkBytes.toNat = .value chunk) :
    Carried floats exchange session path transfer.exchanges transfer.bytes.length total chunk := by
  refine ⟨response, hresponse, hfits.total, ?_⟩
  rw [hfits.data, Option.bind_some, hexPairs_of_decodeHexBounded hdecode]

/-- What the chunk is put behind was advertised with the same length. -/
theorem collected_of_fits (h : Transfer.Sound floats exchange session path transfer)
    (hfits : transfer.Fits response total encoded) :
    Collected floats exchange session path total transfer.exchanges transfer.bytes := by
  apply h.collected
  cases hexpected : transfer.expectedTotal with
  | none => exact .inl rfl
  | some old =>
    have hold := hfits.expected
    rw [hexpected, Option.any_some, decide_eq_false_iff_not, not_not] at hold
    rw [hold]
    exact .inr rfl

theorem extend_eq_next : transfer.extend response total chunk = .value (.next next) ↔
    ¬ (chunk = [] ∧ transfer.offset ≠ total) ∧ (transfer.bytes ++ chunk).length ≤ total.toNat ∧
      replyField (replyFields response) "eof" = some ['0'] ∧
      next = ⟨transfer.bytes ++ chunk, some total, transfer.exchanges + 1⟩ := by
  rw [Transfer.extend]
  constructor
  · intro h
    split_ifs at h with hprogress hlarge heof
    · cases h
      exact ⟨hprogress, by omega, heof, rfl⟩
    · cases h
  · rintro ⟨hprogress, hlarge, heof, rfl⟩
    rw [if_neg hprogress, if_neg (by omega), if_pos heof]

theorem extend_eq_last : transfer.extend response total chunk = .value (.last bytes) →
    bytes = transfer.bytes ++ chunk ∧ bytes.length = total.toNat := by
  rw [Transfer.extend]
  intro h
  split_ifs at h with hprogress hlarge heof hone hlength
  · cases h
  · cases h
    exact ⟨rfl, by omega⟩

theorem forward_transfer : Advance.Forward (Transfer.turn floats exchange session path)
    (Transfer.Sound floats exchange session path) (Transfer.Empty floats exchange session path)
    fun transfer => maxResourceBytes - transfer.bytes.length := by
  constructor
  · intro transfer next hsound hturn
    obtain ⟨response, total, encoded, chunk, hresponse, hfits, hdecode, hextend⟩ :=
      Transfer.turn_eq_value.1 hturn
    obtain ⟨-, hlength, -, rfl⟩ := extend_eq_next.1 hextend
    have hbound := hfits.bound
    refine ⟨by show (transfer.bytes ++ chunk).length ≤ _; omega, fun other hother => ?_⟩
    have hsame : total = other := by
      rcases hother with hnone | hsome
      · cases hnone
      · exact Option.some.inj hsome
    subst hsame
    exact (collected_of_fits hsound hfits).snoc (carried_of_fits hresponse hfits hdecode)
  · intro transfer next hsound hturn
    obtain ⟨response, total, encoded, chunk, hresponse, hfits, hdecode, hextend⟩ :=
      Transfer.turn_eq_value.1 hturn
    obtain ⟨hprogress, hlength, heof, rfl⟩ := extend_eq_next.1 hextend
    have hbound := hfits.bound
    rw [List.length_append] at hlength
    cases chunk with
    | nil =>
      right
      have htotal : transfer.offset = total := by
        by_contra hne
        exact hprogress ⟨rfl, hne⟩
      have hencoded : encoded = [] := by
        have hlen := utf8Len_of_hexPairs (hexPairs_of_decodeHexBounded hdecode)
        cases encoded with
        | nil => rfl
        | cons c rest =>
          have := c.utf8Size_pos
          rw [String.utf8Len_cons, List.length_nil] at hlen
          omega
      subst hencoded
      rw [← htotal] at hfits
      exact ⟨by simp, response, hresponse, hfits, heof⟩
    | cons byte rest =>
      left
      rw [List.length_cons] at hlength
      show maxResourceBytes - (transfer.bytes ++ byte :: rest).length < _
      rw [List.length_append, List.length_cons]
      omega

theorem turn_eq_panic : Transfer.turn floats exchange session path transfer = .panic ↔
    Transfer.Cut floats exchange session path transfer := by
  constructor
  · intro h
    rw [Transfer.turn] at h
    rcases Fallible.bind_eq_panic.1 h with h | ⟨response, hresponse, h⟩
    · exact absurd h (Fallible.ofExcept_ne_panic _)
    · rcases Fallible.bind_eq_panic.1 h with h | ⟨⟨total, encoded⟩, hreceived, h⟩
      · exact absurd h (Fallible.ofExcept_ne_panic _)
      · rcases Fallible.bind_eq_panic.1 h with h | ⟨chunk, -, h⟩
        · have hcut := decodeHexBounded_eq_panic.1 (Fallible.mapError_eq_panic.1 h)
          exact ⟨response, total, encoded, Fallible.ofExcept_eq_value.1 hresponse,
            Transfer.received_eq_ok.1 (Fallible.ofExcept_eq_value.1 hreceived), hcut⟩
        · exact absurd h Transfer.extend_ne_panic
  · rintro ⟨response, total, encoded, hresponse, hfits, hcut⟩
    rw [Transfer.turn_of_fits hresponse hfits]
    exact Fallible.bind_eq_panic.2
      (.inl (Fallible.mapError_eq_panic.2 (decodeHexBounded_eq_panic.2 hcut)))

theorem assembled_of_run {n : Nat} (h : Advance.run (Transfer.turn floats exchange session path) n
    Transfer.start = .value bytes) : Assembled floats exchange session path bytes := by
  refine forward_transfer.result sound_start (?_ : ∀ transfer bytes, _ → _ → Assembled _ _ _ _ bytes) h
  intro transfer bytes hsound hturn
  obtain ⟨response, total, encoded, chunk, hresponse, hfits, hdecode, hextend⟩ :=
    Transfer.turn_eq_value.1 hturn
  obtain ⟨rfl, hlength⟩ := extend_eq_last hextend
  exact ⟨total, _, hlength,
    (collected_of_fits hsound hfits).snoc (carried_of_fits hresponse hfits hdecode)⟩

/-! ## The cache -/

/-- A transfer is needed, and a reply cuts its data or all replies from some exchange on deny the
end at the advertised length. -/
def Unanswered (floats : FloatText) (exchange : Nat → List UInt8 → Except String (List Char))
    (token : Option SessionToken) (cache : ResourceCache) (path : String) : Prop :=
  cache path = none ∧ ∃ session, token = some session ∧
    ((∃ n transfer, Advance.reached (Transfer.turn floats exchange session path) n Transfer.start =
        some transfer ∧ Transfer.Cut floats exchange session path transfer) ∨
      Advance.Stalls (Transfer.turn floats exchange session path)
        (Transfer.Empty floats exchange session path) Transfer.start)

theorem finishes_transfer : Advance.Finishes (Transfer.turn floats exchange session path)
    Transfer.start ↔ ¬ ((∃ n transfer, Advance.reached (Transfer.turn floats exchange session path)
        n Transfer.start = some transfer ∧ Transfer.Cut floats exchange session path transfer) ∨
      Advance.Stalls (Transfer.turn floats exchange session path)
        (Transfer.Empty floats exchange session path) Transfer.start) := by
  rw [Advance.finishes_iff forward_transfer sound_start, not_or]
  apply and_congr_left'
  constructor
  · rintro hcalm ⟨n, transfer, hreached, hcut⟩
    exact hcalm n transfer hreached (turn_eq_panic.2 hcut)
  · intro hnone n transfer hreached hpanic
    exact hnone ⟨n, transfer, hreached, turn_eq_panic.1 hpanic⟩

variable {token : Option SessionToken} {cache : ResourceCache}

theorem requestResource_of_cached (h : cache path = some bytes) (n : Nat) :
    requestResource floats exchange token cache path n = (.value bytes, cache) := by
  unfold requestResource
  simp only [h]

theorem requestResource_of_value (hcache : cache path = none) {n : Nat}
    (hrun : Advance.run (Transfer.turn floats exchange session path) n Transfer.start =
      .value bytes) :
    requestResource floats exchange (some session) cache path n =
      (.value bytes, Function.update cache path (some bytes)) := by
  unfold requestResource
  simp only [hcache, hrun]

theorem requestResource_of_ne_value (hcache : cache path = none) {n : Nat}
    (hrun : ∀ bytes, Advance.run (Transfer.turn floats exchange session path) n Transfer.start ≠
      .value bytes) :
    requestResource floats exchange (some session) cache path n =
      (Advance.run (Transfer.turn floats exchange session path) n Transfer.start, cache) := by
  unfold requestResource
  simp only [hcache]

theorem requestResource_finished (floats : FloatText)
    (exchange : Nat → List UInt8 → Except String (List Char)) (token : Option SessionToken)
    (cache : ResourceCache) (path : String) :
    (∃ n, (requestResource floats exchange token cache path n).1.Finished) ↔
      ¬ Unanswered floats exchange token cache path := by
  cases hcache : cache path with
  | some bytes =>
    refine ⟨fun _ h => ?_, fun _ => ⟨0, ?_⟩⟩
    · rw [h.1] at hcache
      cases hcache
    · rw [requestResource_of_cached hcache]
      exact Fallible.finished_value bytes
  | none =>
    cases token with
    | none =>
      refine ⟨?_, fun _ => ⟨0, ?_⟩⟩
      · rintro - ⟨-, session, hsession, -⟩
        cases hsession
      · unfold requestResource
        simp only [hcache]
        exact Fallible.finished_raised _
    | some session =>
      have hfst (n : Nat) : (requestResource floats exchange (some session) cache path n).1 =
          Advance.run (Transfer.turn floats exchange session path) n Transfer.start := by
        by_cases hvalue : ∃ bytes, Advance.run (Transfer.turn floats exchange session path) n
            Transfer.start = .value bytes
        · obtain ⟨bytes, hbytes⟩ := hvalue
          rw [requestResource_of_value hcache hbytes, hbytes]
        · rw [requestResource_of_ne_value hcache fun bytes hbytes => hvalue ⟨bytes, hbytes⟩]
      simp only [hfst]
      refine finishes_transfer.trans (not_congr ⟨fun h => ⟨hcache, session, rfl, h⟩, ?_⟩)
      rintro ⟨-, other, hother, h⟩
      cases hother
      exact h

theorem requestResource_result (floats : FloatText)
    (exchange : Nat → List UInt8 → Except String (List Char)) (token : Option SessionToken)
    (cache : ResourceCache) (path : String) (n : Nat) :
    (requestResource floats exchange token cache path n).2 = cache ∧
        (∀ bytes, (requestResource floats exchange token cache path n).1 = .value bytes →
          cache path = some bytes) ∨
      ∃ session bytes, token = some session ∧ Assembled floats exchange session path bytes ∧
        requestResource floats exchange token cache path n =
          (.value bytes, Function.update cache path (some bytes)) := by
  cases hcache : cache path with
  | some bytes =>
    left
    rw [requestResource_of_cached hcache]
    refine ⟨rfl, ?_⟩
    rintro _ ⟨⟩
    rfl
  | none =>
    cases token with
    | none =>
      left
      unfold requestResource
      simp only [hcache]
      exact ⟨trivial, by simp⟩
    | some session =>
      by_cases hvalue : ∃ bytes, Advance.run (Transfer.turn floats exchange session path) n
          Transfer.start = .value bytes
      · obtain ⟨bytes, hbytes⟩ := hvalue
        exact .inr ⟨session, bytes, rfl, assembled_of_run hbytes,
          requestResource_of_value hcache hbytes⟩
      · left
        rw [requestResource_of_ne_value hcache fun bytes hbytes => hvalue ⟨bytes, hbytes⟩]
        exact ⟨rfl, fun bytes hbytes => (hvalue ⟨bytes, hbytes⟩).elim⟩

end Replies

/-- A request comes to an end exactly if no reply that fits is cut inside a character and the replies
do not go on to deny the end at the advertised length; what it comes to, and only that, is put into
the cache, and is what the replies carried, as long as advertised; from the server it is the file. -/
theorem resource_transferred (floats : FloatText)
    (exchange : Nat → List UInt8 → Except String (List Char)) (token : Option SessionToken)
    (cache : ResourceCache) (path : String) :
    ((∃ n, (requestResource floats exchange token cache path n).1.Finished) ↔
      ¬ Unanswered floats exchange token cache path) ∧
    (∀ n, (requestResource floats exchange token cache path n).2 = cache ∧
        (∀ bytes, (requestResource floats exchange token cache path n).1 = .value bytes →
          cache path = some bytes) ∨
      ∃ session bytes, token = some session ∧ Assembled floats exchange session path bytes ∧
        requestResource floats exchange token cache path n =
          (.value bytes, Function.update cache path (some bytes))) ∧
    ∀ sessions openResource other session file,
      exchange = (fun _ => respond floats sessions openResource other) → token = some session →
      sessions session.text = true → path ≠ "" → openResource path = .ok file →
      file.length ≤ maxResourceBytes → cache path = none →
      ∃ n, ∀ m ≥ n, requestResource floats exchange token cache path m =
        (.value file, Function.update cache path (some file)) := by
  refine ⟨requestResource_finished floats exchange token cache path,
    requestResource_result floats exchange token cache path, ?_⟩
  rintro sessions openResource other session file rfl rfl hsession hpath hfile hlength hcache
  have hstart : UpTo file Transfer.start := ⟨rfl, rfl⟩
  obtain ⟨n, hn⟩ := run_of_upTo floats other hsession
    hpath hfile hlength hstart
  exact ⟨n, fun m hm => requestResource_of_value hcache (hn m hm)⟩

/-- A server with one session and one file. -/
def greetingServer : Nat → List UInt8 → Except String (List Char) := fun _ =>
  respond numeralFloats (fun session => session == firstSession.text)
    (fun path => if path = "hi.txt" then .ok [104, 105, 10] else .error "missing")
    fun _ => "error other".toList

theorem greeting_transferred : ∃ n, ∀ m ≥ n,
    requestResource numeralFloats greetingServer (some firstSession) (fun _ => none) "hi.txt" m =
      (.value [104, 105, 10], Function.update (fun _ => none) "hi.txt" (some [104, 105, 10])) := by
  obtain ⟨-, -, hserver⟩ := resource_transferred numeralFloats greetingServer (some firstSession)
    (fun _ => none) "hi.txt"
  exact hserver _ _ _ firstSession [104, 105, 10] rfl rfl (beq_self_eq_true _) (by decide)
    (if_pos rfl) (by decide) rfl

/-! ## An end that is denied -/

/-- The resource is empty, and the end is not reached. -/
def denyingReply : List Char := "ok resource_chunk offset=0 total=0 eof=0 datahex=".toList

theorem fits_denyingReply {transfer : Transfer} (hbytes : transfer.bytes = [])
    (hexpected : transfer.expectedTotal.any (· ≠ 0) = false) :
    transfer.Fits denyingReply 0 [] := by
  refine ⟨by decide +kernel, ?_, by decide +kernel, by decide, hexpected, by decide +kernel⟩
  rw [Transfer.offset, hbytes]
  decide +kernel

/-- Each reply is taken, and nothing is there behind it. -/
theorem turn_denyingReply {transfer : Transfer} (hbytes : transfer.bytes = [])
    (hexpected : transfer.expectedTotal.any (· ≠ 0) = false) :
    Transfer.turn numeralFloats (fun _ _ => .ok denyingReply) firstSession "a" transfer =
      .value (.next ⟨[], some 0, transfer.exchanges + 1⟩) := by
  have heof : replyField (replyFields denyingReply) "eof" = some ['0'] := by decide +kernel
  refine Transfer.turn_eq_value.2 ⟨denyingReply, 0, [], [], rfl,
    fits_denyingReply hbytes hexpected, by decide +kernel, extend_eq_next.2 ⟨?_, ?_, heof, ?_⟩⟩
  · rintro ⟨-, hne⟩
    apply hne
    rw [Transfer.offset, hbytes]
    rfl
  · rw [hbytes]
    exact Nat.zero_le _
  · rw [hbytes]
    rfl

theorem run_denyingReply (n : Nat) {transfer : Transfer} (hbytes : transfer.bytes = [])
    (hexpected : transfer.expectedTotal.any (· ≠ 0) = false) :
    Advance.run (Transfer.turn numeralFloats (fun _ _ => .ok denyingReply) firstSession "a") n
      transfer = .error .outOfFuel := by
  induction n generalizing transfer with
  | zero => rfl
  | succ n ih =>
    rw [Advance.run_next (turn_denyingReply hbytes hexpected)]
    exact ih rfl (by simp)

/-- A server that denies the end of an empty resource is asked for ever. -/
theorem empty_resource_not_ended : ¬ ∃ n, (requestResource numeralFloats
    (fun _ _ => .ok denyingReply) (some firstSession) (fun _ => none) "a" n).1.Finished := by
  rintro ⟨n, hn⟩
  rw [requestResource_of_ne_value rfl (fun bytes hbytes => ?_), run_denyingReply n rfl rfl] at hn
  · exact Fallible.not_finished_outOfFuel hn
  · rw [run_denyingReply n rfl rfl] at hbytes
    cases hbytes

end Dream64.Ipc
