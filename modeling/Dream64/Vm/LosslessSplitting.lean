import Dream64.Vm.ListOperatorRuns
import Dream64.Vm.TextSplitting

/-!
# Split texts in lists

The pieces of a text are put into a new list, which reads them back as long as
it has no more than `2 ^ 31` entries: a list has no place for the next one,
though it takes it. Up to there the elements with the delimiters are the text,
and the elements without them join to the text (`splittext_lossless_iff`).
-/

namespace Dream64

open ByteText (IsBoundary slice sliceFrom sliceTo)
open Occurrences (leftmostCount)

variable {text target delimiter : List Char} {pieces output : List (List Char)} {list next : DmList}
  {lists after : Arena DmList} {history : ArenaHistory DmList}

/-! ## Text outside of the region -/

theorem intercalate_modifyHead (glue front : List Char) (hne : output ≠ []) :
    glue.intercalate (output.modifyHead (front ++ ·)) = front ++ glue.intercalate output := by
  cases output with
  | nil => exact absurd rfl hne
  | cons piece output =>
    cases output with
    | nil =>
      show glue.intercalate [front ++ piece] = _
      rw [List.intercalate_singleton, List.intercalate_singleton]
    | cons next output =>
      show glue.intercalate ((front ++ piece) :: next :: output) = _
      rw [List.intercalate_cons_cons, List.intercalate_cons_cons]
      simp only [List.append_assoc]

theorem modifyLast_eq (hne : output ≠ []) (back : List Char) : ∃ init last,
    output = init ++ [last] ∧ output.modifyLast (· ++ back) = init ++ [last ++ back] := by
  have hsplit := List.dropLast_append_getLast hne
  refine ⟨output.dropLast, output.getLast hne, hsplit.symm, ?_⟩
  have hlast := List.modifyLast_concat (· ++ back) (output.getLast hne) output.dropLast
  rwa [hsplit] at hlast

/-- The pieces of the region become pieces of the text, with the same delimiters. -/
theorem attachRegion_spec {region : Nat × Nat × Nat} (hne : output ≠ [])
    (hregion : (slice text region.1 region.2.1 : Fallible String (List Char)) = .value target) :
    ∃ pieces, attachRegion text region output = .value pieces ∧ pieces.length = output.length ∧
      ∀ glue : List Char, glue.intercalate output = target → glue.intercalate pieces = text := by
  obtain ⟨a, c, rfl, ha, hc⟩ := ByteText.slice_eq_value_iff.1 hregion
  have hfront : (sliceTo (a ++ (target ++ c)) region.1 : Fallible String (List Char)) = .value a :=
    ByteText.sliceTo_eq_value_iff.2 ⟨_, rfl, ha⟩
  have hback : (sliceFrom (a ++ (target ++ c)) region.2.1 : Fallible String (List Char)) =
      .value c := by
    refine ByteText.sliceFrom_eq_value_iff.2 ⟨a ++ target, List.append_assoc .., ?_⟩
    rw [String.utf8Len_append, hc]
  have hhead : output.modifyHead (a ++ ·) ≠ [] := by
    rw [Ne, List.modifyHead_eq_nil_iff]
    exact hne
  obtain ⟨init, last, hsplit, hlast⟩ := modifyLast_eq hhead c
  have hempty : ¬ output.isEmpty = true := fun h => hne (List.isEmpty_iff.1 h)
  refine ⟨init ++ [last ++ c], ?_, ?_, fun glue hglue => ?_⟩
  · rw [attachRegion, if_neg hempty, hfront, Fallible.value_bind, hback, Fallible.map_value, hlast]
  · have hlength := congrArg List.length hsplit
    rw [List.length_modifyHead, List.length_append, List.length_singleton] at hlength
    rw [hlength, List.length_append, List.length_singleton]
  · have hjoin := intercalate_modifyHead glue a hne
    rw [hglue, hsplit, intercalate_append] at hjoin
    rw [intercalate_append, ← List.append_assoc, hjoin, List.append_assoc]

/-! ## Lists of texts -/

/-- A list to which only texts were added. -/
structure PlainList (list : DmList) (pieces : List (List Char)) : Prop where
  positional : list.positional = pieces.map Value.ofChars
  associative : list.associative = []
  order : list.order = (List.range pieces.length).map ListOrder.mk
  head : list.prefixHead = 0

/-- A list of the heap reads these texts, in order. -/
def ListsTexts (lists : Arena DmList) (id : ListId) (pieces : List (List Char)) : Prop :=
  ∃ list, lists.get id.handle = some list ∧ list.len = pieces.length ∧
    ∀ place piece, pieces[place]? = some piece →
      list.get (place + 1) = some (.ok (.ofChars piece))

theorem plainList_empty : PlainList DmList.empty [] := ⟨rfl, rfl, rfl, rfl⟩

section

variable (h : PlainList list pieces)

include h

theorem PlainList.add (piece : List Char) {count : Nat}
    (hadd : list.add (.ofChars piece) = some (next, count)) :
    PlainList next (pieces ++ [piece]) := by
  have hlength : list.positional.length = pieces.length := by rw [h.positional, List.length_map]
  rw [DmList.add, hlength, ListOrder.positional] at hadd
  split at hadd
  · cases hadd
    refine ⟨?_, h.associative, ?_, h.head⟩
    · show list.positional ++ [Value.ofChars piece] = _
      rw [h.positional, List.map_append, List.map_singleton]
    · show list.order ++ [ListOrder.mk pieces.length] = _
      rw [h.order, List.length_append, List.length_singleton, List.range_succ, List.map_append,
        List.map_singleton]
  · cases hadd

theorem PlainList.exists_add (hlt : pieces.length < 2 ^ 32) (piece : List Char) :
    ∃ next count, list.add (.ofChars piece) = some (next, count) := by
  have hlength : list.positional.length = pieces.length := by rw [h.positional, List.length_map]
  rw [DmList.add, hlength, ListOrder.positional, if_pos hlt]
  exact ⟨_, _, rfl⟩

theorem PlainList.len_eq : list.len = pieces.length := by
  rw [DmList.len, h.head, h.order, List.length_map, List.length_range, Nat.sub_zero]

theorem PlainList.order_at {place : Nat} (hlt : place < pieces.length) :
    list.order[place + list.prefixHead]? = some ⟨place⟩ := by
  rw [h.head, Nat.add_zero, h.order, List.getElem?_map, List.getElem?_range hlt, Option.map_some]

theorem PlainList.get_eq {place : Nat} (hlt : place < pieces.length) :
    list.get (place + 1) = (list.keyAt ⟨place⟩).map .ok := by
  rw [DmList.get, checkedIndex_succ (by rw [h.len_eq]; exact hlt)]
  show (list.order[place + list.prefixHead]?.bind fun entry => _) = _
  rw [h.order_at hlt, Option.bind_some]
  exact Option.map_eq_bind.symm

theorem PlainList.get {place : Nat} {piece : List Char} (hpiece : pieces[place]? = some piece)
    (hlt : place < 2 ^ 31) : list.get (place + 1) = some (.ok (.ofChars piece)) := by
  have hslot : (ListOrder.mk place).slot = .inl place := ListOrder.slot_lt hlt
  rw [h.get_eq (List.getElem?_eq_some_iff.1 hpiece).1, DmList.keyAt, hslot]
  show (list.positional[place]?).map _ = _
  rw [h.positional, List.getElem?_map, hpiece]
  rfl

/-- The first entry that there is no place for is read from the associations. -/
theorem PlainList.get_far (hlt : 2 ^ 31 < pieces.length) : list.get (2 ^ 31 + 1) = none := by
  have hslot : (ListOrder.mk (2 ^ 31)).slot = .inr 0 := rfl
  rw [h.get_eq hlt, DmList.keyAt, hslot]
  show ((list.associative[0]?).map _).map _ = _
  rw [h.associative]
  rfl

end

theorem foldlM_add (h : PlainList list output)
    (hadd : pieces.foldlM (fun list piece => (list.add (.ofChars piece)).map (·.1)) list =
      some next) : PlainList next (output ++ pieces) := by
  induction pieces generalizing list output with
  | nil =>
    cases hadd
    rwa [List.append_nil]
  | cons piece pieces ih =>
    rw [List.foldlM_cons, Option.bind_eq_bind, Option.bind_eq_some_iff] at hadd
    obtain ⟨grown, hgrown, hrest⟩ := hadd
    obtain ⟨⟨_, count⟩, hpiece, rfl⟩ := Option.map_eq_some_iff.1 hgrown
    have hplain := ih (h.add piece hpiece) hrest
    rwa [List.append_assoc, List.singleton_append] at hplain

theorem exists_foldlM_add (h : PlainList list output)
    (hroom : output.length + pieces.length ≤ 2 ^ 31) : ∃ next,
      pieces.foldlM (fun list piece => (list.add (.ofChars piece)).map (·.1)) list = some next := by
  induction pieces generalizing list output with
  | nil => exact ⟨list, rfl⟩
  | cons piece pieces ih =>
    rw [List.length_cons] at hroom
    obtain ⟨grown, count, hadd⟩ := h.exists_add (by omega) piece
    have hlength : (output ++ [piece]).length + pieces.length ≤ 2 ^ 31 := by
      rw [List.length_append, List.length_singleton]
      omega
    obtain ⟨next, hnext⟩ := ih (h.add piece hadd) hlength
    exact ⟨next, by rw [List.foldlM_cons, hadd]; exact hnext⟩

/-! ## New lists -/

/-- There is a handle for one more list. -/
def FreeSlot (lists : Arena DmList) : Prop := lists.free ≠ [] ∨ lists.slotLen < 2 ^ 32

theorem ArenaInv.get_eq (h : ArenaInv lists history) (handle : Handle) :
    lists.get handle = history.records handle := by
  rw [h.valid.get_eq, h.ids.resolves]

/-- What is stored is a list with the texts alone. -/
theorem storePieces_spec (h : ArenaInv lists history) {value : Value}
    (hstore : storePieces lists pieces = some (value, after)) :
    ∃ id list, value = .list id ∧ after.get id.handle = some list ∧ PlainList list pieces := by
  rw [storePieces, Option.bind_eq_bind, Option.bind_eq_some_iff] at hstore
  obtain ⟨⟨grown, handle⟩, hinsert, hstore⟩ := hstore
  have hgrown := h.insert hinsert
  have hempty : grown.get handle = some DmList.empty := by
    rw [hgrown.get_eq]
    exact Function.update_self ..
  simp only [Option.bind_eq_bind, hempty, Option.bind_some] at hstore
  obtain ⟨list, hadd, hstored⟩ := Option.bind_eq_some_iff.1 hstore
  cases hstored
  refine ⟨.ofHandle handle, list, rfl, ?_, foldlM_add plainList_empty hadd⟩
  have hupdated := hgrown.update handle fun _ => list
  rw [hupdated.get_eq, ArenaHistory.update, ← hgrown.get_eq, hempty]
  exact Function.update_self ..

theorem exists_storePieces (h : ArenaInv lists history) (hslot : FreeSlot lists)
    (hroom : pieces.length ≤ 2 ^ 31) : ∃ result, storePieces lists pieces = some result := by
  obtain ⟨grown, handle, hinsert⟩ :=
    @Vm.exists_insert ⟨lists, fun _ => true, fun _ => false⟩ history h hslot DmList.empty
  have hempty : grown.get handle = some DmList.empty := by
    rw [(h.insert hinsert).get_eq]
    exact Function.update_self ..
  have hlength : ([] : List (List Char)).length + pieces.length ≤ 2 ^ 31 := by
    rwa [List.length_nil, Nat.zero_add]
  obtain ⟨list, hadd⟩ := exists_foldlM_add plainList_empty hlength
  refine ⟨(.list (.ofHandle handle), grown.update handle fun _ => list), ?_⟩
  rw [storePieces, Option.bind_eq_bind, hinsert, Option.bind_some]
  simp only [Option.bind_eq_bind, hempty, Option.bind_some, hadd]

theorem storePieces_none (hslot : ¬ FreeSlot lists) : storePieces lists pieces = none := by
  rw [storePieces, @Vm.insert_none ⟨lists, fun _ => true, fun _ => false⟩ hslot DmList.empty]
  rfl

theorem storedPieces_eq_value {result : Value × Arena DmList} :
    storedPieces lists pieces = .value result ↔ storePieces lists pieces = some result := by
  rw [storedPieces]
  cases storePieces lists pieces with
  | none => exact ⟨fun h => (by cases h), fun h => (by cases h)⟩
  | some stored => rw [Fallible.value.injEq, Option.some.injEq]

theorem PlainList.listsTexts {id : ListId} (h : PlainList list pieces)
    (hlist : lists.get id.handle = some list) (hroom : pieces.length ≤ 2 ^ 31) :
    ListsTexts lists id pieces := by
  refine ⟨list, hlist, h.len_eq, fun place piece hpiece => h.get hpiece ?_⟩
  have hlt := (List.getElem?_eq_some_iff.1 hpiece).1
  omega

/-- A list that reads its texts is no longer than it has places. -/
theorem PlainList.length_le {id : ListId} {found : List (List Char)} (h : PlainList list pieces)
    (hlist : lists.get id.handle = some list) (htexts : ListsTexts lists id found) :
    found.length = pieces.length ∧ pieces.length ≤ 2 ^ 31 := by
  obtain ⟨other, hother, hlen, hreads⟩ := htexts
  rw [hlist, Option.some.injEq] at hother
  rw [← hother, h.len_eq] at hlen
  refine ⟨hlen.symm, ?_⟩
  by_contra hlong
  have hfar : 2 ^ 31 < found.length := by omega
  have hread := hreads (2 ^ 31) _ (List.getElem?_eq_getElem hfar)
  rw [← hother, h.get_far (by omega)] at hread
  cases hread

/-! ## Joining -/

section

variable {σ Target : Type} {host : TextHost σ Target} {state : σ} {id : ListId}

theorem strictText_eq_value {value : Value} {context : String}
    (h : strictText host state value context = .value text) :
    (value = .text (String.ofList text) ∨ value = .file (String.ofList text)) := by
  have hother (received : Fallible String (List Char)) :
      (received.bind fun received =>
        (.error (context ++ " requires text, received " ++ String.ofList received) :
          Fallible String (List Char))) ≠ .value text := by
    intro hvalue
    obtain ⟨_, -, herror⟩ := Fallible.bind_eq_value.1 hvalue
    cases herror
  cases value with
  | text string =>
    cases h
    exact .inl (by rw [String.ofList_toList])
  | file path =>
    cases h
    exact .inr (by rw [String.ofList_toList])
  | _ =>
    simp only [strictText] at h
    exact absurd h (hother _)

theorem runtimeText_of_strictText {value : Value} {context : String}
    (h : strictText host state value context = .value text) :
    runtimeText host state value = .value text := by
  rcases strictText_eq_value h with rfl | rfl
  · exact congrArg Fallible.value (String.toList_ofList)
  · exact congrArg Fallible.value (String.toList_ofList)

theorem joinItems_spec (hreads : ∀ place piece, pieces[place]? = some piece →
    list.get (place + 1) = some (.ok (.ofChars piece))) (count start : Nat)
    (hcount : start + count = pieces.length) :
    joinItems host state list count (start + 1) = .value (pieces.drop start) := by
  induction count generalizing start with
  | zero =>
    rw [joinItems, List.drop_eq_nil_of_le (by omega)]
  | succ count ih =>
    have hlt : start < pieces.length := by omega
    have hitem : joinItem host state list (start + 1) = .value (pieces.get ⟨start, hlt⟩) := by
      rw [joinItem, hreads start _ (List.getElem?_eq_getElem hlt)]
      exact congrArg Fallible.value String.toList_ofList
    rw [joinItems, hitem, Fallible.value_bind, ih (start + 1) (by omega), Fallible.map_value,
      List.get_eq_getElem, ← List.drop_eq_getElem_cons]

/-- The elements of a list of texts with the glue between them. -/
theorem jointext_eq {glue : Value} {context : String} (htexts : ListsTexts lists id pieces)
    (hglue : strictText host state glue context = .value delimiter) :
    jointext host state (.list id) glue none none lists =
      .value (.ofChars (delimiter.intercalate pieces)) := by
  obtain ⟨list, hlist, hlen, hreads⟩ := htexts
  have hfirst : resolvePosition 1 list.len = 1 := by
    show (max 1 (min ((list.len : Int) + 1) 1)).toNat = 1
    omega
  have hitems : joinItems host state list pieces.length 1 = .value pieces :=
    joinItems_spec hreads pieces.length 0 (Nat.zero_add _)
  show ((runtimeText host state glue).bind _) = _
  rw [runtimeText_of_strictText hglue, Fallible.value_bind, hlist]
  show (joinItems host state list (min (list.len + 1) (list.len + 1) -
    resolvePosition 1 list.len) (resolvePosition 1 list.len)).map _ = _
  rw [hfirst, Nat.min_self, Nat.add_sub_cancel, hlen, hitems]
  rfl

/-! ## The builtins -/

/-- A delimiter that is a text but not empty, or a regex, has so many occurrences in a region: those
of a text are counted from the left, those of a regex are its successive matches. -/
inductive Occurs (host : TextHost σ Target) (state : σ) (text : List Char) (delimiter : Value)
    (region : Nat × Nat × Nat) : Nat → Prop where
  | literal {d target : List Char}
    (hdelimiter : strictText host state delimiter "splittext delimiter" = .value d) (hne : d ≠ [])
    (htarget : slice text region.1 region.2.1 = (.value target : Fallible String (List Char))) :
    Occurs host state text delimiter region (leftmostCount d target)
  | regex {datum : DatumId} {pattern flags : List Char} {found : List RegexMatch}
    (hdatum : delimiter = .datum datum) (hregex : isRegexDatum host state datum = true)
    (hdelimiter : regexDelimiter host state datum = .value (pattern, flags))
    (hfound : Successive (regexSearch host pattern flags text · region.2.1) text region.2.1 region.1
      found) : Occurs host state text delimiter region found.length

/-- What a text value is split into is the text: with the delimiters all of it, and without them
the text of a delimiter joins it again. -/
structure Lossless (host : TextHost σ Target) (state : σ) (lists : Arena DmList)
    (source delimiter : Value) (start finish : Option Value) (characterIndices : Bool)
    (text : List Char) (region : Nat × Nat × Nat) : Prop where
  whole : ∀ includeDelimiters, truthy includeDelimiters = true → ∃ fuel id after pieces,
    splittext host state fuel source delimiter start finish (some includeDelimiters)
      characterIndices lists = .value (.list id, after) ∧
    ListsTexts after id pieces ∧ pieces.flatten = text
  joined : ∀ (includeDelimiters : Option Value) (d target : List Char),
    includeDelimiters.any truthy = false →
    strictText host state delimiter "splittext delimiter" = .value d →
    slice text region.1 region.2.1 = (.value target : Fallible String (List Char)) →
    ∃ fuel id after pieces,
      splittext host state fuel source delimiter start finish includeDelimiters characterIndices
        lists = .value (.list id, after) ∧
      ListsTexts after id pieces ∧ pieces.length = leftmostCount d target + 1 ∧
      jointext host state (.list id) delimiter none none after = .value (.ofChars text)

variable {source separator : Value} {region : Nat × Nat × Nat} {count fuel : Nat}
  {includeDelimiters : Bool}

theorem splitPieces_literal {d : List Char}
    (hdelimiter : strictText host state separator "splittext delimiter" = .value d)
    (htarget : slice text region.1 region.2.1 = (.value target : Fallible String (List Char))) :
    splitPieces host state fuel text separator region includeDelimiters =
      (splitAtText fuel target d includeDelimiters).bind fun output =>
        (attachRegion text region output).raise := by
  have hliteral (other : Value) (hother : other = separator) :
      ((strictText host state other "splittext delimiter").raise.bind fun delimiter =>
        (splitAtText fuel target delimiter includeDelimiters).bind fun output =>
          (attachRegion text region output).raise) =
      (splitAtText fuel target d includeDelimiters).bind fun output =>
        (attachRegion text region output).raise := by
    rw [hother, hdelimiter]
    rfl
  rw [splitPieces, htarget]
  rcases strictText_eq_value hdelimiter with heq | heq
  · rw [heq]
    exact hliteral _ heq.symm
  · rw [heq]
    exact hliteral _ heq.symm

theorem splitPieces_regex {datum : DatumId} {pattern flags : List Char}
    (hregex : isRegexDatum host state datum = true)
    (hdelimiter : regexDelimiter host state datum = .value (pattern, flags))
    (htarget : slice text region.1 region.2.1 = (.value target : Fallible String (List Char))) :
    splitPieces host state fuel text (.datum datum) region includeDelimiters =
      (splitAtMatches (regexSearch host pattern flags text · region.2.1) fuel text region
        includeDelimiters).bind fun output => (attachRegion text region output).raise := by
  rw [splitPieces, htarget]
  show (if isRegexDatum host state datum = true then _ else _) = _
  rw [if_pos hregex, splitAtDatum, hdelimiter]
  rfl

/-- More fuel does not change the pieces. -/
theorem splitPieces_of_le {m n : Nat} (hle : m ≤ n)
    (h : splitPieces host state m text separator region includeDelimiters = .value pieces) :
    splitPieces host state n text separator region includeDelimiters = .value pieces := by
  obtain ⟨target, htarget, h⟩ := Fallible.bind_eq_value.1 h
  rw [splitPieces, htarget, Fallible.value_bind]
  have hliteral (other : Value)
      (h : ((strictText host state other "splittext delimiter").raise.bind fun delimiter =>
        (splitAtText m target delimiter includeDelimiters).bind fun output =>
          (attachRegion text region output).raise) = .value pieces) :
      ((strictText host state other "splittext delimiter").raise.bind fun delimiter =>
        (splitAtText n target delimiter includeDelimiters).bind fun output =>
          (attachRegion text region output).raise) = .value pieces := by
    obtain ⟨d, hd, h⟩ := Fallible.bind_eq_value.1 h
    obtain ⟨output, houtput, h⟩ := Fallible.bind_eq_value.1 h
    rw [hd, Fallible.value_bind]
    refine Fallible.bind_eq_value.2 ⟨output, ?_, h⟩
    rw [splitAtText] at houtput ⊢
    split at houtput
    · rename_i hempty
      rw [if_pos hempty, houtput]
    · rename_i hempty
      obtain ⟨last, hlast, houtput⟩ := Fallible.bind_eq_value.1 houtput
      rw [if_neg hempty, Advance.run_of_le hlast hle, Fallible.value_bind, houtput]
  cases separator with
  | datum datum =>
    show (if isRegexDatum host state datum = true then _ else _) = _
    by_cases hregex : isRegexDatum host state datum = true
    · rw [if_pos hregex]
      simp only [if_pos hregex] at h
      obtain ⟨delimiter, hdelimiter, h⟩ := Fallible.bind_eq_value.1 h
      obtain ⟨output, houtput, h⟩ := Fallible.bind_eq_value.1 h
      obtain ⟨last, hlast, houtput⟩ := Fallible.bind_eq_value.1 houtput
      rw [splitAtDatum, hdelimiter, Fallible.value_bind]
      refine Fallible.bind_eq_value.2 ⟨output, ?_, h⟩
      rw [splitAtMatches, Advance.run_of_le hlast hle, Fallible.value_bind, houtput]
    · rw [if_neg hregex]
      simp only [if_neg hregex] at h
      exact h
  | _ => exact hliteral _ h

theorem Occurs.of_text {d : List Char} (h : Occurs host state text separator region count)
    (hdelimiter : strictText host state separator "splittext delimiter" = .value d)
    (htarget : slice text region.1 region.2.1 = (.value target : Fallible String (List Char))) :
    d ≠ [] ∧ leftmostCount d target = count := by
  cases h with
  | @literal d' target' hdelimiter' hne htarget' =>
    rw [hdelimiter, Fallible.value.injEq] at hdelimiter'
    rw [htarget, Fallible.value.injEq] at htarget'
    rw [hdelimiter', htarget']
    exact ⟨hne, rfl⟩
  | regex hdatum hregex _ _ =>
    rw [hdatum] at hdelimiter
    rcases strictText_eq_value hdelimiter with heq | heq
    · cases heq
    · cases heq

theorem exists_target (hstart : IsBoundary text region.1) (hend : IsBoundary text region.2.1)
    (hle : region.1 ≤ region.2.1) : ∃ target,
      slice text region.1 region.2.1 = (.value target : Fallible String (List Char)) := by
  obtain ⟨-, target, -, -, -, -, hslice⟩ := ByteText.slice_eq_value (ε := String) hstart hend hle
  exact ⟨target, hslice⟩

theorem splitPieces_text {d : List Char} (hne : d ≠ [])
    (hdelimiter : strictText host state separator "splittext delimiter" = .value d)
    (htarget : slice text region.1 region.2.1 = (.value target : Fallible String (List Char)))
    (includeDelimiters : Bool) : ∃ fuel pieces,
      splitPieces host state fuel text separator region includeDelimiters = .value pieces ∧
        (joint d includeDelimiters).intercalate pieces = text ∧
        pieces.length = turnPieces includeDelimiters * leftmostCount d target + 1 := by
  obtain ⟨fuel, output, houtput, hempty, hjoint, hlength⟩ :=
    splitAtText_spec hne target includeDelimiters
  obtain ⟨pieces, hpieces, hcount, hwhole⟩ := attachRegion_spec hempty htarget
  refine ⟨fuel, pieces, ?_, hwhole _ hjoint, hcount.trans hlength⟩
  rw [splitPieces_literal hdelimiter htarget, houtput, Fallible.value_bind, hpieces]
  rfl

/-- With the delimiters there is one more piece than twice the occurrences. -/
theorem splitPieces_whole (hoccurs : Occurs host state text separator region count)
    (hstart : IsBoundary text region.1) (hend : IsBoundary text region.2.1)
    (hle : region.1 ≤ region.2.1) : ∃ fuel pieces,
      splitPieces host state fuel text separator region true = .value pieces ∧
        pieces.flatten = text ∧ pieces.length = 2 * count + 1 := by
  cases hoccurs with
  | literal hdelimiter hne htarget =>
    obtain ⟨fuel, pieces, hpieces, hjoint, hlength⟩ := splitPieces_text hne hdelimiter htarget true
    exact ⟨fuel, pieces, hpieces, (nil_intercalate pieces).symm.trans hjoint, hlength⟩
  | @regex datum pattern flags found hdatum hregex hdelimiter hfound =>
    obtain ⟨target, htarget⟩ := exists_target hstart hend hle
    obtain ⟨fuel, output, houtput, hempty, hcovers, hlength⟩ :=
      splitAtMatches_spec (regexSearch_searchSound pattern flags text region.2.1) hstart hend hle hfound
    rw [Covers, htarget, Fallible.value.injEq] at hcovers
    obtain ⟨pieces, hpieces, hcount, hwhole⟩ := attachRegion_spec hempty htarget
    refine ⟨fuel, pieces, ?_, ?_, hcount.trans hlength⟩
    · rw [hdatum, splitPieces_regex hregex hdelimiter htarget, houtput, Fallible.value_bind, hpieces]
      rfl
    · rw [← nil_intercalate]
      exact hwhole [] (by rw [nil_intercalate, hcovers])

section

variable {start finish : Option Value} {characterIndices : Bool} {first last : Int}

theorem splittext_eq (hsource : strictText host state source "splittext text" = .value text)
    (hfirst : signedPosition host start 1 = .value first)
    (hlast : signedPosition host finish 0 = .value last) (includeDelimiters : Option Value) :
    splittext host state fuel source separator start finish includeDelimiters characterIndices lists =
      (splitPieces host state fuel text separator (textRegion text first last characterIndices)
        (includeDelimiters.any truthy)).bind fun pieces => (storedPieces lists pieces).raise := by
  have hstrict (other : Value) (hother : other = source) :
      ((strictText host state other "splittext text").raise.bind fun text =>
        (signedPosition host start 1).raise.bind fun start =>
        (signedPosition host finish 0).raise.bind fun finish =>
        (splitPieces host state fuel text separator (textRegion text start finish characterIndices)
          (includeDelimiters.any truthy)).bind fun pieces => (storedPieces lists pieces).raise) =
      (splitPieces host state fuel text separator (textRegion text first last characterIndices)
        (includeDelimiters.any truthy)).bind fun pieces => (storedPieces lists pieces).raise := by
    rw [hother, hsource, hfirst, hlast]
    rfl
  rcases strictText_eq_value hsource with heq | heq
  · rw [heq]
    exact hstrict _ heq.symm
  · rw [heq]
    exact hstrict _ heq.symm

section

variable (hlists : ArenaInv lists history)
  (hsource : strictText host state source "splittext text" = .value text)
  (hfirst : signedPosition host start 1 = .value first)
  (hlast : signedPosition host finish 0 = .value last)

include hlists hsource hfirst hlast

/-- The pieces are stored where there is a handle and a place for each of them. -/
theorem splittext_stores {includeDelimiters : Option Value}
    (hpieces : splitPieces host state fuel text separator
      (textRegion text first last characterIndices) (includeDelimiters.any truthy) = .value pieces)
    (hslot : FreeSlot lists) (hroom : pieces.length ≤ 2 ^ 31) : ∃ id after,
      splittext host state fuel source separator start finish includeDelimiters characterIndices
        lists = .value (.list id, after) ∧ ListsTexts after id pieces := by
  obtain ⟨⟨value, after⟩, hstore⟩ := exists_storePieces hlists hslot hroom
  obtain ⟨id, list, rfl, hlist, hplain⟩ := storePieces_spec hlists hstore
  refine ⟨id, after, ?_, hplain.listsTexts hlist hroom⟩
  rw [splittext_eq hsource hfirst hlast, hpieces, Fallible.value_bind,
    storedPieces_eq_value.2 hstore]
  rfl

/-- A list that reads its texts has a handle and a place for each piece of the text. -/
theorem splittext_stored {includeDelimiters : Option Value}
    (hpieces : splitPieces host state fuel text separator
      (textRegion text first last characterIndices) (includeDelimiters.any truthy) = .value pieces)
    {m : Nat} {id : ListId} {found : List (List Char)}
    (hsplit : splittext host state m source separator start finish includeDelimiters
      characterIndices lists = .value (.list id, after))
    (htexts : ListsTexts after id found) : FreeSlot lists ∧ pieces.length ≤ 2 ^ 31 := by
  rw [splittext_eq hsource hfirst hlast] at hsplit
  obtain ⟨other, hother, hstored⟩ := Fallible.bind_eq_value.1 hsplit
  have hsame : other = pieces := by
    have hmost := splitPieces_of_le (Nat.le_max_left m fuel) hother
    rw [splitPieces_of_le (Nat.le_max_right m fuel) hpieces] at hmost
    exact (Fallible.value.inj hmost).symm
  rw [hsame] at hstored
  cases hstore : storePieces lists pieces with
  | none =>
    rw [storedPieces, hstore] at hstored
    cases hstored
  | some result =>
    rw [storedPieces_eq_value.2 hstore] at hstored
    cases hstored
    obtain ⟨id', list, heq, hlist, hplain⟩ := storePieces_spec hlists hstore
    cases heq
    refine ⟨?_, (hplain.length_le hlist htexts).2⟩
    by_contra hslot
    rw [storePieces_none hslot] at hstore
    cases hstore

theorem Lossless.bound
    (hoccurs : Occurs host state text separator (textRegion text first last characterIndices) count)
    (h : Lossless host state lists source separator start finish characterIndices text
      (textRegion text first last characterIndices)) :
    FreeSlot lists ∧ 2 * count < 2 ^ 31 := by
  obtain ⟨hstart, hend, hle⟩ := textRegion_spec text first last characterIndices
  obtain ⟨fuel, pieces, hpieces, -, hlength⟩ := splitPieces_whole hoccurs hstart hend hle
  have hany : (some (Value.file "")).any truthy = true := rfl
  rw [← hany] at hpieces
  obtain ⟨m, id, after, found, hsplit, htexts, -⟩ := h.whole (.file "") rfl
  obtain ⟨hslot, hroom⟩ := splittext_stored hlists hsource hfirst hlast hpieces hsplit htexts
  refine ⟨hslot, ?_⟩
  omega

end

/-- Elements give the text back where a handle is free and the list has a place for each of them. -/
theorem splittext_lossless_iff (hlists : ArenaInv lists history)
    (hsource : strictText host state source "splittext text" = .value text)
    (hfirst : signedPosition host start 1 = .value first)
    (hlast : signedPosition host finish 0 = .value last)
    (hoccurs : Occurs host state text separator (textRegion text first last characterIndices) count) :
    Lossless host state lists source separator start finish characterIndices text
      (textRegion text first last characterIndices) ↔ FreeSlot lists ∧ 2 * count < 2 ^ 31 := by
  obtain ⟨hstart, hend, hle⟩ := textRegion_spec text first last characterIndices
  refine ⟨Lossless.bound hlists hsource hfirst hlast hoccurs, fun ⟨hslot, hroom⟩ => ⟨?_, ?_⟩⟩
  · intro includeDelimiters hinclude
    have hany : (some includeDelimiters).any truthy = true := hinclude
    obtain ⟨fuel, pieces, hpieces, hflatten, hlength⟩ := splitPieces_whole hoccurs hstart hend hle
    rw [← hany] at hpieces
    obtain ⟨id, after, hsplit, htexts⟩ :=
      splittext_stores hlists hsource hfirst hlast hpieces hslot (by omega)
    exact ⟨fuel, id, after, pieces, hsplit, htexts, hflatten⟩
  · intro includeDelimiters d target hexclude hdelimiter htarget
    obtain ⟨hne, hcount⟩ := hoccurs.of_text hdelimiter htarget
    obtain ⟨fuel, pieces, hpieces, hjoint, hlength⟩ :=
      splitPieces_text hne hdelimiter htarget (includeDelimiters.any truthy)
    rw [hexclude] at hjoint hlength
    have hlength : pieces.length = leftmostCount d target + 1 :=
      hlength.trans (congrArg (· + 1) (Nat.one_mul _))
    obtain ⟨id, after, hsplit, htexts⟩ :=
      splittext_stores hlists hsource hfirst hlast hpieces hslot (by omega)
    refine ⟨fuel, id, after, pieces, hsplit, htexts, hlength, ?_⟩
    rw [jointext_eq htexts hdelimiter]
    exact congrArg (fun text => Fallible.value (Value.ofChars text)) hjoint

end

end

/-! ## Commas -/

theorem letters_lossless : Lossless plainHost () Arena.empty (.text "a,b,") (.text ",") none none
    false "a,b,".toList (textRegion "a,b,".toList 1 0 false) := by
  have htarget : slice "a,b,".toList (textRegion "a,b,".toList 1 0 false).1
      (textRegion "a,b,".toList 1 0 false).2.1 =
        (.value "a,b,".toList : Fallible String (List Char)) := by decide
  have hoccurs : Occurs plainHost () "a,b,".toList (.text ",")
      (textRegion "a,b,".toList 1 0 false) (leftmostCount [','] "a,b,".toList) :=
    .literal rfl (List.cons_ne_nil _ _) htarget
  have hcount : leftmostCount [','] "a,b,".toList = 2 := by decide
  rw [hcount] at hoccurs
  have hlists : ArenaInv (Arena.empty : Arena DmList) ArenaHistory.empty := arenaInv_empty
  exact (splittext_lossless_iff hlists rfl rfl rfl hoccurs).2 ⟨.inr (by decide), by norm_num⟩

theorem leftmostCount_replicate (n : Nat) : leftmostCount [','] (List.replicate n ',') = n := by
  induction n with
  | zero => rfl
  | succ n ih =>
    have happend := Occurrences.leftmostCount_append (List.cons_ne_nil ',' []) (List.replicate n ',')
    rw [ih] at happend
    exact happend

theorem commas_bound {n : Nat} {text : List Char} (htext : text = List.replicate n ',')
    (h : Lossless plainHost () Arena.empty (.text (String.ofList text)) (.text ",") none none false
      text (textRegion text 1 0 false)) : 2 * n < 2 ^ 31 := by
  have hlists : ArenaInv (Arena.empty : Arena DmList) ArenaHistory.empty := arenaInv_empty
  obtain ⟨hfirst, hlast⟩ := textRegion_whole text false
  have htarget : slice text (textRegion text 1 0 false).1 (textRegion text 1 0 false).2.1 =
      (.value text : Fallible String (List Char)) := by
    rw [hfirst, hlast]
    exact ByteText.slice_eq_value_iff.2 ⟨[], [], List.append_nil text, rfl, Nat.zero_add _⟩
  have hoccurs : Occurs plainHost () text (.text ",") (textRegion text 1 0 false)
      (leftmostCount [','] text) := .literal rfl (List.cons_ne_nil _ _) htarget
  have hcount : leftmostCount [','] text = n := by rw [htext, leftmostCount_replicate]
  rw [hcount] at hoccurs
  have hsource : strictText plainHost () (.text (String.ofList text)) "splittext text" =
      .value text := congrArg Fallible.value String.toList_ofList
  exact (Lossless.bound hlists hsource rfl rfl hoccurs h).2

/-- With the delimiters there are `2 ^ 31 + 1` elements, and the list has no place for the last. -/
theorem manyCommas_not_lossless : ¬ Lossless plainHost () Arena.empty
    (.text (String.ofList (List.replicate (2 ^ 30) ','))) (.text ",") none none false
      (List.replicate (2 ^ 30) ',') (textRegion (List.replicate (2 ^ 30) ',') 1 0 false) := by
  intro h
  have hbound := commas_bound rfl h
  norm_num at hbound

end Dream64
