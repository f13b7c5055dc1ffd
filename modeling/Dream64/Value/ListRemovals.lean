import Dream64.Value.ListCopies
import Dream64.Value.ListLookups

/-!
# Bulk subtraction

Subtracting values from a list is removing the last occurrence of each of them,
one after the other: it leaves the same sequence and the same associations in
the same order of their vector, and removes as many entries.
-/

namespace Dream64

open DmList Pools ListOrder

variable {hash : SemanticKey → Nat} {list next : DmList} {entries : List Entry}

/-- `remove_last` for each value in turn, and how many entries that removes. -/
def DmList.removeEach (hash : SemanticKey → Nat) : DmList → List Value → Option (DmList × Nat)
  | list, [] => some (list, 0)
  | list, value :: values => do
    let (list, removed) ← list.removeLast hash value
    let (list, count) ← removeEach hash list values
    some (list, count + if removed.isSome then 1 else 0)

/-- The last entry that is equal to the value is gone, if there is one. -/
def RemovesLast (entries : List Entry) (value : Value) (removed : Option Value)
    (rest : List Entry) : Prop :=
  (∃ before entry after, entries = before ++ entry :: after ∧
    entry.key.semanticEq value = true ∧ (∀ other ∈ after, other.key.semanticEq value = false) ∧
    removed = some entry.key ∧ rest = before ++ after) ∨
  ((∀ entry ∈ entries, entry.key.semanticEq value = false) ∧ removed = none ∧ rest = entries)

/-- The bulk form does what the removals do one by one. -/
def SubtractsEach (hash : SemanticKey → Nat) (list : DmList) (values : List Value) : Prop :=
  ∃ next last count rest, list.subtractEntries hash values = some (next, .ok count) ∧
    list.removeEach hash values = some (last, count) ∧ Stored next rest ∧ Stored last rest ∧
    next.associative = last.associative

/-! ## Vectors that lose entries -/

/-- How often a list has an element. -/
noncomputable def occurrences {α : Type} (values : List α) (a : α) : Nat :=
  @List.count α (@instBEqOfDecidableEq α (Classical.decEq α)) a values

section

variable {α β : Type} {values others : List α} {a : α}

theorem occurrences_perm (h : values.Perm others) (a : α) :
    occurrences values a = occurrences others a := by
  let _ := Classical.decEq α
  exact h.count_eq a

theorem perm_of_occurrences (h : ∀ a, occurrences values a = occurrences others a) :
    values.Perm others := by
  let _ := Classical.decEq α
  exact List.perm_iff_count.2 h

theorem occurrences_append : occurrences (values ++ others) a =
    occurrences values a + occurrences others a := by
  let _ := Classical.decEq α
  exact List.count_append

theorem occurrences_cons_of_ne {b : α} (h : b ≠ a) :
    occurrences (b :: values) a = occurrences values a := by
  let _ := Classical.decEq α
  exact List.count_cons_of_ne h

theorem occurrences_map {f : α → β} (hf : f.Injective) :
    occurrences (values.map f) (f a) = occurrences values a := by
  let _ := Classical.decEq α
  let _ := Classical.decEq β
  exact List.count_map_of_injective _ f hf a

theorem occurrences_eq_zero (h : a ∉ values) : occurrences values a = 0 := by
  let _ := Classical.decEq α
  exact List.count_eq_zero_of_not_mem h

theorem one_le_occurrences (h : a ∈ values) : 1 ≤ occurrences values a := by
  let _ := Classical.decEq α
  exact List.one_le_count_iff.2 h

theorem replicate_sublist_of_occurrences {count : Nat} (h : count ≤ occurrences values a) :
    (List.replicate count a).Sublist values := by
  let _ := Classical.decEq α
  exact List.replicate_sublist_iff.2 h

/-- Two parts of a list with the same elements, all of them or each once, are the same. -/
theorem sublist_eq_of_perm {whole : List α} (hvalues : values.Sublist whole)
    (hothers : others.Sublist whole) (hperm : values.Perm others)
    (hall : ∀ a ∈ values, occurrences whole a ≤ occurrences values a) : values = others := by
  let _ := Classical.decEq α
  have hfilter {part : List α} (hpart : part.Sublist whole)
      (hcount : ∀ a ∈ part, occurrences whole a ≤ occurrences part a) :
      part = whole.filter (· ∈ part) := by
    have hkept : part.filter (· ∈ part) = part :=
      List.filter_eq_self.2 fun a ha => by simpa using ha
    have hsublist : part.Sublist (whole.filter (· ∈ part)) := by
      have hfiltered := hpart.filter (· ∈ part)
      rwa [hkept] at hfiltered
    refine hsublist.eq_of_length_le (List.Subperm.length_le ?_)
    refine List.subperm_ext_iff.2 fun a ha => ?_
    have hmem : a ∈ part := by simpa using (List.mem_filter.1 ha).2
    exact (List.filter_sublist.count_le a).trans (hcount a hmem)
  have hsame : whole.filter (· ∈ values) = whole.filter (· ∈ others) :=
    List.filter_congr fun a _ => by simp [hperm.mem_iff]
  rw [hfilter hvalues hall, hsame, ← hfilter hothers fun a ha => ?_]
  rw [← occurrences_perm hperm a]
  exact hall a (hperm.mem_iff.2 ha)

end

/-! ## Associations that stay -/

/-- The associations in the vector are those of the sequence. -/
theorem Represents.occurrences_eq (h : Represents hash list entries) (pair : Value × Value) :
    occurrences list.associative pair = occurrences entries (.inr pair) := by
  have hvalues (values : List Value) :
      occurrences (values.map (Sum.inl : Value → Entry)) (.inr pair) = 0 := by
    refine occurrences_eq_zero fun hmem => ?_
    obtain ⟨value, -, heq⟩ := List.mem_map.1 hmem
    cases heq
  rcases h.storage with ⟨slots, hsettled⟩ | hqueued
  · have hentries : entries.Perm
        (list.positional.map .inl ++ list.associative.map .inr) := by
      have hslots := hsettled.holds.perm.map (lookup list.positional list.associative)
      rw [hsettled.holds.lookups, List.map_append, List.map_map, List.map_map] at hslots
      have hleft : (List.range list.positional.length).map
          (lookup list.positional list.associative ∘ Sum.inl) =
          (list.positional.map (Sum.inl : Value → Entry)).map some := by
        refine List.ext_getElem? fun place => ?_
        rw [List.getElem?_map, List.getElem?_map, List.getElem?_map]
        by_cases hlt : place < list.positional.length
        · rw [List.getElem?_range hlt, List.getElem?_eq_getElem hlt]
          show some ((list.positional[place]?).map Sum.inl) = _
          rw [List.getElem?_eq_getElem hlt]
          rfl
        · rw [List.getElem?_eq_none (by simpa using Nat.le_of_not_lt hlt),
            List.getElem?_eq_none (Nat.le_of_not_lt hlt)]
          rfl
      have hright : (List.range list.associative.length).map
          (lookup list.positional list.associative ∘ Sum.inr) =
          (list.associative.map (Sum.inr : Value × Value → Entry)).map some := by
        refine List.ext_getElem? fun place => ?_
        rw [List.getElem?_map, List.getElem?_map, List.getElem?_map]
        by_cases hlt : place < list.associative.length
        · rw [List.getElem?_range hlt, List.getElem?_eq_getElem hlt]
          show some ((list.associative[place]?).map Sum.inr) = _
          rw [List.getElem?_eq_getElem hlt]
          rfl
        · rw [List.getElem?_eq_none (by simpa using Nat.le_of_not_lt hlt),
            List.getElem?_eq_none (Nat.le_of_not_lt hlt)]
          rfl
      rw [hleft, hright, ← List.map_append] at hslots
      exact (List.map_perm_map_iff (Option.some_injective _)).1 hslots
    rw [occurrences_perm hentries, occurrences_append, hvalues, Nat.zero_add,
      occurrences_map Sum.inr_injective]
  · rw [hqueued.associative, hqueued.entries, hvalues]
    exact occurrences_eq_zero List.not_mem_nil

/-- An entry that no value is equal to stays. -/
theorem occurrences_subtractEntries {pair : Value × Value} (hself : pair.1.semanticEq pair.1 = false)
    (entries : List Entry) (values : List Value) :
    occurrences (ListSpec.subtractEntries entries values).1 (.inr pair) =
      occurrences entries (.inr pair) := by
  induction values generalizing entries with
  | nil => rfl
  | cons value values ih =>
    rw [ListSpec.subtractEntries]
    split
    · exact ih entries
    · rename_i place hplace
      show occurrences (ListSpec.subtractEntries (entries.eraseIdx place) values).1 _ = _
      rw [ih (entries.eraseIdx place)]
      rw [ListSpec.findLast, Option.map_eq_some_iff] at hplace
      obtain ⟨found, hfound, heq⟩ := hplace
      obtain ⟨hlt, hmatch, -⟩ := List.findIdx?_eq_some_iff_getElem.1 hfound
      rw [List.length_reverse] at hlt
      have hinside : place < entries.length := by omega
      rw [List.getElem_reverse] at hmatch
      have hgone : entries[place] ≠ .inr pair := by
        intro hpair
        have hsame : entries[entries.length - 1 - found] = entries[place] := by
          simp only [heq]
        rw [hsame, hpair] at hmatch
        have hback := Value.semanticEq_trans _ _ _ hmatch (Value.semanticEq_symm _ _ hmatch)
        exact Bool.false_ne_true (hself.symm.trans hback)
      have hperm := List.getElem_cons_eraseIdx_perm hinside
      rw [← occurrences_perm hperm, occurrences_cons_of_ne hgone]

/-- Two parts of the associations of a list, for the same rest of its sequence. -/
theorem associative_eq (h : Represents hash list entries) {values : List Value} {last : DmList}
    (hnext : Represents hash next (ListSpec.subtractEntries entries values).1)
    (hlast : Represents hash last (ListSpec.subtractEntries entries values).1)
    (hnextPart : next.associative.Sublist list.associative)
    (hlastPart : last.associative.Sublist list.associative)
    (hdistinct : Distinct list.associative) : next.associative = last.associative := by
  refine sublist_eq_of_perm hnextPart hlastPart ?_ fun pair hpair => ?_
  · refine perm_of_occurrences fun pair => ?_
    rw [hnext.occurrences_eq, hlast.occurrences_eq]
  · by_cases hself : pair.1.semanticEq pair.1 = true
    · refine le_trans ?_ (one_le_occurrences hpair)
      by_contra hmany
      have htwice : (List.replicate 2 pair).Sublist list.associative :=
        replicate_sublist_of_occurrences (by omega)
      have hpairwise := hdistinct.sublist htwice
      have hfalse := (List.pairwise_cons.1 hpairwise).1 pair List.mem_cons_self
      exact Bool.false_ne_true (hfalse.symm.trans hself)
    · rw [h.occurrences_eq, hnext.occurrences_eq,
        occurrences_subtractEntries (Bool.eq_false_iff.2 hself)]

/-! ## Removals one by one -/

theorem removeEach_spec (h : Represents hash list entries) (values : List Value) :
    ∃ last, list.removeEach hash values =
        some (last, (ListSpec.subtractEntries entries values).2) ∧
      Represents hash last (ListSpec.subtractEntries entries values).1 ∧
      last.associative.Sublist list.associative := by
  induction values generalizing list entries with
  | nil => exact ⟨list, rfl, h, List.Sublist.refl _⟩
  | cons value values ih =>
    obtain ⟨next, hnext, hrepresents⟩ := removeLast_spec h value
    have hpart := (removeLast_prunes hnext).part
    obtain ⟨last, hlast, hlastRepresents, hlastPart⟩ := ih hrepresents
    rw [DmList.removeEach, hnext, Option.bind_eq_bind, Option.bind_some]
    simp only [hlast, Option.bind_eq_bind, Option.bind_some]
    rw [ListSpec.subtractEntries]
    cases hfind : ListSpec.findLast value entries with
    | none =>
      rw [hfind] at hlastRepresents
      simp only [ListSpec.removeFound] at hlastRepresents
      exact ⟨last, rfl, hlastRepresents, hlastPart.trans hpart⟩
    | some place =>
      rw [hfind] at hlastRepresents
      have hinside : place < entries.length := by
        rw [ListSpec.findLast, Option.map_eq_some_iff] at hfind
        obtain ⟨found, hfound, heq⟩ := hfind
        have hlt := (List.findIdx?_eq_some_iff_getElem.1 hfound).1
        rw [List.length_reverse] at hlt
        omega
      have hremoved : (ListSpec.removeFound entries (some place)).2.isSome = true := by
        rw [ListSpec.removeFound, List.getElem?_eq_getElem hinside]
        rfl
      rw [if_pos hremoved]
      exact ⟨last, rfl, hlastRepresents, hlastPart.trans hpart⟩

theorem removesLast_findLast (entries : List Entry) (value : Value) :
    RemovesLast entries value (ListSpec.removeFound entries (ListSpec.findLast value entries)).2
      (ListSpec.removeFound entries (ListSpec.findLast value entries)).1 := by
  rcases List.eq_nil_or_concat (entries.filter fun entry => entry.key.semanticEq value) with
    hnone | ⟨kept, last, hkept⟩
  · have hfalse : ∀ entry ∈ entries, entry.key.semanticEq value = false := fun entry hentry =>
      Bool.eq_false_iff.2 (List.filter_eq_nil_iff.1 hnone entry hentry)
    rw [findLast_eq_none hfalse]
    exact .inr ⟨hfalse, rfl, rfl⟩
  · have hlast : (entries.filter fun entry => entry.key.semanticEq value).getLast? = some last := by
      rw [hkept, List.concat_eq_append, List.getLast?_concat]
    obtain ⟨before, after, rfl, hmatch, hafter⟩ := filter_getLast? hlast
    rw [findLast_eq_some hmatch hafter]
    refine .inl ⟨before, last, after, rfl, hmatch, hafter, ?_, ?_⟩
    · show (before ++ last :: after)[before.length]?.map Entry.key = _
      rw [List.getElem?_append_right (Nat.le_refl _), Nat.sub_self]
      rfl
    · show (before ++ last :: after).eraseIdx before.length = _
      rw [List.eraseIdx_append_of_length_le (Nat.le_refl _), Nat.sub_self]
      rfl

theorem Represents.subtractsEach (h : Represents hash list entries)
    (hdistinct : Distinct list.associative) (values : List Value) :
    SubtractsEach hash list values := by
  obtain ⟨next, hnext, hnextRepresents⟩ := subtractEntries_spec h values
  obtain ⟨last, hlast, hlastRepresents, hlastPart⟩ := removeEach_spec h values
  refine ⟨next, last, _, _, hnext, hlast, hnextRepresents.stored, hlastRepresents.stored, ?_⟩
  exact associative_eq h hnextRepresents hlastRepresents (subtractEntries_prunes hnext).part hlastPart
    hdistinct

/-! ## Runs -/

/-- In every list of a run with room: it holds the entries of the specification, the bulk form is the
removals one by one, and a removal takes the last occurrence, whether there is an index or not. -/
theorem subtraction_eq_removals (hash : SemanticKey → Nat) (ops : List ListOp)
    (hbelow : StaysBelow (2 ^ 31) [] ops) (hroom : RunHasRoom hash DmList.empty ops) {list : DmList}
    {results : List ListResult} (hrun : runList hash DmList.empty ops = some (list, results)) :
    Stored list (specList [] ops).1 ∧ (∀ values, SubtractsEach hash list values) ∧
      ∀ value, ∃ next bare removed rest, list.removeLast hash value = some (next, removed) ∧
        list.invalidatePositionalRemoveIndex.removeLast hash value = some (bare, removed) ∧
        Stored next rest ∧ Stored bare rest ∧
        RemovesLast (specList [] ops).1 value removed rest := by
  have h := empty_represents.reaches hbelow hroom hrun
  have hsearch := run_searchable searchable_empty hrun
  refine ⟨h.stored, h.subtractsEach hsearch.distinct, fun value => ?_⟩
  obtain ⟨next, hnext, hnextRepresents⟩ := removeLast_spec h value
  obtain ⟨bare, hbare, hbareRepresents⟩ := removeLast_spec h.invalidate value
  exact ⟨next, bare, _, _, hnext, hbare, hnextRepresents.stored, hbareRepresents.stored,
    removesLast_findLast _ value⟩

/-- A key and an equal value, of which the last one goes. -/
theorem keyAndValue_subtracted : ∃ list results,
    runList (fun _ => 0) DmList.empty [.setKey .null .null, .add .null] = some (list, results) ∧
      SubtractsEach (fun _ => 0) list [.null] := by
  have hbelow : StaysBelow (2 ^ 31) [] [.setKey .null .null, .add .null] :=
    ⟨Nat.two_pow_pos 31, Nat.one_lt_two_pow (by decide),
      show 2 < 2 ^ 31 by norm_num⟩
  have hroom : RunHasRoom (fun _ => 0) DmList.empty [.setKey .null .null, .add .null] := by
    refine ⟨trivial, fun next result hnext => ?_⟩
    cases hnext
    exact ⟨show 1 + 1 ≤ 2 ^ 31 by norm_num, fun _ _ _ => trivial⟩
  exact ⟨_, _, rfl, (subtraction_eq_removals (fun _ => 0) _ hbelow hroom rfl).2.1 [.null]⟩

/-- A queue goes on to its next place, so many times. -/
theorem queueAt_advance (hash : SemanticKey → Nat) {head count : Nat}
    (h : head + count + 1 < 2 ^ 32) : ∃ results,
      runList hash (queueAt head) (drain count []) = some (queueAt (head + count), results) := by
  induction count generalizing head with
  | zero => exact ⟨[], rfl⟩
  | succ count ih =>
    obtain ⟨results, hresults⟩ := @ih (head + 1) (by omega)
    rw [drain, runList, ListOp.apply, queueAt_cut]
    show ∃ results, (runList hash _ (.add .null :: drain count [])).bind _ = some (_, results)
    rw [runList, ListOp.apply, queueAt_add (by omega)]
    show ∃ results, ((runList hash (queueAt (head + 1)) (drain count [])).bind _).bind _ =
      some (_, results)
    rw [hresults, show head + 1 + count = head + (count + 1) by omega]
    exact ⟨_, rfl⟩

/-- The last entry of the order is for the vector of associations, which is empty. -/
theorem queueAt_subtract {hash : SemanticKey → Nat} {head : Nat} (h : head + 1 = 2 ^ 31) :
    (queueAt head).subtractEntries hash [.null] =
      some (queueAt head, .error .corruptListStorage) := by
  have hlen : (queueAt head).len = 2 := by
    show ((List.range (head + 2)).map ListOrder.mk).length - head = 2
    rw [List.length_map, List.length_range]
    omega
  have hdrop : (queueAt head).order.drop (queueAt head).prefixHead = [⟨head⟩, ⟨head + 1⟩] := by
    show ((List.range (head + 2)).map ListOrder.mk).drop head = _
    rw [← List.map_drop, List.range_eq_range', List.drop_range', Nat.zero_add, Nat.mul_one,
      Nat.add_sub_cancel_left]
    rfl
  have hbits : (ListOrder.mk (head + 1)).positionalIndex = none := by
    rw [h]
    decide
  have hkey : (queueAt head).keyAt ⟨head + 1⟩ = none := by
    rw [DmList.keyAt, ListOrder.slot, hbits]
    rfl
  have htake (quotas : Quotas) : (queueAt head).takeEntries quotas [⟨head + 1⟩, ⟨head⟩] =
      .error .corruptListStorage := by rw [DmList.takeEntries, hkey]
  rw [DmList.subtractEntries, hlen, if_neg (by decide)]
  simp only [hdrop, List.reverse_cons, List.reverse_nil, List.nil_append, List.singleton_append,
    htake]

/-- A queue of two values from which the bulk form cannot subtract. -/
theorem longQueue_not_subtracted : ¬ ∃ hash : SemanticKey → Nat, ∀ (ops : List ListOp) list results,
    StaysBelow (2 ^ 31) [] ops → runList hash DmList.empty ops = some (list, results) →
      SubtractsEach hash list [.null] := by
  rintro ⟨hash, hall⟩
  obtain ⟨count, hcount⟩ : ∃ count, count + 1 = 2 ^ 31 := ⟨2 ^ 31 - 1, by omega⟩
  have hsmall (length : Nat) (hlength : length ≤ 3) : length < 2 ^ 31 := by omega
  obtain ⟨results, hresults⟩ := @queueAt_advance hash 0 count (by omega)
  rw [Nat.zero_add] at hresults
  have hrun : runList hash DmList.empty (.add .null :: .add .null :: drain count []) =
      some (queueAt count, .len 1 :: .len 2 :: results) := by
    show ((runList hash (queueAt 0) (drain count [])).bind _).bind _ = _
    rw [hresults]
    rfl
  have hbelow : StaysBelow (2 ^ 31) [] (.add .null :: .add .null :: drain count []) :=
    ⟨hsmall 0 (by omega), hsmall 1 (by omega), drain_staysBelow (hsmall 2 (by omega))⟩
  obtain ⟨next, last, removed, rest, hsubtract, -⟩ := hall _ _ _ hbelow hrun
  rw [queueAt_subtract hcount] at hsubtract
  cases hsubtract

end Dream64
