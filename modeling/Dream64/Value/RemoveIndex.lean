import Dream64.Value.ListRefinement

/-!
# The index of removals

`remove_last` of a long list of values keeps the places that its values had
when the index was built, and counts the values that are gone in a tree. A
value is where it was, less the values before it that are gone.
-/

namespace Dream64

open DmList Pools ListOrder

variable {hash : SemanticKey → Nat} {list : DmList} {entries : List Entry} {slots : List Slot}

/-! ## Last places -/

theorem findLast_eq_none {value : Value}
    (h : ∀ entry ∈ entries, entry.key.semanticEq value = false) :
    ListSpec.findLast value entries = none := by
  have hnone : ListSpec.findFirst value entries.reverse = none :=
    List.findIdx?_eq_none_iff.2 fun entry hentry => h entry (List.mem_reverse.1 hentry)
  rw [ListSpec.findLast, hnone, Option.map_none]

theorem findLast_eq_some {value : Value} {before after : List Entry} {entry : Entry}
    (hentry : entry.key.semanticEq value = true)
    (hafter : ∀ other ∈ after, other.key.semanticEq value = false) :
    ListSpec.findLast value (before ++ entry :: after) = some before.length := by
  have hfirst : ListSpec.findFirst value (before ++ entry :: after).reverse =
      some after.length := by
    rw [ListSpec.findFirst, List.reverse_append, List.reverse_cons, List.append_assoc,
      List.findIdx?_append, List.findIdx?_eq_none_iff.2 fun other hother =>
        hafter other (List.mem_reverse.1 hother), List.singleton_append, List.findIdx?_cons,
      if_pos hentry, List.length_reverse]
    show some (0 + after.length) = _
    rw [Nat.zero_add]
  rw [ListSpec.findLast, hfirst, Option.map_some, List.length_append, List.length_cons,
    Option.some.injEq]
  omega

/-- The last entry that a filter keeps. -/
theorem filter_getLast? {α : Type} {p : α → Bool} {values : List α} {last : α}
    (h : (values.filter p).getLast? = some last) : ∃ before after,
      values = before ++ last :: after ∧ p last = true ∧ ∀ other ∈ after, p other = false := by
  obtain ⟨kept, hkept⟩ := List.getLast?_eq_some_iff.1 h
  obtain ⟨before, rest, rfl, -, hrest⟩ := List.filter_eq_append_iff.1 hkept
  obtain ⟨skipped, after, rfl, -, hlast, hafter⟩ := List.filter_eq_cons_iff.1 hrest
  refine ⟨before ++ skipped, after, ?_, hlast, fun other hother => ?_⟩
  · rw [List.append_assoc]
  · exact Bool.eq_false_iff.2 (List.filter_eq_nil_iff.1 hafter other hother)

/-! ## Orders of values -/

section

variable (h : Settled hash list slots entries) (hnone : list.associative = [])

include h hnone

/-- An order that says at every place that it is the place of the value. -/
theorem Settled.identity
    (hidentity : ∀ (place : Nat) (entry : ListOrder), list.order[place]? = some entry →
      entry.positionalIndex = some place) :
    Are list.order ((List.range list.positional.length).map .inl) := by
  have hlength := h.positional_le
  rw [hnone, List.length_nil, Nat.add_zero] at hlength
  refine ⟨h.order.1, List.ext_getElem? fun place => ?_⟩
  rw [List.getElem?_map, List.getElem?_map]
  rcases Nat.lt_or_ge place list.order.length with hlt | hge
  · have hget := List.getElem?_eq_getElem hlt
    have hindex := hidentity place _ hget
    rw [hget, List.getElem?_range (hlength ▸ hlt), Option.map_some, Option.map_some,
      (positionalIndex_eq (h.order.1 _ (List.getElem_mem hlt))).1 hindex]
  · rw [List.getElem?_eq_none hge,
      List.getElem?_eq_none (by rw [List.length_range]; omega)]
    rfl

theorem Settled.index_none : list.associativeIndex = none := by
  by_contra hsome
  obtain ⟨index, hindex⟩ := Option.ne_none_iff_exists'.1 hsome
  have hmany := (h.index index hindex).1
  rw [hnone] at hmany
  cases hmany

/-- A settled list of values in their own order is a queue that nothing was taken from. -/
theorem Settled.queued (horder : Are list.order ((List.range list.positional.length).map .inl)) :
    Queued list entries := by
  refine ⟨hnone, h.index_none hnone, horder, by rw [h.head]; exact Nat.zero_le _, ?_, h.bound⟩
  have hlookups := h.holds.lookups
  have hslots : slots = (List.range list.positional.length).map .inl := by
    rw [← h.order.2, horder.2]
  rw [hslots, hnone, (Holds.range list.positional).lookups] at hlookups
  rw [h.head, List.drop_zero]
  exact (List.map_injective_iff.2 (Option.some_injective _) hlookups).symm

end

/-! ## Building -/

theorem countP_lt_range (n place : Nat) :
    (List.range n).countP (fun i => i < place) = min place n := by
  induction n with
  | zero => simp
  | succ n ih =>
    rw [List.range_succ, List.countP_append, ih, List.countP_singleton]
    by_cases hlt : n < place
    · rw [if_pos (decide_eq_true hlt)]
      omega
    · rw [if_neg (by simpa using Nat.le_of_not_lt hlt)]
      omega

theorem zipIdx_swap_fst (values : List Value) :
    (values.zipIdx.map Prod.swap).map (·.1) = List.range values.length := by
  rw [List.map_map]
  exact (List.zipIdx_map_snd 0 values).trans (List.range_eq_range' ..).symm

theorem zipIdx_swap_snd (values : List Value) :
    (values.zipIdx.map Prod.swap).map (·.2) = values := by
  rw [List.map_map]
  exact List.zipIdx_map_fst 0 values

theorem buildPositionalRemoveIndex_spec (h : Settled hash list slots entries)
    (hrepresents : Represents hash list entries) :
    Settled hash list.buildPositionalRemoveIndex slots entries ∧
      Represents hash list.buildPositionalRemoveIndex entries := by
  rw [DmList.buildPositionalRemoveIndex]
  split
  · rename_i hbuild
    obtain ⟨-, hempty, -, hall⟩ := hbuild
    have hnone : list.associative = [] := List.isEmpty_iff.1 hempty
    have horder := h.identity hnone fun place entry hentry => by
      have hmem : (entry, place) ∈ list.order.zipIdx := List.mem_zipIdx_iff_getElem?.2 hentry
      have hentryAll := List.all_eq_true.1 hall (entry, place) hmem
      exact beq_iff_eq.1 (Bool.and_eq_true_iff.1 hentryAll).1
    have hbound := h.bound
    have hpools := h.positional_le
    refine ⟨⟨h.head, h.order, h.holds, h.distinct, h.index, h.bound⟩,
      ⟨Or.inl ⟨slots, h.head, h.order, h.holds, h.distinct, h.index, h.bound⟩, fun index hindex => ?_⟩⟩
    cases hindex
    refine ⟨list.positional.zipIdx.map Prod.swap, fun _ => 0, h.head, hnone, horder,
      zipIdx_swap_snd _, ?_, fun entry hentry => ?_, ?_, fun key => ?_,
      Fenwick.counts_replicate _, fun place hplace => ?_⟩
    · rw [← List.pairwise_map (f := fun entry : Nat × Value => entry.1) (R := fun a b => a < b),
        zipIdx_swap_fst]
      exact List.pairwise_lt_range
    · have hmem := List.mem_map_of_mem (f := fun entry : Nat × Value => entry.1) hentry
      rw [zipIdx_swap_fst, List.mem_range] at hmem
      rw [List.length_replicate]
      exact Nat.succ_lt_succ hmem
    · rw [List.length_replicate]
      omega
    · rw [List.filter_map, List.map_map]
      rfl
    · rw [List.length_replicate] at hplace
      have hcount := countP_lt_range list.positional.length place
      rw [← zipIdx_swap_fst, List.countP_map] at hcount
      rw [Finset.sum_const_zero, Nat.zero_add]
      exact hcount.trans (Nat.min_eq_left (by omega))
  · exact ⟨h, hrepresents⟩

/-! ## Removing -/

section

variable {index : PositionalRemoveIndex} {before after : List (Nat × Value)} {original : Nat}
  {found : Value} {key : SemanticKey} {count : Nat → Nat}

section

variable (h : Removable list index (before ++ (original, found) :: after) count)

include h

theorem Removable.before_lt {entry : Nat × Value} (hentry : entry ∈ before) : entry.1 < original :=
  (List.pairwise_append.1 h.sorted).2.2 entry hentry _ List.mem_cons_self

theorem Removable.lt_after {entry : Nat × Value} (hentry : entry ∈ after) : original < entry.1 :=
  (List.pairwise_cons.1 (List.pairwise_append.1 h.sorted).2.1).1 entry hentry

/-- The value is behind those that were before it and are left. -/
theorem Removable.current : (Fenwick.prefixSum index.removed original).bind (checkedSub original) =
      some before.length := by
  have hinside := h.inside (original, found) (List.mem_append_right _ List.mem_cons_self)
  have hgone := h.gone original (by omega)
  have hbefore : before.countP (fun entry => entry.1 < original) = before.length :=
    List.countP_eq_length.2 fun entry hentry => decide_eq_true (h.before_lt hentry)
  have hafter : after.countP (fun entry => entry.1 < original) = 0 := by
    refine List.countP_eq_zero.2 fun entry hentry => ?_
    have hlt := h.lt_after hentry
    simpa using Nat.le_of_lt hlt
  rw [List.countP_append, List.countP_cons, hbefore, hafter] at hgone
  simp only [Nat.lt_irrefl, decide_false, Bool.false_eq_true, if_false] at hgone
  rw [h.counts.prefixSum (by omega), Option.bind_some, checkedSub, if_pos (by omega),
    Option.some.injEq]
  omega

theorem Removable.gone_next {place : Nat} (hplace : place < index.removed.length) :
    Finset.sum (Finset.Ioc 0 place)
        (Function.update count (original + 1) (count (original + 1) + 1)) +
      (before ++ after).countP (fun entry => entry.1 < place) = place := by
  have hgone := h.gone place hplace
  rw [List.countP_append, List.countP_cons] at hgone
  rw [List.countP_append]
  by_cases hmem : original + 1 ∈ Finset.Ioc 0 place
  · have hlt : original < place := (Finset.mem_Ioc.1 hmem).2
    simp only [hlt, decide_true, if_true] at hgone
    rw [Finset.sum_eq_add_sum_sdiff_singleton_of_mem hmem] at hgone
    rw [Finset.sum_update_of_mem hmem]
    omega
  · have hle : ¬ original < place := fun hlt =>
      hmem (Finset.mem_Ioc.2 ⟨Nat.succ_pos _, hlt⟩)
    simp only [hle, decide_false, Bool.false_eq_true, if_false] at hgone
    rw [Finset.sum_update_of_notMem hmem]
    omega

end

/-- The list and its index without the value. -/
def removedAt (list : DmList) (index : PositionalRemoveIndex) (key : SemanticKey)
    (original current : Nat) : DmList :=
  { list with
    positional := list.positional.eraseIdx current
    order := list.order.dropLast
    positionalRemoveIndex := some
      { positions := Function.update index.positions key (index.positions key).dropLast
        removed := Fenwick.increment 64 index.removed (original + 1) } }

theorem range_pred (n : Nat) : (List.range n).dropLast = List.range (n - 1) := by
  cases n with
  | zero => rfl
  | succ n => rw [List.range_succ, List.dropLast_concat, Nat.add_sub_cancel]

theorem Are.dropLast {order : List ListOrder} (h : Are order slots) :
    Are order.dropLast slots.dropLast :=
  h.sublist (List.dropLast_subset order) (by rw [List.map_dropLast, h.2])

theorem Removable.remove (h : Removable list index (before ++ (original, found) :: after) count)
    (hkey : semanticKey found = some key)
    (hafter : ∀ entry ∈ after, semanticKey entry.2 ≠ some key) :
    Removable (removedAt list index key original before.length)
      { positions := Function.update index.positions key (index.positions key).dropLast
        removed := Fenwick.increment 64 index.removed (original + 1) } (before ++ after)
      (Function.update count (original + 1) (count (original + 1) + 1)) where
  head := h.head
  associative := h.associative
  order := by
    have hlt : before.length < list.positional.length := by
      rw [← h.positional, List.length_map, List.length_append, List.length_cons]
      omega
    have hdrop := Are.dropLast h.order
    rw [← List.map_dropLast, range_pred, ← List.length_eraseIdx_of_lt hlt] at hdrop
    exact hdrop
  positional := by
    show _ = list.positional.eraseIdx before.length
    rw [← h.positional, List.map_append, List.map_append,
      List.eraseIdx_append_of_length_le (by rw [List.length_map]), List.length_map, Nat.sub_self]
    rfl
  sorted := h.sorted.sublist ((List.sublist_cons_self _ _).append_left before)
  inside := by
    intro entry hentry
    rw [Fenwick.length_increment]
    refine h.inside entry ?_
    rcases List.mem_append.1 hentry with hmem | hmem
    · exact List.mem_append_left _ hmem
    · exact List.mem_append_right _ (List.mem_cons_of_mem _ hmem)
  word := by
    rw [Fenwick.length_increment]
    exact h.word
  positions := by
    intro other
    show Function.update index.positions key (index.positions key).dropLast other = _
    by_cases heq : other = key
    · subst heq
      have hnil : after.filter (fun entry => semanticKey entry.2 = some other) = [] :=
        List.filter_eq_nil_iff.2 fun entry hentry => by simpa using hafter entry hentry
      rw [Function.update_self, h.positions, List.filter_append, List.filter_cons,
        if_pos (by simpa using hkey), hnil, List.map_append, List.map_singleton,
        List.dropLast_concat, List.filter_append, hnil, List.append_nil]
    · rw [Function.update_of_ne heq, h.positions, List.filter_append, List.filter_cons,
        if_neg (by simpa [hkey] using Ne.symm heq), List.filter_append]
  counts := h.counts.increment h.word (Nat.succ_pos _)
  gone := by
    intro place hplace
    rw [Fenwick.length_increment] at hplace
    exact h.gone_next hplace

/-- The last value with the key goes, and the index knows of it. -/
theorem Removable.spec (h : Removable list index (before ++ (original, found) :: after) count)
    (hrepresents : Represents hash list entries) {value : Value} (hvalue : semanticKey value = some key)
    (hkey : semanticKey found = some key)
    (hafter : ∀ entry ∈ after, semanticKey entry.2 ≠ some key) :
    list.positional[before.length]? = some found ∧
      ListSpec.findLast value entries = some before.length ∧
      entries[before.length]? = some (.inl found) ∧
      Represents hash (removedAt list index key original before.length)
        (entries.eraseIdx before.length) := by
  have hqueued : Queued list entries := by
    rcases hrepresents.storage with ⟨slots, hsettled⟩ | hqueued
    · exact hsettled.queued h.associative h.order
    · exact hqueued
  have hentries : entries = (before.map fun entry => .inl entry.2) ++
      .inl found :: after.map fun entry => .inl entry.2 := by
    rw [hqueued.entries, h.head, List.drop_zero, ← h.positional, List.map_map, List.map_append,
      List.map_cons]
    rfl
  have hequal {other : Value} (hother : other.semanticEq value = true) :
      semanticKey other = some key :=
    (semanticEq_iff_key hvalue).1 (Value.semanticEq_symm _ _ hother)
  have hlast := @findLast_eq_some value (before.map fun entry => .inl entry.2)
    (after.map fun entry => .inl entry.2) (.inl found)
    (Value.semanticEq_symm _ _ ((semanticEq_iff_key hvalue).2 hkey)) fun other hother => by
      obtain ⟨entry, hentry, rfl⟩ := List.mem_map.1 hother
      exact Bool.eq_false_iff.2 fun heq => hafter entry hentry (hequal heq)
  rw [List.length_map, ← hentries] at hlast
  have hremoved := h.remove hkey hafter
  refine ⟨?_, hlast, ?_, ⟨Or.inr ⟨h.associative, hqueued.index, hremoved.order, ?_, ?_, ?_⟩, ?_⟩⟩
  · rw [← h.positional, List.map_append, List.getElem?_append_right (by rw [List.length_map]),
      List.length_map, Nat.sub_self]
    rfl
  · rw [hentries, List.getElem?_append_right (by rw [List.length_map]), List.length_map,
      Nat.sub_self]
    rfl
  · rw [hremoved.head]
    exact Nat.zero_le _
  · rw [hremoved.head, List.drop_zero]
    show _ = (list.positional.eraseIdx before.length).map Sum.inl
    rw [map_eraseIdx, hqueued.entries, h.head, List.drop_zero]
  · show list.order.dropLast.length ≤ 2 ^ 31
    have hbound := hqueued.bound
    rw [List.length_dropLast]
    omega
  · intro next hnext
    cases hnext
    exact ⟨_, _, hremoved⟩

end

/-- The search from the end. -/
theorem removeLast_scan (h : Represents hash list entries) (hhead : list.prefixHead = 0)
    (value : Value) : ∃ next, (do
        let found ← list.findKey value list.order.reverse
        match found with
        | none => some (list, none)
        | some index => list.removeFound hash (list.order.length - index)) =
        some (next, (ListSpec.removeFound entries (ListSpec.findLast value entries)).2) ∧
      Represents hash next (ListSpec.removeFound entries (ListSpec.findLast value entries)).1 := by
  have hreads := h.reads
  have hlength := h.len_eq
  rw [DmList.len, hhead, Nat.sub_zero] at hlength
  rw [hhead, List.drop_zero] at hreads
  rw [hreads.reverse.findKey value, ListSpec.findLast, hlength]
  cases hfound : ListSpec.findFirst value entries.reverse with
  | none => exact ⟨list, rfl, h⟩
  | some index =>
    have hlt := (List.findIdx?_eq_some_iff_getElem.1 hfound).1
    rw [List.length_reverse] at hlt
    have hplace : entries.length - index = entries.length - 1 - index + 1 := by omega
    simp only [Option.bind_eq_bind, Option.bind_some, Option.map_some]
    rw [hplace]
    exact removeFound_spec h (by omega)

theorem removeLast_spec (h : Represents hash list entries) (value : Value) :
    ∃ next, list.removeLast hash value =
        some (next, (ListSpec.removeFound entries (ListSpec.findLast value entries)).2) ∧
      Represents hash next (ListSpec.removeFound entries (ListSpec.findLast value entries)).1 := by
  obtain ⟨settled, slots, hmaterialize, hsettled, -, hrepresents⟩ := materializePrefix_spec h
  obtain ⟨hbuilt, hbuiltRepresents⟩ := buildPositionalRemoveIndex_spec hsettled hrepresents
  rw [DmList.removeLast, hmaterialize, Option.bind_eq_bind, Option.bind_some]
  simp only []
  split
  · rename_i key index hvalue hindex
    obtain ⟨alive, count, hremovable⟩ := hbuiltRepresents.removable index hindex
    have hqueued := hbuilt.queued hremovable.associative hremovable.order
    cases hlast : (index.positions key).getLast? with
    | none =>
      have hnone : ListSpec.findLast value entries = none := by
        refine findLast_eq_none fun entry hentry => Bool.eq_false_iff.2 fun heq => ?_
        rw [hqueued.entries, hbuilt.head, List.drop_zero, ← hremovable.positional, List.map_map]
          at hentry
        obtain ⟨pair, hpair, rfl⟩ := List.mem_map.1 hentry
        have hnil := List.getLast?_eq_none_iff.1 hlast
        rw [hremovable.positions, List.map_eq_nil_iff, List.filter_eq_nil_iff] at hnil
        refine hnil pair hpair (decide_eq_true ?_)
        exact (semanticEq_iff_key hvalue).1 (Value.semanticEq_symm _ _ heq)
      rw [hnone]
      exact ⟨_, rfl, hbuiltRepresents⟩
    | some original =>
      rw [hremovable.positions, List.getLast?_map] at hlast
      obtain ⟨⟨place, found⟩, hfound, rfl⟩ := Option.map_eq_some_iff.1 hlast
      obtain ⟨before, after, rfl, hkey, hafter⟩ := filter_getLast? hfound
      have hcurrent := hremovable.current
      obtain ⟨sum, hsum, hcurrentEq⟩ := Option.bind_eq_some_iff.1 hcurrent
      obtain ⟨hpositional, hfindLast, hget, hnext⟩ := hremovable.spec hbuiltRepresents hvalue
        (of_decide_eq_true hkey) fun entry hentry => of_decide_eq_false (hafter entry hentry)
      simp only [hsum, hcurrentEq, hpositional, Option.bind_eq_bind, Option.bind_some]
      rw [hfindLast, ListSpec.removeFound, hget]
      exact ⟨_, rfl, hnext⟩
  · exact removeLast_scan hbuiltRepresents hbuilt.head value

end Dream64
