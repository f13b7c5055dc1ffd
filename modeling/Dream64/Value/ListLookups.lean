import Dream64.Value.ListKeys

/-!
# Lookups along a run

Whatever the operations do to the order of a list, they keep its keys different
and its index that of its associations. So a lookup by the index is the scan in
every list that a run gives, with any hash and any number of entries.
-/

namespace Dream64

open DmList Pools ListOrder

variable {hash : SemanticKey → Nat} {list next : DmList}

variable {associative : List (Value × Value)} {index : Nat → Option Nat} {position : Nat}

/-! ## Operations -/

/-- The keys are different, and the index is that of the associations. -/
structure Searchable (hash : SemanticKey → Nat) (list : DmList) : Prop where
  distinct : Distinct list.associative
  index : IndexOf hash list.associativeIndex list.associative

theorem searchable_empty : Searchable hash DmList.empty :=
  ⟨List.Pairwise.nil, IndexOf.none hash _⟩

/-- What is left of the associations, in their order, and its index if that was theirs. -/
structure Prunes (hash : SemanticKey → Nat) (list next : DmList) : Prop where
  part : next.associative.Sublist list.associative
  index : IndexOf hash list.associativeIndex list.associative →
    IndexOf hash next.associativeIndex next.associative

theorem Searchable.prune (h : Searchable hash list) (hprunes : Prunes hash list next) :
    Searchable hash next :=
  ⟨h.distinct.sublist hprunes.part, hprunes.index h.index⟩

namespace Prunes

theorem refl (list : DmList) : Prunes hash list list := ⟨List.Sublist.refl _, id⟩

/-- The same associations and the same index. -/
theorem same (hassociative : next.associative = list.associative)
    (hindex : next.associativeIndex = list.associativeIndex) : Prunes hash list next := by
  refine ⟨?_, fun h => ?_⟩
  · rw [hassociative]
  · rwa [hassociative, hindex]

theorem trans {last : DmList} (h : Prunes hash list next) (h' : Prunes hash next last) :
    Prunes hash list last :=
  ⟨h'.part.trans h.part, h'.index ∘ h.index⟩

theorem rebuild {kept : DmList} (hpart : kept.associative.Sublist list.associative)
    (h : kept.rebuildAssociativeIndex hash = some next) : Prunes hash list next := by
  obtain ⟨index, rfl, hindex⟩ := rebuildAssociativeIndex_of_some h
  exact ⟨hpart, fun _ => hindex⟩

end Prunes

theorem materializePrefix_prunes (h : list.materializePrefix = some next) :
    Prunes hash list next := by
  rw [materializePrefix] at h
  split at h
  · cases h
    exact .same rfl rfl
  · split at h
    · cases h
    · rw [Option.bind_eq_bind, Option.bind_eq_some_iff] at h
      obtain ⟨order, -, h⟩ := h
      cases h
      exact .same rfl rfl

variable {value : Value}

theorem add_prunes {len : Nat} (h : list.add value = some (next, len)) : Prunes hash list next := by
  rw [DmList.add, Option.bind_eq_bind, Option.bind_eq_some_iff] at h
  obtain ⟨entry, -, h⟩ := h
  cases h
  exact .same rfl rfl

theorem addNulls_prunes {count : Nat} (h : addNulls count list = some next) :
    Prunes hash list next := by
  induction count generalizing list with
  | zero =>
    cases h
    exact .refl _
  | succ count ih =>
    rw [addNulls, Option.bind_eq_bind, Option.bind_eq_some_iff] at h
    obtain ⟨⟨added, len⟩, hadded, h⟩ := h
    exact (add_prunes hadded).trans (ih h)

theorem set_prunes {index : Nat} {result : Except ListError Value}
    (hset : list.set hash index value = some (next, result)) : Prunes hash list next := by
  rw [DmList.set] at hset
  split at hset
  · cases hset
    exact .refl _
  · rw [Option.bind_eq_bind, Option.bind_eq_some_iff] at hset
    obtain ⟨entry, -, hset⟩ := hset
    split at hset
    · rw [Option.bind_eq_bind, Option.bind_eq_some_iff] at hset
      obtain ⟨previous, -, hset⟩ := hset
      cases hset
      exact .same rfl rfl
    · simp only [Option.bind_eq_bind, Option.bind_eq_some_iff] at hset
      obtain ⟨previous, -, order, -, entry, -, rebuilt, hrebuilt, hset⟩ := hset
      cases hset
      exact .rebuild (List.eraseIdx_sublist _ _) hrebuilt

theorem remove_prunes {index : Nat} {result : Except ListError Value}
    (hremove : list.remove hash index = some (next, result)) : Prunes hash list next := by
  rw [DmList.remove, Option.bind_eq_bind, Option.bind_eq_some_iff] at hremove
  obtain ⟨settled, hsettled, hremove⟩ := hremove
  refine (materializePrefix_prunes hsettled).trans ?_
  simp only at hremove
  split at hremove
  · cases hremove
    exact .same rfl rfl
  · rw [Option.bind_eq_bind, Option.bind_eq_some_iff] at hremove
    obtain ⟨entry, -, hremove⟩ := hremove
    split at hremove
    · simp only [Option.bind_eq_bind, Option.bind_eq_some_iff] at hremove
      obtain ⟨order, -, value, -, hremove⟩ := hremove
      cases hremove
      exact .same rfl rfl
    · simp only [Option.bind_eq_bind, Option.bind_eq_some_iff] at hremove
      obtain ⟨entry, -, order, -, rebuilt, hrebuilt, hremove⟩ := hremove
      cases hremove
      exact .rebuild (List.eraseIdx_sublist _ _) hrebuilt

variable {result : Option Value}

theorem removeFound_prunes {index : Nat}
    (hremove : list.removeFound hash index = some (next, result)) : Prunes hash list next := by
  rw [DmList.removeFound, Option.bind_eq_bind, Option.bind_eq_some_iff] at hremove
  obtain ⟨⟨removed, value⟩, hremoved, hremove⟩ := hremove
  cases hremove
  exact remove_prunes hremoved

theorem removeFirst_prunes (hremove : list.removeFirst hash value = some (next, result)) :
    Prunes hash list next := by
  rw [DmList.removeFirst, Option.bind_eq_bind, Option.bind_eq_some_iff] at hremove
  obtain ⟨found, -, hremove⟩ := hremove
  split at hremove
  · cases hremove
    exact .refl _
  · exact removeFound_prunes hremove

theorem buildPositionalRemoveIndex_prunes (list : DmList) :
    Prunes hash list list.buildPositionalRemoveIndex := by
  rw [buildPositionalRemoveIndex]
  split
  · exact .same rfl rfl
  · exact .same rfl rfl

theorem removeLast_prunes (hremove : list.removeLast hash value = some (next, result)) :
    Prunes hash list next := by
  rw [DmList.removeLast, Option.bind_eq_bind, Option.bind_eq_some_iff] at hremove
  obtain ⟨settled, hsettled, hremove⟩ := hremove
  refine (materializePrefix_prunes hsettled).trans
    ((buildPositionalRemoveIndex_prunes settled).trans ?_)
  simp only at hremove
  split at hremove
  · split at hremove
    · cases hremove
      exact .refl _
    · simp only [Option.bind_eq_bind, Option.bind_eq_some_iff] at hremove
      obtain ⟨before, -, current, -, removed, -, hremove⟩ := hremove
      cases hremove
      exact .same rfl rfl
  · rw [Option.bind_eq_bind, Option.bind_eq_some_iff] at hremove
    obtain ⟨found, -, hremove⟩ := hremove
    split at hremove
    · cases hremove
      exact .refl _
    · exact removeFound_prunes hremove

theorem insert_prunes {index : Nat} {result : Except ListError Nat}
    (hinsert : list.insert index value = some (next, result)) : Prunes hash list next := by
  rw [DmList.insert, Option.bind_eq_bind, Option.bind_eq_some_iff] at hinsert
  obtain ⟨settled, hsettled, hinsert⟩ := hinsert
  refine (materializePrefix_prunes hsettled).trans ?_
  split at hinsert
  · cases hinsert
    exact .same rfl rfl
  · rw [Option.bind_eq_bind, Option.bind_eq_some_iff] at hinsert
    obtain ⟨entry, -, hinsert⟩ := hinsert
    cases hinsert
    exact .same rfl rfl

theorem extendPositional_prunes {values : List Value} {len : Nat}
    (h : list.extendPositional values = some (next, len)) : Prunes hash list next := by
  rw [DmList.extendPositional, Option.bind_eq_bind, Option.bind_eq_some_iff] at h
  obtain ⟨entries, -, h⟩ := h
  cases h
  exact .same rfl rfl

theorem swap_prunes {first second : Nat} {result : Except ListError Unit}
    (h : list.swap first second = some (next, result)) : Prunes hash list next := by
  rw [DmList.swap, Option.bind_eq_bind, Option.bind_eq_some_iff] at h
  obtain ⟨settled, hsettled, h⟩ := h
  refine (materializePrefix_prunes hsettled).trans ?_
  split at h
  · cases h
    exact .refl _
  · cases h
    exact .refl _
  · simp only [Option.bind_eq_bind, Option.bind_eq_some_iff] at h
    obtain ⟨one, -, other, -, h⟩ := h
    cases h
    exact .same rfl rfl

theorem dropSlots_prunes {rest gone : List ListOrder}
    (hdrop : list.dropSlots hash rest gone = some (.ok next)) : Prunes hash list next := by
  rw [DmList.dropSlots] at hdrop
  split at hdrop
  · cases hdrop
  · simp only [Option.bind_eq_bind, Option.bind_eq_some_iff] at hdrop
    obtain ⟨order, -, rebuilt, hrebuilt, hdrop⟩ := hdrop
    cases hdrop
    exact .rebuild (kept_sublist _ _) hrebuilt

theorem cutRange_prunes {start stop : Nat} {result : Except ListError Nat}
    (hcut : list.cutRange hash start stop = some (next, result)) : Prunes hash list next := by
  rw [DmList.cutRange] at hcut
  split at hcut
  · cases hcut
    exact .refl _
  · cases hcut
    exact .refl _
  · split at hcut
    · cases hcut
      exact .refl _
    · split at hcut
      · cases hcut
        exact ⟨List.nil_sublist _, fun _ => IndexOf.none hash _⟩
      · split at hcut
        · cases hcut
          exact .same rfl rfl
        · simp only [Option.bind_eq_bind, Option.bind_eq_some_iff] at hcut
          obtain ⟨settled, hsettled, dropped, hdropped, hcut⟩ := hcut
          have hinvalid : Prunes hash list settled.invalidatePositionalRemoveIndex :=
            (materializePrefix_prunes hsettled).trans (.same rfl rfl)
          split at hcut
          · cases hcut
            exact hinvalid.trans (.same rfl rfl)
          · cases hcut
            exact hinvalid.trans (dropSlots_prunes hdropped)

theorem subtractEntries_prunes {values : List Value} {result : Except ListError Nat}
    (hsubtract : list.subtractEntries hash values = some (next, result)) :
    Prunes hash list next := by
  rw [DmList.subtractEntries] at hsubtract
  split at hsubtract
  · cases hsubtract
    exact .refl _
  · simp only at hsubtract
    split at hsubtract
    · cases hsubtract
      exact .refl _
    · split at hsubtract
      · cases hsubtract
        exact .refl _
      · rw [Option.bind_eq_bind, Option.bind_eq_some_iff] at hsubtract
        obtain ⟨dropped, hdropped, hsubtract⟩ := hsubtract
        have hinvalid : Prunes hash list
            { list.invalidatePositionalRemoveIndex with prefixHead := 0 } := .same rfl rfl
        split at hsubtract
        · cases hsubtract
          exact .same rfl rfl
        · cases hsubtract
          exact hinvalid.trans (dropSlots_prunes hdropped)

theorem resize_prunes {newLen : Nat} {result : Except ListError Unit}
    (hresize : list.resize hash newLen = some (next, result)) : Prunes hash list next := by
  rw [DmList.resize, Option.bind_eq_bind, Option.bind_eq_some_iff] at hresize
  obtain ⟨grown, hgrown, hresize⟩ := hresize
  refine (addNulls_prunes hgrown).trans ?_
  split at hresize
  · rw [Option.bind_eq_bind, Option.bind_eq_some_iff] at hresize
    obtain ⟨⟨cut, count⟩, hcut, hresize⟩ := hresize
    cases hresize
    exact cutRange_prunes hcut
  · cases hresize
    exact .refl _

theorem removeKey_prunes {key : Value}
    (hremove : list.removeKey hash key = some (next, result)) : Prunes hash list next := by
  rw [DmList.removeKey, Option.bind_eq_bind, Option.bind_eq_some_iff] at hremove
  obtain ⟨settled, hsettled, hremove⟩ := hremove
  refine (materializePrefix_prunes hsettled).trans ?_
  simp only at hremove
  split at hremove
  · cases hremove
    exact .same rfl rfl
  · split at hremove
    · cases hremove
      exact .same rfl rfl
    · simp only [Option.bind_eq_bind, Option.bind_eq_some_iff] at hremove
      obtain ⟨removed, -, order, -, rebuilt, hrebuilt, hremove⟩ := hremove
      cases hremove
      exact .rebuild (List.eraseIdx_sublist _ _) hrebuilt

theorem compactForGc_prunes {entryBytes : Nat} {shared : Bool}
    (hcompact : list.compactForGc entryBytes shared = some next) : Prunes hash list next := by
  rw [DmList.compactForGc] at hcompact
  split at hcompact
  · split at hcompact
    · split at hcompact
      · cases hcompact
      · rw [Option.bind_eq_bind, Option.bind_eq_some_iff] at hcompact
        obtain ⟨order, -, hcompact⟩ := hcompact
        cases hcompact
        exact ⟨List.nil_sublist _, fun _ => IndexOf.none hash _⟩
    · rw [Option.bind_eq_bind, Option.bind_eq_some_iff] at hcompact
      obtain ⟨settled, hsettled, hcompact⟩ := hcompact
      refine (materializePrefix_prunes hsettled).trans ?_
      cases hcompact
      exact .same rfl rfl
  · split at hcompact
    · cases hcompact
      exact .refl _
    · cases hcompact
      exact .same rfl rfl

/-! ## Keys -/

theorem Indexed.replace (h : Indexed hash associative index) {entry : Value × Value}
    (hentry : associative[position]? = some entry) (value : Value) :
    Indexed hash (associative.set position (entry.1, value)) index := by
  refine ⟨fun added hadded keyHash hkeyHash => ?_, fun keyHash place hplace => ?_⟩
  · rcases List.mem_or_eq_of_mem_set hadded with hmem | rfl
    · exact h.covers added hmem keyHash hkeyHash
    · exact h.covers entry (List.mem_of_getElem? hentry) keyHash hkeyHash
  · rw [List.length_set]
    exact h.bounded keyHash place hplace

/-- A key that the scan does not find is another one. -/
theorem Distinct.concat (h : Distinct list.associative) {key value : Value}
    (hscan : list.scanAssociations key = none) {spelling : Value}
    (hspelling : spelling = key ∨ spelling.semanticEq key = true) :
    Distinct (list.associative ++ [(spelling, value)]) := by
  rw [Distinct, List.pairwise_append]
  refine ⟨h, List.pairwise_singleton _ _, fun entry hentry added hadded => ?_⟩
  rw [List.mem_singleton] at hadded
  rw [hadded, Bool.eq_false_iff]
  intro heq
  have hnone := List.findIdx?_eq_none_iff.1 hscan entry hentry
  rcases hspelling with rfl | hspelling
  · rw [heq] at hnone
    cases hnone
  · rw [Value.semanticEq_trans _ _ _ heq hspelling] at hnone
    cases hnone

variable {key : Value}

theorem findPositional_of_some {entries : List ListOrder} {orderIndex : Nat}
    (h : list.findPositional key entries = some (some (orderIndex, position))) :
    ∃ value, list.positional[position]? = some value ∧ value.semanticEq key = true := by
  induction entries generalizing orderIndex with
  | nil => cases h
  | cons entry entries ih =>
    have hnext (h : (do
        let found ← list.findPositional key entries
        some (found.map fun place => (place.1 + 1, place.2))) =
          some (some (orderIndex, position))) :
        ∃ value, list.positional[position]? = some value ∧ value.semanticEq key = true := by
      rw [Option.bind_eq_bind, Option.bind_eq_some_iff] at h
      obtain ⟨found, hfound, h⟩ := h
      rw [Option.some.injEq, Option.map_eq_some_iff] at h
      obtain ⟨place, hplace, heq⟩ := h
      rw [Prod.mk.injEq] at heq
      refine @ih place.1 ?_
      rw [hfound, hplace, ← heq.2]
    rw [findPositional] at h
    split at h
    · exact hnext h
    · rw [Option.bind_eq_bind, Option.bind_eq_some_iff] at h
      obtain ⟨value, hvalue, h⟩ := h
      split at h
      · rename_i heq
        rw [Option.some.injEq, Option.some.injEq, Prod.mk.injEq] at h
        rw [← h.2]
        exact ⟨value, hvalue, heq⟩
      · exact hnext h

theorem setKey_searchable (h : Searchable hash list)
    (hset : list.setKey hash key value = some (next, result)) : Searchable hash next := by
  rw [DmList.setKey, Option.bind_eq_bind, Option.bind_eq_some_iff] at hset
  obtain ⟨settled, hsettled, hset⟩ := hset
  have hsearch : Searchable hash settled.invalidatePositionalRemoveIndex :=
    h.prune ((materializePrefix_prunes hsettled).trans (.same rfl rfl))
  have hscan := associationPositionForKey_eq hsearch.index hsearch.distinct key
  simp only at hset
  split at hset
  · rw [Option.bind_eq_bind, Option.bind_eq_some_iff] at hset
    obtain ⟨entry, hentry, hset⟩ := hset
    rw [Option.some.injEq, Prod.mk.injEq] at hset
    rw [← hset.1]
    refine ⟨hsearch.distinct.set hentry value, fun index hindex => ?_⟩
    obtain ⟨hmany, hindexed⟩ := hsearch.index index hindex
    refine ⟨?_, hindexed.replace hentry value⟩
    rwa [List.length_set]
  · rename_i hnone
    rw [hnone] at hscan
    have hfree := hscan.symm
    rw [Option.bind_eq_bind, Option.bind_eq_some_iff] at hset
    obtain ⟨found, hfound, hset⟩ := hset
    -- The last association is a value that becomes a key, or a new one.
    have hlast {added : DmList} {spelling : Value}
        (hindexed : added.indexLastAssociation hash = some next)
        (hspelling : spelling = key ∨ spelling.semanticEq key = true)
        (hassociative : added.associative =
          settled.invalidatePositionalRemoveIndex.associative ++ [(spelling, value)])
        (hsameIndex : added.associativeIndex =
          settled.invalidatePositionalRemoveIndex.associativeIndex) : Searchable hash next := by
      have hdistinct := @Distinct.concat _ hsearch.distinct key value hfree spelling hspelling
      have hindex := hsearch.index
      rw [← hsameIndex] at hindex
      obtain ⟨index, hnext, hindexOf⟩ := indexLastAssociation_of_some hassociative hindex hindexed
      rw [← hassociative] at hdistinct
      rw [hnext]
      exact ⟨hdistinct, hindexOf⟩
    split at hset
    · simp only [Option.bind_eq_bind, Option.bind_eq_some_iff] at hset
      obtain ⟨existing, hexisting, order, -, entry, -, indexed, hindexed, hset⟩ := hset
      rw [Option.some.injEq, Prod.mk.injEq] at hset
      rw [hset.1] at hindexed
      obtain ⟨spelling, hspelling, heq⟩ := findPositional_of_some hfound
      rw [hexisting, Option.some.injEq] at hspelling
      exact hlast hindexed (.inr (hspelling ▸ heq)) rfl rfl
    · simp only [Option.bind_eq_bind, Option.bind_eq_some_iff] at hset
      obtain ⟨entry, -, indexed, hindexed, hset⟩ := hset
      rw [Option.some.injEq, Prod.mk.injEq] at hset
      rw [hset.1] at hindexed
      exact hlast hindexed (.inl rfl) rfl rfl

/-! ## Runs -/

theorem step_searchable (h : Searchable hash list) {op : ListOp} {result : ListResult}
    (hstep : op.apply hash list = some (next, result)) : Searchable hash next := by
  have hmap {α : Type} {run : Option (DmList × α)} {f : α → ListResult}
      (hrun : run.map (fun r => (r.1, f r.2)) = some (next, result)) :
      ∃ value, run = some (next, value) := by
    obtain ⟨made, hmade, heq⟩ := Option.map_eq_some_iff.1 hrun
    rw [Prod.mk.injEq] at heq
    exact ⟨made.2, by rw [hmade, ← heq.1]⟩
  cases op with
  | add value =>
    obtain ⟨made, hmade⟩ := hmap hstep
    exact h.prune (add_prunes hmade)
  | extendPositional values =>
    obtain ⟨made, hmade⟩ := hmap hstep
    exact h.prune (extendPositional_prunes hmade)
  | set index value =>
    obtain ⟨made, hmade⟩ := hmap hstep
    exact h.prune (set_prunes hmade)
  | remove index =>
    obtain ⟨made, hmade⟩ := hmap hstep
    exact h.prune (remove_prunes hmade)
  | removeFirst value =>
    obtain ⟨made, hmade⟩ := hmap hstep
    exact h.prune (removeFirst_prunes hmade)
  | removeLast value =>
    obtain ⟨made, hmade⟩ := hmap hstep
    exact h.prune (removeLast_prunes hmade)
  | insert index value =>
    obtain ⟨made, hmade⟩ := hmap hstep
    exact h.prune (insert_prunes hmade)
  | cutRange start stop =>
    obtain ⟨made, hmade⟩ := hmap hstep
    exact h.prune (cutRange_prunes hmade)
  | subtractEntries values =>
    obtain ⟨made, hmade⟩ := hmap hstep
    exact h.prune (subtractEntries_prunes hmade)
  | swap first second =>
    obtain ⟨made, hmade⟩ := hmap hstep
    exact h.prune (swap_prunes hmade)
  | resize newLen =>
    obtain ⟨made, hmade⟩ := hmap hstep
    exact h.prune (resize_prunes hmade)
  | setKey key value =>
    obtain ⟨made, hmade⟩ := hmap hstep
    exact setKey_searchable h hmade
  | removeKey key =>
    obtain ⟨made, hmade⟩ := hmap hstep
    exact h.prune (removeKey_prunes hmade)
  | compactForGc entryBytes shared =>
    obtain ⟨made, hmade, heq⟩ := Option.map_eq_some_iff.1 hstep
    rw [Prod.mk.injEq] at heq
    rw [← heq.1]
    exact h.prune (compactForGc_prunes hmade)

theorem run_searchable (h : Searchable hash list) {ops : List ListOp} {results : List ListResult}
    (hrun : runList hash list ops = some (next, results)) : Searchable hash next := by
  induction ops generalizing list results with
  | nil =>
    rw [runList, Option.some.injEq, Prod.mk.injEq] at hrun
    rwa [← hrun.1]
  | cons op ops ih =>
    rw [runList, Option.bind_eq_bind, Option.bind_eq_some_iff] at hrun
    obtain ⟨⟨stepped, result⟩, hstep, hrun⟩ := hrun
    rw [Option.bind_eq_bind, Option.bind_eq_some_iff] at hrun
    obtain ⟨⟨last, rest⟩, hrest, hrun⟩ := hrun
    rw [Option.some.injEq, Prod.mk.injEq] at hrun
    rw [hrun.1] at hrest
    exact ih (step_searchable h hstep) hrest

/-- In every list of a run the lookup of a key is the scan, with any hash of the keys. -/
theorem associationLookup_eq_scan (hash : SemanticKey → Nat) (ops : List ListOp) {list : DmList}
    {results : List ListResult} (hrun : runList hash DmList.empty ops = some (list, results))
    (key : Value) : list.associationPositionForKey hash key =
      list.associative.findIdx? fun entry => entry.1.semanticEq key := by
  have hsearch := run_searchable searchable_empty hrun
  exact associationPositionForKey_eq hsearch.index hsearch.distinct key

/-- Nine keys with one hash, and a removal. -/
def collidingKeys : List ListOp :=
  (List.range 9).map (fun number => .setKey (.text (toString number)) .null) ++
    [.removeKey (.text "3")]

theorem collidingKeys_lookup : ∃ list results,
    runList (fun _ => 0) DmList.empty collidingKeys = some (list, results) ∧
      list.associativeIndex.isSome = true ∧
      list.associationPositionForKey (fun _ => 0) (.text "8") = some 7 := by
  refine ⟨_, _, rfl, rfl, ?_⟩
  rw [associationLookup_eq_scan (fun _ => 0) collidingKeys rfl]
  rfl

end Dream64
