import Dream64.Vm.ListOperatorRuns

/-!
# Where `a op b` and `a op= b` agree

`a op b` on one side, and `op= b` on a copy of `a` on the other.
-/

namespace Dream64.Vm

open Fallible.Stateful

variable {hash : SemanticKey → Nat} {s s' : ListState} {history : ArenaHistory DmList}
  {id left : ListId} {list : DmList} {entries rightEntries : List Entry} {right : Value}

/-- A heap that was reached by the operations of its arena, whose lists were made by list operations
and have no handles but those that were returned. -/
structure ListHeap (hash : SemanticKey → Nat) where
  state : ListState
  history : ArenaHistory DmList
  reached : ∃ ops, runArena Arena.empty ArenaHistory.empty ops = some (state.lists, history)
  built : ∀ id list, state.list id = some list → ∃ ops results,
    StaysBelow (2 ^ 31) [] ops ∧ RunHasRoom hash DmList.empty ops ∧
    runList hash DmList.empty ops = some (list, results) ∧
    ∀ entry ∈ (specList [] ops).1, Given history entry.key

/-- The compound form on a copy of the left list. -/
def compoundOnCopy (hash : SemanticKey → Nat) (operator : CompoundAssignmentOperator)
    (left : ListId) (right : Value) : ListRun Value := do
  let copy ← copyLike left
  executeListCompoundOperator hash operator copy right

/-- `a op b` gives a fresh list with the entries and associations of a copy of `a` after `op= b`, and
changes no other list. -/
structure FormsAgree (hash : SemanticKey → Nat) (heap : ListHeap hash) (operator : SetOperator)
    (left : ListId) (right : Value) : Prop where
  agree : ∃ result s' copy s'' list list' entries,
    Returns (executeListBinaryOperator hash operator.symbol left right) heap.state
      (.list result) s' ∧
    result.handle ∉ heap.history.returned ∧
    (∀ other, other ≠ result → s'.list other = heap.state.list other) ∧
    Returns (compoundOnCopy hash operator.compound left right) heap.state (.list copy) s'' ∧
    s'.list result = some list ∧ Stored list entries ∧
    s''.list copy = some list' ∧ Stored list' entries

/-- The entries of the left list that a form has to keep. -/
def SetOperator.Keeps (live : Value → Bool) (entries : List Entry) (right : Value)
    (items : List ListOperatorEntry) : SetOperator → Prop
  | or => TidyBut live right entries
  | xor => TidyBut live right (unmatched live items entries)
  | _ => True

namespace ListHeap

variable (heap : ListHeap hash)

theorem sound : heap.state.Sound heap.history := by
  obtain ⟨ops, hrun⟩ := heap.reached
  exact arenaInv_empty.run hrun

theorem represents (hlist : heap.state.list id = some list) (hstored : Stored list entries) :
    Represents hash list entries ∧ ∀ entry ∈ entries, Given heap.history entry.key := by
  obtain ⟨ops, results, hbelow, hroom, hrun, hgiven⟩ := heap.built id list hlist
  have hrepresents := empty_represents.reaches hbelow hroom hrun
  rw [hstored.unique hrepresents.stored]
  exact ⟨hrepresents, hgiven⟩

end ListHeap

/-- The state in which the operators run: one list is new, and the operands are as they were. -/
structure Ready (hash : SemanticKey → Nat) (s s' : ListState) (entries rightEntries : List Entry)
    (left result : ListId) (right : Value) (head : Nat) : Prop where
  sound : ∃ history, s'.Sound history
  holdsLeft : Holds hash s' left entries head
  holdsRight : RightHolds hash s' right rightEntries
  ne : left ≠ result
  rightNe : ∀ id, right = .list id → id ≠ result
  items : rhsItems s'.isLive rightEntries right = rhsItems s.isLive rightEntries right
  snapshot : snapshot s'.isLive entries = snapshot s.isLive entries
  others : ∀ other, other ≠ result → s'.list other = s.list other

theorem Ready.step {result : ListId} {head : Nat} {s'' : ListState}
    (h : Ready hash s s' entries rightEntries left result right head)
    (hdiffers : Differs s' s'' result) :
    Ready hash s s'' entries rightEntries left result right head where
  sound := hdiffers.sound
  holdsLeft := h.holdsLeft.congr (hdiffers.others left h.ne)
  holdsRight id hid := by
    obtain ⟨head, hholds⟩ := h.holdsRight id hid
    exact ⟨head, hholds.congr (hdiffers.others id (h.rightNe id hid))⟩
  ne := h.ne
  rightNe := h.rightNe
  items := by rw [hdiffers.isLive, h.items]
  snapshot := by rw [hdiffers.isLive, h.snapshot]
  others other hother := (hdiffers.others other hother).trans (h.others other hother)

/-- The operands of an operator on a heap. -/
structure Operands (heap : ListHeap hash) (left : ListId) (list : DmList) (entries : List Entry)
    (right : Value) (rightEntries : List Entry) : Prop where
  found : heap.state.list left = some list
  stored : Stored list entries
  given : Given heap.history right
  right : ∀ id other, right = .list id → heap.state.list id = some other → Stored other rightEntries

theorem Operands.ready {heap : ListHeap hash} (h : Operands heap left list entries right rightEntries)
    (hreadable : Readable heap.state right) {result : ListId} {new : DmList}
    (hallocates : Allocates heap.state s' heap.history result new) :
    Ready hash heap.state s' entries rightEntries left result right list.prefixHead := by
  obtain ⟨hrepresents, hgiven⟩ := heap.represents h.found h.stored
  have hne : left ≠ result := by
    rintro rfl
    have hsome := h.found
    rw [hallocates.absent] at hsome
    cases hsome
  have hlist (id : ListId) (hid : right = .list id) : ∃ other, heap.state.list id = some other :=
    Option.ne_none_iff_exists'.1 (hreadable id hid)
  have hrightNe (id : ListId) (hid : right = .list id) : id ≠ result := by
    rintro rfl
    exact hreadable id hid hallocates.absent
  have hitems : rhsItems s'.isLive rightEntries right =
      rhsItems heap.state.isLive rightEntries right := by
    cases hright : right with
    | list id =>
      obtain ⟨other, hother⟩ := hlist id hright
      obtain ⟨-, hrightGiven⟩ := heap.represents hother (h.right id other hright hother)
      exact rhsItems_congr (fun entry hentry => hallocates.isLive_eq (hrightGiven entry hentry)) _
    | _ => rfl
  refine ⟨hallocates.sound, ⟨list, (hallocates.others left hne).trans h.found, hrepresents,
    Nat.le_refl _⟩, fun id hid => ?_, hne, hrightNe, hitems,
    snapshot_congr fun entry hentry => hallocates.isLive_eq (hgiven entry hentry),
    hallocates.others⟩
  obtain ⟨other, hother⟩ := hlist id hid
  obtain ⟨hrightRepresents, -⟩ := heap.represents hother (h.right id other hid hother)
  exact ⟨_, other, (hallocates.others id (hrightNe id hid)).trans hother, hrightRepresents,
    Nat.le_refl _⟩

/-! ## The union and the difference -/

section

variable {result : ListId} {head : Nat}

theorem returns_addItems (h : Ready hash s s' entries rightEntries left result right head)
    {known : List Entry} (hresult : Holds hash s' result known 0) {items : List ListOperatorEntry}
    (hroom : known.length + items.length ≤ 2 ^ 31) :
    ∃ s'', Returns (addEntries hash result items true) s' () s'' ∧
      Ready hash s s'' entries rightEntries left result right head ∧
      Holds hash s'' result (known ++ extras known items) 0 := by
  obtain ⟨history, hsound⟩ := h.sound
  obtain ⟨s'', hadd, hdiffers, hholds⟩ :=
    @returns_addEntries _ _ _ _ _ _ hsound hresult items (by omega) true
  rw [Bool.true_or, foldl_addEntry] at hholds
  exact ⟨s'', hadd, h.step hdiffers, hholds⟩

section

variable (h : Ready hash s s' entries rightEntries left result right head)
  (hallocate : Returns (allocateLike left) s result s') (hresult : Holds hash s' result [] 0)
  (hroom : entries.length + (rhsItems s.isLive rightEntries right).length ≤ 2 ^ 31)

include h hallocate hresult hroom

theorem returns_or :
    ∃ s'', Returns (executeListBinaryOperator hash "|" left right) s (.list result) s'' ∧
      Ready hash s s'' entries rightEntries left result right head ∧
      Holds hash s'' result (extras [] (snapshot s.isLive entries) ++
        extras (extras [] (snapshot s.isLive entries)) (rhsItems s.isLive rightEntries right)) 0 := by
  have hsnapshot := returns_snapshot h.holdsLeft
  have hlength : (snapshot s.isLive entries).length ≤ entries.length :=
    length_itemsOf_le s.isLive entries entries
  have hextras := length_extras_le [] (snapshot s.isLive entries)
  rw [h.snapshot] at hsnapshot
  obtain ⟨middle, hfirst, hready, hholds⟩ :=
    @returns_addItems _ _ _ _ _ _ _ _ _ h _ hresult (snapshot s.isLive entries) (by
      rw [List.length_nil]
      omega)
  rw [List.nil_append] at hholds
  have hrhs := returns_rhs hready.holdsRight
  rw [hready.items] at hrhs
  obtain ⟨s'', hsecond, hlast, hresultHolds⟩ := returns_addItems hready hholds
    (show _ + (rhsItems s.isLive rightEntries right).length ≤ 2 ^ 31 by omega)
  refine ⟨s'', ?_, hlast, hresultHolds⟩
  rw [executeListBinaryOperator, if_neg (by decide), if_neg (by decide), if_pos rfl]
  exact hallocate.bind (hsnapshot.bind (hfirst.bind (hrhs.bind (hsecond.bind (Returns.pure _ _)))))

theorem returns_xor {kept added : List ListOperatorEntry}
    (hkept : kept = (snapshot s.isLive entries).filter fun item =>
      !hasKey (rhsItems s.isLive rightEntries right) item.key)
    (hadded : added = (rhsItems s.isLive rightEntries right).filter fun item =>
      !hasKey (snapshot s.isLive entries) item.key) :
    ∃ s'', Returns (executeListBinaryOperator hash "^" left right) s (.list result) s'' ∧
      Ready hash s s'' entries rightEntries left result right head ∧
      Holds hash s'' result (extras [] kept ++ extras (extras [] kept) added) 0 := by
  have hsnapshot := returns_snapshot h.holdsLeft
  have hrhs := returns_rhs h.holdsRight
  rw [h.snapshot] at hsnapshot
  rw [h.items] at hrhs
  have hlength : (snapshot s.isLive entries).length ≤ entries.length :=
    length_itemsOf_le s.isLive entries entries
  have hkeptLength : kept.length ≤ (snapshot s.isLive entries).length := by
    rw [hkept]
    exact List.length_filter_le _ _
  have haddedLength : added.length ≤ (rhsItems s.isLive rightEntries right).length := by
    rw [hadded]
    exact List.length_filter_le _ _
  have hextras := length_extras_le [] kept
  obtain ⟨middle, hfirst, hready, hholds⟩ :=
    @returns_addItems _ _ _ _ _ _ _ _ _ h _ hresult kept (by
      rw [List.length_nil]
      omega)
  rw [List.nil_append] at hholds
  obtain ⟨s'', hsecond, hlast, hresultHolds⟩ := returns_addItems hready hholds
    (show _ + added.length ≤ 2 ^ 31 by omega)
  refine ⟨s'', ?_, hlast, hresultHolds⟩
  rw [hkept] at hfirst
  rw [hadded] at hsecond
  rw [executeListBinaryOperator, if_neg (by decide), if_neg (by decide), if_neg (by decide),
    if_neg (by decide), if_pos rfl]
  exact hallocate.bind (hsnapshot.bind (hrhs.bind (hfirst.bind (hsecond.bind (Returns.pure _ _)))))

end

end

/-! ## Agreement -/

theorem formsAgree_of_runs {heap : ListHeap hash} {operator : SetOperator} {result copy : ListId}
    {s'' : ListState} {made : List Entry} {head head' : Nat}
    (hbinary : Returns (executeListBinaryOperator hash operator.symbol left right) heap.state
      (.list result) s') (hfresh : result.handle ∉ heap.history.returned)
    (hothers : ∀ other, other ≠ result → s'.list other = heap.state.list other)
    (hcompound : Returns (compoundOnCopy hash operator.compound left right) heap.state
      (.list copy) s'')
    (hresult : Holds hash s' result entries head) (hcopy : Holds hash s'' copy made head') :
    FormsAgree hash heap operator left right ↔ entries = made := by
  obtain ⟨list, hlist, hrepresents, -⟩ := hresult
  obtain ⟨list', hlist', hrepresents', -⟩ := hcopy
  constructor
  · rintro ⟨result', t, copy', t', one, other, same, hrun, -, -, hrun', hone, hstored, hother,
      hstored'⟩
    obtain ⟨hvalue, rfl⟩ := hbinary.unique hrun
    obtain ⟨hvalue', rfl⟩ := hcompound.unique hrun'
    rw [Value.list.injEq] at hvalue hvalue'
    rw [← hvalue, hlist, Option.some.injEq] at hone
    rw [← hvalue', hlist', Option.some.injEq] at hother
    rw [← hone] at hstored
    rw [← hother] at hstored'
    rw [hrepresents.stored.unique hstored, hrepresents'.stored.unique hstored']
  · rintro rfl
    exact ⟨result, s', copy, s'', list, list', entries, hbinary, hfresh, hothers, hcompound, hlist,
      hrepresents.stored, hlist', hrepresents'.stored⟩

theorem returns_compoundOnCopy {heap : ListHeap hash} (operator : SetOperator)
    (h : Operands heap left list entries right rightEntries) (hslot : HasSlot heap.state)
    (hreadable : Readable heap.state right)
    (hroom : list.order.length + (rhsItems heap.state.isLive rightEntries right).length ≤ 2 ^ 31) :
    ∃ copy s' preserve head, Returns (compoundOnCopy hash operator.compound left right) heap.state
        (.list copy) s' ∧ copy.handle ∉ heap.history.returned ∧
      (∀ other, other ≠ copy → s'.list other = heap.state.list other) ∧
      Holds hash s' copy (operator.compoundEntries preserve heap.state.isLive
        (rhsItems heap.state.isLive rightEntries right) entries) head := by
  obtain ⟨hrepresents, -⟩ := heap.represents h.found h.stored
  obtain ⟨copy, s', hcopy, hallocates⟩ := returns_copyLike heap.sound hslot h.found
  have hready := h.ready hreadable hallocates
  have hholds : Holds hash s' copy entries list.prefixHead :=
    ⟨list, hallocates.list, hrepresents, Nat.le_refl _⟩
  obtain ⟨later, hsound⟩ := hallocates.sound
  rw [hrepresents.order_length, ← hready.items] at hroom
  obtain ⟨s'', hcompound, hdiffers, head, hlast⟩ :=
    returns_compound operator hsound hholds hready.holdsRight hroom
  have hsnapshot : operator.compoundEntries (s'.associativeLists copy) s'.isLive
      (rhsItems s'.isLive rightEntries right) entries =
      operator.compoundEntries (s'.associativeLists copy) heap.state.isLive
        (rhsItems heap.state.isLive rightEntries right) entries := by
    rw [hready.items]
    cases operator with
    | and => exact congrArg (List.foldl _ _) hready.snapshot
    | xor =>
      show List.foldl (exchangeEntry (snapshot _ _)) _ _ = _
      rw [hready.snapshot]
      rfl
    | _ => rfl
  rw [hsnapshot] at hlast
  exact ⟨copy, s'', _, head, hcopy.bind hcompound, hallocates.fresh, (hready.step hdiffers).others,
    hlast⟩

/-- Without a slot for the copy, or with a right operand that is gone, nothing is returned. -/
theorem fails_compoundOnCopy {heap : ListHeap hash} (operator : SetOperator)
    (h : Operands heap left list entries right rightEntries)
    (hnot : ¬ (HasSlot heap.state ∧ Readable heap.state right)) :
    Fails (compoundOnCopy hash operator.compound left right) heap.state := by
  by_cases hslot : HasSlot heap.state
  · obtain ⟨copy, s', hcopy, hallocates⟩ := returns_copyLike heap.sound hslot h.found
    refine hcopy.bind_fails (fails_compound operator (fun hreadable => hnot ⟨hslot, ?_⟩) copy)
    intro id hid hnone
    have hne : id ≠ copy := by
      rintro rfl
      have hgiven := h.given
      rw [hid] at hgiven
      exact hallocates.fresh hgiven
    exact hreadable id hid ((hallocates.others id hne).trans hnone)
  · exact (fails_copyLike hslot h.found).bind

theorem length_le_order {heap : ListHeap hash}
    (h : Operands heap left list entries right rightEntries) :
    entries.length ≤ list.order.length := by
  obtain ⟨hrepresents, -⟩ := heap.represents h.found h.stored
  rw [hrepresents.order_length]
  exact Nat.le_add_left _ _

/-- A right operand that can be read and is gone all the same is a datum. -/
theorem rhsItems_dead (hreadable : Readable s right) (hdead : s.isLive right = false) :
    rhsItems s.isLive rightEntries right = [⟨right, none⟩] := by
  cases right with
  | list id =>
    have hnone : (s.list id).isSome = false := hdead
    rw [Option.isSome_eq_false_iff, Option.isNone_iff_eq_none] at hnone
    exact absurd hnone (hreadable id rfl)
  | _ => rfl

theorem additions_iff {rest : List Entry} {added : List ListOperatorEntry}
    (hclosed : Closed s.isLive entries rest)
    (hlive : s.isLive right = true → ∀ item ∈ added, s.isLive item.key = true)
    (hdead : s.isLive right = false → added = [⟨right, none⟩]) :
    extras [] (itemsOf s.isLive entries rest) ++
        extras (extras [] (itemsOf s.isLive entries rest)) added =
      rest ++ extras rest added ↔ TidyBut s.isLive right rest := by
  cases hright : s.isLive right with
  | true => exact live_additions_iff (liveCongr_isLive s) hclosed hright (hlive hright)
  | false =>
    rw [hdead hright]
    exact dead_additions_iff (liveCongr_isLive s) hclosed hright (semanticEq_self_of_dead hright)

theorem unmatched_dead (hdead : s.isLive right = false) :
    unmatched s.isLive [⟨right, none⟩] entries = entries := by
  refine List.filter_eq_self.2 fun entry _ => ?_
  rw [hasKey, List.any_cons, List.any_nil, Bool.or_false, Bool.not_eq_true', Bool.and_eq_false_iff]
  cases heq : right.semanticEq entry.key with
  | false => exact Or.inr rfl
  | true =>
    rw [← liveCongr_isLive s _ _ heq, hdead]
    exact Or.inl rfl

theorem exchange_eq (hreadable : Readable s right) :
    (rhsItems s.isLive rightEntries right).foldl (exchangeEntry (snapshot s.isLive entries)) entries =
      unmatched s.isLive (rhsItems s.isLive rightEntries right) entries ++
        extras (unmatched s.isLive (rhsItems s.isLive rightEntries right) entries)
          ((rhsItems s.isLive rightEntries right).filter fun item =>
            !hasKey (snapshot s.isLive entries) item.key) := by
  cases hright : s.isLive right with
  | true => exact exchange_live (liveCongr_isLive s) (rhsItems_live hright)
  | false =>
    have hnone : hasKey (snapshot s.isLive entries) right = false :=
      hasKey_itemsOf_dead (liveCongr_isLive s) hright
    rw [rhsItems_dead hreadable hright, unmatched_dead hright,
      exchange_dead (liveCongr_isLive s) hright, List.filter_cons_of_pos (by rw [hnone]; rfl),
      List.filter_nil]

/-- The two forms agree exactly if there is room for the result, the right operand can be read and,
for `|` and `^`, what they keep of the left list is tidy. -/
theorem formsAgree_iff (heap : ListHeap hash) (operator : SetOperator)
    (h : Operands heap left list entries right rightEntries)
    (hroom : list.order.length + (rhsItems heap.state.isLive rightEntries right).length ≤ 2 ^ 31) :
    FormsAgree hash heap operator left right ↔
      HasSlot heap.state ∧ Readable heap.state right ∧
        operator.Keeps heap.state.isLive entries right
          (rhsItems heap.state.isLive rightEntries right) := by
  rw [← and_assoc]
  by_cases hready : HasSlot heap.state ∧ Readable heap.state right
  · rw [and_iff_right hready]
    obtain ⟨hslot, hreadable⟩ := hready
    obtain ⟨copy, s'', preserve, head, hcompound, hfresh, hothers, hcopy⟩ :=
      returns_compoundOnCopy operator h hslot hreadable hroom
    have hlength := length_le_order h
    have hbuilt (symbol : String)
        (hbinary : executeListBinaryOperator hash symbol left right =
          compoundOnCopy hash operator.compound left right)
        (hsymbol : operator.symbol = symbol) : FormsAgree hash heap operator left right := by
      rw [← hsymbol] at hbinary
      rw [← hbinary] at hcompound
      refine (formsAgree_of_runs hcompound hfresh hothers ?_ hcopy hcopy).2 rfl
      rwa [hbinary] at hcompound
    cases operator with
    | add => exact iff_of_true (hbuilt "+" rfl rfl) trivial
    | subtract => exact iff_of_true (hbuilt "-" rfl rfl) trivial
    | and => exact iff_of_true (hbuilt "&" rfl rfl) trivial
    | or =>
      obtain ⟨result, s', hallocate, hallocates⟩ := returns_allocateLike heap.sound hslot left
      have hempty : Holds hash s' result [] 0 :=
        ⟨DmList.empty, hallocates.list, empty_represents, Nat.le_refl 0⟩
      obtain ⟨last, hbinary, hlast, hresult⟩ :=
        returns_or (h.ready hreadable hallocates) hallocate hempty (by omega)
      rw [formsAgree_of_runs hbinary hallocates.fresh hlast.others hcompound hresult hcopy,
        SetOperator.compoundEntries, foldl_addEntry]
      exact additions_iff (closed_self _ _) rhsItems_live (rhsItems_dead hreadable)
    | xor =>
      obtain ⟨result, s', hallocate, hallocates⟩ := returns_allocateLike heap.sound hslot left
      have hempty : Holds hash s' result [] 0 :=
        ⟨DmList.empty, hallocates.list, empty_represents, Nat.le_refl 0⟩
      obtain ⟨last, hbinary, hlast, hresult⟩ :=
        returns_xor (h.ready hreadable hallocates) hallocate hempty (by omega) rfl rfl
      rw [formsAgree_of_runs hbinary hallocates.fresh hlast.others hcompound hresult hcopy,
        SetOperator.compoundEntries, exchange_eq hreadable, filter_snapshot]
      refine additions_iff (closed_unmatched (liveCongr_isLive _) _ _) (fun hlive item hitem => ?_)
        fun hdead => ?_
      · exact rhsItems_live hlive item (List.mem_filter.1 hitem).1
      · have hnone : hasKey (snapshot heap.state.isLive entries) right = false :=
          hasKey_itemsOf_dead (liveCongr_isLive _) hdead
        rw [rhsItems_dead hreadable hdead, List.filter_cons_of_pos (by rw [hnone]; rfl),
          List.filter_nil]
  · refine ⟨fun hagree => ?_, fun hkeeps => absurd hkeeps.1 hready⟩
    obtain ⟨-, -, copy, s'', -, -, -, -, -, -, hcompound, -⟩ := hagree
    exact absurd hcompound (fails_compoundOnCopy operator h hready _ _)

/-! ## Heaps with one list -/

/-- What a list operation can make of the empty list, without handles. -/
structure Made (hash : SemanticKey → Nat) (list : DmList) (entries : List Entry) : Prop where
  made : ∃ ops results, StaysBelow (2 ^ 31) [] ops ∧ RunHasRoom hash DmList.empty ops ∧
    runList hash DmList.empty ops = some (list, results) ∧ (specList [] ops).1 = entries
  given : ∀ history, ∀ entry ∈ entries, Given history entry.key

/-- A heap in which only one list was allocated. -/
def loneHeap (list : DmList) (entries : List Entry) (h : Made hash list entries) :
    ListHeap hash where
  state := ⟨loneArena list, fun _ => false, fun _ => false⟩
  history := loneHistory list
  reached := ⟨[.allocate list], loneArena_reached list⟩
  built id other hother := by
    obtain ⟨ops, results, hbelow, hroom, hrun, hentries⟩ := h.made
    rw [← loneArena_get hother]
    exact ⟨ops, results, hbelow, hroom, hrun, hentries ▸ h.given _⟩

/-- Some nulls one behind the other. -/
def nullsList (count : Nat) : DmList :=
  ⟨List.replicate count .null, [], (List.range count).map (⟨·⟩), none, none, 0⟩

theorem oneNull_made : Made (fun _ => 0) (nullsList 1) [.inl .null] := by
  refine ⟨⟨[.add .null], _, ?_, ?_, rfl, rfl⟩, fun history entry hentry => ?_⟩
  · exact ⟨Nat.two_pow_pos 31, Nat.one_lt_two_pow (by decide)⟩
  · exact ⟨Nat.one_le_two_pow, fun _ _ _ => trivial⟩
  · rw [List.mem_singleton.1 hentry]
    trivial

theorem twoNulls_made : Made (fun _ => 0) (nullsList 2) [.inl .null, .inl .null] := by
  refine ⟨⟨[.add .null, .add .null], _, ?_, ?_, rfl, rfl⟩, fun history entry hentry => ?_⟩
  · exact ⟨Nat.two_pow_pos 31, Nat.one_lt_two_pow (by decide), show 2 < 2 ^ 31 by norm_num⟩
  · refine ⟨Nat.one_le_two_pow, fun next result hnext => ?_⟩
    cases hnext
    exact ⟨show 1 + 1 ≤ 2 ^ 31 by norm_num, fun _ _ _ => trivial⟩
  · simp only [List.mem_cons, List.not_mem_nil, or_false, or_self] at hentry
    rw [hentry]
    trivial

/-- The union of a list of one null with null. -/
theorem oneNull_formsAgree : FormsAgree (fun _ => 0)
    (loneHeap (nullsList 1) [.inl .null] oneNull_made) .or ⟨0, 0⟩ .null := by
  have hstored : Stored (nullsList 1) [.inl .null] :=
    ⟨List.Perm.refl _, rfl, fun hhead => absurd hhead (by decide)⟩
  have hoperands : Operands (loneHeap (nullsList 1) [.inl .null] oneNull_made) ⟨0, 0⟩ (nullsList 1)
      [.inl .null] .null [] :=
    ⟨rfl, hstored, trivial, fun id other hid => by cases hid⟩
  refine (formsAgree_iff _ .or hoperands ?_).2 ⟨?_, ?_, ?_⟩
  · exact show 1 + 1 ≤ 2 ^ 31 by norm_num
  · exact Or.inr (by decide)
  · exact fun id hid => by cases hid
  · refine Or.inl ⟨fun entry hentry => ?_, fun pair hpair => ?_, List.pairwise_singleton _ _⟩
    · rw [List.mem_singleton.1 hentry]
      rfl
    · cases List.mem_singleton.1 hpair

theorem Stored.len_eq (h : Stored list entries) : list.len = entries.length := by
  have hlength := congrArg List.length h.entries
  rwa [List.length_map, List.length_drop, List.length_map] at hlength

/-- With two nulls in the list the union is a list of one, and the compound form leaves both. -/
theorem twoNulls_not_formsAgree : ¬ ∀ (hash : SemanticKey → Nat) (heap : ListHeap hash)
    (operator : SetOperator) (left : ListId) (list : DmList) (right : Value),
    heap.state.list left = some list → Given heap.history right → Readable heap.state right →
      FormsAgree hash heap operator left right := by
  intro hall
  obtain ⟨result, s', copy, s'', list, list', entries, hrun, -, -, hrun', hlist, hstored, hlist',
    hstored'⟩ := hall (fun _ => 0) (loneHeap (nullsList 2) [.inl .null, .inl .null] twoNulls_made)
      .or ⟨0, 0⟩ (nullsList 2) .null rfl trivial (fun id hid => by cases hid)
  obtain ⟨t, hbinary, hone⟩ : ∃ t, Returns (executeListBinaryOperator (fun _ => 0) "|" ⟨0, 0⟩ .null)
      (loneHeap (nullsList 2) [.inl .null, .inl .null] twoNulls_made).state
      (.list ⟨1, 0⟩) t ∧ (t.list ⟨1, 0⟩).map DmList.len = some 1 := ⟨_, rfl, rfl⟩
  obtain ⟨t', hcompound, htwo⟩ : ∃ t, Returns (compoundOnCopy (fun _ => 0) .bitOr ⟨0, 0⟩ .null)
      (loneHeap (nullsList 2) [.inl .null, .inl .null] twoNulls_made).state
      (.list ⟨1, 0⟩) t ∧ (t.list ⟨1, 0⟩).map DmList.len = some 2 := ⟨_, rfl, rfl⟩
  obtain ⟨hresult, rfl⟩ := hrun.unique hbinary
  obtain ⟨hcopy, rfl⟩ := hrun'.unique hcompound
  rw [Value.list.injEq] at hresult hcopy
  rw [← hresult, hlist, Option.map_some, Stored.len_eq hstored, Option.some.injEq] at hone
  rw [← hcopy, hlist', Option.map_some, Stored.len_eq hstored', Option.some.injEq] at htwo
  omega

end Dream64.Vm
