import Dream64.Vm.ListOperatorSpec

/-!
# Both forms of the list operators

`a + b`, `a - b` and `a & b` are the compound form on a copy of `a`, so they
agree with it always. `a | b` and `a ^ b` build their result from an empty list,
so they agree exactly if the entries of `a` that stay are tidy.
-/

namespace Dream64.Vm

open Fallible.Stateful

variable {hash : SemanticKey → Nat} {s s' s'' : ListState} {history : ArenaHistory DmList}
  {id left : ListId} {list next : DmList} {entries : List Entry} {head : Nat}

/-! ## The heap -/

def ListState.Sound (s : ListState) (history : ArenaHistory DmList) : Prop :=
  ArenaInv s.lists history

theorem ListState.Sound.list_eq (h : s.Sound history) (id : ListId) :
    s.list id = history.records id.handle := by
  rw [ListState.list, h.valid.get_eq, h.ids.resolves]

attribute [ext] ListId

theorem ListId.handle_inj {one other : ListId} (h : one.handle = other.handle) : one = other := by
  rw [ListId.handle, ListId.handle, Prod.mk.injEq] at h
  exact ListId.ext h.1 h.2

/-- Only one list may be different, and it is a list still. -/
structure Differs (s s' : ListState) (id : ListId) : Prop where
  sound : ∃ history, s'.Sound history
  others : ∀ other, other ≠ id → s'.list other = s.list other
  listed : (s'.list id).isSome = (s.list id).isSome
  liveDatum : s'.liveDatum = s.liveDatum
  associativeLists : s'.associativeLists = s.associativeLists

theorem Differs.refl (h : s.Sound history) (id : ListId) : Differs s s id :=
  ⟨⟨history, h⟩, fun _ _ => rfl, rfl, rfl, rfl⟩

theorem Differs.trans (h : Differs s s' id) (h' : Differs s' s'' id) : Differs s s'' id where
  sound := h'.sound
  others other hother := (h'.others other hother).trans (h.others other hother)
  listed := h'.listed.trans h.listed
  liveDatum := h'.liveDatum.trans h.liveDatum
  associativeLists := h'.associativeLists.trans h.associativeLists

theorem Differs.isLive (h : Differs s s' id) : s'.isLive = s.isLive := by
  funext value
  cases value with
  | datum datum =>
    show s'.liveDatum datum = s.liveDatum datum
    rw [h.liveDatum]
  | list other =>
    show (s'.list other).isSome = (s.list other).isSome
    by_cases hother : other = id
    · rw [hother, h.listed]
    · rw [h.others other hother]
  | _ => rfl

theorem ListState.Sound.write (h : s.Sound history) (hlist : s.list id = some list)
    (next : DmList) : Differs s (s.write id next) id ∧ (s.write id next).list id = some next := by
  have hsound : (s.write id next).Sound (history.update id.handle fun _ => next) :=
    h.update id.handle fun _ => next
  have hrecord : history.records id.handle = some list := by rw [← h.list_eq, hlist]
  have hnext : (s.write id next).list id = some next := by
    rw [hsound.list_eq, ArenaHistory.update, hrecord]
    exact Function.update_self ..
  refine ⟨⟨⟨_, hsound⟩, fun other hother => ?_, ?_, rfl, rfl⟩, hnext⟩
  · rw [hsound.list_eq, h.list_eq]
    exact Function.update_of_ne (fun heq => hother (ListId.handle_inj heq)) ..
  · rw [hnext, hlist]
    rfl

/-- A list of the heap stands for a sequence; its removed prefix is bounded. -/
def Holds (hash : SemanticKey → Nat) (s : ListState) (id : ListId) (entries : List Entry)
    (head : Nat) : Prop :=
  ∃ list, s.list id = some list ∧ Represents hash list entries ∧ list.prefixHead ≤ head

theorem Holds.congr (h : Holds hash s id entries head) (hsame : s'.list id = s.list id) :
    Holds hash s' id entries head := by
  obtain ⟨list, hlist, hrest⟩ := h
  exact ⟨list, hsame.trans hlist, hrest⟩

theorem returns_heapList (h : s.list id = some list) : Returns (heapList id) s list s :=
  @Returns.expect _ _ _ s list (fun state => state.list id) h _

theorem returns_listMut {α : Type} {change : DmList → Option (DmList × α)} {result : α}
    (hlist : s.list id = some list) (hchange : change list = some (next, result)) :
    Returns (listMut id change) s result (s.write id next) := by
  have hunwrap : Returns (unwrap (change list) : ListRun _) s (next, result) s := by
    rw [hchange]
    exact Returns.unwrap s (next, result)
  exact (returns_heapList hlist).bind (hunwrap.bind ((Returns.update s _).bind (Returns.pure _ _)))

/-! ## Entries -/

theorem returns_snapshot (h : Holds hash s id entries head) :
    Returns (listOperatorSnapshot hash id) s (snapshot s.isLive entries) s := by
  obtain ⟨list, hlist, hrepresents, -⟩ := h
  have hkeys : Returns (unwrap list.positions : ListRun _) s (entries.map Entry.key) s := by
    rw [positions_spec hrepresents]
    exact Returns.unwrap s _
  have hitems : (((entries.map Entry.key).filter s.isLive).map fun key =>
      (⟨key, (list.getKey hash key).toOption⟩ : ListOperatorEntry)) =
        snapshot s.isLive entries := by
    refine List.map_congr_left fun key _ => ?_
    rw [getKey_spec hrepresents]
    rfl
  rw [← hitems]
  exact (returns_heapList hlist).bind (hkeys.bind ((Returns.read s _).bind (Returns.pure _ _)))

theorem length_putEntry_le (entries : List Entry) (item : ListOperatorEntry) :
    (putEntry entries item).length ≤ entries.length + 1 := by
  rw [putEntry]
  cases item.associated with
  | none => exact List.length_append.le
  | some value => exact ListSpec.length_setKey_le entries item.key value

theorem length_addEntry_le (guarded : Bool) (entries : List Entry) (item : ListOperatorEntry) :
    (addEntry guarded entries item).length ≤ entries.length + 1 := by
  rw [addEntry]
  split
  · exact Nat.le_succ _
  · exact length_putEntry_le entries item

theorem returns_putOperatorEntry (hs : s.Sound history) (h : Holds hash s id entries head)
    (hroom : head + entries.length + 1 ≤ 2 ^ 31) (item : ListOperatorEntry) :
    ∃ s', Returns (putOperatorEntry hash id item) s () s' ∧ Differs s s' id ∧
      Holds hash s' id (putEntry entries item) head := by
  obtain ⟨list, hlist, hrepresents, hhead⟩ := h
  rw [putOperatorEntry, putEntry]
  cases item.associated with
  | some value =>
    have hlength := ListSpec.length_setKey_le entries item.key value
    obtain ⟨next, hnext, hrest⟩ := setKey_spec hrepresents item.key value (by omega)
    obtain ⟨hdiffers, hwritten⟩ := hs.write hlist next
    refine ⟨_, (returns_listMut hlist hnext).bind (Returns.pure _ _), hdiffers, next, hwritten,
      hrest, ?_⟩
    rw [setKey_head hnext]
    exact Nat.zero_le _
  | none =>
    have horder := hrepresents.order_length
    obtain ⟨next, hnext, hrest, -, hsame⟩ := add_spec hrepresents (by omega) item.key
    obtain ⟨hdiffers, hwritten⟩ := hs.write hlist next
    refine ⟨_, (returns_listMut hlist hnext).bind (Returns.pure _ _), hdiffers, next, hwritten,
      hrest, ?_⟩
    rw [hsame]
    exact hhead

theorem returns_addOperatorEntry (hs : s.Sound history) (h : Holds hash s id entries head)
    (hroom : head + entries.length + 1 ≤ 2 ^ 31) (item : ListOperatorEntry) (onlyIfAbsent : Bool) :
    ∃ s', Returns (addOperatorEntry hash id item onlyIfAbsent) s () s' ∧ Differs s s' id ∧
      Holds hash s' id (addEntry (onlyIfAbsent || s.associativeLists id) entries item) head := by
  obtain ⟨list, hlist, hrepresents, hhead⟩ := h
  have hstart {s' : ListState}
      (hnext : Returns (if (onlyIfAbsent || s.associativeLists id) &&
        list.contains hash item.key then pure () else putOperatorEntry hash id item) s () s') :
      Returns (addOperatorEntry hash id item onlyIfAbsent) s () s' :=
    (Returns.read s _).bind ((returns_heapList hlist).bind hnext)
  rw [contains_spec hrepresents] at hstart
  rw [addEntry]
  split
  · rename_i hcontains
    rw [if_pos hcontains] at hstart
    exact ⟨s, hstart (Returns.pure _ _), .refl hs id, list, hlist, hrepresents, hhead⟩
  · rename_i hcontains
    rw [if_neg hcontains] at hstart
    obtain ⟨s', hreturns, hdiffers, hholds⟩ :=
      returns_putOperatorEntry hs ⟨list, hlist, hrepresents, hhead⟩ hroom item
    exact ⟨s', hstart hreturns, hdiffers, hholds⟩

theorem returns_forM_nil (body : ListOperatorEntry → ListRun Unit) (s : ListState) :
    Returns (([] : List ListOperatorEntry).forM body) s () s := rfl

theorem returns_forM_cons {body : ListOperatorEntry → ListRun Unit} {item : ListOperatorEntry}
    {items : List ListOperatorEntry} (hfirst : Returns (body item) s () s')
    (hrest : Returns (items.forM body) s' () s'') :
    Returns ((item :: items).forM body) s () s'' := hfirst.bind hrest

theorem returns_addEntries (hs : s.Sound history) (h : Holds hash s id entries head)
    {items : List ListOperatorEntry} (hroom : head + entries.length + items.length ≤ 2 ^ 31)
    (onlyIfAbsent : Bool) :
    ∃ s', Returns (addEntries hash id items onlyIfAbsent) s () s' ∧ Differs s s' id ∧
      Holds hash s' id (items.foldl (addEntry (onlyIfAbsent || s.associativeLists id)) entries)
        head := by
  induction items generalizing s history entries with
  | nil => exact ⟨s, returns_forM_nil _ s, .refl hs id, h⟩
  | cons item items ih =>
    rw [List.length_cons] at hroom
    have hlength := length_addEntry_le (onlyIfAbsent || s.associativeLists id) entries item
    obtain ⟨middle, hfirst, hdiffers, hholds⟩ :=
      returns_addOperatorEntry hs h (by omega) item onlyIfAbsent
    obtain ⟨later, hsound⟩ := hdiffers.sound
    obtain ⟨s', hrest, hmore, hlast⟩ := ih hsound hholds (by omega)
    rw [hdiffers.associativeLists] at hlast
    exact ⟨s', returns_forM_cons hfirst hrest, hdiffers.trans hmore, hlast⟩

theorem returns_removeAll (hs : s.Sound history) (h : Holds hash s id entries head)
    (value : Value) : ∃ count s', Returns (removeAllOperatorMatches hash id value) s count s' ∧
      Differs s s' id ∧ Holds hash s' id (ListSpec.removeAll entries value) head := by
  obtain ⟨list, hlist, hrepresents, hhead⟩ := h
  have horder := hrepresents.order_length
  obtain ⟨next, count, hnext, hrest, hzero⟩ := @removeAll_spec _ _ _ hrepresents value
    (list.order.length + 1) (by omega)
  obtain ⟨hdiffers, hwritten⟩ := hs.write hlist next
  refine ⟨count, _, returns_listMut hlist hnext, hdiffers, next, hwritten, hrest, ?_⟩
  rw [hzero]
  exact Nat.zero_le _

theorem length_removeAll_le (entries : List Entry) (value : Value) :
    (ListSpec.removeAll entries value).length ≤ entries.length := List.length_filter_le _ _

theorem returns_removeUnmatched (hs : s.Sound history) (h : Holds hash s id entries head)
    (right items : List ListOperatorEntry) :
    ∃ s', Returns (removeUnmatched hash id right items) s () s' ∧ Differs s s' id ∧
      Holds hash s' id (items.foldl (keepMatched right) entries) head := by
  induction items generalizing s history entries with
  | nil => exact ⟨s, returns_forM_nil _ s, .refl hs id, h⟩
  | cons item items ih =>
    have hturn : ∃ s', Returns (if hasKey right item.key then pure () else do
          let _ ← removeAllOperatorMatches hash id item.key
          pure ()) s () s' ∧ Differs s s' id ∧
        Holds hash s' id (keepMatched right entries item) head := by
      rw [keepMatched]
      split
      · exact ⟨s, Returns.pure _ _, .refl hs id, h⟩
      · obtain ⟨count, s', hremoved, hdiffers, hholds⟩ := returns_removeAll hs h item.key
        exact ⟨s', hremoved.bind (Returns.pure _ _), hdiffers, hholds⟩
    obtain ⟨middle, hfirst, hdiffers, hholds⟩ := hturn
    obtain ⟨later, hsound⟩ := hdiffers.sound
    obtain ⟨s', hrest, hmore, hlast⟩ := ih hsound hholds
    exact ⟨s', returns_forM_cons hfirst hrest, hdiffers.trans hmore, hlast⟩

theorem returns_exchangeEntries (hs : s.Sound history) (h : Holds hash s id entries head)
    {original items : List ListOperatorEntry}
    (hroom : head + entries.length + items.length ≤ 2 ^ 31) :
    ∃ s', Returns (exchangeEntries hash id original items) s () s' ∧ Differs s s' id ∧
      Holds hash s' id (items.foldl (exchangeEntry original) entries) head := by
  induction items generalizing s history entries with
  | nil => exact ⟨s, returns_forM_nil _ s, .refl hs id, h⟩
  | cons item items ih =>
    rw [List.length_cons] at hroom
    have hturn : ∃ s', Returns (if hasKey original item.key then do
          let _ ← removeAllOperatorMatches hash id item.key
          pure ()
          else addOperatorEntry hash id item true) s () s' ∧ Differs s s' id ∧
        Holds hash s' id (exchangeEntry original entries item) head := by
      rw [exchangeEntry]
      split
      · obtain ⟨count, s', hremoved, hdiffers, hholds⟩ := returns_removeAll hs h item.key
        exact ⟨s', hremoved.bind (Returns.pure _ _), hdiffers, hholds⟩
      · exact returns_addOperatorEntry hs h (by omega) item true
    have hlength : (exchangeEntry original entries item).length ≤ entries.length + 1 := by
      rw [exchangeEntry]
      split
      · exact (length_removeAll_le entries item.key).trans (Nat.le_succ _)
      · exact length_addEntry_le true entries item
    obtain ⟨middle, hfirst, hdiffers, hholds⟩ := hturn
    obtain ⟨later, hsound⟩ := hdiffers.sound
    obtain ⟨s', hrest, hmore, hlast⟩ := ih hsound hholds (by omega)
    exact ⟨s', returns_forM_cons hfirst hrest, hdiffers.trans hmore, hlast⟩

theorem returns_subtractKeys (hs : s.Sound history) (h : Holds hash s id entries head)
    (keys : List Value) : ∃ s', Returns (subtractKeys hash id keys) s () s' ∧ Differs s s' id ∧
      ∃ head, Holds hash s' id (ListSpec.subtractEntries entries keys).1 head := by
  obtain ⟨list, hlist, hrepresents, -⟩ := h
  obtain ⟨next, hnext, hrest⟩ := subtractEntries_spec hrepresents keys
  obtain ⟨hdiffers, hwritten⟩ := hs.write hlist next
  exact ⟨_, (returns_listMut hlist hnext).bind (Returns.pure _ _), hdiffers, _, next, hwritten,
    hrest, Nat.le_refl _⟩

/-! ## New lists -/

/-- The arena has a slot for a new list. -/
def HasSlot (s : ListState) : Prop := s.lists.free ≠ [] ∨ s.lists.slotLen < 2 ^ 32

/-- A list that no handle was for, and nothing else that is different. -/
structure Allocates (s s' : ListState) (history : ArenaHistory DmList) (id : ListId)
    (list : DmList) : Prop where
  sound : ∃ history, s'.Sound history
  fresh : id.handle ∉ history.returned
  absent : s.list id = none
  list : s'.list id = some list
  others : ∀ other, other ≠ id → s'.list other = s.list other
  liveDatum : s'.liveDatum = s.liveDatum

theorem exists_insert (hs : s.Sound history) (hslot : HasSlot s) (list : DmList) :
    ∃ lists handle, s.lists.insert list = some (lists, handle) := by
  rw [Arena.insert]
  cases hfree : s.lists.free.getLast? with
  | some index =>
    obtain ⟨slot, hget, -⟩ := (hs.ids.free_iff index).1 (List.mem_of_getLast? hfree)
    rw [← hs.valid.slot_eq] at hget
    simp only [hget, Option.bind_eq_bind, Option.bind_some]
    exact ⟨_, _, rfl⟩
  | none =>
    rcases hslot with hfreeList | hlen
    · exact absurd (List.getLast?_eq_none_iff.1 hfree) hfreeList
    · exact ⟨_, _, if_pos hlen⟩

theorem insert_none (hslot : ¬ HasSlot s) (list : DmList) : s.lists.insert list = none := by
  rw [HasSlot, not_or, not_not] at hslot
  rw [Arena.insert, hslot.1]
  exact if_neg hslot.2

theorem returns_insertList (hs : s.Sound history) (hslot : HasSlot s) (list : DmList) :
    ∃ id s', Returns (insertList list) s id s' ∧ Allocates s s' history id list := by
  obtain ⟨lists, handle, hinsert⟩ := exists_insert hs hslot list
  have hsound : ListState.Sound { s with lists := lists } (history.allocate handle list) :=
    ArenaInv.insert hs hinsert
  have hfresh : handle ∉ history.returned := by
    have hnodup := hsound.ids.nodup
    rw [ArenaHistory.allocate, List.nodup_append] at hnodup
    exact fun hmem => hnodup.2.2 handle hmem handle (List.mem_singleton_self _) rfl
  refine ⟨.ofHandle handle, { s with lists := lists }, ?_, ⟨_, hsound⟩, hfresh, ?_, ?_, ?_, rfl⟩
  · rw [Returns, insertList, hinsert]
  · rw [hs.list_eq]
    exact hs.ids.records_fresh hfresh
  · rw [hsound.list_eq]
    exact Function.update_self ..
  · intro other hother
    rw [hsound.list_eq, hs.list_eq]
    exact Function.update_of_ne (fun heq => hother (ListId.handle_inj heq)) ..

theorem markLike_list (source result : ListId) (s : ListState) :
    (s.markLike source result).lists = s.lists ∧
      (s.markLike source result).liveDatum = s.liveDatum := by
  rw [ListState.markLike]
  split <;> exact ⟨rfl, rfl⟩

theorem returns_markedLike {allocate : ListRun ListId} (source : ListId)
    (h : Returns allocate s id s') (hallocates : Allocates s s' history id list) :
    ∃ s', Returns (markedLike source allocate) s id s' ∧ Allocates s s' history id list := by
  obtain ⟨hlists, hlive⟩ := markLike_list source id s'
  refine ⟨_, h.bind ((Returns.update s' _).bind (Returns.pure _ _)), ?_, hallocates.fresh,
    hallocates.absent, ?_, fun other hother => ?_, hlive.trans hallocates.liveDatum⟩
  · obtain ⟨later, hsound⟩ := hallocates.sound
    refine ⟨later, ?_⟩
    rw [ListState.Sound, hlists]
    exact hsound
  · rw [ListState.list, hlists]
    exact hallocates.list
  · rw [ListState.list, hlists]
    exact hallocates.others other hother

theorem returns_copyLike (hs : s.Sound history) (hslot : HasSlot s) (hleft : s.list left = some list) :
    ∃ id s', Returns (copyLike left) s id s' ∧ Allocates s s' history id list := by
  obtain ⟨id, s', hinsert, hallocates⟩ := returns_insertList hs hslot list
  obtain ⟨marked, hmarked⟩ :=
    returns_markedLike left ((returns_heapList hleft).bind hinsert) hallocates
  exact ⟨id, marked, hmarked⟩

theorem returns_allocateLike (hs : s.Sound history) (hslot : HasSlot s) (left : ListId) :
    ∃ id s', Returns (allocateLike left) s id s' ∧ Allocates s s' history id .empty := by
  obtain ⟨id, s', hinsert, hallocates⟩ := returns_insertList hs hslot DmList.empty
  obtain ⟨marked, hmarked⟩ := returns_markedLike left hinsert hallocates
  exact ⟨id, marked, hmarked⟩

theorem fails_insertList (hslot : ¬ HasSlot s) (list : DmList) : Fails (insertList list) s := by
  intro id s' hreturns
  rw [Returns, insertList, insert_none hslot] at hreturns
  cases hreturns

theorem fails_copyLike (hslot : ¬ HasSlot s) (hleft : s.list left = some list) :
    Fails (copyLike left) s :=
  ((returns_heapList hleft).bind_fails (fails_insertList hslot list)).bind

/-! ## Liveness -/

theorem liveCongr_isLive (s : ListState) : LiveCongr s.isLive := by
  intro a b h
  cases a with
  | datum id =>
    cases b with
    | datum other =>
      rw [Value.semanticEq, decide_eq_true_eq] at h
      rw [h]
    | _ => simp at h
  | list id =>
    cases b with
    | list other =>
      rw [Value.semanticEq, decide_eq_true_eq] at h
      rw [h]
    | _ => simp at h
  | _ => cases b <;> first | rfl | simp at h

theorem semanticEq_self_of_dead {value : Value} (h : s.isLive value = false) :
    value.semanticEq value = true := by
  cases value with
  | datum id => exact decide_eq_true rfl
  | list id => exact decide_eq_true rfl
  | _ => cases h

/-- A value that is no handle, or a handle that was returned. -/
def Given (history : ArenaHistory DmList) : Value → Prop
  | .list id => id.handle ∈ history.returned
  | _ => True

theorem Allocates.isLive_eq (h : Allocates s s' history id list) {value : Value}
    (hgiven : Given history value) : s'.isLive value = s.isLive value := by
  cases value with
  | datum datum =>
    show s'.liveDatum datum = s.liveDatum datum
    rw [h.liveDatum]
  | list other =>
    have hne : other ≠ id := fun heq => h.fresh (heq ▸ hgiven)
    show (s'.list other).isSome = (s.list other).isSome
    rw [h.others other hne]
  | _ => rfl

/-- What the right operand gives, with the entries it has if it is a list. -/
def rhsItems (live : Value → Bool) (rightEntries : List Entry) : Value → List ListOperatorEntry
  | .list _ => snapshot live rightEntries
  | value => [⟨value, none⟩]

/-- The right operand is no handle of a list that is gone. -/
def Readable (s : ListState) (right : Value) : Prop := ∀ id, right = .list id → s.list id ≠ none

/-- The entries of the right operand, if it is a list. -/
def RightHolds (hash : SemanticKey → Nat) (s : ListState) (right : Value)
    (rightEntries : List Entry) : Prop :=
  ∀ id, right = .list id → ∃ head, Holds hash s id rightEntries head

variable {right : Value} {rightEntries : List Entry}

theorem returns_rhs (h : RightHolds hash s right rightEntries) :
    Returns (operatorRhsEntries hash right) s (rhsItems s.isLive rightEntries right) s := by
  cases right with
  | list id =>
    obtain ⟨head, hholds⟩ := h id rfl
    exact returns_snapshot hholds
  | _ => exact Returns.pure _ _

theorem fails_rhs {right : Value} (h : ¬ Readable s right) :
    Fails (operatorRhsEntries hash right) s := by
  rw [Readable] at h
  push Not at h
  obtain ⟨id, rfl, hnone⟩ := h
  exact (@fails_expect _ _ _ s (fun state : ListState => state.list id) hnone _).bind

variable {live : Value → Bool}

theorem snapshot_congr {live' : Value → Bool}
    (h : ∀ entry ∈ entries, live entry.key = live' entry.key) :
    snapshot live entries = snapshot live' entries := by
  rw [snapshot, snapshot]
  refine congrArg (List.map (snapshotItem entries)) (List.filter_congr fun key hkey => ?_)
  obtain ⟨entry, hentry, rfl⟩ := List.mem_map.1 hkey
  exact h entry hentry

theorem rhsItems_congr {live' : Value → Bool}
    (h : ∀ entry ∈ rightEntries, live entry.key = live' entry.key) (right : Value) :
    rhsItems live rightEntries right = rhsItems live' rightEntries right := by
  cases right with
  | list id => exact snapshot_congr h
  | _ => rfl

/-- The items of a right operand whose own object is not gone are live. -/
theorem rhsItems_live (h : live right = true) :
    ∀ item ∈ rhsItems live rightEntries right, live item.key = true := by
  intro item hitem
  cases right with
  | list id =>
    obtain ⟨key, hkey, rfl⟩ := List.mem_map.1 hitem
    exact (List.mem_filter.1 hkey).2
  | _ =>
    rw [List.mem_singleton.1 hitem]
    exact h

/-! ## The compound form -/

inductive SetOperator where
  | add | subtract | or | and | xor

namespace SetOperator

def symbol : SetOperator → String
  | add => "+"
  | subtract => "-"
  | or => "|"
  | and => "&"
  | xor => "^"

def compound : SetOperator → CompoundAssignmentOperator
  | add => .add
  | subtract => .subtract
  | or => .bitOr
  | and => .bitAnd
  | xor => .bitXor

/-- What the compound form makes of the entries; the flag says whether a key is kept as it is. -/
def compoundEntries (preserve : Bool) (live : Value → Bool) (right : List ListOperatorEntry)
    (entries : List Entry) : SetOperator → List Entry
  | add => right.foldl (addEntry preserve) entries
  | subtract => (ListSpec.subtractEntries entries (right.map ListOperatorEntry.key)).1
  | or => right.foldl (addEntry true) entries
  | and => (snapshot live entries).foldl (keepMatched right) entries
  | xor => right.foldl (exchangeEntry (snapshot live entries)) entries

end SetOperator

theorem returns_compound (operator : SetOperator) (hs : s.Sound history)
    (h : Holds hash s id entries head) (hright : RightHolds hash s right rightEntries)
    (hroom : head + entries.length + (rhsItems s.isLive rightEntries right).length ≤ 2 ^ 31) :
    ∃ s', Returns (executeListCompoundOperator hash operator.compound id right) s (.list id) s' ∧
      Differs s s' id ∧ ∃ head, Holds hash s' id (operator.compoundEntries (s.associativeLists id)
        s.isLive (rhsItems s.isLive rightEntries right) entries) head := by
  have hrhs := returns_rhs hright
  cases operator with
  | add =>
    obtain ⟨s', hadd, hdiffers, hholds⟩ := returns_addEntries hs h hroom false
    exact ⟨s', hrhs.bind (hadd.bind (Returns.pure _ _)), hdiffers, head, hholds⟩
  | subtract =>
    obtain ⟨s', hsubtract, hdiffers, hholds⟩ := returns_subtractKeys hs h
      ((rhsItems s.isLive rightEntries right).map ListOperatorEntry.key)
    exact ⟨s', hrhs.bind (hsubtract.bind (Returns.pure _ _)), hdiffers, hholds⟩
  | or =>
    obtain ⟨s', hadd, hdiffers, hholds⟩ := returns_addEntries hs h hroom true
    exact ⟨s', hrhs.bind (hadd.bind (Returns.pure _ _)), hdiffers, head, hholds⟩
  | and =>
    obtain ⟨s', hremove, hdiffers, hholds⟩ := returns_removeUnmatched hs h
      (rhsItems s.isLive rightEntries right) (snapshot s.isLive entries)
    exact ⟨s', hrhs.bind ((returns_snapshot h).bind (hremove.bind (Returns.pure _ _))), hdiffers,
      head, hholds⟩
  | xor =>
    obtain ⟨s', hexchange, hdiffers, hholds⟩ :=
      @returns_exchangeEntries _ _ _ _ _ _ hs h (snapshot s.isLive entries) _ hroom
    exact ⟨s', hrhs.bind ((returns_snapshot h).bind (hexchange.bind (Returns.pure _ _))), hdiffers,
      head, hholds⟩

theorem fails_compound (operator : SetOperator) (h : ¬ Readable s right) (id : ListId) :
    Fails (executeListCompoundOperator hash operator.compound id right) s := by
  have hrhs := @fails_rhs hash s right h
  cases operator <;> exact hrhs.bind

end Dream64.Vm
