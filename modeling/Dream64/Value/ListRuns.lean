import Dream64.Value.ListKeys
import Dream64.Value.ListSubtraction

/-!
# Runs of list operations

Every operation on a list is the one on its sequence, and so are runs of them,
as long as there is room in the order. The entries that were cut off the front
take room as well: a list that is used as a queue may run out of it while its
sequence is short, and an entry of the order is then one for the wrong vector.
-/

namespace Dream64

open DmList Pools ListOrder

variable {hash : SemanticKey → Nat} {list : DmList} {entries : List Entry}

/-! ## Sizes -/

theorem addNulls_spec (h : Represents hash list entries) {count : Nat}
    (hroom : list.order.length + count ≤ 2 ^ 31) : ∃ next, addNulls count list = some next ∧
      Represents hash next (entries ++ List.replicate count (.inl .null)) := by
  induction count generalizing list entries with
  | zero => exact ⟨list, rfl, by rwa [List.replicate_zero, List.append_nil]⟩
  | succ count ih =>
    obtain ⟨added, hadded, hrepresents, hlength, -⟩ := add_spec h (by omega) .null
    obtain ⟨next, hnext, hnextRepresents⟩ := ih hrepresents (by omega)
    refine ⟨next, ?_, ?_⟩
    · rw [addNulls, hadded]
      exact hnext
    · rwa [List.append_assoc, List.singleton_append, ← List.replicate_succ] at hnextRepresents

theorem checkedBoundary_succ {place len : Nat} (h : place ≤ len) :
    checkedBoundary (place + 1) len = .ok place := by
  rw [checkedBoundary, if_neg (Nat.succ_ne_zero _), if_neg (by omega), Nat.add_sub_cancel]

theorem Represents.order_length (h : Represents hash list entries) :
    list.order.length = list.prefixHead + entries.length := by
  have hlen := h.len_eq
  rw [DmList.len] at hlen
  rcases h.storage with ⟨slots, hsettled⟩ | hqueued
  · rw [hsettled.head, hsettled.length_eq, Nat.zero_add]
  · have hhead := hqueued.head
    have hlength := hqueued.length_eq
    omega

theorem resize_spec (h : Represents hash list entries) {newLen : Nat}
    (hroom : list.prefixHead + newLen ≤ 2 ^ 31) :
    ∃ next, list.resize hash newLen = some (next, .ok ()) ∧
      Represents hash next (ListSpec.resize entries newLen) := by
  have hbound := h.bound
  have horder := h.order_length
  obtain ⟨grown, hgrown, hrepresents⟩ :=
    @addNulls_spec _ _ _ h (newLen - entries.length) (by omega)
  have hgrownLen := hrepresents.len_eq
  rw [List.length_append, List.length_replicate] at hgrownLen
  rw [DmList.resize, h.len_eq, hgrown, Option.bind_eq_bind, Option.bind_some, hgrownLen,
    ListSpec.resize]
  by_cases hshrink : newLen < entries.length
  · obtain ⟨next, hnext, hcut⟩ :=
      cutRange_spec hrepresents (newLen + 1) (entries.length + (newLen - entries.length) + 1)
    have hzero : newLen - entries.length = 0 := by omega
    have hspec : ListSpec.cutRange (entries ++ List.replicate (newLen - entries.length) (.inl .null))
        (newLen + 1) (entries.length + (newLen - entries.length) + 1) =
        (entries.take newLen, .ok (entries.length + 1 - (newLen + 1))) := by
      rw [hzero, List.replicate_zero, List.append_nil, Nat.add_zero, ListSpec.cutRange,
        checkedBoundary_succ (Nat.le_of_lt hshrink), checkedBoundary_succ (Nat.le_refl _)]
      show (if entries.length + 1 ≤ newLen + 1 then _ else _) = _
      rw [if_neg (by omega), Nat.add_sub_cancel, Nat.add_sub_cancel, Nat.add_zero,
        List.drop_length, List.append_nil]
    rw [hspec] at hnext hcut
    rw [if_pos (by omega), hnext, hzero, List.replicate_zero, List.append_nil]
    exact ⟨next, rfl, hcut⟩
  · rw [if_neg (by omega), List.take_of_length_le (by omega)]
    exact ⟨grown, rfl, hrepresents⟩

/-! ## Garbage collection -/

theorem Represents.invalidate (h : Represents hash list entries) :
    Represents hash list.invalidatePositionalRemoveIndex entries := by
  rcases h.storage with ⟨slots, hsettled⟩ | hqueued
  · exact hsettled.invalidate.represents rfl
  · exact hqueued.invalidate.represents rfl

theorem compactForGc_spec (h : Represents hash list entries) (entryBytes : Nat) (shared : Bool) :
    ∃ next, list.compactForGc entryBytes shared = some next ∧ Represents hash next entries := by
  rw [DmList.compactForGc]
  by_cases hcompact : list.shouldCompactPrefixForGc entryBytes = true
  · rw [if_pos hcompact]
    cases shared with
    | true =>
      have hhead : 1024 ≤ list.prefixHead := by
        have hboth := Bool.and_eq_true_iff.1 hcompact
        exact of_decide_eq_true hboth.1
      rcases h.storage with ⟨slots, hsettled⟩ | hqueued
      · have hzero := hsettled.head
        omega
      · have hle := hqueued.head
        have hbound := hqueued.bound
        have hlength := hqueued.length_eq
        have hshort : (list.positional.drop list.prefixHead).length ≤ 2 ^ 31 := by
          rw [List.length_drop]
          omega
        obtain ⟨made, hmade, hare⟩ := 
          @ListOrder.are_range' 0 (list.positional.drop list.prefixHead).length (by omega)
        rw [← List.range_eq_range'] at hmade hare
        have hnext : Queued ⟨list.positional.drop list.prefixHead, [], made, none, none, 0⟩
            entries := by
          refine ⟨rfl, rfl, hare, Nat.zero_le _, hqueued.entries, ?_⟩
          show made.length ≤ 2 ^ 31
          rwa [hare.length_eq, List.length_map, List.length_range]
        simp only [if_true, if_neg (Nat.not_lt.2 hle), hmade]
        exact ⟨_, rfl, hnext.represents rfl⟩
    | false =>
      obtain ⟨settled, slots, hmaterialize, hsettled, -, -⟩ := materializePrefix_spec h
      rw [hmaterialize]
      exact ⟨_, rfl, hsettled.invalidate.represents rfl⟩
  · rw [if_neg hcompact]
    cases shared with
    | true => exact ⟨list, rfl, h⟩
    | false => exact ⟨_, rfl, h.invalidate⟩

/-! ## Steps -/

/-- The order has room for the entries that are added behind a removed prefix. -/
def ListOp.HasRoom (list : DmList) : ListOp → Prop
  | .add _ => list.order.length + 1 ≤ 2 ^ 31
  | .extendPositional values => list.order.length + values.length ≤ 2 ^ 31
  | .resize newLen => list.prefixHead + newLen ≤ 2 ^ 31
  | _ => True

theorem step_refines (h : Represents hash list entries) {op : ListOp} (hroom : op.HasRoom list)
    (hbelow : (op.spec entries).1.length < 2 ^ 31) :
    ∃ next, op.apply hash list = some (next, (op.spec entries).2) ∧
      Represents hash next (op.spec entries).1 := by
  have hmap {α : Type} {run : Option (DmList × α)} {result : α} {after : List Entry}
      {f : α → ListResult} (hrun : ∃ next, run = some (next, result) ∧ Represents hash next after) :
      ∃ next, run.map (fun r => (r.1, f r.2)) = some (next, f result) ∧
        Represents hash next after := by
    obtain ⟨next, hnext, hrepresents⟩ := hrun
    exact ⟨next, by rw [hnext]; rfl, hrepresents⟩
  have hle := Nat.le_of_lt hbelow
  cases op with
  | add value =>
    obtain ⟨next, hnext, hrepresents, -⟩ := add_spec h hroom value
    exact hmap ⟨next, hnext, hrepresents⟩
  | extendPositional values =>
    obtain ⟨next, hnext, hrepresents, -⟩ := extendPositional_spec h hroom
    exact hmap ⟨next, hnext, hrepresents⟩
  | set index value => exact hmap (set_spec h index value)
  | remove index => exact hmap (remove_spec h index)
  | removeFirst value => exact hmap (removeFirst_spec h value)
  | removeLast value => exact hmap (removeLast_spec h value)
  | insert index value => exact hmap (insert_spec h index value hle)
  | cutRange start stop => exact hmap (cutRange_spec h start stop)
  | subtractEntries values => exact hmap (subtractEntries_spec h values)
  | swap first second => exact hmap (swap_spec h first second)
  | resize newLen => exact hmap (resize_spec h hroom)
  | setKey key value => exact hmap (setKey_spec h key value hle)
  | removeKey key => exact hmap (removeKey_spec h key)
  | compactForGc entryBytes shared =>
    obtain ⟨next, hnext, hrepresents⟩ := compactForGc_spec h entryBytes shared
    exact ⟨next, by rw [ListOp.apply, hnext]; rfl, hrepresents⟩

/-! ## Runs -/

/-- What the storage says: the live part of the order has every live slot of both vectors once, the
entries at these slots are the sequence, and behind a removed prefix there are only values in their
own order. -/
structure Stored (list : DmList) (entries : List Entry) : Prop where
  slots : ((list.order.drop list.prefixHead).map slot).Perm
    ((List.range' list.prefixHead (list.positional.length - list.prefixHead)).map .inl ++
      (List.range list.associative.length).map .inr)
  entries : (list.order.drop list.prefixHead).map
    (fun entry => lookup list.positional list.associative entry.slot) = entries.map some
  removed : 0 < list.prefixHead → list.associative = [] ∧
    ∀ (place : Nat) (entry : ListOrder), list.order[place]? = some entry →
      entry.positionalIndex = some place

theorem Represents.stored (h : Represents hash list entries) : Stored list entries := by
  refine ⟨?_, h.reads, fun hhead => ?_⟩
  · rcases h.storage with ⟨slots, hsettled⟩ | hqueued
    · rw [hsettled.head, List.drop_zero, hsettled.order.2, Nat.sub_zero, ← List.range_eq_range']
      exact hsettled.holds.perm
    · have hdrop := (hqueued.order.drop list.prefixHead).2
      rw [← List.map_drop, List.range_eq_range', List.drop_range', Nat.zero_add, Nat.mul_one] at hdrop
      rw [hdrop, hqueued.associative]
      exact List.Perm.of_eq (List.append_nil _).symm
  · rcases h.storage with ⟨slots, hsettled⟩ | hqueued
    · have hzero := hsettled.head
      omega
    · refine ⟨hqueued.associative, fun place entry hentry => ?_⟩
      have hslot := congrArg (fun slots : List Slot => slots[place]?) hqueued.order.2
      have hlt := (List.getElem?_eq_some_iff.1 hentry).1
      rw [hqueued.length_eq] at hlt
      rw [List.getElem?_map, hentry, List.getElem?_map, List.getElem?_range hlt, Option.map_some,
        Option.map_some, Option.some.injEq] at hslot
      exact (positionalIndex_eq (hqueued.order.1 entry (List.mem_of_getElem? hentry))).2 hslot

/-- The sequence never has so many entries. -/
def StaysBelow (bound : Nat) : List Entry → List ListOp → Prop
  | entries, [] => entries.length < bound
  | entries, op :: ops => entries.length < bound ∧ StaysBelow bound (op.spec entries).1 ops

/-- Every operation of a run has room. -/
def RunHasRoom (hash : SemanticKey → Nat) : DmList → List ListOp → Prop
  | _, [] => True
  | list, op :: ops => op.HasRoom list ∧
    ∀ next result, op.apply hash list = some (next, result) → RunHasRoom hash next ops

/-- A run does not panic, it gives what the sequence gives, and it stores the sequence. -/
def Refines (hash : SemanticKey → Nat) (list : DmList) (entries : List Entry) (ops : List ListOp) :
    Prop :=
  ∃ next, runList hash list ops = some (next, (specList entries ops).2) ∧
    Stored next (specList entries ops).1

theorem StaysBelow.head {bound : Nat} {ops : List ListOp} (h : StaysBelow bound entries ops) :
    entries.length < bound := by
  cases ops with
  | nil => exact h
  | cons op ops => exact h.1

theorem Represents.run (h : Represents hash list entries) {ops : List ListOp}
    (hbelow : StaysBelow (2 ^ 31) entries ops) (hroom : RunHasRoom hash list ops) :
    Refines hash list entries ops := by
  induction ops generalizing list entries with
  | nil => exact ⟨list, rfl, h.stored⟩
  | cons op ops ih =>
    obtain ⟨-, hrest⟩ := hbelow
    obtain ⟨next, hnext, hrepresents⟩ := step_refines h hroom.1 hrest.head
    obtain ⟨last, hlast, hstored⟩ := ih hrepresents hrest (hroom.2 next _ hnext)
    refine ⟨last, ?_, hstored⟩
    rw [runList, hnext]
    show (runList hash next ops).bind _ = _
    rw [hlast]
    rfl

/-- A run from the empty list refines the sequence. -/
theorem runList_refines (hash : SemanticKey → Nat) (ops : List ListOp)
    (hbelow : StaysBelow (2 ^ 31) [] ops) (hroom : RunHasRoom hash DmList.empty ops) :
    Refines hash DmList.empty [] ops :=
  empty_represents.run hbelow hroom

/-- A value that becomes a key, and an equal value that goes. -/
def promotedKey : List ListOp := [.add .null, .setKey .null .null, .add .null, .removeLast .null]

theorem promotedKey_refines : Refines (fun _ => 0) DmList.empty [] promotedKey ∧
    (specList [] promotedKey).1 = [.inr (.null, .null)] := by
  have hbelow : StaysBelow (2 ^ 31) [] promotedKey :=
    ⟨Nat.two_pow_pos 31, Nat.one_lt_two_pow (by decide), Nat.one_lt_two_pow (by decide),
      show 2 < 2 ^ 31 by norm_num, Nat.one_lt_two_pow (by decide)⟩
  refine ⟨runList_refines _ _ hbelow ⟨Nat.one_le_two_pow, fun next result hnext => ?_⟩, rfl⟩
  cases hnext
  refine ⟨trivial, fun next result hnext => ?_⟩
  cases hnext
  refine ⟨show 1 + 1 ≤ 2 ^ 31 by norm_num, fun next result hnext => ?_⟩
  cases hnext
  exact ⟨trivial, fun _ _ _ => trivial⟩

/-! ## A queue -/

/-- Two values with a removed prefix before them. -/
def queueAt (head : Nat) : DmList :=
  ⟨List.replicate (head + 2) .null, [], (List.range (head + 2)).map ListOrder.mk, none, none, head⟩

/-- One value leaves the queue and another one joins it, so many times. -/
def drain : Nat → List ListOp → List ListOp
  | 0, ops => ops
  | count + 1, ops => .cutRange 1 2 :: .add .null :: drain count ops

theorem queueAt_cut (hash : SemanticKey → Nat) (head : Nat) :
    (queueAt head).cutRange hash 1 2 =
      some ({ queueAt head with prefixHead := head + 1 }, .ok 1) := by
  have hlen : (queueAt head).len = 2 := by
    show ((List.range (head + 2)).map ListOrder.mk).length - head = 2
    rw [List.length_map, List.length_range]
    omega
  have hfront : 1 = 1 ∧ (queueAt head).associative.isEmpty ∧ (0 < (queueAt head).prefixHead ∨
      (queueAt head).order.zipIdx.all fun entry => entry.1.positionalIndex == some entry.2) := by
    refine ⟨rfl, rfl, ?_⟩
    cases head with
    | zero => exact Or.inr (by decide)
    | succ head => exact Or.inl (Nat.succ_pos head)
  rw [DmList.cutRange, hlen]
  show (if 2 ≤ 1 then _ else if 1 = 1 ∧ 2 = 2 + 1 then _ else _) = _
  rw [if_neg (by decide), if_neg (by decide), if_pos hfront]
  rfl

theorem queueAt_add {head : Nat} (h : head + 2 < 2 ^ 32) :
    ({ queueAt head with prefixHead := head + 1 } : DmList).add .null =
      some (queueAt (head + 1), 2) := by
  have hlength : (queueAt head).positional.length = head + 2 := List.length_replicate
  rw [DmList.add]
  show (ListOrder.positional (queueAt head).positional.length).bind _ = _
  rw [hlength, ListOrder.positional, if_pos h, Option.bind_some]
  have hpositional : List.replicate (head + 2) Value.null ++ [.null] =
      List.replicate (head + 3) .null := List.replicate_succ'.symm
  have horder : (List.range (head + 2)).map ListOrder.mk ++ [ListOrder.mk (head + 2)] =
      (List.range (head + 3)).map ListOrder.mk := by
    rw [List.range_succ (n := head + 2), List.map_append]
    rfl
  show some ((⟨List.replicate (head + 2) Value.null ++ [.null], [],
    (List.range (head + 2)).map ListOrder.mk ++ [ListOrder.mk (head + 2)], none, none, head + 1⟩ : DmList),
    ((List.range (head + 2)).map ListOrder.mk ++ [ListOrder.mk (head + 2)]).length - (head + 1)) = _
  rw [hpositional, horder, List.length_map, List.length_range,
    show head + 3 - (head + 1) = 2 by omega]
  rfl

theorem queueAt_drain (hash : SemanticKey → Nat) {head count : Nat} {ops : List ListOp}
    (h : head + count + 1 < 2 ^ 32) (hpanic : runList hash (queueAt (head + count)) ops = none) :
    runList hash (queueAt head) (drain count ops) = none := by
  induction count generalizing head with
  | zero => exact hpanic
  | succ count ih =>
    have hrest := @ih (head + 1) (by omega)
      (by rwa [show head + 1 + count = head + (count + 1) by omega])
    rw [drain, runList, ListOp.apply, queueAt_cut]
    show (runList hash _ (.add .null :: drain count ops)).bind _ = none
    rw [runList, ListOp.apply, queueAt_add (by omega)]
    show ((runList hash (queueAt (head + 1)) (drain count ops)).bind _).bind _ = none
    rw [hrest]
    rfl

theorem drain_staysBelow {count : Nat} {ops : List ListOp}
    (h : StaysBelow (2 ^ 31) [.inl .null, .inl .null] ops) :
    StaysBelow (2 ^ 31) [.inl .null, .inl .null] (drain count ops) := by
  induction count with
  | zero => exact h
  | succ count ih =>
    have hone : 1 < 2 ^ 31 := by decide
    have htwo : 2 < 2 ^ 31 := by decide
    exact ⟨htwo, hone, ih⟩

/-- The entry for the index 2^31 is not one for a value, and the list cannot be settled. -/
theorem queueAt_insert {head : Nat} (h : head + 1 = 2 ^ 31) :
    (queueAt head).insert 1 .null = none := by
  have hdrop : (queueAt head).order.drop head = [⟨head⟩, ⟨head + 1⟩] := by
    show ((List.range (head + 2)).map ListOrder.mk).drop head = _
    rw [← List.map_drop, List.range_eq_range', List.drop_range', Nat.zero_add, Nat.mul_one,
      Nat.add_sub_cancel_left]
    rfl
  have hlength : ¬((queueAt head).positional.length < head ∨ (queueAt head).order.length < head) := by
    show ¬((List.replicate (head + 2) Value.null).length < head ∨
      ((List.range (head + 2)).map ListOrder.mk).length < head)
    rw [List.length_replicate, List.length_map, List.length_range]
    omega
  have hbits : (ListOrder.mk (head + 1)).positionalIndex = none := by
    rw [h]
    decide
  have hmaterialize : (queueAt head).materializePrefix = none := by
    have hhead : (queueAt head).prefixHead = head := rfl
    rw [DmList.materializePrefix, hhead, if_neg (by omega), if_neg hlength, hdrop, List.mapM_cons,
      List.mapM_cons, hbits]
    cases (ListOrder.mk head).positionalIndex with
    | none => rfl
    | some index =>
      show (Option.bind ((checkedSub index head).bind ListOrder.positional) _).bind _ = none
      cases (checkedSub index head).bind ListOrder.positional <;> rfl
  rw [DmList.insert, hmaterialize]
  rfl

/-- A queue of at most two values for which the order has no more room. -/
theorem longQueue_not_refines : ¬ ∃ hash : SemanticKey → Nat, ∀ ops : List ListOp,
    StaysBelow (2 ^ 31) [] ops → Refines hash DmList.empty [] ops := by
  rintro ⟨hash, hall⟩
  obtain ⟨count, hcount⟩ : ∃ count, count + 1 = 2 ^ 31 := ⟨2 ^ 31 - 1, by omega⟩
  have hsmall (length : Nat) (hlength : length ≤ 3) : length < 2 ^ 31 := by omega
  have hqueue : StaysBelow (2 ^ 31) [.inl .null, .inl .null] [.insert 1 .null] :=
    ⟨hsmall 2 (by omega), hsmall 3 (by omega)⟩
  obtain ⟨next, hnext, -⟩ := hall (.add .null :: .add .null :: drain count [.insert 1 .null])
    ⟨hsmall 0 (by omega), hsmall 1 (by omega), drain_staysBelow hqueue⟩
  have hpanic : runList hash (queueAt 0) (drain count [.insert 1 .null]) = none := by
    refine queueAt_drain hash (by omega) ?_
    rw [Nat.zero_add, runList, ListOp.apply, queueAt_insert hcount]
    rfl
  have hrun : runList hash DmList.empty
      (.add .null :: .add .null :: drain count [.insert 1 .null]) = none := by
    show ((runList hash (queueAt 0) (drain count [.insert 1 .null])).bind _).bind _ = none
    rw [hpanic]
    rfl
  rw [hrun] at hnext
  cases hnext

end Dream64
