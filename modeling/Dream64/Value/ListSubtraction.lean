import Dream64.Value.RemoveIndex

/-!
# Removing many entries

Entries that go together are flagged by their slots, both vectors keep the rest
in their order, and the order is renumbered. A cut at the front of a list of
values only moves the head. Subtraction takes the entries in one pass, from the
end, that removing the last occurrence of one value after the other takes.
-/

namespace Dream64

open DmList Pools ListOrder

variable {hash : SemanticKey → Nat} {list : DmList} {entries : List Entry} {slots : List Slot}

/-! ## Flags -/

/-- Flags of a pool after the slots of some entries are added to them. -/
def Marks (side : Nat → Slot) (gone : List ListOrder) (flags marked : List Bool) : Prop :=
  marked.length = flags.length ∧ ∀ i < flags.length,
    marked[i]? = some true ↔ flags[i]? = some true ∨ side i ∈ gone.map slot

theorem Marks.cons {side : Nat → Slot} {entry : ListOrder} {gone : List ListOrder}
    {flags marked : List Bool} (hne : ∀ i, side i ≠ entry.slot) (h : Marks side gone flags marked) :
    Marks side (entry :: gone) flags marked := by
  refine ⟨h.1, fun i hi => ?_⟩
  rw [h.2 i hi, List.map_cons, List.mem_cons]
  constructor
  · exact fun hold => hold.imp_right Or.inr
  · rintro (hold | hnew | hmem)
    · exact Or.inl hold
    · exact absurd hnew (hne i)
    · exact Or.inr hmem

variable {gone : List ListOrder}

theorem Marks.set {side : Nat → Slot} (hinj : Function.Injective side) {entry : ListOrder}
    {flags marked : List Bool} {position : Nat} (hslot : entry.slot = side position)
    (h : Marks side gone (flags.set position true) marked) :
    Marks side (entry :: gone) flags marked := by
  refine ⟨h.1.trans List.length_set, fun i hi => ?_⟩
  rw [h.2 i (by rwa [List.length_set]), List.map_cons, List.mem_cons, hslot, List.getElem?_set]
  by_cases heq : position = i
  · subst heq
    simp [hi]
  · rw [if_neg heq]
    have hne : side i ≠ side position := fun hside => heq (hinj hside).symm
    simp [hne]

theorem markRemoved_spec {gone : List ListOrder} {flags : List Bool × List Bool}
    (hleft : ∀ position, .inl position ∈ gone.map slot → position < flags.1.length)
    (hright : ∀ association, .inr association ∈ gone.map slot → association < flags.2.length) :
    ∃ marked, markRemoved flags gone = .ok marked ∧ Marks .inl gone flags.1 marked.1 ∧
      Marks .inr gone flags.2 marked.2 := by
  induction gone generalizing flags with
  | nil => exact ⟨flags, rfl, ⟨rfl, fun i _ => by simp⟩, ⟨rfl, fun i _ => by simp⟩⟩
  | cons entry gone ih =>
    rw [List.map_cons] at hleft hright
    rw [markRemoved]
    cases hslot : entry.slot with
    | inl position =>
      have hlt := hleft position (hslot ▸ List.mem_cons_self)
      obtain ⟨marked, hmarked, hmarksLeft, hmarksRight⟩ :=
        @ih (flags.1.set position true, flags.2)
        (fun i hi => by
          rw [List.length_set]
          exact hleft i (List.mem_cons_of_mem _ hi))
        (fun i hi => hright i (List.mem_cons_of_mem _ hi))
      simp only [if_pos hlt]
      exact ⟨marked, hmarked, hmarksLeft.set Sum.inl_injective hslot,
        hmarksRight.cons fun i => hslot ▸ Sum.inr_ne_inl⟩
    | inr association =>
      have hlt := hright association (hslot ▸ List.mem_cons_self)
      obtain ⟨marked, hmarked, hmarksLeft, hmarksRight⟩ :=
        @ih (flags.1, flags.2.set association true)
        (fun i hi => hleft i (List.mem_cons_of_mem _ hi))
        (fun i hi => by
          rw [List.length_set]
          exact hright i (List.mem_cons_of_mem _ hi))
      simp only [if_pos hlt]
      exact ⟨marked, hmarked, hmarksLeft.cons fun i => hslot ▸ Sum.inl_ne_inr,
        hmarksRight.set Sum.inr_injective hslot⟩

theorem Marks.flags {side : Nat → Slot} {count : Nat} {marked : List Bool}
    (h : Marks side gone (List.replicate count false) marked) :
    Flags side (gone.map slot) count marked := by
  obtain ⟨hlength, hmarks⟩ := h
  rw [List.length_replicate] at hlength hmarks
  refine ⟨hlength, fun i hi => ?_⟩
  rw [hmarks i hi, List.getElem?_replicate, if_pos hi]
  simp

theorem rank_le (flags : List Bool) (i : Nat) : rank flags i ≤ i := by
  induction flags generalizing i with
  | nil => exact Nat.zero_le _
  | cons flag flags ih =>
    cases i with
    | zero => cases flag <;> exact Nat.le_refl _
    | succ i =>
      have hle := ih i
      cases flag with
      | true => exact Nat.le_succ_of_le hle
      | false => exact Nat.succ_le_succ hle

/-! ## Dropping slots -/

theorem renumberEntry_is {entry : ListOrder} (hbits : entry.bits < 2 ^ 32)
    {leftFlags rightFlags : List Bool}
    (hleft : ∀ position, entry.slot = .inl position → leftFlags[position]? = some false)
    (hright : ∀ association, entry.slot = .inr association →
      rightFlags[association]? = some false) :
    ∃ made, renumberEntry (renumber maxUsize 0 leftFlags) (renumber maxUsize 0 rightFlags) entry =
      some made ∧ made.Is (rankSlot leftFlags rightFlags entry.slot) := by
  obtain ⟨hpositional, hassociative⟩ := slot_lt_bound hbits
  rw [renumberEntry]
  cases hslot : entry.slot with
  | inl position =>
    have hle := rank_le leftFlags position
    have hlt := hpositional position hslot
    simp only [getElem?_renumber (hleft position hslot), Nat.zero_add, Option.bind_eq_bind,
      Option.bind_some]
    exact positional_is (by omega)
  | inr association =>
    have hle := rank_le rightFlags association
    have hlt := hassociative association hslot
    simp only [getElem?_renumber (hright association hslot), Nat.zero_add, Option.bind_eq_bind,
      Option.bind_some]
    exact associative_is (by omega)

theorem dropSlots_spec (h : Settled hash list slots entries)
    (hnone : list.positionalRemoveIndex = none) {rest : List ListOrder}
    (hperm : (rest ++ gone).Perm list.order) {entries' : List Entry}
    (hreads : OrderReads list rest entries') :
    ∃ next, list.dropSlots hash rest gone = some (.ok next) ∧ Represents hash next entries' := by
  have hslots : (rest.map slot ++ gone.map slot).Perm slots := by
    rw [← List.map_append, ← h.order.2]
    exact hperm.map slot
  have hnodup := List.nodup_append.1 (hslots.nodup_iff.2 h.holds.nodup)
  have hmem (entry : ListOrder) (hentry : entry ∈ rest) : entry ∈ list.order :=
    hperm.mem_iff.1 (List.mem_append_left _ hentry)
  have hgone (slot : Slot) (hslot : slot ∈ gone.map ListOrder.slot) : slot ∈ slots :=
    hslots.mem_iff.1 (List.mem_append_right _ hslot)
  obtain ⟨marked, hmarked, hmarksLeft, hmarksRight⟩ := @markRemoved_spec gone
    (List.replicate list.positional.length false,
      List.replicate list.associative.length false)
    (fun i hi => by rw [List.length_replicate]; exact h.holds.left_lt (hgone _ hi))
    (fun i hi => by rw [List.length_replicate]; exact h.holds.right_lt (hgone _ hi))
  have hleft := hmarksLeft.flags
  have hright := hmarksRight.flags
  have hnot (entry : ListOrder) (hentry : entry ∈ rest) : entry.slot ∉ gone.map slot :=
    fun hin => hnodup.2.2 _ (List.mem_map_of_mem hentry) _ hin rfl
  have hslot (entry : ListOrder) (hentry : entry ∈ rest) : entry.slot ∈ slots := by
    rw [← h.order.2]
    exact List.mem_map_of_mem (hmem entry hentry)
  have hrest : Are rest (rest.map slot) := ⟨fun entry hentry => h.order.1 entry (hmem entry hentry), rfl⟩
  obtain ⟨order, horder, hare⟩ := hrest.mapM
    (f := renumberEntry (renumber maxUsize 0 marked.1) (renumber maxUsize 0 marked.2))
    (g := rankSlot marked.1 marked.2) fun entry hentry =>
      renumberEntry_is (hrest.1 entry hentry)
        (fun position heq => (hleft.eq_false (h.holds.left_lt (heq ▸ hslot entry hentry))).2
          (heq ▸ hnot entry hentry))
        (fun association heq => (hright.eq_false (h.holds.right_lt (heq ▸ hslot entry hentry))).2
          (heq ▸ hnot entry hentry))
  have hlookups : (rest.map slot).map (lookup list.positional list.associative) =
      entries'.map some := by
    rw [List.map_map]
    exact hreads
  have hassociative := kept_sublist list.associative marked.2
  have hpools := h.positional_le
  have hbound := h.bound
  have hshort := hassociative.length_le
  obtain ⟨index, hrebuild, hindex⟩ := @rebuildAssociativeIndex_spec hash
    { list with
      positional := kept list.positional marked.1
      associative := kept list.associative marked.2
      order := order }
    (show (kept list.associative marked.2).length ≤ 2 ^ 31 by omega)
  rw [DmList.dropSlots, hmarked]
  simp only [horder, hrebuild, Option.bind_eq_bind, Option.bind_some]
  refine ⟨_, rfl, Settled.represents ⟨h.head, hare, h.holds.keep hslots hleft hright hlookups,
    h.distinct.sublist hassociative, hindex, ?_⟩ hnone⟩
  show order.length ≤ 2 ^ 31
  have hlength := hperm.length_eq
  rw [List.length_append] at hlength
  rw [hare.length_eq, List.length_map, List.length_map]
  omega

/-! ## Cutting -/

variable {order : List ListOrder}

theorem OrderReads.take (h : OrderReads list order entries) (count : Nat) :
    OrderReads list (order.take count) (entries.take count) := by
  rw [OrderReads, List.map_take, List.map_take, h]

theorem OrderReads.drop (h : OrderReads list order entries) (count : Nat) :
    OrderReads list (order.drop count) (entries.drop count) := by
  rw [OrderReads, List.map_drop, List.map_drop, h]

theorem OrderReads.append {order' : List ListOrder} {entries' : List Entry}
    (h : OrderReads list order entries) (h' : OrderReads list order' entries') :
    OrderReads list (order ++ order') (entries ++ entries') := by
  rw [OrderReads, List.map_append, List.map_append, h, h']

theorem take_drop_perm {α : Type} (values : List α) {start stop : Nat} (h : start ≤ stop) :
    (values.take start ++ values.drop stop ++ (values.take stop).drop start).Perm values := by
  have hmiddle : values.take start ++ (values.take stop).drop start = values.take stop := by
    have htake := List.take_append_drop start (values.take stop)
    rwa [List.take_take, Nat.min_eq_left h] at htake
  have hall : values.take start ++ ((values.take stop).drop start ++ values.drop stop) = values := by
    rw [← List.append_assoc, hmiddle, List.take_append_drop]
  rw [List.append_assoc]
  exact (List.perm_append_comm.append_left _).trans (List.Perm.of_eq hall)

/-- A cut at the front of a list of values. -/
theorem Queued.cut (h : Queued list entries) {count : Nat} (hcount : count ≤ entries.length) :
    Represents hash { list.invalidatePositionalRemoveIndex with
      prefixHead := list.prefixHead + count } (entries.drop count) := by
  have hlength := congrArg List.length h.entries
  rw [List.length_map, List.length_drop] at hlength
  have hhead := h.head
  refine Queued.represents ⟨h.associative, h.index, h.order, ?_, ?_, h.bound⟩ rfl
  · show list.prefixHead + count ≤ list.positional.length
    omega
  · show _ = (list.positional.drop (list.prefixHead + count)).map Sum.inl
    rw [h.entries, ← List.map_drop, List.drop_drop]

theorem Represents.queued_of_cut (h : Represents hash list entries)
    (hnone : list.associative = [])
    (hfront : 0 < list.prefixHead ∨
      (list.order.zipIdx.all fun entry => entry.1.positionalIndex == some entry.2) = true) :
    Queued list entries := by
  rcases h.storage with ⟨slots, hsettled⟩ | hqueued
  · have hhead := hsettled.head
    refine hsettled.queued hnone (hsettled.identity hnone fun place entry hentry => ?_)
    have hall := hfront.resolve_left (by omega)
    have hmem : (entry, place) ∈ list.order.zipIdx := List.mem_zipIdx_iff_getElem?.2 hentry
    exact beq_iff_eq.1 (List.all_eq_true.1 hall (entry, place) hmem)
  · exact hqueued

theorem cutRange_spec (h : Represents hash list entries) (start stop : Nat) :
    ∃ next, list.cutRange hash start stop =
        some (next, (ListSpec.cutRange entries start stop).2) ∧
      Represents hash next (ListSpec.cutRange entries start stop).1 := by
  rw [DmList.cutRange, ListSpec.cutRange, h.len_eq]
  cases hstart : checkedBoundary start entries.length with
  | error error => exact ⟨list, rfl, h⟩
  | ok first =>
    cases hstop : checkedBoundary stop entries.length with
    | error error => exact ⟨list, rfl, h⟩
    | ok last =>
      obtain ⟨hfirst, hfirstEq⟩ := checkedBoundary_ok hstart
      obtain ⟨hlast, hlastEq⟩ := checkedBoundary_ok hstop
      simp only
      by_cases hle : stop ≤ start
      · simp only [if_pos hle]
        exact ⟨list, rfl, h⟩
      · simp only [if_neg hle]
        by_cases hall : start = 1 ∧ stop = entries.length + 1
        · rw [if_pos hall, hall.1, hall.2, Nat.sub_self, List.take_zero, Nat.add_sub_cancel,
            List.drop_length]
          exact ⟨DmList.empty, rfl, empty_represents⟩
        · rw [if_neg hall]
          by_cases hfront : start = 1 ∧ list.associative.isEmpty ∧ (0 < list.prefixHead ∨
              list.order.zipIdx.all fun entry => entry.1.positionalIndex == some entry.2)
          · obtain ⟨rfl, hempty, hfrontOrder⟩ := hfront
            have hqueued := h.queued_of_cut (List.isEmpty_iff.1 hempty) hfrontOrder
            rw [if_pos ⟨rfl, hempty, hfrontOrder⟩, Nat.sub_self, List.take_zero]
            exact ⟨_, rfl, hqueued.cut (show stop - 1 ≤ entries.length by omega)⟩
          · rw [if_neg hfront]
            obtain ⟨settled, slots, hmaterialize, hsettled, -, -⟩ := materializePrefix_spec h
            have hinvalid := hsettled.invalidate
            have hreads := (hinvalid.represents rfl).reads
            rw [hinvalid.head, List.drop_zero] at hreads
            obtain ⟨next, hnext, hrepresents⟩ := dropSlots_spec hinvalid rfl
              (take_drop_perm _ (show start - 1 ≤ stop - 1 by omega))
              ((hreads.take (start - 1)).append (hreads.drop (stop - 1)))
            simp only [hmaterialize, hnext, Option.bind_eq_bind, Option.bind_some]
            exact ⟨next, rfl, hrepresents⟩

/-!
# Subtracting values from a list

The pass of `subtract_entries` over the entries, from the end, wants every
value as often as it was given. What it takes is what removing the last
occurrence of one value after the other takes.
-/

open Demand (flagged)

/-! ## Quotas -/

/-- How many values are still wanted that are equal to this one. -/
def DmList.Quotas.demand (quotas : Quotas) (candidate : Value) : Nat :=
  match semanticKey candidate with
  | some key => quotas.keyed key
  | none => ((quotas.fallback.filter fun entry => candidate.semanticEq entry.1).map (·.2)).sum

variable {a b : Value}

theorem semanticEq_congr_right (h : a.semanticEq b = true) (c : Value) :
    c.semanticEq a = c.semanticEq b :=
  Demand.related_congr Value.semanticEq_symm Value.semanticEq_trans h c

theorem semanticEq_congr_left (h : a.semanticEq b = true) (c : Value) :
    a.semanticEq c = b.semanticEq c :=
  Demand.related_congr_left Value.semanticEq_symm Value.semanticEq_trans h c

/-- Values that are equal have keys, or have none. -/
theorem semanticEq_eq_false {key : SemanticKey} (ha : semanticKey a = none)
    (hb : semanticKey b = some key) : a.semanticEq b = false := by
  refine Bool.eq_false_iff.2 fun heq => ?_
  rw [(semanticEq_iff_key hb).1 (Value.semanticEq_symm _ _ heq)] at ha
  cases ha

theorem addFallback_demand (value candidate : Value) (fallback : List (Value × Nat)) :
    (((addFallback value fallback).filter fun entry => candidate.semanticEq entry.1).map
        (·.2)).sum =
      ((fallback.filter fun entry => candidate.semanticEq entry.1).map (·.2)).sum +
        if candidate.semanticEq value then 1 else 0 := by
  induction fallback with
  | nil =>
    rw [addFallback, List.filter_cons]
    split <;> rfl
  | cons entry fallback ih =>
    rw [addFallback]
    split
    · rename_i heq
      rw [List.filter_cons, List.filter_cons, ← semanticEq_congr_right heq candidate]
      show (List.map _ (if candidate.semanticEq entry.1 = true then _ else _)).sum = _
      by_cases hcandidate : candidate.semanticEq entry.1 = true
      · rw [if_pos hcandidate, if_pos hcandidate, if_pos hcandidate, List.map_cons, List.map_cons,
          List.sum_cons, List.sum_cons]
        omega
      · rw [if_neg hcandidate, if_neg hcandidate, if_neg hcandidate, Nat.add_zero]
    · rw [List.filter_cons, List.filter_cons]
      by_cases hcandidate : candidate.semanticEq entry.1 = true
      · rw [if_pos hcandidate, if_pos hcandidate, List.map_cons, List.map_cons, List.sum_cons,
          List.sum_cons, ih]
        omega
      · rw [if_neg hcandidate, if_neg hcandidate, ih]

theorem DmList.Quotas.add_demand (quotas : Quotas) (value : Value) :
    (quotas.add value).demand = Demand.more Value.semanticEq quotas.demand value := by
  funext candidate
  rw [Demand.more, Quotas.demand, Quotas.demand, Quotas.add]
  cases hvalue : semanticKey value with
  | some key =>
    cases hcandidate : semanticKey candidate with
    | some other =>
      show Function.update quotas.keyed key (quotas.keyed key + 1) other = _
      have hiff := semanticEq_iff_key (b := value) hcandidate
      rw [hvalue, Option.some.injEq] at hiff
      by_cases heq : key = other
      · subst heq
        rw [Function.update_self, if_pos (hiff.2 rfl)]
      · rw [Function.update_of_ne (Ne.symm heq), if_neg fun hsame => heq (hiff.1 hsame)]
        rfl
    | none =>
      show _ = _ + _
      rw [semanticEq_eq_false hcandidate hvalue]
      rfl
  | none =>
    cases hcandidate : semanticKey candidate with
    | some other =>
      have hne : candidate.semanticEq value = false := by
        refine Bool.eq_false_iff.2 fun heq => ?_
        rw [(semanticEq_iff_key hcandidate).1 heq] at hvalue
        cases hvalue
      rw [hne]
      rfl
    | none => exact addFallback_demand value candidate quotas.fallback

/-- One that is equal to the candidate is taken from the first group that has any. -/
theorem takeFallback_demand (candidate : Value) (fallback : List (Value × Nat)) :
    (takeFallback candidate fallback = none ∧
      ((fallback.filter fun entry => candidate.semanticEq entry.1).map (·.2)).sum = 0) ∨
    ∃ rest, takeFallback candidate fallback = some rest ∧
      0 < ((fallback.filter fun entry => candidate.semanticEq entry.1).map (·.2)).sum ∧
      ∀ other : Value, ((rest.filter fun entry => other.semanticEq entry.1).map (·.2)).sum =
        ((fallback.filter fun entry => other.semanticEq entry.1).map (·.2)).sum -
          if other.semanticEq candidate then 1 else 0 := by
  induction fallback with
  | nil => exact Or.inl ⟨rfl, rfl⟩
  | cons entry fallback ih =>
    rw [takeFallback]
    split
    · rename_i htake
      obtain ⟨hpositive, heq⟩ := htake
      refine Or.inr ⟨_, rfl, ?_, fun other => ?_⟩
      · rw [List.filter_cons, if_pos heq, List.map_cons, List.sum_cons]
        omega
      · rw [List.filter_cons, List.filter_cons, semanticEq_congr_right heq other]
        show (List.map _ (if other.semanticEq entry.1 = true then _ else _)).sum = _
        by_cases hother : other.semanticEq entry.1 = true
        · rw [if_pos hother, if_pos hother, if_pos hother, List.map_cons, List.map_cons,
            List.sum_cons, List.sum_cons]
          omega
        · rw [if_neg hother, if_neg hother, if_neg hother, Nat.sub_zero]
    · rename_i htake
      have hzero : candidate.semanticEq entry.1 = true → entry.2 = 0 := fun heq => by
        by_contra hne
        exact htake ⟨Nat.pos_of_ne_zero hne, heq⟩
      have hsum : (((entry :: fallback).filter fun entry => candidate.semanticEq entry.1).map
          (·.2)).sum =
          ((fallback.filter fun entry => candidate.semanticEq entry.1).map (·.2)).sum := by
        rw [List.filter_cons]
        split
        · rename_i heq
          rw [List.map_cons, List.sum_cons, hzero heq, Nat.zero_add]
        · rfl
      rw [hsum]
      rcases ih with ⟨hnone, hempty⟩ | ⟨rest, hrest, hpositive, hdemand⟩
      · exact Or.inl ⟨by rw [hnone]; rfl, hempty⟩
      · refine Or.inr ⟨entry :: rest, by rw [hrest]; rfl, hpositive, fun other => ?_⟩
        rw [List.filter_cons, List.filter_cons]
        by_cases hother : other.semanticEq entry.1 = true
        · rw [if_pos hother, if_pos hother, List.map_cons, List.map_cons, List.sum_cons,
            List.sum_cons, hdemand other]
          by_cases hcandidate : other.semanticEq candidate = true
          · have hentry := semanticEq_congr_left hcandidate entry.1
            rw [hother] at hentry
            rw [hzero hentry.symm, Nat.zero_add, Nat.zero_add]
          · rw [if_neg hcandidate, Nat.sub_zero, Nat.sub_zero]
        · rw [if_neg hother, if_neg hother]
          exact hdemand other

/-- The quotas take a candidate that is wanted, and want one less of its kind. -/
theorem DmList.Quotas.take_spec (quotas : Quotas) (candidate : Value) :
    (quotas.take candidate = none ∧ quotas.demand candidate = 0) ∨
      ∃ rest, quotas.take candidate = some rest ∧ quotas.demand candidate ≠ 0 ∧
        rest.demand = fun other : Value =>
          quotas.demand other - if other.semanticEq candidate then 1 else 0 := by
  cases hcandidate : semanticKey candidate with
  | some key =>
    have htake : quotas.take candidate = if quotas.keyed key = 0 then none
        else some { quotas with
          keyed := Function.update quotas.keyed key (quotas.keyed key - 1) } := by
      rw [Quotas.take, hcandidate]
    have hdemand : quotas.demand candidate = quotas.keyed key := by
      rw [Quotas.demand, hcandidate]
    rw [htake, hdemand]
    by_cases hzero : quotas.keyed key = 0
    · exact Or.inl ⟨if_pos hzero, hzero⟩
    · refine Or.inr ⟨_, if_neg hzero, hzero, funext fun other => ?_⟩
      rw [Quotas.demand, Quotas.demand]
      cases hother : semanticKey other with
      | some otherKey =>
        have hiff := semanticEq_iff_key (b := candidate) hother
        rw [hcandidate, Option.some.injEq] at hiff
        show Function.update quotas.keyed key (quotas.keyed key - 1) otherKey = _
        by_cases heq : key = otherKey
        · subst heq
          rw [Function.update_self, if_pos (hiff.2 rfl)]
        · rw [Function.update_of_ne (Ne.symm heq), if_neg fun hsame => heq (hiff.1 hsame)]
          rfl
      | none =>
        rw [semanticEq_eq_false hother hcandidate]
        rfl
  | none =>
    have htake : quotas.take candidate = (takeFallback candidate quotas.fallback).map
        fun fallback => { quotas with fallback := fallback } := by
      rw [Quotas.take, hcandidate]
    have hdemand : quotas.demand candidate =
        ((quotas.fallback.filter fun entry => candidate.semanticEq entry.1).map (·.2)).sum := by
      rw [Quotas.demand, hcandidate]
    rw [htake, hdemand]
    rcases takeFallback_demand candidate quotas.fallback with
      ⟨hnone, hzero⟩ | ⟨rest, hrest, hpositive, hrestDemand⟩
    · exact Or.inl ⟨by rw [hnone]; rfl, hzero⟩
    · refine Or.inr ⟨_, by rw [hrest]; rfl, Nat.pos_iff_ne_zero.1 hpositive,
        funext fun other => ?_⟩
      rw [Quotas.demand, Quotas.demand]
      cases hother : semanticKey other with
      | some otherKey =>
        have hne : other.semanticEq candidate = false := by
          refine Bool.eq_false_iff.2 fun heq => ?_
          rw [(semanticEq_iff_key hother).1 heq] at hcandidate
          cases hcandidate
        rw [hne]
        rfl
      | none => exact hrestDemand other

/-! ## The pass -/

/-- How many of some values are equal to this one. -/
def wanted (values : List Value) (candidate : Value) : Nat :=
  values.countP fun value => candidate.semanticEq value

theorem wanted_cons (value : Value) (values : List Value) :
    wanted (value :: values) = Demand.more Value.semanticEq (wanted values) value := by
  funext candidate
  rw [wanted, List.countP_cons]
  rfl

theorem respects_wanted (values : List Value) : Demand.Respects Value.semanticEq (wanted values) := by
  intro a b hab
  refine List.countP_congr fun value _ => ?_
  rw [semanticEq_congr_left hab value]

theorem foldl_add_demand (values : List Value) (quotas : Quotas) (candidate : Value) :
    (values.foldl Quotas.add quotas).demand candidate =
      quotas.demand candidate + wanted values candidate := by
  induction values generalizing quotas with
  | nil => rfl
  | cons value values ih =>
    rw [List.foldl_cons, ih, Quotas.add_demand, wanted_cons, Demand.more, Demand.more]
    omega

theorem quotas_demand (values : List Value) :
    (values.foldl Quotas.add ⟨fun _ => 0, []⟩).demand = wanted values := by
  funext candidate
  have hzero : Quotas.demand ⟨fun _ => 0, []⟩ candidate = 0 := by
    rw [Quotas.demand]
    cases semanticKey candidate <;> rfl
  rw [foldl_add_demand, hzero, Nat.zero_add]

theorem OrderReads.takeEntries (h : OrderReads list order entries) (quotas : Quotas) :
    list.takeEntries quotas order =
      .ok (Demand.scan Value.semanticEq Entry.key quotas.demand entries) := by
  induction entries generalizing order quotas with
  | nil =>
    rw [List.map_eq_nil_iff.1 h]
    rfl
  | cons entry entries ih =>
    obtain ⟨first, rest, rfl, hfirst, hrest⟩ := List.map_eq_cons_iff.1 h
    rw [DmList.takeEntries, keyAt_eq, hfirst, Option.map_some, Demand.scan]
    simp only
    rcases Quotas.take_spec quotas entry.key with ⟨hnone, hzero⟩ | ⟨next, hnext, hpositive, hdemand⟩
    · rw [hnone, if_pos hzero]
      simp only
      rw [ih hrest]
      rfl
    · rw [hnext, if_neg hpositive]
      simp only
      rw [ih hrest, hdemand]
      rfl

theorem reverse_eraseIdx {α : Type} {values : List α} {k : Nat} (hk : k < values.length) :
    (values.eraseIdx (values.length - 1 - k)).reverse = values.reverse.eraseIdx k := by
  rw [List.eraseIdx_eq_take_drop_succ, List.eraseIdx_eq_take_drop_succ, List.reverse_append,
    List.take_reverse, List.drop_reverse, show values.length - 1 - k + 1 = values.length - k by omega,
    show values.length - (k + 1) = values.length - 1 - k by omega]

/-- Removing one value after the other is one pass. -/
theorem subtractEntries_eq (entries : List Entry) (values : List Value) :
    ListSpec.subtractEntries entries values =
      ((flagged false entries.reverse
        (Demand.scan Value.semanticEq Entry.key (wanted values) entries.reverse)).reverse,
        (Demand.scan Value.semanticEq Entry.key (wanted values) entries.reverse).count true) := by
  induction values generalizing entries with
  | nil =>
    obtain ⟨hkept, hcount⟩ := @Demand.scan_zero _ _ Value.semanticEq Entry.key
      entries.reverse
    rw [show wanted [] = fun _ => 0 from rfl, hkept, hcount, List.reverse_reverse]
    rfl
  | cons value values ih =>
    obtain ⟨hkept, hcount⟩ := @Demand.scan_more _ _ _ Entry.key _ Value.semanticEq_symm
      Value.semanticEq_trans (respects_wanted values) value entries.reverse
    rw [wanted_cons, hkept, hcount, List.eraseP_eq_eraseIdx, ListSpec.subtractEntries,
      ListSpec.findLast]
    have hfirst : entries.reverse.findIdx? (fun entry => entry.key.semanticEq value) =
        ListSpec.findFirst value entries.reverse := rfl
    rw [hfirst]
    cases hfound : ListSpec.findFirst value entries.reverse with
    | none =>
      have hany : entries.reverse.any (fun entry => entry.key.semanticEq value) = false :=
        List.any_eq_false.2 fun entry hentry =>
          Bool.eq_false_iff.1 (List.findIdx?_eq_none_iff.1 hfound entry hentry)
      rw [hany]
      exact ih entries
    | some place =>
      obtain ⟨hlt, hequal, -⟩ := List.findIdx?_eq_some_iff_getElem.1 hfound
      have hany : entries.reverse.any (fun entry => entry.key.semanticEq value) = true :=
        List.any_eq_true.2 ⟨_, List.getElem_mem hlt, hequal⟩
      rw [List.length_reverse] at hlt
      rw [hany]
      show ((ListSpec.subtractEntries (entries.eraseIdx (entries.length - 1 - place)) values).1,
        (ListSpec.subtractEntries (entries.eraseIdx (entries.length - 1 - place)) values).2 + 1) = _
      rw [ih, reverse_eraseIdx hlt]
      rfl

theorem subtractEntries_nil (values : List Value) : ListSpec.subtractEntries [] values = ([], 0) := by
  rw [subtractEntries_eq]
  rfl

/-- The whole vectors, with what was cut off the front. -/
theorem Represents.whole (h : Represents hash list entries) : ∃ slots all, Settled hash
    { list.invalidatePositionalRemoveIndex with prefixHead := 0 } slots all := by
  rcases h.storage with ⟨slots, hsettled⟩ | hqueued
  · exact ⟨slots, entries, rfl, hsettled.order, hsettled.holds, hsettled.distinct, hsettled.index,
      hsettled.bound⟩
  · have hall : Queued { list.invalidatePositionalRemoveIndex with prefixHead := 0 }
        (list.positional.map .inl) :=
      ⟨hqueued.associative, hqueued.index, hqueued.order, Nat.zero_le _, rfl, hqueued.bound⟩
    exact ⟨_, _, hall.settled rfl⟩

theorem OrderReads.flagged (h : OrderReads list order entries) (flags : List Bool) :
    OrderReads list (Demand.flagged false order flags) (Demand.flagged false entries flags) := by
  rw [OrderReads, Demand.flagged_map, Demand.flagged_map, h]

theorem subtractEntries_spec (h : Represents hash list entries) (values : List Value) :
    ∃ next, list.subtractEntries hash values =
        some (next, .ok (ListSpec.subtractEntries entries values).2) ∧
      Represents hash next (ListSpec.subtractEntries entries values).1 := by
  rw [DmList.subtractEntries, h.len_eq]
  by_cases hempty : values.isEmpty ∨ entries.length = 0
  · have hsame : ListSpec.subtractEntries entries values = (entries, 0) := by
      rcases hempty with hvalues | hentries
      · rw [List.isEmpty_iff.1 hvalues]
        rfl
      · rw [List.length_eq_zero_iff.1 hentries]
        exact subtractEntries_nil values
    rw [if_pos hempty, hsame]
    exact ⟨list, rfl, h⟩
  · rw [if_neg hempty]
    have hreads := h.reads
    simp only [hreads.reverse.takeEntries, quotas_demand]
    rw [subtractEntries_eq]
    generalize hflags : Demand.scan Value.semanticEq Entry.key (wanted values) entries.reverse = flags
    have hlength : flags.length = entries.reverse.length := by
      rw [← hflags, Demand.length_scan]
    by_cases hzero : flags.count true = 0
    · rw [if_pos hzero, hzero, Demand.flagged_of_count hlength hzero, List.reverse_reverse]
      exact ⟨list, rfl, h⟩
    · rw [if_neg hzero, ← Demand.flagged_reverse false hlength, List.reverse_reverse]
      obtain ⟨slots, all, hall⟩ := h.whole
      have hlive : flags.reverse.length = (list.order.drop list.prefixHead).length := by
        have hmap := congrArg List.length hreads
        rw [List.length_map, List.length_map] at hmap
        rw [List.length_reverse, hlength, List.length_reverse, hmap]
      have hperm : (flagged false (list.order.drop list.prefixHead) flags.reverse ++
          (list.order.take list.prefixHead ++
            flagged true (list.order.drop list.prefixHead) flags.reverse)).Perm list.order := by
        have hparts := Demand.flagged_perm hlive
        rw [← List.append_assoc]
        refine (List.perm_append_comm.append_right _).trans ?_
        rw [List.append_assoc]
        exact (hparts.append_left _).trans (List.Perm.of_eq (List.take_append_drop _ _))
      obtain ⟨next, hnext, hrepresents⟩ := dropSlots_spec hall rfl hperm
        (hreads.flagged flags.reverse)
      have hfront : list.invalidatePositionalRemoveIndex.order.take
          list.invalidatePositionalRemoveIndex.prefixHead = list.order.take list.prefixHead := rfl
      simp only [hfront, hnext, Option.bind_eq_bind, Option.bind_some]
      exact ⟨next, rfl, hrepresents⟩

end Dream64
