import Dream64.Value.ListRuns

/-!
# Copies of a range

A copy is built entry by entry: a value is added, a key is set. A key that
comes after an equal value takes the place of this value in the copy, so the
copy of a range is the range exactly if no value in it comes before an equal
key.
-/

namespace Dream64

open DmList Pools ListOrder

variable {hash : SemanticKey → Nat} {list : DmList} {entries : List Entry}

namespace DmList

def copyEntries (hash : SemanticKey → Nat) (list : DmList) :
    DmList → List ListOrder → Option (Except ListError DmList)
  | copy, [] => some (.ok copy)
  | copy, entry :: entries =>
    match entry.slot with
    | .inl position => do
      let value ← list.positional[position]?
      let (copy, _) ← copy.add value
      copyEntries hash list copy entries
    | .inr association =>
      match list.associative[association]? with
      | none => some (.error .corruptListStorage)
      | some pair => do
        let (copy, _) ← copy.setKey hash pair.1 pair.2
        copyEntries hash list copy entries

def copyRange (hash : SemanticKey → Nat) (list : DmList) (start stop : Nat) :
    Option (Except ListError DmList) :=
  match checkedBoundary start list.len, checkedBoundary stop list.len with
  | .error error, _ => some (.error error)
  | _, .error error => some (.error error)
  | .ok _, .ok _ =>
    if stop ≤ start then some (.ok empty)
    else list.copyEntries hash empty
      ((list.order.take (list.prefixHead + stop - 1)).drop (list.prefixHead + start - 1))

end DmList

/-! ## What is copied -/

/-- The same entry: a value for a value, and for an association the key with the same value. -/
def Entry.Alike : Entry → Entry → Prop
  | .inl value, .inl other => value = other ∨ value.semanticEq other = true
  | .inr pair, .inr other => (pair.1 = other.1 ∨ pair.1.semanticEq other.1 = true) ∧ pair.2 = other.2
  | _, _ => False

/-- The copy of a range of the sequence has its entries, one by one. -/
def CopiesRange (hash : SemanticKey → Nat) (list : DmList) (entries : List Entry)
    (start stop : Nat) : Prop :=
  ∃ copy copied, list.copyRange hash start stop = some (.ok copy) ∧ Stored copy copied ∧
    copied.length = stop - start ∧
    List.Forall₂ Entry.Alike copied ((entries.take (stop - 1)).drop (start - 1))

/-- No value comes before a key that is equal to it. -/
def KeysFirst (entries : List Entry) : Prop :=
  entries.Pairwise fun before after => ∀ value pair, before = .inl value → after = .inr pair →
    value.semanticEq pair.1 = false

/-- Different associations have different keys. -/
def KeysDistinct (entries : List Entry) : Prop :=
  entries.Pairwise fun before after => ∀ pair other, before = .inr pair → after = .inr other →
    pair.1.semanticEq other.1 = false

namespace ListSpec

/-- The copy as a sequence. -/
def copyEntries : List Entry → List Entry → List Entry
  | copied, [] => copied
  | copied, .inl value :: entries => copyEntries (copied ++ [.inl value]) entries
  | copied, .inr pair :: entries => copyEntries (setKey copied pair.1 pair.2).1 entries

theorem setKey_new {copied : List Entry} {key value : Value}
    (hkeys : ∀ pair, .inr pair ∈ copied → pair.1.semanticEq key = false)
    (hvalues : ∀ other, .inl other ∈ copied → other.semanticEq key = false) :
    (setKey copied key value).1 = copied ++ [.inr (key, value)] := by
  have hassociation : copied.findIdx? (isAssociation key) = none := by
    rw [List.findIdx?_eq_none_iff]
    intro entry hentry
    cases entry with
    | inl other => rfl
    | inr pair => exact hkeys pair hentry
  have hpositional : copied.findIdx? (isPositional key) = none := by
    rw [List.findIdx?_eq_none_iff]
    intro entry hentry
    cases entry with
    | inl other => exact hvalues other hentry
    | inr pair => rfl
  rw [setKey, hassociation, hpositional]

theorem length_setKey_le (copied : List Entry) (key value : Value) :
    (setKey copied key value).1.length ≤ copied.length + 1 := by
  rw [setKey]
  split
  · rw [List.length_modify]
    exact Nat.le_succ _
  · split
    · rw [List.length_modify]
      exact Nat.le_succ _
    · rw [List.length_append, List.length_singleton]

/-- A key that is there as a value is no new entry. -/
theorem length_setKey_of_value {copied : List Entry} {key value other : Value}
    (hmem : .inl other ∈ copied) (heq : other.semanticEq key = true) :
    (setKey copied key value).1.length = copied.length := by
  rw [setKey]
  split
  · exact List.length_modify ..
  · split
    · exact List.length_modify ..
    · rename_i hnone
      have hfalse := List.findIdx?_eq_none_iff.1 hnone _ hmem
      rw [isPositional, heq] at hfalse
      cases hfalse

theorem length_copyEntries_le (copied entries : List Entry) :
    (copyEntries copied entries).length ≤ copied.length + entries.length := by
  induction entries generalizing copied with
  | nil => exact Nat.le_refl _
  | cons entry entries ih =>
    cases entry with
    | inl value =>
      have hrest := ih (copied ++ [.inl value])
      rw [List.length_append, List.length_singleton] at hrest
      rw [copyEntries, List.length_cons]
      omega
    | inr pair =>
      have hrest := ih (setKey copied pair.1 pair.2).1
      have hset := length_setKey_le copied pair.1 pair.2
      rw [copyEntries, List.length_cons]
      omega

/-- The entries are copied as they are, if no value comes before an equal key. -/
theorem copyEntries_eq {copied entries : List Entry} (hdistinct : KeysDistinct (copied ++ entries))
    (hfirst : KeysFirst (copied ++ entries)) : copyEntries copied entries = copied ++ entries := by
  induction entries generalizing copied with
  | nil => rw [copyEntries, List.append_nil]
  | cons entry entries ih =>
    have hsplit : copied ++ entry :: entries = (copied ++ [entry]) ++ entries := by
      rw [List.append_assoc, List.singleton_append]
    have hbefore (other : Entry) (hother : other ∈ copied) :
        (∀ value pair, other = .inl value → entry = .inr pair →
          value.semanticEq pair.1 = false) ∧
        ∀ pair last, other = .inr pair → entry = .inr last →
          pair.1.semanticEq last.1 = false :=
      ⟨(List.pairwise_append.1 hfirst).2.2 other hother entry List.mem_cons_self,
        (List.pairwise_append.1 hdistinct).2.2 other hother entry List.mem_cons_self⟩
    rw [hsplit] at hdistinct hfirst ⊢
    cases entry with
    | inl value =>
      rw [copyEntries]
      exact ih hdistinct hfirst
    | inr pair =>
      rw [copyEntries, setKey_new]
      · exact ih hdistinct hfirst
      · exact fun other hother => (hbefore _ hother).2 other pair rfl rfl
      · exact fun value hvalue => (hbefore _ hvalue).1 value pair rfl rfl

/-- A value before an equal key is lost. -/
theorem length_copyEntries_lt {copied entries : List Entry}
    (hdistinct : KeysDistinct (copied ++ entries)) (hcopied : KeysFirst copied)
    (h : ¬ KeysFirst (copied ++ entries)) :
    (copyEntries copied entries).length < copied.length + entries.length := by
  induction entries generalizing copied with
  | nil =>
    rw [List.append_nil] at h
    exact absurd hcopied h
  | cons entry entries ih =>
    have hsplit : copied ++ entry :: entries = (copied ++ [entry]) ++ entries := by
      rw [List.append_assoc, List.singleton_append]
    have hkeys : ∀ pair, .inr pair ∈ copied → ∀ last, entry = .inr last →
        pair.1.semanticEq last.1 = false := fun pair hpair last hlast =>
      (List.pairwise_append.1 hdistinct).2.2 _ hpair entry List.mem_cons_self pair last rfl hlast
    rw [hsplit] at hdistinct h
    have hlength : (copied ++ [entry]).length = copied.length + 1 := by
      rw [List.length_append, List.length_singleton]
    -- Without a clash the copy has grown by the entry, and the clash comes later.
    have hlater (hclash : ∀ other ∈ copied, ∀ value pair, other = .inl value →
        entry = .inr pair → value.semanticEq pair.1 = false) :
        (copyEntries (copied ++ [entry]) entries).length <
          copied.length + (entry :: entries).length := by
      have hmore : KeysFirst (copied ++ [entry]) := by
        refine List.pairwise_append.2 ⟨hcopied, List.pairwise_singleton _ _, ?_⟩
        intro other hother last hlast
        rw [List.mem_singleton.1 hlast]
        exact hclash other hother
      have hrest := ih hdistinct hmore h
      rw [hlength] at hrest
      rw [List.length_cons]
      omega
    cases entry with
    | inl value =>
      rw [copyEntries]
      refine hlater fun other _ value pair _ hpair => ?_
      cases hpair
    | inr pair =>
      rw [copyEntries]
      by_cases hclash : ∃ value, .inl value ∈ copied ∧ value.semanticEq pair.1 = true
      · obtain ⟨value, hvalue, heq⟩ := hclash
        have hset := @length_setKey_of_value copied pair.1 pair.2 value hvalue heq
        have hrest := length_copyEntries_le (setKey copied pair.1 pair.2).1 entries
        rw [List.length_cons]
        omega
      · have hvalues : ∀ value, .inl value ∈ copied → value.semanticEq pair.1 = false := by
          intro value hvalue
          rw [Bool.eq_false_iff]
          exact fun heq => hclash ⟨value, hvalue, heq⟩
        rw [setKey_new (fun other hother => hkeys other hother pair rfl) hvalues]
        refine hlater fun other hother value last hvalue hlast => ?_
        rw [hvalue] at hother
        rw [← Sum.inr.inj hlast]
        exact hvalues value hother

end ListSpec

/-! ## The copy of a list -/

/-- The slot of an association. -/
theorem Settled.association_at {slots : List Slot} (h : Settled hash list slots entries) {place : Nat}
    {pair : Value × Value} (hentry : entries[place]? = some (.inr pair)) :
    ∃ association, slots[place]? = some (.inr association) ∧
      list.associative[association]? = some pair := by
  have hlookup := h.holds.getElem? place
  rw [hentry, Option.map_some] at hlookup
  obtain ⟨slot, hslot, hfound⟩ := Option.map_eq_some_iff.1 hlookup
  cases slot with
  | inl position =>
    obtain ⟨value, -, heq⟩ := Option.map_eq_some_iff.1 hfound
    cases heq
  | inr association =>
    obtain ⟨found, hget, heq⟩ := Option.map_eq_some_iff.1 hfound
    rw [Sum.inr.injEq] at heq
    exact ⟨association, hslot, by rw [hget, heq]⟩

theorem Represents.keysDistinct (h : Represents hash list entries) : KeysDistinct entries := by
  rcases h.storage with ⟨slots, hsettled⟩ | hqueued
  · rw [KeysDistinct, List.pairwise_iff_getElem]
    intro i j hi hj hlt pair other hpair hother
    obtain ⟨first, hfirst, hfirstPair⟩ := hsettled.association_at
      (show entries[i]? = some (.inr pair) by rw [List.getElem?_eq_getElem hi, hpair])
    obtain ⟨second, hsecond, hsecondPair⟩ := hsettled.association_at
      (show entries[j]? = some (.inr other) by rw [List.getElem?_eq_getElem hj, hother])
    rw [Bool.eq_false_iff]
    intro heq
    have hself := Value.semanticEq_trans _ _ _ (Value.semanticEq_symm _ _ heq) heq
    have hsame := hsettled.distinct.unique hfirstPair hsecondPair heq hself
    rw [hsame] at hfirst
    have hplace := hsettled.holds.nodup.getElem_inj_iff.1
      ((List.getElem?_eq_some_iff.1 hfirst).2.trans (List.getElem?_eq_some_iff.1 hsecond).2.symm)
    omega
  · rw [hqueued.entries, KeysDistinct, List.pairwise_map]
    refine List.pairwise_of_forall fun value other pair last hpair => ?_
    cases hpair

/-- A list with associations has no removed prefix. -/
theorem Represents.prefixHead_eq_zero (h : Represents hash list entries) {pair : Value × Value}
    (hpair : .inr pair ∈ entries) : list.prefixHead = 0 := by
  rcases h.storage with ⟨slots, hsettled⟩ | hqueued
  · exact hsettled.head
  · rw [hqueued.entries] at hpair
    obtain ⟨value, -, heq⟩ := List.mem_map.1 hpair
    cases heq

theorem ListSpec.exists_pair_setKey (copied : List Entry) (key value : Value) :
    ∃ pair, .inr pair ∈ (ListSpec.setKey copied key value).1 := by
  have hmodified {place : Nat} (hlt : place < copied.length) :
      ∃ pair, Sum.inr pair ∈ copied.modify place fun entry => .inr (entry.key, value) := by
    refine ⟨(copied[place].key, value), List.mem_iff_getElem?.2 ⟨place, ?_⟩⟩
    rw [List.getElem?_modify_eq, List.getElem?_eq_getElem hlt]
    rfl
  rw [ListSpec.setKey]
  split
  · rename_i place hplace
    exact hmodified (List.findIdx?_eq_some_iff_getElem.1 hplace).1
  · split
    · rename_i place hplace
      exact hmodified (List.findIdx?_eq_some_iff_getElem.1 hplace).1
    · exact ⟨(key, value), by simp⟩

theorem copyEntries_spec {copy : DmList} {copied range : List Entry} {order : List ListOrder}
    (hreads : OrderReads list order range) (h : Represents hash copy copied)
    (hhead : copy.prefixHead = 0) (hroom : copied.length + range.length ≤ 2 ^ 31) :
    ∃ next, list.copyEntries hash copy order = some (.ok next) ∧
      Represents hash next (ListSpec.copyEntries copied range) := by
  induction range generalizing order copy copied with
  | nil =>
    rw [List.map_eq_nil_iff.1 hreads]
    exact ⟨copy, rfl, h⟩
  | cons entry range ih =>
    obtain ⟨first, rest, rfl, hfirst, hrest⟩ := List.map_eq_cons_iff.1 hreads
    rw [List.length_cons] at hroom
    rw [DmList.copyEntries]
    cases entry with
    | inl value =>
      cases hslot : first.slot with
      | inl position =>
        rw [hslot] at hfirst
        obtain ⟨found, hfound, heq⟩ := Option.map_eq_some_iff.1 hfirst
        rw [Sum.inl.injEq] at heq
        have horder := h.order_length
        obtain ⟨next, hnext, hrepresents, -, hbegins⟩ := add_spec h (by omega) value
        obtain ⟨last, hlast, hcopied⟩ := ih hrest hrepresents (hbegins.trans hhead) (by
          rw [List.length_append, List.length_singleton]
          omega)
        refine ⟨last, ?_, hcopied⟩
        simp only [hfound, heq, Option.bind_eq_bind, Option.bind_some, hnext]
        exact hlast
      | inr association =>
        rw [hslot] at hfirst
        obtain ⟨found, -, heq⟩ := Option.map_eq_some_iff.1 hfirst
        cases heq
    | inr pair =>
      cases hslot : first.slot with
      | inl position =>
        rw [hslot] at hfirst
        obtain ⟨found, -, heq⟩ := Option.map_eq_some_iff.1 hfirst
        cases heq
      | inr association =>
        rw [hslot] at hfirst
        obtain ⟨found, hfound, heq⟩ := Option.map_eq_some_iff.1 hfirst
        rw [Sum.inr.injEq] at heq
        have hlength := ListSpec.length_setKey_le copied pair.1 pair.2
        obtain ⟨next, hnext, hrepresents⟩ := setKey_spec h pair.1 pair.2 (by omega)
        obtain ⟨made, hmade⟩ := ListSpec.exists_pair_setKey copied pair.1 pair.2
        obtain ⟨last, hlast, hcopied⟩ := ih hrest hrepresents
          (hrepresents.prefixHead_eq_zero hmade) (by omega)
        refine ⟨last, ?_, hcopied⟩
        simp only [hfound, heq, Option.bind_eq_bind, Option.bind_some, hnext]
        exact hlast

/-- The part of the order that a copy reads. -/
theorem Represents.range_reads (h : Represents hash list entries) {start stop : Nat}
    (hstart : 1 ≤ start) (hstop : start ≤ stop) :
    OrderReads list ((list.order.take (list.prefixHead + stop - 1)).drop (list.prefixHead + start - 1))
      ((entries.take (stop - 1)).drop (start - 1)) := by
  have hlive := (h.reads.take (stop - 1)).drop (start - 1)
  have horder : (list.order.take (list.prefixHead + stop - 1)).drop (list.prefixHead + start - 1) =
      ((list.order.drop list.prefixHead).take (stop - 1)).drop (start - 1) := by
    rw [List.take_drop, List.drop_drop, show list.prefixHead + stop - 1 = list.prefixHead + (stop - 1)
      by omega, show list.prefixHead + start - 1 = list.prefixHead + (start - 1) by omega]
  rw [horder]
  exact hlive

theorem Stored.unique {one other : List Entry} (h : Stored list one) (h' : Stored list other) :
    one = other := by
  have heq := h.entries.symm.trans h'.entries
  exact List.map_injective_iff.2 (Option.some_injective _) heq

theorem copyRange_spec (h : Represents hash list entries) {start stop : Nat} (hstart : 1 ≤ start)
    (hstop : start ≤ stop) (hlen : stop ≤ entries.length + 1) :
    ∃ copy, list.copyRange hash start stop = some (.ok copy) ∧ Represents hash copy
      (ListSpec.copyEntries [] ((entries.take (stop - 1)).drop (start - 1))) := by
  have hbound := h.bound
  have horder := h.order_length
  have hboundaries : checkedBoundary start list.len = .ok (start - 1) ∧
      checkedBoundary stop list.len = .ok (stop - 1) := by
    rw [h.len_eq]
    constructor
    · obtain ⟨before, rfl⟩ := Nat.exists_eq_add_of_le' hstart
      exact checkedBoundary_succ (by omega)
    · obtain ⟨before, rfl⟩ := Nat.exists_eq_add_of_le' (hstart.trans hstop)
      exact checkedBoundary_succ (by omega)
  rw [DmList.copyRange, hboundaries.1, hboundaries.2]
  by_cases hempty : stop ≤ start
  · have hnil : (entries.take (stop - 1)).drop (start - 1) = [] := by
      rw [List.drop_eq_nil_iff, List.length_take]
      omega
    rw [hnil]
    exact ⟨DmList.empty, if_pos hempty, empty_represents⟩
  · simp only [if_neg hempty]
    refine copyEntries_spec (h.range_reads hstart hstop) empty_represents rfl ?_
    rw [List.length_nil, List.length_drop, List.length_take]
    omega

/-! ## Runs -/

theorem Entry.alike_refl (entry : Entry) : entry.Alike entry := by
  cases entry with
  | inl value => exact .inl rfl
  | inr pair => exact ⟨.inl rfl, rfl⟩

theorem Represents.copiesRange_iff (h : Represents hash list entries) {start stop : Nat}
    (hstart : 1 ≤ start) (hstop : start ≤ stop) (hlen : stop ≤ entries.length + 1) :
    CopiesRange hash list entries start stop ↔
      KeysFirst ((entries.take (stop - 1)).drop (start - 1)) := by
  obtain ⟨copy, hcopy, hrepresents⟩ := copyRange_spec h hstart hstop hlen
  have hdistinct : KeysDistinct ([] ++ (entries.take (stop - 1)).drop (start - 1)) :=
    h.keysDistinct.sublist ((List.drop_sublist _ _).trans (List.take_sublist _ _))
  have hlength : ((entries.take (stop - 1)).drop (start - 1)).length = stop - start := by
    rw [List.length_drop, List.length_take]
    omega
  constructor
  · rintro ⟨made, copied, hmade, hstored, hcount, -⟩
    rw [hcopy, Option.some.injEq, Except.ok.injEq] at hmade
    rw [← hmade] at hstored
    by_contra hclash
    have hless := ListSpec.length_copyEntries_lt hdistinct List.Pairwise.nil hclash
    rw [hstored.unique hrepresents.stored, List.length_nil] at *
    omega
  · intro hfirst
    have heq := ListSpec.copyEntries_eq hdistinct hfirst
    rw [List.nil_append] at heq
    rw [heq] at hrepresents
    exact ⟨copy, _, hcopy, hrepresents.stored, hlength,
      List.forall₂_same.2 fun entry _ => entry.alike_refl⟩

/-- What a run with room reaches represents its sequence. -/
theorem Represents.reaches (h : Represents hash list entries) {ops : List ListOp} {next : DmList}
    {results : List ListResult} (hbelow : StaysBelow (2 ^ 31) entries ops)
    (hroom : RunHasRoom hash list ops) (hrun : runList hash list ops = some (next, results)) :
    Represents hash next (specList entries ops).1 := by
  induction ops generalizing list entries results with
  | nil =>
    rw [runList, Option.some.injEq, Prod.mk.injEq] at hrun
    rwa [← hrun.1]
  | cons op ops ih =>
    obtain ⟨-, hrest⟩ := hbelow
    obtain ⟨stepped, hstepped, hrepresents⟩ := step_refines h hroom.1 hrest.head
    rw [runList, hstepped, Option.bind_eq_bind, Option.bind_some, Option.bind_eq_bind,
      Option.bind_eq_some_iff] at hrun
    obtain ⟨⟨last, rest⟩, hlast, hrun⟩ := hrun
    rw [Option.some.injEq, Prod.mk.injEq] at hrun
    rw [hrun.1] at hlast
    exact ih hrepresents hrest (hroom.2 stepped _ hstepped) hlast

/-- A copy of a range is entrywise the range exactly if no value in it comes before an equal key. -/
theorem copyRange_faithful_iff (hash : SemanticKey → Nat) (ops : List ListOp)
    (hbelow : StaysBelow (2 ^ 31) [] ops) (hroom : RunHasRoom hash DmList.empty ops) {list : DmList}
    {results : List ListResult} (hrun : runList hash DmList.empty ops = some (list, results))
    {start stop : Nat} (hstart : 1 ≤ start) (hstop : start ≤ stop) (hlen : stop ≤ list.len + 1) :
    Stored list (specList [] ops).1 ∧ (CopiesRange hash list (specList [] ops).1 start stop ↔
      KeysFirst (((specList [] ops).1.take (stop - 1)).drop (start - 1))) := by
  have hrepresents := empty_represents.reaches hbelow hroom hrun
  rw [hrepresents.len_eq] at hlen
  exact ⟨hrepresents.stored, hrepresents.copiesRange_iff hstart hstop hlen⟩

/-- A key and then a value that is equal to it are copied. -/
theorem keyBeforeValue_copied : ∃ list results,
    runList (fun _ => 0) DmList.empty [.setKey .null .null, .add .null] = some (list, results) ∧
      CopiesRange (fun _ => 0) list [.inr (.null, .null), .inl .null] 1 3 := by
  have hbelow : StaysBelow (2 ^ 31) [] [.setKey .null .null, .add .null] :=
    ⟨Nat.two_pow_pos 31, Nat.one_lt_two_pow (by decide),
      show 2 < 2 ^ 31 by norm_num⟩
  have hroom : RunHasRoom (fun _ => 0) DmList.empty [.setKey .null .null, .add .null] := by
    refine ⟨trivial, fun next result hnext => ?_⟩
    cases hnext
    exact ⟨show 1 + 1 ≤ 2 ^ 31 by norm_num, fun _ _ _ => trivial⟩
  refine ⟨_, _, rfl, ?_⟩
  refine (copyRange_faithful_iff (fun _ => 0) _ hbelow hroom rfl (by decide) (by decide)
    (by decide)).2.2 ?_
  refine List.Pairwise.cons (fun after _ value pair hvalue => ?_) (List.pairwise_singleton _ _)
  cases hvalue

/-- A value before an equal key: the copy of both has one entry. -/
theorem valueBeforeKey_not_copied : ∃ list results,
    runList (fun _ => 0) DmList.empty [.setKey .null .null, .insert 1 .null] =
      some (list, results) ∧
    Stored list [.inl .null, .inr (.null, .null)] ∧ 3 ≤ list.len + 1 ∧
      ¬ CopiesRange (fun _ => 0) list [.inl .null, .inr (.null, .null)] 1 3 := by
  refine ⟨_, _, rfl, ⟨?_, rfl, fun hhead => absurd hhead (by decide)⟩, by decide, ?_⟩
  · exact List.Perm.refl _
  · rintro ⟨copy, copied, hcopy, hstored, hlength, -⟩
    have hentries := congrArg List.length hstored.entries
    rw [List.length_map, List.length_map, hlength] at hentries
    rw [← Except.ok.inj (Option.some.inj hcopy)] at hentries
    exact absurd hentries (by decide)

end Dream64
