import Dream64.Vm.ListOperators

/-!
# Operators on sequences

What the operators do to the sequences of entries. Entries that are only added
where their key is absent are appended, so the union and the difference of two
lists have the same new entries in both forms. What is left of the left list is
the same too exactly if it is tidy: no dead handle, no key twice, and no
association whose key is not equal to itself.
-/

namespace Dream64.Vm

variable {live : Value → Bool} {entries rest : List Entry} {items : List ListOperatorEntry}

/-! ## Definitions -/

/-- The entry that is appended where the key is absent. -/
def ListOperatorEntry.entry (item : ListOperatorEntry) : Entry :=
  item.associated.elim (.inl item.key) fun value => .inr (item.key, value)

def snapshotItem (entries : List Entry) (key : Value) : ListOperatorEntry :=
  ⟨key, ListSpec.associated entries key⟩

def snapshot (live : Value → Bool) (entries : List Entry) : List ListOperatorEntry :=
  ((entries.map Entry.key).filter live).map (snapshotItem entries)

def putEntry (entries : List Entry) (item : ListOperatorEntry) : List Entry :=
  item.associated.elim (entries ++ [.inl item.key]) fun value =>
    (ListSpec.setKey entries item.key value).1

def addEntry (guarded : Bool) (entries : List Entry) (item : ListOperatorEntry) : List Entry :=
  if guarded && ListSpec.contains entries item.key then entries else putEntry entries item

/-- One turn of the loop of `&`. -/
def keepMatched (right : List ListOperatorEntry) (entries : List Entry)
    (item : ListOperatorEntry) : List Entry :=
  if hasKey right item.key then entries else ListSpec.removeAll entries item.key

/-- One turn of the loop of `^=`. -/
def exchangeEntry (original : List ListOperatorEntry) (entries : List Entry)
    (item : ListOperatorEntry) : List Entry :=
  if hasKey original item.key then ListSpec.removeAll entries item.key
  else addEntry true entries item

/-- What some items add to entries that are there already. -/
def extras (known : List Entry) : List ListOperatorEntry → List Entry
  | [] => []
  | item :: items =>
    if ListSpec.contains known item.key then extras known items
    else item.entry :: extras (known ++ [item.entry]) items

/-- The entries without those live ones whose key the right side has. -/
def unmatched (live : Value → Bool) (right : List ListOperatorEntry) (entries : List Entry) :
    List Entry :=
  entries.filter fun entry => !(live entry.key && hasKey right entry.key)

/-- Entries that are kept as they are when they are added one by one to a new list. -/
structure Tidy (live : Value → Bool) (entries : List Entry) : Prop where
  live : ∀ entry ∈ entries, live entry.key = true
  equal : ∀ pair, .inr pair ∈ entries → pair.1.semanticEq pair.1 = true
  distinct : entries.Pairwise fun before after => before.key.semanticEq after.key = false

/-- Tidy entries, behind which the right operand may stand where its own object is gone. -/
def TidyBut (live : Value → Bool) (right : Value) (entries : List Entry) : Prop :=
  Tidy live entries ∨
    live right = false ∧ ∃ front, entries = front ++ [.inl right] ∧ Tidy live front

/-! ## Keys -/

theorem semanticEq_comm (a b : Value) : a.semanticEq b = b.semanticEq a := by
  rw [Bool.eq_iff_iff]
  exact ⟨Value.semanticEq_symm a b, Value.semanticEq_symm b a⟩

@[simp] theorem entry_key (item : ListOperatorEntry) : item.entry.key = item.key := by
  rw [ListOperatorEntry.entry]
  cases item.associated <;> rfl

theorem contains_append (entries rest : List Entry) (value : Value) :
    ListSpec.contains (entries ++ rest) value =
      (ListSpec.contains entries value || ListSpec.contains rest value) := List.any_append

theorem contains_singleton (item : ListOperatorEntry) (value : Value) :
    ListSpec.contains [item.entry] value = item.key.semanticEq value := by
  rw [ListSpec.contains, List.any_cons, List.any_nil, Bool.or_false, entry_key]

variable {a b : Value}

theorem contains_congr (h : a.semanticEq b = true) (entries : List Entry) :
    ListSpec.contains entries a = ListSpec.contains entries b := by
  rw [ListSpec.contains, ListSpec.contains]
  refine List.any_congr rfl fun entry => ?_
  exact semanticEq_congr_right h entry.key

theorem contains_self_of_left (h : a.semanticEq b = true) : b.semanticEq b = true := by
  rw [← semanticEq_congr_left h]
  exact h

/-! ## Adding -/

theorem addEntry_guarded (entries : List Entry) (item : ListOperatorEntry) :
    addEntry true entries item = entries ++ extras entries [item] := by
  rw [addEntry, Bool.true_and, extras, extras, extras]
  cases hcontains : ListSpec.contains entries item.key with
  | true => rw [if_pos rfl, if_pos rfl, List.append_nil]
  | false =>
    rw [if_neg Bool.false_ne_true, if_neg Bool.false_ne_true, putEntry, ListOperatorEntry.entry]
    cases item.associated with
    | none => rfl
    | some value =>
      have hother (entry : Entry) (hentry : entry ∈ entries) :
          entry.key.semanticEq item.key = false := by
        rw [ListSpec.contains, List.any_eq_false] at hcontains
        exact Bool.eq_false_iff.2 (hcontains entry hentry)
      exact ListSpec.setKey_new (fun pair hpair => hother _ hpair) fun other hvalue => hother _ hvalue

theorem foldl_addEntry (known : List Entry) (items : List ListOperatorEntry) :
    items.foldl (addEntry true) known = known ++ extras known items := by
  induction items generalizing known with
  | nil => exact (List.append_nil known).symm
  | cons item items ih =>
    rw [List.foldl_cons, ih, addEntry_guarded]
    cases hcontains : ListSpec.contains known item.key with
    | true => simp only [extras, hcontains, if_true, List.append_nil]
    | false =>
      simp only [extras, hcontains, Bool.false_eq_true, if_false, List.append_assoc,
        List.singleton_append]

variable {known : List Entry}

theorem extras_congr {other : List Entry} {items : List ListOperatorEntry}
    (h : ∀ item ∈ items, ListSpec.contains known item.key = ListSpec.contains other item.key) :
    extras known items = extras other items := by
  induction items generalizing known other with
  | nil => rfl
  | cons item items ih =>
    have hitem := h item List.mem_cons_self
    have hrest (later : ListOperatorEntry) (hlater : later ∈ items) :=
      h later (List.mem_cons_of_mem _ hlater)
    rw [extras, extras, hitem, ih hrest, @ih (known ++ [item.entry]) (other ++ [item.entry])]
    intro later hlater
    rw [contains_append, contains_append, hrest later hlater]

theorem contains_extras (known : List Entry) (items : List ListOperatorEntry) (value : Value) :
    ListSpec.contains (known ++ extras known items) value =
      (ListSpec.contains known value || hasKey items value) := by
  induction items generalizing known with
  | nil =>
    rw [extras, List.append_nil, hasKey, List.any_nil, Bool.or_false]
  | cons item items ih =>
    have hitem : hasKey (item :: items) value = (item.key.semanticEq value || hasKey items value) :=
      List.any_cons
    rw [extras, hitem]
    split
    · rename_i hcontains
      rw [ih]
      cases heq : item.key.semanticEq value with
      | false => rw [Bool.false_or]
      | true =>
        rw [contains_congr heq] at hcontains
        rw [hcontains]
        rfl
    · have happend := ih (known ++ [item.entry])
      rw [List.append_assoc] at happend
      rw [show item.entry :: extras (known ++ [item.entry]) items =
        [item.entry] ++ extras (known ++ [item.entry]) items from rfl, happend, contains_append,
        contains_singleton, Bool.or_assoc]

theorem length_extras_le (known : List Entry) (items : List ListOperatorEntry) :
    (extras known items).length ≤ items.length := by
  induction items generalizing known with
  | nil => exact Nat.le_refl 0
  | cons item items ih =>
    rw [extras, List.length_cons]
    split
    · exact (ih known).trans (Nat.le_succ _)
    · rw [List.length_cons]
      exact Nat.succ_le_succ (ih _)

/-- Items that are all added have different keys, none of which was known. -/
theorem extras_all {items : List ListOperatorEntry} (h : (extras known items).length = items.length)
    : extras known items = items.map ListOperatorEntry.entry ∧
      (∀ item ∈ items, ListSpec.contains known item.key = false) ∧
      items.Pairwise fun before after => before.key.semanticEq after.key = false := by
  induction items generalizing known with
  | nil => exact ⟨rfl, fun item hitem => absurd hitem List.not_mem_nil, List.Pairwise.nil⟩
  | cons item items ih =>
    rw [extras] at h ⊢
    split at h
    · have hle := length_extras_le known items
      rw [List.length_cons] at h
      omega
    · rename_i hcontains
      rw [List.length_cons, List.length_cons, Nat.succ_inj] at h
      obtain ⟨hmap, hnew, hdistinct⟩ := ih h
      have hsplit (later : ListOperatorEntry) (hlater : later ∈ items) :
          ListSpec.contains known later.key = false ∧ item.key.semanticEq later.key = false := by
        have hlaterNew := hnew later hlater
        rw [contains_append, Bool.or_eq_false_iff, contains_singleton] at hlaterNew
        exact hlaterNew
      rw [if_neg hcontains, hmap]
      refine ⟨rfl, fun other hother => ?_, List.pairwise_cons.2 ⟨fun later hlater =>
        (hsplit later hlater).2, hdistinct⟩⟩
      rcases List.mem_cons.1 hother with rfl | hlater
      · exact Bool.eq_false_iff.2 hcontains
      · exact (hsplit other hlater).1

/-- Items with different keys, none of which was known, are all added. -/
theorem extras_distinct {items : List ListOperatorEntry}
    (hnew : ∀ item ∈ items, ListSpec.contains known item.key = false)
    (hdistinct : items.Pairwise fun before after => before.key.semanticEq after.key = false) :
    extras known items = items.map ListOperatorEntry.entry := by
  induction items generalizing known with
  | nil => rfl
  | cons item items ih =>
    obtain ⟨hfirst, hrest⟩ := List.pairwise_cons.1 hdistinct
    rw [extras, hnew item List.mem_cons_self, if_neg Bool.false_ne_true, List.map_cons,
      ih (fun later hlater => ?_) hrest]
    rw [contains_append, contains_singleton, hfirst later hlater,
      hnew later (List.mem_cons_of_mem _ hlater)]
    rfl

/-! ## Tidy entries -/

/-- The items of some of the entries of a list. -/
def itemsOf (live : Value → Bool) (entries rest : List Entry) : List ListOperatorEntry :=
  ((rest.map Entry.key).filter live).map (snapshotItem entries)

theorem length_itemsOf (live : Value → Bool) (entries rest : List Entry) :
    (itemsOf live entries rest).length = ((rest.map Entry.key).filter live).length :=
  List.length_map _

theorem length_itemsOf_le (live : Value → Bool) (entries rest : List Entry) :
    (itemsOf live entries rest).length ≤ rest.length := by
  rw [length_itemsOf, ← List.length_map Entry.key]
  exact List.length_filter_le _ _

theorem itemsOf_live (h : ∀ entry ∈ rest, live entry.key = true) :
    itemsOf live entries rest = rest.map fun entry => snapshotItem entries entry.key := by
  have hfilter : (rest.map Entry.key).filter live = rest.map Entry.key := by
    refine List.filter_eq_self.2 fun key hkey => ?_
    obtain ⟨entry, hentry, rfl⟩ := List.mem_map.1 hkey
    exact h entry hentry
  rw [itemsOf, hfilter, List.map_map]
  rfl

theorem live_of_length (h : (itemsOf live entries rest).length = rest.length) :
    ∀ entry ∈ rest, live entry.key = true := by
  intro entry hentry
  rw [length_itemsOf, ← List.length_map Entry.key] at h
  have hall := List.length_filter_eq_length_iff.1 h
  exact hall _ (List.mem_map_of_mem hentry)

variable {value : Value}

theorem associated_some {key : Value} (h : ListSpec.associated entries key = some value) :
    ∃ pair, .inr pair ∈ entries ∧ pair.1.semanticEq key = true ∧ pair.2 = value := by
  rw [ListSpec.associated, Option.bind_eq_some_iff] at h
  obtain ⟨place, hfind, hvalue⟩ := h
  obtain ⟨hplace, hkey, -⟩ := List.findIdx?_eq_some_iff_getElem.1 hfind
  have hget := List.getElem?_eq_getElem hplace
  rw [ListSpec.pairValue, hget, Option.bind_some] at hvalue
  cases hentry : entries[place] with
  | inl other =>
    rw [hentry] at hvalue
    cases hvalue
  | inr pair =>
    rw [hentry] at hvalue hkey
    rw [hentry] at hget
    exact ⟨pair, List.mem_of_getElem? hget, hkey, Option.some.inj hvalue⟩

theorem associated_ne_none {key : Value} {pair : Value × Value} (hpair : .inr pair ∈ entries)
    (heq : pair.1.semanticEq key = true) : ListSpec.associated entries key ≠ none := by
  intro hnone
  rw [ListSpec.associated] at hnone
  cases hfind : entries.findIdx? (ListSpec.isAssociation key) with
  | none =>
    have hnot := List.findIdx?_eq_none_iff.1 hfind _ hpair
    rw [ListSpec.isAssociation, heq] at hnot
    cases hnot
  | some place =>
    obtain ⟨hplace, hkey, -⟩ := List.findIdx?_eq_some_iff_getElem.1 hfind
    rw [hfind, Option.bind_some, ListSpec.pairValue, List.getElem?_eq_getElem hplace,
      Option.bind_some] at hnone
    cases hentry : entries[place] with
    | inl other =>
      rw [hentry] at hkey
      cases hkey
    | inr other =>
      rw [hentry] at hnone
      cases hnone

theorem Tidy.eq_of_mem (h : Tidy live rest) {one other : Entry} (hone : one ∈ rest)
    (hother : other ∈ rest) (heq : one.key.semanticEq other.key = true) : one = other := by
  by_contra hne
  have hsymm : Std.Symm fun before after : Entry => before.key.semanticEq after.key = false :=
    ⟨fun before after hfalse => by rwa [semanticEq_comm]⟩
  have hdistinct := h.distinct.forall hone hother hne
  rw [heq] at hdistinct
  cases hdistinct

/-- A tidy part of a list that has every entry with a key of its own is made again of its items. -/
theorem Tidy.entries_eq (h : Tidy live rest)
    (hsub : ∀ entry ∈ rest, entry ∈ entries)
    (hclosed : ∀ entry ∈ entries, ∀ other ∈ rest, entry.key.semanticEq other.key = true →
      entry ∈ rest) {entry : Entry} (hentry : entry ∈ rest) :
    (snapshotItem entries entry.key).entry = entry := by
  rw [ListOperatorEntry.entry, snapshotItem]
  cases hassociated : ListSpec.associated entries entry.key with
  | none =>
    cases entry with
    | inl value => rfl
    | inr pair =>
      exact absurd hassociated
        (associated_ne_none (hsub _ hentry) (h.equal pair hentry))
  | some value =>
    obtain ⟨pair, hpair, hkey, rfl⟩ := associated_some hassociated
    have hmem := hclosed _ hpair _ hentry hkey
    have hsame := h.eq_of_mem hmem hentry hkey
    rw [← hsame]
    rfl

theorem Tidy.extras_eq (h : Tidy live rest)
    (hsub : ∀ entry ∈ rest, entry ∈ entries)
    (hclosed : ∀ entry ∈ entries, ∀ other ∈ rest, entry.key.semanticEq other.key = true →
      entry ∈ rest) : extras [] (itemsOf live entries rest) = rest := by
  rw [itemsOf_live h.live, extras_distinct, List.map_map]
  · refine (List.map_congr_left fun entry hentry => ?_).trans (List.map_id rest)
    exact h.entries_eq hsub hclosed hentry
  · intro item _
    rfl
  · rw [List.pairwise_map]
    exact h.distinct

/-- A part that its items make again is tidy. -/
theorem tidy_of_extras (h : extras [] (itemsOf live entries rest) = rest) : Tidy live rest := by
  have hle := length_itemsOf_le live entries rest
  have hextras := length_extras_le [] (itemsOf live entries rest)
  rw [h] at hextras
  have hlive := live_of_length (Nat.le_antisymm hle hextras)
  rw [itemsOf_live hlive] at h
  have hlength : (extras [] (rest.map fun entry => snapshotItem entries entry.key)).length =
      (rest.map fun entry => snapshotItem entries entry.key).length := by
    rw [h, List.length_map]
  obtain ⟨hmap, -, hdistinct⟩ := extras_all hlength
  rw [h, List.map_map] at hmap
  refine ⟨hlive, fun pair hpair => ?_, ?_⟩
  · have heach := List.map_inj_left.1 (hmap.symm.trans (List.map_id rest).symm) _ hpair
    rw [Function.comp_apply, ListOperatorEntry.entry, snapshotItem, Entry.key] at heach
    cases hassociated : ListSpec.associated entries pair.1 with
    | none =>
      rw [hassociated] at heach
      cases heach
    | some value =>
      obtain ⟨other, -, hkey, -⟩ := associated_some hassociated
      exact contains_self_of_left hkey
  · rwa [List.pairwise_map] at hdistinct

/-! ## Both forms -/

theorem contains_itemsOf (live : Value → Bool) (entries rest : List Entry) (value : Value) :
    hasKey (itemsOf live entries rest) value =
      ((rest.map Entry.key).filter live).any fun key => key.semanticEq value := by
  rw [hasKey, itemsOf, List.any_map]
  rfl

/-- Values that are equal are live together. -/
def LiveCongr (live : Value → Bool) : Prop :=
  ∀ a b : Value, a.semanticEq b = true → live a = live b

theorem hasKey_itemsOf_live (hlive : LiveCongr live) (hvalue : live value = true) :
    hasKey (itemsOf live entries rest) value = ListSpec.contains rest value := by
  rw [contains_itemsOf, ListSpec.contains, Bool.eq_iff_iff, List.any_eq_true, List.any_eq_true]
  constructor
  · rintro ⟨key, hkey, heq⟩
    obtain ⟨entry, hentry, rfl⟩ := List.mem_map.1 (List.mem_filter.1 hkey).1
    exact ⟨entry, hentry, heq⟩
  · rintro ⟨entry, hentry, heq⟩
    refine ⟨entry.key, List.mem_filter.2 ⟨List.mem_map_of_mem hentry, ?_⟩, heq⟩
    rw [hlive _ _ heq, hvalue]

theorem hasKey_itemsOf_dead (hlive : LiveCongr live) (hvalue : live value = false) :
    hasKey (itemsOf live entries rest) value = false := by
  rw [contains_itemsOf, List.any_eq_false]
  intro key hkey heq
  have hboth := hlive _ _ heq
  rw [(List.mem_filter.1 hkey).2, hvalue] at hboth
  cases hboth

theorem contains_extras_nil (items : List ListOperatorEntry) (value : Value) :
    ListSpec.contains (extras [] items) value = hasKey items value := by
  exact contains_extras [] items value

/-- A part of the entries that has the live entries whose keys it has. -/
structure Closed (live : Value → Bool) (entries rest : List Entry) : Prop where
  sub : ∀ entry ∈ rest, entry ∈ entries
  closed : ∀ entry ∈ entries, ∀ other ∈ rest, entry.key.semanticEq other.key = true →
    live other.key = true → entry ∈ rest

theorem Closed.extras_iff (h : Closed live entries rest) :
    extras [] (itemsOf live entries rest) = rest ↔ Tidy live rest := by
  constructor
  · exact tidy_of_extras
  · intro htidy
    refine htidy.extras_eq h.sub fun entry hentry other hother heq => ?_
    exact h.closed entry hentry other hother heq (htidy.live other hother)

variable {right : Value}

/-- Nothing is left out but a dead operand at the end. -/
theorem Closed.front {front : List Entry} (h : Closed live entries (front ++ [.inl right]))
    (hlive : LiveCongr live) (hdead : live right = false) : Closed live entries front where
  sub entry hentry := h.sub entry (List.mem_append_left _ hentry)
  closed entry hentry other hother heq hotherLive := by
    have hmem := h.closed entry hentry other (List.mem_append_left _ hother) heq hotherLive
    rcases List.mem_append.1 hmem with hfront | hlast
    · exact hfront
    · rw [List.mem_singleton.1 hlast] at heq
      have hboth := hlive _ _ heq
      rw [hotherLive, Entry.key, hdead] at hboth
      cases hboth

theorem itemsOf_front (hdead : live right = false) (front : List Entry) :
    itemsOf live entries (front ++ [.inl right]) = itemsOf live entries front := by
  rw [itemsOf, itemsOf, List.map_append, List.filter_append]
  have hnone : ([Sum.inl right].map Entry.key).filter live = [] := by
    rw [List.map_singleton, Entry.key, List.filter_cons_of_neg (by rw [hdead]; decide),
      List.filter_nil]
  rw [hnone, List.append_nil]

/-- A dead operand is added behind the items of the left list, and behind its entries where it is
not one of them. -/
theorem dead_additions_iff (hlive : LiveCongr live) (h : Closed live entries rest)
    (hdead : live right = false) (hself : right.semanticEq right = true) :
    extras [] (itemsOf live entries rest) ++
        extras (extras [] (itemsOf live entries rest)) [⟨right, none⟩] =
      rest ++ extras rest [⟨right, none⟩] ↔ TidyBut live right rest := by
  have hnone : ListSpec.contains (extras [] (itemsOf live entries rest)) right = false := by
    rw [contains_extras_nil, hasKey_itemsOf_dead hlive hdead]
  have hlast : extras (extras [] (itemsOf live entries rest)) [⟨right, none⟩] = [.inl right] := by
    rw [extras, hnone, if_neg Bool.false_ne_true, extras]
    rfl
  rw [hlast]
  cases hcontains : ListSpec.contains rest right with
  | true =>
    have hsame : extras rest [⟨right, none⟩] = [] := by
      rw [extras, hcontains, if_pos rfl, extras]
    rw [hsame, List.append_nil]
    constructor
    · intro heq
      refine Or.inr ⟨hdead, _, heq.symm, ?_⟩
      rw [← heq, itemsOf_front hdead] at heq
      have hfront := List.append_cancel_right heq
      exact tidy_of_extras hfront
    · rintro (htidy | ⟨-, front, rfl, htidy⟩)
      · rw [ListSpec.contains, List.any_eq_true] at hcontains
        obtain ⟨entry, hentry, heq⟩ := hcontains
        have hboth := hlive _ _ heq
        rw [htidy.live entry hentry, hdead] at hboth
        cases hboth
      · rw [itemsOf_front hdead, (h.front hlive hdead).extras_iff.2 htidy]
  | false =>
    have hadded : extras rest [⟨right, none⟩] = [.inl right] := by
      rw [extras, hcontains, if_neg Bool.false_ne_true, extras]
      rfl
    rw [hadded, List.append_left_inj, h.extras_iff]
    constructor
    · exact Or.inl
    · rintro (htidy | ⟨-, front, rfl, -⟩)
      · exact htidy
      · rw [contains_append, Bool.or_eq_false_iff] at hcontains
        have hlastFalse := hcontains.2
        rw [ListSpec.contains, List.any_cons, Entry.key, hself] at hlastFalse
        cases hlastFalse

theorem live_additions_iff (hlive : LiveCongr live) (h : Closed live entries rest)
    (hright : live right = true) {added : List ListOperatorEntry}
    (hadded : ∀ item ∈ added, live item.key = true) : extras [] (itemsOf live entries rest) ++
        extras (extras [] (itemsOf live entries rest)) added =
      rest ++ extras rest added ↔ TidyBut live right rest := by
  have hsame : extras (extras [] (itemsOf live entries rest)) added = extras rest added := by
    refine extras_congr fun item hitem => ?_
    rw [contains_extras_nil, hasKey_itemsOf_live hlive (hadded item hitem)]
  rw [hsame, List.append_left_inj, h.extras_iff]
  constructor
  · exact Or.inl
  · rintro (htidy | ⟨hdead, -⟩)
    · exact htidy
    · rw [hright] at hdead
      cases hdead

/-! ## The difference -/

theorem closed_self (live : Value → Bool) (entries : List Entry) : Closed live entries entries :=
  ⟨fun _ hentry => hentry, fun _ hentry _ _ _ _ => hentry⟩

theorem hasKey_congr (h : a.semanticEq b = true) (items : List ListOperatorEntry) :
    hasKey items a = hasKey items b := by
  rw [hasKey, hasKey]
  exact List.any_congr rfl fun item => semanticEq_congr_right h item.key

theorem closed_unmatched (hlive : LiveCongr live) (right : List ListOperatorEntry)
    (entries : List Entry) : Closed live entries (unmatched live right entries) where
  sub _ hentry := (List.mem_filter.1 hentry).1
  closed entry hentry other hother heq _ := by
    refine List.mem_filter.2 ⟨hentry, ?_⟩
    rw [hlive _ _ heq, hasKey_congr heq]
    exact (List.mem_filter.1 hother).2

theorem filter_snapshot (right : List ListOperatorEntry) (entries : List Entry) :
    (snapshot live entries).filter (fun item => !hasKey right item.key) =
      itemsOf live entries (unmatched live right entries) := by
  rw [snapshot, itemsOf, unmatched, List.filter_map, List.filter_filter]
  refine congrArg (List.map (snapshotItem entries)) ?_
  rw [List.filter_map, List.filter_map, List.filter_filter]
  refine congrArg (List.map Entry.key) (List.filter_congr fun entry _ => ?_)
  show (!hasKey right entry.key && live entry.key) =
    (live entry.key && !(live entry.key && hasKey right entry.key))
  cases live entry.key <;> simp

theorem mem_extras {items : List ListOperatorEntry} {entry : Entry} (h : entry ∈ extras known items)
    : ∃ item ∈ items, item.entry = entry := by
  induction items generalizing known with
  | nil => exact absurd h List.not_mem_nil
  | cons item items ih =>
    rw [extras] at h
    split at h
    · obtain ⟨later, hlater, heq⟩ := ih h
      exact ⟨later, List.mem_cons_of_mem _ hlater, heq⟩
    · rcases List.mem_cons.1 h with rfl | hrest
      · exact ⟨item, List.mem_cons_self, rfl⟩
      · obtain ⟨later, hlater, heq⟩ := ih hrest
        exact ⟨later, List.mem_cons_of_mem _ hlater, heq⟩

theorem extras_append (known : List Entry) (items later : List ListOperatorEntry) :
    extras known (items ++ later) =
      extras known items ++ extras (known ++ extras known items) later := by
  have hfold := foldl_addEntry known (items ++ later)
  rw [List.foldl_append, foldl_addEntry, foldl_addEntry, List.append_assoc] at hfold
  exact (List.append_cancel_left hfold).symm

section

variable {original : List ListOperatorEntry} {item : ListOperatorEntry}

/-- What is added is not removed again, since the left list does not have it. -/
theorem removeAll_extras {added : List ListOperatorEntry}
    (hadded : ∀ other ∈ added, hasKey original other.key = false)
    (hitem : hasKey original item.key = true) :
    ListSpec.removeAll (extras [] added) item.key = extras [] added := by
  refine List.filter_eq_self.2 fun entry hentry => ?_
  obtain ⟨other, hother, rfl⟩ := mem_extras hentry
  rw [entry_key, Bool.not_eq_true']
  refine Bool.eq_false_iff.2 fun heq => ?_
  have hnot := hadded other hother
  rw [hasKey_congr heq, hitem] at hnot
  cases hnot

theorem removeAll_unmatched (hlive : LiveCongr live) (hitem : live item.key = true)
    (done : List ListOperatorEntry) :
    ListSpec.removeAll (unmatched live done entries) item.key =
      unmatched live (done ++ [item]) entries := by
  rw [ListSpec.removeAll, unmatched, unmatched, List.filter_filter]
  refine List.filter_congr fun entry _ => ?_
  have hsplit : hasKey (done ++ [item]) entry.key =
      (hasKey done entry.key || item.key.semanticEq entry.key) := by
    rw [hasKey, List.any_append, List.any_cons, List.any_nil, Bool.or_false]
    rfl
  rw [hsplit, semanticEq_comm entry.key]
  show (!item.key.semanticEq entry.key && !(live entry.key && hasKey done entry.key)) =
    !(live entry.key && (hasKey done entry.key || item.key.semanticEq entry.key))
  cases heq : item.key.semanticEq entry.key with
  | false => rw [Bool.not_false, Bool.true_and, Bool.or_false]
  | true =>
    rw [← hlive _ _ heq, hitem, Bool.or_true]
    rfl

theorem contains_unmatched (hlive : LiveCongr live) (hitem : live item.key = true)
    (hnone : hasKey (snapshot live entries) item.key = false) (done : List ListOperatorEntry) :
    ListSpec.contains (unmatched live done entries) item.key = false := by
  have hentries := hnone
  rw [show snapshot live entries = itemsOf live entries entries from rfl,
    hasKey_itemsOf_live hlive hitem, ListSpec.contains, List.any_eq_false] at hentries
  rw [ListSpec.contains, List.any_eq_false]
  exact fun entry hentry => hentries entry (List.mem_filter.1 hentry).1

theorem unmatched_concat (hlive : LiveCongr live) (hitem : live item.key = true)
    (hnone : hasKey (snapshot live entries) item.key = false) (done : List ListOperatorEntry) :
    unmatched live (done ++ [item]) entries = unmatched live done entries := by
  rw [← removeAll_unmatched hlive hitem]
  refine List.filter_eq_self.2 fun entry hentry => ?_
  have hcontains := contains_unmatched hlive hitem hnone done
  rw [ListSpec.contains, List.any_eq_false] at hcontains
  rw [Bool.not_eq_true']
  exact Bool.eq_false_iff.2 (hcontains entry hentry)

/-- The loop of `^=`: what was exchanged is gone, what was added is behind the rest. -/
theorem foldl_exchange (hlive : LiveCongr live) {done added right : List ListOperatorEntry}
    (hright : ∀ item ∈ right, live item.key = true)
    (hadded : ∀ other ∈ added, hasKey (snapshot live entries) other.key = false) :
    right.foldl (exchangeEntry (snapshot live entries))
        (unmatched live done entries ++ extras [] added) =
      unmatched live (done ++ right) entries ++ extras []
        (added ++ right.filter fun item => !hasKey (snapshot live entries) item.key) := by
  induction right generalizing done added with
  | nil => rw [List.filter_nil, List.append_nil, List.append_nil, List.foldl_nil]
  | cons item right ih =>
    have hitem := hright item List.mem_cons_self
    have hrest (later : ListOperatorEntry) (hlater : later ∈ right) : live later.key = true :=
      hright later (List.mem_cons_of_mem _ hlater)
    rw [List.foldl_cons, exchangeEntry, ← List.singleton_append, ← List.append_assoc]
    cases hhas : hasKey (snapshot live entries) item.key with
    | true =>
      have hremoved : ListSpec.removeAll (unmatched live done entries ++ extras [] added) item.key =
          unmatched live (done ++ [item]) entries ++ extras [] added := by
        have hsplit := @List.filter_append _ (fun entry => !entry.key.semanticEq item.key)
          (unmatched live done entries) (extras [] added)
        rw [ListSpec.removeAll, hsplit]
        exact congrArg₂ (· ++ ·) (removeAll_unmatched hlive hitem done)
          (removeAll_extras hadded hhas)
      rw [if_pos rfl, hremoved, ih hrest hadded, List.singleton_append,
        List.filter_cons_of_neg (by rw [hhas]; decide)]
    | false =>
      have hnot := contains_unmatched hlive hitem hhas done
      have hsame : extras (unmatched live done entries ++ extras [] added) [item] =
          extras (extras [] added) [item] := by
        refine extras_congr fun other hother => ?_
        rw [List.mem_singleton.1 hother, contains_append, hnot, Bool.false_or]
      have hmore (other : ListOperatorEntry) (hother : other ∈ added ++ [item]) :
          hasKey (snapshot live entries) other.key = false := by
        rcases List.mem_append.1 hother with hbefore | hlast
        · exact hadded other hbefore
        · rw [List.mem_singleton.1 hlast]
          exact hhas
      have hextended := extras_append [] added [item]
      rw [List.nil_append] at hextended
      rw [if_neg Bool.false_ne_true, addEntry_guarded, hsame, List.append_assoc, ← hextended,
        ← unmatched_concat hlive hitem hhas, ih hrest hmore, List.singleton_append,
        List.filter_cons_of_pos (by rw [hhas]; rfl), List.append_assoc, List.singleton_append,
        List.append_assoc, List.singleton_append]

end

theorem unmatched_nil (entries : List Entry) : unmatched live [] entries = entries := by
  refine List.filter_eq_self.2 fun entry _ => ?_
  rw [hasKey, List.any_nil, Bool.and_false]
  rfl

/-- What `^=` leaves is what is left of the list, and what the right side adds to it. -/
theorem exchange_live (hlive : LiveCongr live) {right : List ListOperatorEntry}
    (hright : ∀ item ∈ right, live item.key = true) :
    right.foldl (exchangeEntry (snapshot live entries)) entries =
      unmatched live right entries ++ extras (unmatched live right entries)
        (right.filter fun item => !hasKey (snapshot live entries) item.key) := by
  have hfold := @foldl_exchange live entries hlive [] [] right hright
    fun other hother => absurd hother List.not_mem_nil
  rw [extras, List.append_nil, unmatched_nil, List.nil_append, List.nil_append] at hfold
  rw [hfold]
  refine congrArg (unmatched live right entries ++ ·) (extras_congr fun item hitem => ?_)
  obtain ⟨hmem, hnot⟩ := List.mem_filter.1 hitem
  rw [contains_unmatched hlive (hright item hmem) (by rwa [Bool.not_eq_true'] at hnot)]
  rfl

theorem exchange_dead (hlive : LiveCongr live) (hdead : live right = false) :
    [⟨right, none⟩].foldl (exchangeEntry (snapshot live entries)) entries =
      entries ++ extras entries [⟨right, none⟩] := by
  rw [List.foldl_cons, List.foldl_nil, exchangeEntry,
    show snapshot live entries = itemsOf live entries entries from rfl,
    hasKey_itemsOf_dead hlive hdead, if_neg Bool.false_ne_true, addEntry_guarded]

end Dream64.Vm
