import Mathlib

/-!
# A sequence in two pools

The entries of a sequence are kept in two pools, and an order of slots says
which entry of which pool comes where. `Holds` relates the three to the
sequence: the slots of the order are all slots of the pools, each once. A pool
that loses an entry closes up, and the slots behind it are renumbered.
-/

namespace Pools

/-- A place in the left or in the right pool. -/
abbrev Slot := Nat ⊕ Nat

section

variable {α β : Type} {left : List α} {right : List β} {order : List Slot} {entries : List (α ⊕ β)}

def lookup (left : List α) (right : List β) : Slot → Option (α ⊕ β)
  | .inl i => left[i]?.map .inl
  | .inr j => right[j]?.map .inr

/-- The slots in their order are the entries. -/
structure Holds (order : List Slot) (left : List α) (right : List β) (entries : List (α ⊕ β)) :
    Prop where
  lookups : order.map (lookup left right) = entries.map some
  nodup : order.Nodup
  left_mem : ∀ i < left.length, .inl i ∈ order
  right_mem : ∀ j < right.length, .inr j ∈ order

theorem Holds.length_eq (h : Holds order left right entries) : order.length = entries.length := by
  have hlength := congrArg List.length h.lookups
  rwa [List.length_map, List.length_map] at hlength

theorem Holds.getElem? (h : Holds order left right entries) (k : Nat) :
    order[k]?.map (lookup left right) = entries[k]?.map some := by
  have hk := congrArg (fun slots : List (Option (α ⊕ β)) => slots[k]?) h.lookups
  rwa [List.getElem?_map, List.getElem?_map] at hk

variable {k : Nat}

/-- The slot of an entry. -/
theorem Holds.lookup_of_slot (h : Holds order left right entries) {slot : Slot}
    (hslot : order[k]? = some slot) : ∃ entry, entries[k]? = some entry ∧
      lookup left right slot = some entry := by
  have hk := h.getElem? k
  rw [hslot, Option.map_some] at hk
  obtain ⟨entry, hentry, heq⟩ := Option.map_eq_some_iff.1 hk.symm
  exact ⟨entry, hentry, heq.symm⟩

theorem Holds.lookup_of_mem (h : Holds order left right entries) {slot : Slot}
    (hslot : slot ∈ order) : ∃ entry ∈ entries, lookup left right slot = some entry := by
  obtain ⟨k, hk⟩ := List.mem_iff_getElem?.1 hslot
  obtain ⟨entry, hentry, hlookup⟩ := h.lookup_of_slot hk
  exact ⟨entry, List.mem_of_getElem? hentry, hlookup⟩

variable {i : Nat}

theorem Holds.left_lt (h : Holds order left right entries) (hi : .inl i ∈ order) :
    i < left.length := by
  obtain ⟨entry, -, hlookup⟩ := h.lookup_of_mem hi
  obtain ⟨a, ha, -⟩ := Option.map_eq_some_iff.1 hlookup
  exact (List.getElem?_eq_some_iff.1 ha).1

variable {j : Nat}

theorem Holds.right_lt (h : Holds order left right entries) (hj : .inr j ∈ order) :
    j < right.length := by
  obtain ⟨entry, -, hlookup⟩ := h.lookup_of_mem hj
  obtain ⟨b, hb, -⟩ := Option.map_eq_some_iff.1 hlookup
  exact (List.getElem?_eq_some_iff.1 hb).1

/-- The order is as long as the pools are together. -/
theorem Holds.perm (h : Holds order left right entries) :
    order.Perm ((List.range left.length).map .inl ++ (List.range right.length).map .inr) := by
  have hnodup : ((List.range left.length).map (Sum.inl : Nat → Slot) ++
      (List.range right.length).map Sum.inr).Nodup := by
    refine List.nodup_append.2 ⟨List.nodup_range.map Sum.inl_injective,
      List.nodup_range.map Sum.inr_injective, ?_⟩
    intro a ha b hb heq
    obtain ⟨i, -, rfl⟩ := List.mem_map.1 ha
    obtain ⟨j, -, rfl⟩ := List.mem_map.1 hb
    cases heq
  refine (List.perm_ext_iff_of_nodup h.nodup hnodup).2 fun slot => ?_
  simp only [List.mem_append, List.mem_map, List.mem_range]
  cases slot with
  | inl i =>
    constructor
    · exact fun hi => Or.inl ⟨i, h.left_lt hi, rfl⟩
    · rintro (⟨j, hj, heq⟩ | ⟨j, -, heq⟩)
      · cases heq
        exact h.left_mem i hj
      · cases heq
  | inr j =>
    constructor
    · exact fun hj => Or.inr ⟨j, h.right_lt hj, rfl⟩
    · rintro (⟨i, -, heq⟩ | ⟨i, hi, heq⟩)
      · cases heq
      · cases heq
        exact h.right_mem j hi

theorem Holds.length_add (h : Holds order left right entries) :
    left.length + right.length = order.length := by
  rw [h.perm.length_eq, List.length_append, List.length_map, List.length_map, List.length_range,
    List.length_range]

/-- The pools in their own order. -/
theorem Holds.range (left : List α) :
    Holds ((List.range left.length).map .inl) left ([] : List β) (left.map .inl) where
  lookups := by
    apply List.ext_getElem
    · simp
    · intro i hi hi'
      simp at hi hi' ⊢
      simp [lookup, hi]
  nodup := List.nodup_range.map Sum.inl_injective
  left_mem := fun i hi => List.mem_map_of_mem (List.mem_range.2 hi)
  right_mem := fun j hj => absurd hj (Nat.not_lt_zero j)

/-! ## The other side -/

theorem lookup_swap (slot : Slot) :
    lookup right left slot.swap = (lookup left right slot).map Sum.swap := by
  cases slot <;> simp [lookup, Function.comp_def]

/-- The two pools change places. -/
theorem Holds.swap (h : Holds order left right entries) :
    Holds (order.map Sum.swap) right left (entries.map Sum.swap) where
  lookups := by
    have hlookups := congrArg (List.map (Option.map Sum.swap)) h.lookups
    rw [List.map_map, List.map_map] at hlookups
    rw [List.map_map, List.map_map]
    refine Eq.trans (List.map_congr_left fun slot _ => ?_) hlookups
    exact lookup_swap slot
  nodup := h.nodup.map Sum.swap_leftInverse.injective
  left_mem := fun i hi => List.mem_map.2 ⟨.inr i, h.right_mem i hi, rfl⟩
  right_mem := fun j hj => List.mem_map.2 ⟨.inl j, h.left_mem j hj, rfl⟩

variable {γ : Type}

theorem map_swap_swap {δ : Type} (values : List (γ ⊕ δ)) :
    (values.map Sum.swap).map Sum.swap = values := by
  rw [List.map_map]
  exact (List.map_congr_left fun value _ => Sum.swap_swap value).trans (List.map_id _)

/-! ## New entries -/

section

variable (h : Holds order left right entries)

include h

theorem Holds.insertLeft (a : α) (hk : k ≤ order.length) :
    Holds (order.insertIdx k (.inl left.length)) (left ++ [a]) right
      (entries.insertIdx k (.inl a)) where
  lookups := by
    have hold : ∀ slot ∈ order, lookup (left ++ [a]) right slot = lookup left right slot := by
      intro slot hslot
      cases slot with
      | inl i =>
        show (left ++ [a])[i]?.map _ = left[i]?.map _
        rw [List.getElem?_append_left (h.left_lt hslot)]
      | inr j => rfl
    rw [List.map_insertIdx, List.map_insertIdx, List.map_congr_left hold, h.lookups]
    show (entries.map some).insertIdx k ((left ++ [a])[left.length]?.map Sum.inl) = _
    rw [List.getElem?_concat_length]
    rfl
  nodup := by
    refine (List.perm_insertIdx _ _ hk).nodup_iff.2 (List.nodup_cons.2 ⟨fun hmem => ?_, h.nodup⟩)
    exact Nat.lt_irrefl _ (h.left_lt hmem)
  left_mem := by
    intro i hi
    rw [List.length_append, List.length_singleton, Nat.lt_succ_iff_lt_or_eq] at hi
    refine (List.perm_insertIdx _ _ hk).mem_iff.2 ?_
    rcases hi with hi | rfl
    · exact List.mem_cons_of_mem _ (h.left_mem i hi)
    · exact List.mem_cons_self
  right_mem := fun j hj =>
    (List.perm_insertIdx _ _ hk).mem_iff.2 (List.mem_cons_of_mem _ (h.right_mem j hj))

theorem Holds.insertRight (b : β) (hk : k ≤ order.length) :
    Holds (order.insertIdx k (.inr right.length)) left (right ++ [b])
      (entries.insertIdx k (.inr b)) := by
  have hle : k ≤ (order.map Sum.swap).length := by rwa [List.length_map]
  have hswap := (h.swap.insertLeft b hle).swap
  rwa [List.map_insertIdx, List.map_insertIdx, map_swap_swap, map_swap_swap] at hswap

/-- An entry of the left pool behind all others. -/
theorem Holds.append (a : α) :
    Holds (order ++ [.inl left.length]) (left ++ [a]) right (entries ++ [.inl a]) := by
  have hinsert := h.insertLeft a (Nat.le_refl order.length)
  rwa [List.insertIdx_length_self, h.length_eq, List.insertIdx_length_self] at hinsert

/-- An entry of the right pool behind all others. -/
theorem Holds.appendRight (b : β) :
    Holds (order ++ [.inr right.length]) left (right ++ [b]) (entries ++ [.inr b]) := by
  have hinsert := h.insertRight b (Nat.le_refl order.length)
  rwa [List.insertIdx_length_self, h.length_eq, List.insertIdx_length_self] at hinsert

/-- Entries of the left pool behind all others, one after the other. -/
theorem Holds.extend (values : List α) :
    Holds (order ++ (List.range' left.length values.length).map .inl) (left ++ values) right
      (entries ++ values.map .inl) := by
  induction values generalizing order left entries with
  | nil => simpa using h
  | cons a values ih =>
    have hrest := ih (h.append a)
    rw [List.length_append, List.length_singleton, List.append_assoc, List.append_assoc,
      List.append_assoc] at hrest
    rw [List.length_cons, List.range'_succ, List.map_cons, List.map_cons]
    exact hrest

end

/-! ## Entries that go -/

/-- The places behind one that is gone move up. -/
def closeUp (gone i : Nat) : Nat := if gone < i then i - 1 else i

def closeLeft (gone : Nat) : Slot → Slot
  | .inl i => .inl (closeUp gone i)
  | .inr j => .inr j

def closeRight (gone : Nat) : Slot → Slot
  | .inl i => .inl i
  | .inr j => .inr (closeUp gone j)

variable {values : List α} {gone : Nat}

theorem getElem?_closeUp (hne : i ≠ gone) :
    (values.eraseIdx gone)[closeUp gone i]? = values[i]? := by
  rw [closeUp]
  split
  · rename_i hlt
    rw [List.getElem?_eraseIdx_of_ge (by omega), show i - 1 + 1 = i by omega]
  · rw [List.getElem?_eraseIdx_of_lt (by omega)]

theorem closeUp_inj (hi : i ≠ gone) (hj : j ≠ gone) (h : closeUp gone i = closeUp gone j) :
    i = j := by
  simp only [closeUp] at h
  split at h <;> split at h <;> omega

theorem map_eraseIdx {δ : Type} (f : γ → δ) (values : List γ) (k : Nat) :
    (values.eraseIdx k).map f = (values.map f).eraseIdx k := (List.eraseIdx_map f values k).symm

theorem mem_eraseIdx_of_nodup (h : values.Nodup) {a : α} (hk : values[k]? = some a) {b : α} :
    b ∈ values.eraseIdx k ↔ b ∈ values ∧ b ≠ a := by
  obtain ⟨hlt, rfl⟩ := List.getElem?_eq_some_iff.1 hk
  have hperm := List.getElem_cons_eraseIdx_perm hlt
  have hnodup := List.nodup_cons.1 (hperm.nodup_iff.2 h)
  rw [← hperm.mem_iff, List.mem_cons]
  constructor
  · intro hb
    exact ⟨Or.inr hb, fun heq => hnodup.1 (heq ▸ hb)⟩
  · rintro ⟨rfl | hb, hne⟩
    · exact absurd rfl hne
    · exact hb

variable {p : Nat}

/-- The entry at a place of the order goes, which is in the left pool. -/
theorem Holds.eraseLeft (h : Holds order left right entries) (hk : order[k]? = some (.inl p)) :
    Holds ((order.eraseIdx k).map (closeLeft p))
      (left.eraseIdx p) right (entries.eraseIdx k) where
  lookups := by
    rw [List.map_map, map_eraseIdx some, ← h.lookups, ← map_eraseIdx]
    refine List.map_congr_left fun slot hslot => ?_
    obtain ⟨-, hne⟩ := (mem_eraseIdx_of_nodup h.nodup hk).1 hslot
    cases slot with
    | inl i =>
      show (left.eraseIdx p)[closeUp p i]?.map Sum.inl = _
      rw [getElem?_closeUp fun heq => hne (congrArg _ heq)]
      rfl
    | inr j => rfl
  nodup := by
    refine List.Nodup.map_on (fun a ha b hb heq => ?_) (h.nodup.eraseIdx k)
    obtain ⟨-, hane⟩ := (mem_eraseIdx_of_nodup h.nodup hk).1 ha
    obtain ⟨-, hbne⟩ := (mem_eraseIdx_of_nodup h.nodup hk).1 hb
    cases a with
    | inl i =>
      cases b with
      | inl j =>
        refine congrArg _ (closeUp_inj (fun heq' => hane (congrArg _ heq'))
          (fun heq' => hbne (congrArg _ heq')) (Sum.inl.inj heq))
      | inr j => cases heq
    | inr i =>
      cases b with
      | inl j => cases heq
      | inr j => exact heq
  left_mem := by
    intro i hi
    have hp := h.left_lt (List.mem_of_getElem? hk)
    rw [List.length_eraseIdx_of_lt hp] at hi
    have hmem (j : Nat) (hj : j < left.length) (hne : j ≠ p) : .inl j ∈ order.eraseIdx k :=
      (mem_eraseIdx_of_nodup h.nodup hk).2 ⟨h.left_mem j hj, fun heq => hne (Sum.inl.inj heq)⟩
    by_cases hlt : i < p
    · refine List.mem_map.2 ⟨.inl i, hmem i (by omega) (by omega), ?_⟩
      show Sum.inl (closeUp p i) = _
      rw [closeUp, if_neg (by omega)]
    · refine List.mem_map.2 ⟨.inl (i + 1), hmem (i + 1) (by omega) (by omega), ?_⟩
      show Sum.inl (closeUp p (i + 1)) = _
      rw [closeUp, if_pos (by omega), Nat.add_sub_cancel]
  right_mem := by
    intro j hj
    refine List.mem_map.2 ⟨.inr j, (mem_eraseIdx_of_nodup h.nodup hk).2 ⟨h.right_mem j hj, ?_⟩, rfl⟩
    intro heq
    cases heq

theorem swap_closeLeft (gone : Nat) (slots : List Slot) :
    ((slots.map Sum.swap).map (closeLeft gone)).map Sum.swap = slots.map (closeRight gone) := by
  rw [List.map_map, List.map_map]
  refine List.map_congr_left fun slot _ => ?_
  cases slot <;> rfl

theorem Holds.eraseRight (h : Holds order left right entries) (hk : order[k]? = some (.inr p)) :
    Holds ((order.eraseIdx k).map (closeRight p))
      left (right.eraseIdx p) (entries.eraseIdx k) := by
  have hswapped : (order.map Sum.swap)[k]? = some (.inl p) := by
    rw [List.getElem?_map, hk]
    rfl
  have hswap := (h.swap.eraseLeft hswapped).swap
  rwa [← map_eraseIdx, ← map_eraseIdx, swap_closeLeft, map_swap_swap] at hswap

/-! ## Entries that change -/

theorem insertIdx_eraseIdx_self (values : List γ) (hk : k < values.length) (a : γ) :
    (values.eraseIdx k).insertIdx k a = values.set k a := by
  apply List.ext_getElem?
  intro i
  rcases Nat.lt_trichotomy i k with hlt | rfl | hgt
  · rw [List.getElem?_insertIdx_of_lt hlt, List.getElem?_eraseIdx_of_lt hlt,
      List.getElem?_set_ne (by omega)]
  · rw [List.getElem?_insertIdx_self, if_pos (by rw [List.length_eraseIdx_of_lt hk]; omega),
      List.getElem?_set_self hk]
  · rw [List.getElem?_insertIdx_of_gt hgt, List.getElem?_eraseIdx_of_ge (by omega),
      List.getElem?_set_ne (by omega), show i - 1 + 1 = i by omega]

section

variable (h : Holds order left right entries)

include h

/-- An entry of the left pool moves to the right one. -/
theorem Holds.moveRight (hk : order[k]? = some (.inl p)) (b : β) :
    Holds ((order.map (closeLeft p)).set k (.inr right.length)) (left.eraseIdx p) (right ++ [b])
      (entries.set k (.inr b)) := by
  have hlt := (List.getElem?_eq_some_iff.1 hk).1
  have herase := h.eraseLeft hk
  have hinsert := herase.insertRight (k := k) b
    (by rw [List.length_map, List.length_eraseIdx_of_lt hlt]; omega)
  rwa [map_eraseIdx, insertIdx_eraseIdx_self _ (by rwa [List.length_map]),
    insertIdx_eraseIdx_self _ (h.length_eq ▸ hlt)] at hinsert

/-- An entry of the right pool moves to the left one. -/
theorem Holds.moveLeft (hk : order[k]? = some (.inr p)) (a : α)
    : Holds ((order.map (closeRight p)).set k (.inl left.length)) (left ++ [a]) (right.eraseIdx p)
      (entries.set k (.inl a)) := by
  have hlt := (List.getElem?_eq_some_iff.1 hk).1
  have herase := h.eraseRight hk
  have hinsert := herase.insertLeft (k := k) a
    (by rw [List.length_map, List.length_eraseIdx_of_lt hlt]; omega)
  rwa [map_eraseIdx, insertIdx_eraseIdx_self _ (by rwa [List.length_map]),
    insertIdx_eraseIdx_self _ (h.length_eq ▸ hlt)] at hinsert

theorem Holds.setLeft (hk : order[k]? = some (.inl p)) (a : α)
    : Holds order (left.set p a) right (entries.set k (.inl a)) where
  lookups := by
    apply List.ext_getElem?
    intro i
    rw [List.getElem?_map, List.getElem?_map]
    obtain ⟨hlt, hget⟩ := List.getElem?_eq_some_iff.1 hk
    have hp := h.left_lt (List.mem_of_getElem? hk)
    by_cases hi : i = k
    · subst hi
      rw [hk, List.getElem?_set_self (h.length_eq ▸ hlt)]
      show some ((left.set p a)[p]?.map Sum.inl) = _
      rw [List.getElem?_set_self hp]
      rfl
    · rw [List.getElem?_set_ne (Ne.symm hi), ← h.getElem? i]
      cases hslot : order[i]? with
      | none => rfl
      | some slot =>
        cases slot with
        | inl q =>
          have hne : p ≠ q := by
            rintro rfl
            obtain ⟨hilt, higet⟩ := List.getElem?_eq_some_iff.1 hslot
            exact hi ((List.Nodup.getElem_inj_iff h.nodup).1 (higet.trans hget.symm))
          show some ((left.set p a)[q]?.map Sum.inl) = some (left[q]?.map Sum.inl)
          rw [List.getElem?_set_ne hne]
        | inr q => rfl
  nodup := h.nodup
  left_mem := fun i hi => h.left_mem i (by rwa [List.length_set] at hi)
  right_mem := h.right_mem

theorem Holds.setRight (hk : order[k]? = some (.inr p)) (b : β)
    : Holds order left (right.set p b) (entries.set k (.inr b)) := by
  have hswapped : (order.map Sum.swap)[k]? = some (.inl p) := by
    rw [List.getElem?_map, hk]
    rfl
  have hswap := (h.swap.setLeft hswapped b).swap
  rwa [map_swap_swap, List.map_set, map_swap_swap] at hswap

/-- Two places of the order change their slots. -/
theorem Holds.exchange {a b : Slot} {x y : α ⊕ β} (hi : order[i]? = some a)
    (hj : order[j]? = some b) (hx : entries[i]? = some x) (hy : entries[j]? = some y) :
    Holds ((order.set i b).set j a) left right ((entries.set i y).set j x) := by
  obtain ⟨hilt, rfl⟩ := List.getElem?_eq_some_iff.1 hi
  obtain ⟨hjlt, rfl⟩ := List.getElem?_eq_some_iff.1 hj
  have hperm := List.set_set_perm hilt hjlt
  have hslot (k : Nat) (slot : Slot) (entry : α ⊕ β) (hk : order[k]? = some slot)
      (hentry : entries[k]? = some entry) : lookup left right slot = some entry := by
    obtain ⟨found, hfound, hlookup⟩ := h.lookup_of_slot hk
    rw [hlookup, ← hfound, hentry]
  refine ⟨?_, hperm.nodup_iff.2 h.nodup, fun k hk => hperm.mem_iff.2 (h.left_mem k hk),
    fun k hk => hperm.mem_iff.2 (h.right_mem k hk)⟩
  rw [List.map_set, List.map_set, List.map_set, List.map_set, h.lookups, hslot i _ x hi hx,
    hslot j _ y hj hy]

end

/-! ## Many entries that go -/

/-- The entries whose flag is not set. -/
def kept : List α → List Bool → List α
  | a :: values, flag :: flags => if flag then kept values flags else a :: kept values flags
  | _, _ => []

theorem kept_sublist (values : List α) (flags : List Bool) : (kept values flags).Sublist values := by
  induction values generalizing flags with
  | nil => exact List.Sublist.refl _
  | cons a values ih =>
    cases flags with
    | nil => exact List.nil_sublist _
    | cons flag flags =>
      cases flag with
      | true => exact (ih flags).cons a
      | false => exact (ih flags).cons_cons a

/-- The number of entries that are kept before a place. -/
def rank : List Bool → Nat → Nat
  | [], _ => 0
  | _, 0 => 0
  | true :: flags, i + 1 => rank flags i
  | false :: flags, i + 1 => rank flags i + 1

/-- The new places, from a next one on; those that go have a place of no meaning. -/
def renumber (gone : Nat) : Nat → List Bool → List Nat
  | _, [] => []
  | next, true :: flags => gone :: renumber gone next flags
  | next, false :: flags => next :: renumber gone (next + 1) flags

variable {flags : List Bool}

theorem getElem?_renumber {next : Nat} (h : flags[i]? = some false) :
    (renumber gone next flags)[i]? = some (next + rank flags i) := by
  induction flags generalizing next i with
  | nil => cases h
  | cons flag flags ih =>
    cases i with
    | zero =>
      cases h
      rfl
    | succ i =>
      rw [List.getElem?_cons_succ] at h
      cases flag with
      | true => exact ih h
      | false =>
        rw [renumber, List.getElem?_cons_succ, ih h, rank, Nat.add_right_comm, Nat.add_assoc]

theorem getElem?_kept (hlength : flags.length = values.length) (h : flags[i]? = some false) :
    (kept values flags)[rank flags i]? = values[i]? := by
  induction flags generalizing values i with
  | nil => cases h
  | cons flag flags ih =>
    cases values with
    | nil => cases hlength
    | cons a values =>
      have hrest : flags.length = values.length := Nat.succ.inj hlength
      cases i with
      | zero =>
        cases h
        rfl
      | succ i =>
        rw [List.getElem?_cons_succ] at h
        cases flag with
        | true => exact ih hrest h
        | false =>
          show (a :: kept values flags)[rank flags i + 1]? = _
          rw [List.getElem?_cons_succ, List.getElem?_cons_succ, ih hrest h]

theorem rank_lt (h : flags[i]? = some false) (hij : i < j) : rank flags i < rank flags j := by
  induction flags generalizing i j with
  | nil => cases h
  | cons flag flags ih =>
    cases j with
    | zero => cases hij
    | succ j =>
      cases i with
      | zero =>
        cases h
        exact Nat.succ_pos _
      | succ i =>
        rw [List.getElem?_cons_succ] at h
        have hlt := ih h (Nat.lt_of_succ_lt_succ hij)
        cases flag with
        | true => exact hlt
        | false => exact Nat.succ_lt_succ hlt

theorem rank_inj (hi : flags[i]? = some false) (hj : flags[j]? = some false)
    (h : rank flags i = rank flags j) : i = j := by
  rcases Nat.lt_trichotomy i j with hlt | heq | hgt
  · exact absurd h (Nat.ne_of_lt (rank_lt hi hlt))
  · exact heq
  · exact absurd h.symm (Nat.ne_of_lt (rank_lt hj hgt))

/-- Every place that is left is the new one of some entry. -/
theorem exists_rank (hlength : flags.length = values.length) {n : Nat}
    (h : n < (kept values flags).length) : ∃ i, flags[i]? = some false ∧ rank flags i = n := by
  induction flags generalizing values n with
  | nil =>
    cases values with
    | nil => cases h
    | cons => cases hlength
  | cons flag flags ih =>
    cases values with
    | nil => cases hlength
    | cons a values =>
      have hrest : flags.length = values.length := Nat.succ.inj hlength
      cases flag with
      | true =>
        obtain ⟨i, hi, hrank⟩ := ih hrest h
        exact ⟨i + 1, hi, hrank⟩
      | false =>
        cases n with
        | zero => exact ⟨0, rfl, rfl⟩
        | succ n =>
          obtain ⟨i, hi, hrank⟩ := ih hrest (Nat.lt_of_succ_lt_succ h)
          exact ⟨i + 1, hi, congrArg (· + 1) hrank⟩

/-- The new slot of an entry that is kept. -/
def rankSlot (leftFlags rightFlags : List Bool) : Slot → Slot
  | .inl i => .inl (rank leftFlags i)
  | .inr j => .inr (rank rightFlags j)

/-- The flags of a pool say which of its slots go. -/
def Flags (side : Nat → Slot) (gone : List Slot) (count : Nat) (flags : List Bool) : Prop :=
  flags.length = count ∧ ∀ i < count, flags[i]? = some true ↔ side i ∈ gone

theorem Flags.eq_false {side : Nat → Slot} {gone : List Slot} {count : Nat}
    (h : Flags side gone count flags) (hi : i < count) :
    flags[i]? = some false ↔ side i ∉ gone := by
  rw [← h.2 i hi]
  have hlt : i < flags.length := h.1.symm ▸ hi
  rw [List.getElem?_eq_getElem hlt]
  cases flags[i] <;> simp

/-- Some slots of the order go, and the entries of the others are kept. -/
theorem Holds.keep (h : Holds order left right entries) {rest gone : List Slot}
    {leftFlags rightFlags : List Bool} {entries' : List (α ⊕ β)}
    (hperm : (rest ++ gone).Perm order) (hleft : Flags .inl gone left.length leftFlags)
    (hright : Flags .inr gone right.length rightFlags)
    (hlookups : rest.map (lookup left right) = entries'.map some) :
    Holds (rest.map (rankSlot leftFlags rightFlags)) (kept left leftFlags) (kept right rightFlags)
      entries' := by
  have hnodup := List.nodup_append.1 (hperm.nodup_iff.2 h.nodup)
  have hmem (slot : Slot) (hslot : slot ∈ rest) : slot ∈ order :=
    hperm.mem_iff.1 (List.mem_append_left _ hslot)
  have hnot (slot : Slot) (hslot : slot ∈ rest) : slot ∉ gone :=
    fun hgone => hnodup.2.2 slot hslot slot hgone rfl
  have hrest (slot : Slot) (hslot : slot ∈ order) (hnot : slot ∉ gone) : slot ∈ rest :=
    (List.mem_append.1 (hperm.mem_iff.2 hslot)).resolve_right hnot
  have hkeptLeft (i : Nat) (hi : .inl i ∈ rest) : leftFlags[i]? = some false := by
    exact (hleft.eq_false (h.left_lt (hmem _ hi))).2 (hnot _ hi)
  have hkeptRight (j : Nat) (hj : .inr j ∈ rest) : rightFlags[j]? = some false := by
    exact (hright.eq_false (h.right_lt (hmem _ hj))).2 (hnot _ hj)
  have hback {side : Nat → Slot} {count : Nat} {flags : List Bool}
      (hflags : Flags side gone count flags) (i : Nat) (hi : flags[i]? = some false) :
      i < count ∧ side i ∉ gone := by
    have hlt : i < count := hflags.1 ▸ (List.getElem?_eq_some_iff.1 hi).1
    exact ⟨hlt, (hflags.eq_false hlt).1 hi⟩
  refine ⟨?_, ?_, fun n hn => ?_, fun n hn => ?_⟩
  · rw [List.map_map, ← hlookups]
    refine List.map_congr_left fun slot hslot => ?_
    cases slot with
    | inl i =>
      show (kept left leftFlags)[rank leftFlags i]?.map Sum.inl = _
      rw [getElem?_kept hleft.1 (hkeptLeft i hslot)]
      rfl
    | inr j =>
      show (kept right rightFlags)[rank rightFlags j]?.map Sum.inr = _
      rw [getElem?_kept hright.1 (hkeptRight j hslot)]
      rfl
  · refine List.Nodup.map_on (fun a ha b hb heq => ?_) hnodup.1
    cases a with
    | inl i =>
      cases b with
      | inl j => exact congrArg _ (rank_inj (hkeptLeft i ha) (hkeptLeft j hb) (Sum.inl.inj heq))
      | inr j => cases heq
    | inr i =>
      cases b with
      | inl j => cases heq
      | inr j => exact congrArg _ (rank_inj (hkeptRight i ha) (hkeptRight j hb) (Sum.inr.inj heq))
  · obtain ⟨i, hi, rfl⟩ := exists_rank hleft.1 hn
    obtain ⟨hlt, hgone⟩ := hback hleft i hi
    exact List.mem_map.2 ⟨.inl i, hrest _ (h.left_mem i hlt) hgone, rfl⟩
  · obtain ⟨j, hj, rfl⟩ := exists_rank hright.1 hn
    obtain ⟨hlt, hgone⟩ := hback hright j hj
    exact List.mem_map.2 ⟨.inr j, hrest _ (h.right_mem j hlt) hgone, rfl⟩

end

end Pools
