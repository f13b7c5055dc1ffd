import Mathlib

/-!
# Taking entries on demand

Entries are taken in one pass when values related to them are still wanted. One
more value that is wanted takes the first entry that is related to it, whatever
else is wanted (`scan_more`): the pass takes what one value after the other
takes. The relation is symmetric and transitive, and a value need not be
related to itself.
-/

namespace Demand

variable {α β γ : Type}

/-- The entries of one of the flags. -/
def flagged (value : Bool) (entries : List α) (flags : List Bool) : List α :=
  (entries.zip flags).filterMap fun entry => if entry.2 == value then some entry.1 else none

theorem flagged_cons (value flag : Bool) (a : α) (entries : List α) (flags : List Bool) :
    flagged value (a :: entries) (flag :: flags) =
      if flag == value then a :: flagged value entries flags else flagged value entries flags := by
  rw [flagged, List.zip_cons_cons, List.filterMap_cons]
  cases flag == value <;> rfl

variable {entries : List α} {flags : List Bool}

theorem flagged_append (value : Bool) {others : List α} (h : flags.length = entries.length)
    (rest : List Bool) : flagged value (entries ++ others) (flags ++ rest) =
      flagged value entries flags ++ flagged value others rest := by
  rw [flagged, List.zip_append h.symm, List.filterMap_append]
  rfl

theorem flagged_reverse (value : Bool) (h : flags.length = entries.length) :
    flagged value entries.reverse flags.reverse = (flagged value entries flags).reverse := by
  induction entries generalizing flags with
  | nil => rfl
  | cons a entries ih =>
    cases flags with
    | nil => cases h
    | cons flag flags =>
      have hrest : flags.length = entries.length := Nat.succ.inj h
      rw [List.reverse_cons, List.reverse_cons,
        flagged_append value (by rw [List.length_reverse, List.length_reverse, hrest]), ih hrest,
        flagged_cons, flagged_cons]
      cases flag == value
      · exact List.append_nil _
      · exact List.reverse_cons.symm

theorem flagged_map (f : α → γ) (value : Bool) (entries : List α) (flags : List Bool) :
    (flagged value entries flags).map f = flagged value (entries.map f) flags := by
  induction entries generalizing flags with
  | nil => rfl
  | cons a entries ih =>
    cases flags with
    | nil => rfl
    | cons flag flags =>
      rw [List.map_cons, flagged_cons, flagged_cons, ← ih]
      cases flag == value <;> rfl

/-- The entries of both flags are all entries. -/
theorem flagged_perm (h : flags.length = entries.length) :
    (flagged false entries flags ++ flagged true entries flags).Perm entries := by
  induction entries generalizing flags with
  | nil => exact List.Perm.refl _
  | cons a entries ih =>
    cases flags with
    | nil => cases h
    | cons flag flags =>
      have hrest := ih (Nat.succ.inj h)
      rw [flagged_cons, flagged_cons]
      cases flag with
      | false => exact hrest.cons a
      | true => exact List.perm_middle.trans (hrest.cons a)

theorem flagged_of_count (h : flags.length = entries.length) (hcount : flags.count true = 0) :
    flagged false entries flags = entries := by
  induction entries generalizing flags with
  | nil => rfl
  | cons a entries ih =>
    cases flags with
    | nil => cases h
    | cons flag flags =>
      cases flag with
      | false =>
        rw [flagged_cons]
        exact congrArg (a :: ·) (ih (Nat.succ.inj h) (by simpa using hcount))
      | true => simp at hcount

/-! ## The pass -/

section

variable (r : β → β → Bool) (key : α → β)

/-- Which entries are taken; a value that is taken is no longer wanted. -/
def scan (demand : β → Nat) : List α → List Bool
  | [] => []
  | a :: entries =>
    if demand (key a) = 0 then false :: scan demand entries
    else true :: scan (fun b => demand b - if r b (key a) then 1 else 0) entries

/-- Related values are wanted as often. -/
def Respects (demand : β → Nat) : Prop := ∀ a b, r a b = true → demand a = demand b

/-- One more value is wanted. -/
def more (demand : β → Nat) (value : β) : β → Nat :=
  fun b => demand b + if r b value then 1 else 0

variable {r} {key} {demand : β → Nat}

theorem length_scan (demand : β → Nat) (entries : List α) :
    (scan r key demand entries).length = entries.length := by
  induction entries generalizing demand with
  | nil => rfl
  | cons a entries ih =>
    rw [scan]
    split
    · exact congrArg (· + 1) (ih demand)
    · exact congrArg (· + 1) (ih _)

section

variable (hsymm : ∀ a b, r a b = true → r b a = true)
  (htrans : ∀ a b c, r a b = true → r b c = true → r a c = true)

include hsymm htrans in
/-- Related values are related to the same ones. -/
theorem related_congr {a b : β} (h : r a b = true) (c : β) : r c a = r c b := by
  rw [Bool.eq_iff_iff]
  exact ⟨fun hc => htrans _ _ _ hc h, fun hc => htrans _ _ _ hc (hsymm _ _ h)⟩

include hsymm htrans in
theorem related_congr_left {a b : β} (h : r a b = true) (c : β) : r a c = r b c := by
  rw [Bool.eq_iff_iff]
  exact ⟨fun hc => htrans _ _ _ (hsymm _ _ h) hc, fun hc => htrans _ _ _ h hc⟩

include hsymm htrans in
theorem Respects.less (h : Respects r demand) (value : β) :
    Respects r fun b => demand b - if r b value then 1 else 0 := by
  intro a b hab
  show demand a - _ = demand b - _
  rw [h a b hab, related_congr_left hsymm htrans hab value]

include hsymm htrans in
/-- The first entry that is related to the new value is taken for it. -/
theorem scan_more (h : Respects r demand) (value : β) (entries : List α) :
    flagged false entries (scan r key (more r demand value) entries) =
        flagged false (entries.eraseP fun a => r (key a) value)
          (scan r key demand (entries.eraseP fun a => r (key a) value)) ∧
      (scan r key (more r demand value) entries).count true =
        (scan r key demand (entries.eraseP fun a => r (key a) value)).count true +
          if entries.any fun a => r (key a) value then 1 else 0 := by
  induction entries generalizing demand with
  | nil => exact ⟨rfl, rfl⟩
  | cons a entries ih =>
    rw [scan, List.eraseP_cons, List.any_cons]
    by_cases hrelated : r (key a) value = true
    · have hpositive : Demand.more r demand value (key a) ≠ 0 := by
        rw [Demand.more, if_pos hrelated]
        exact Nat.succ_ne_zero _
      have hback : (fun b => Demand.more r demand value b - if r b (key a) then 1 else 0) =
          demand := by
        funext b
        rw [Demand.more, related_congr hsymm htrans hrelated b, Nat.add_sub_cancel]
      rw [if_neg hpositive, hback, hrelated, flagged_cons]
      exact ⟨rfl, List.count_cons_self⟩
    · have hsame : Demand.more r demand value (key a) = demand (key a) := by
        rw [Demand.more, if_neg hrelated, Nat.add_zero]
      rw [hsame, Bool.eq_false_iff.2 hrelated, Bool.false_or, cond_false, scan]
      by_cases hzero : demand (key a) = 0
      · rw [if_pos hzero, if_pos hzero, flagged_cons, flagged_cons]
        obtain ⟨hkept, hcount⟩ := ih h
        exact ⟨congrArg (a :: ·) hkept, by simpa using hcount⟩
      · have hless : (fun b => Demand.more r demand value b - if r b (key a) then 1 else 0) =
            Demand.more r (fun b => demand b - if r b (key a) then 1 else 0) value := by
          funext b
          show demand b + (if r b value = true then 1 else 0) - (if r b (key a) = true then 1 else 0) =
            demand b - (if r b (key a) = true then 1 else 0) + (if r b value = true then 1 else 0)
          by_cases hb : r b (key a) = true
          · have hpositive := h b (key a) hb
            rw [if_pos hb]
            omega
          · rw [if_neg hb]
            rfl
        rw [if_neg hzero, if_neg hzero, hless, flagged_cons, flagged_cons]
        obtain ⟨hkept, hcount⟩ := ih (h.less hsymm htrans (key a))
        refine ⟨hkept, ?_⟩
        rw [List.count_cons_self, List.count_cons_self, hcount]
        omega

end

/-- Nothing is wanted. -/
theorem scan_zero (entries : List α) :
    flagged false entries (scan r key (fun _ => 0) entries) = entries ∧
      (scan r key (fun _ => 0) entries).count true = 0 := by
  induction entries with
  | nil => exact ⟨rfl, rfl⟩
  | cons a entries ih =>
    rw [scan, if_pos rfl, flagged_cons]
    exact ⟨congrArg (a :: ·) ih.1, by simpa using ih.2⟩

end

end Demand
