import Dream64.Library.Nesting
import Dream64.Vm.Statement

/-!
# The layout of compiled code

A `try` protects the instructions after its `BeginTry` up to its `EndTry`, and
a spawned body stands between the jump that skips it and its `Return`. `Laid`:
in the code between two positions these ranges are nested, and no jump goes
into one of them from outside. Only the jump of a `break` or `continue`, an
exit, may leave one: every other jump goes to where it comes from, and the catch
of a `try` is where the `try` is.

`compileBlock_laid`: the code of every statement is laid so.
-/

namespace Dream64.Vm

open Nesting

/-- The instruction at each position of a piece of code. -/
abbrev Listing := Nat → Option Instruction

/-- The range that the instruction at `k` opens. -/
def Listing.range (L : Listing) (k : Nat) : Option (Nat × Nat) :=
  match L k, L (k + 1) with
  | some (.beginTry _ stop _), _ => some (k, stop)
  | some (.spawn _), some (.jump after) => some (k + 1, after - 1)
  | _, _ => none

/-- The target of an instruction that is no exit of a loop; a failure leads from `BeginTry` to the
catch. -/
def Instruction.leadsTo? (exit : Bool) : Instruction → Option Nat
  | .beginTry catchTarget _ _ => some catchTarget
  | .jump target => if exit then none else some target
  | instruction => instruction.target?

/-- The instructions that begin or end a range. -/
def Instruction.delimits : Instruction → Bool
  | .beginTry .. | .endTry | .spawn _ => true
  | _ => false

theorem Instruction.target?_of_leadsTo? {i : Instruction} {t : Nat} {exit : Bool}
    (hi : i.delimits = false) (h : i.leadsTo? exit = some t) : i.target? = some t := by
  cases i with
  | jump target => exact (ite_eq_iff.1 h).elim (fun h => nomatch h.2) And.right
  | _ => first | exact h | cases hi

/-- The code `L` between `lo` and `hi` is laid out; `E` are the exits of loops in it, and `T` are
targets outside of it. -/
structure Listing.Laid (L : Listing) (E : Nat → Bool) (T : List Nat) (lo hi : Nat) : Prop where
  bounds {k : Nat} {i : Instruction} : L k = some i → lo ≤ k ∧ k < hi
  tries {k c stop : Nat} {l : Option Nat} : L k = some (.beginTry c stop l) →
    k < stop ∧ L stop = some .endTry
  endTries {stop : Nat} : L stop = some .endTry → ∃ k c l, L k = some (.beginTry c stop l)
  spawns {k entry : Nat} : L k = some (.spawn entry) →
    entry = k + 2 ∧ ∃ after, L (k + 1) = some (.jump after) ∧ k + 2 < after ∧
      L (after - 1) = some .ret
  nested {j k a b a' b' : Nat} : L.range j = some (a, b) → L.range k = some (a', b') → j < k →
    b < k ∨ b' < b
  leads {k t : Nat} {i : Instruction} : L k = some i → i.leadsTo? (E k) = some t →
    (t ∈ T ∧ ∀ j, covers L.range j k = false) ∨
      (lo ≤ t ∧ t ≤ hi ∧ ∀ j, covers L.range j t = covers L.range j k)
  jumps {k t : Nat} : L k = some (.jump t) →
    t ∈ T ∨ (lo ≤ t ∧ t ≤ hi ∧ ∀ j, covers L.range j t = true → covers L.range j k = true)

namespace Listing

variable {L L' M : Listing} {E E' : Nat → Bool} {T T' : List Nat} {lo mid hi j k a b c t stop entry after pos pc : Nat}
  {l : Option Nat} {i : Instruction}

theorem range_beginTry (h : L k = some (.beginTry c stop l)) : L.range k = some (k, stop) := by
  simp only [range, h]

theorem range_spawn (h : L k = some (.spawn entry)) (h' : L (k + 1) = some (.jump after)) :
    L.range k = some (k + 1, after - 1) := by
  simp only [range, h, h']

/-- What opens a range. -/
theorem range_cases (h : L.range k = some (a, b)) :
    (∃ c l, L k = some (.beginTry c b l) ∧ a = k) ∨
      ∃ entry after, L k = some (.spawn entry) ∧ L (k + 1) = some (.jump after) ∧ a = k + 1 ∧
        b = after - 1 := by
  simp only [range] at h
  split at h
  · rename_i hk
    cases h
    exact .inl ⟨_, _, hk, rfl⟩
  · rename_i hk hk'
    cases h
    exact .inr ⟨_, _, hk, hk', rfl, rfl⟩
  · cases h

namespace Laid

variable (h : L.Laid E T lo hi)

include h in
/-- The instructions at both ends of a range. -/
theorem ends (hr : L.range k = some (a, b)) :
    k ≤ a ∧ a ≤ k + 1 ∧ a < b ∧ (L b = some .endTry ∨ L b = some .ret) := by
  rcases range_cases hr with ⟨c, l, hk, rfl⟩ | ⟨entry, after, hk, hjump, rfl, rfl⟩
  · obtain ⟨hlt, hstop⟩ := h.tries hk
    exact ⟨le_rfl, by omega, hlt, .inl hstop⟩
  · obtain ⟨-, after', hjump', hlt, hret⟩ := h.spawns hk
    rw [hjump] at hjump'
    cases hjump'
    exact ⟨by omega, le_rfl, by omega, .inr hret⟩

include h in
theorem range_bounds (hr : L.range k = some (a, b)) : lo ≤ k ∧ k ≤ a ∧ a < b ∧ b < hi := by
  obtain ⟨hka, -, hab, hend⟩ := h.ends hr
  have hk : lo ≤ k := by
    rcases range_cases hr with ⟨c, l, hk, -⟩ | ⟨entry, after, hk, -⟩
    · exact (h.bounds hk).1
    · exact (h.bounds hk).1
  have hb : b < hi := by
    rcases hend with hb | hb
    · exact (h.bounds hb).2
    · exact (h.bounds hb).2
  exact ⟨hk, hka, hab, hb⟩

include h in
theorem covers_bounds (hc : covers L.range j pos = true) : lo ≤ j ∧ j < pos ∧ pos < hi := by
  obtain ⟨a, b, hr, ha, hb⟩ := covers_iff.1 hc
  have := h.range_bounds hr
  exact ⟨by omega, by omega, by omega⟩

include h in
theorem not_covers (hpos : pos ≤ lo ∨ hi ≤ pos) (j : Nat) : covers L.range j pos = false := by
  cases hc : covers L.range j pos with
  | false => rfl
  | true =>
    have := h.covers_bounds hc
    omega

include h in
theorem mono (hT : ∀ t ∈ T, t ∈ T') : L.Laid E T' lo hi :=
  { h with
    leads := fun hk ht => (h.leads hk ht).imp_left fun hl => ⟨hT _ hl.1, hl.2⟩
    jumps := fun hk => (h.jumps hk).imp_left (hT _) }

/-- A target that no range is around is none outside of the code. -/
theorem close (h : L.Laid E (t :: T) lo hi) (hlo : lo ≤ t) (hhi : t ≤ hi)
    (ht : ∀ j, covers L.range j t = false) : L.Laid E T lo hi :=
  { h with
    leads := fun hk hi => by
      rcases h.leads hk hi with ⟨hmem, hnone⟩ | hin
      · rcases List.mem_cons.1 hmem with rfl | hmem
        · exact .inr ⟨hlo, hhi, fun j => by rw [ht j, hnone j]⟩
        · exact .inl ⟨hmem, hnone⟩
      · exact .inr hin
    jumps := fun hk => by
      rcases h.jumps hk with hmem | hin
      · rcases List.mem_cons.1 hmem with rfl | hmem
        · refine .inr ⟨hlo, hhi, fun j hj => ?_⟩
          rw [ht j] at hj
          cases hj
        · exact .inl hmem
      · exact .inr hin }

end Laid

/-! ## Putting pieces together -/

/-- One piece up to `mid`, another one from there. -/
def join {α : Type} (mid : Nat) (L M : Nat → α) : Nat → α := fun pc =>
  if pc < mid then L pc else M pc

theorem join_left {α : Type} {L M : Nat → α} (h : pc < mid) : join mid L M pc = L pc := if_pos h

theorem join_right {α : Type} {L M : Nat → α} (h : mid ≤ pc) : join mid L M pc = M pc :=
  if_neg (Nat.not_lt.2 h)

theorem join_range (hL : L.Laid E T lo mid) : Listing.range (join mid L M) k =
    if k < mid then L.range k else M.range k := by
  by_cases hk : k < mid
  · rw [if_pos hk]
    by_cases hk' : k + 1 < mid
    · simp only [range, join_left hk, join_left hk']
    · simp only [range, join_left hk]
      -- The instruction after a spawn is its jump, which is in the same piece.
      cases h : L k with
      | none => rfl
      | some i =>
        cases i with
        | spawn entry =>
          obtain ⟨-, after, hjump, -⟩ := hL.spawns h
          exact absurd (hL.bounds hjump).2 hk'
        | _ => rfl
  · rw [if_neg hk]
    simp only [range, join_right (Nat.not_lt.1 hk), join_right (Nat.not_lt.1 hk |>.trans k.le_succ)]

theorem join_covers (hL : L.Laid E T lo mid) (hM : M.Laid E' T' mid hi) :
    covers (Listing.range (join mid L M)) j pos = (covers L.range j pos || covers M.range j pos) := by
  by_cases hj : j < mid
  · have hnone : covers M.range j pos = false := by
      cases hc : covers M.range j pos with
      | false => rfl
      | true => exact absurd (hM.covers_bounds hc).1 (by omega)
    rw [hnone, Bool.or_false]
    simp only [covers, join_range hL, if_pos hj]
  · have hnone : covers L.range j pos = false := by
      cases hc : covers L.range j pos with
      | false => rfl
      | true =>
        have := hL.covers_bounds hc
        omega
    rw [hnone, Bool.false_or]
    simp only [covers, join_range hL, if_neg hj]

theorem Laid.join (hL : L.Laid E T lo mid) (hM : M.Laid E' T mid hi) (hlo : lo ≤ mid)
    (hhi : mid ≤ hi) : Listing.Laid (Listing.join mid L M) (Listing.join mid E E') T lo hi where
  bounds {k i} h := by
    by_cases hk : k < mid
    · rw [join_left hk] at h
      exact ⟨(hL.bounds h).1, by omega⟩
    · rw [join_right (by omega)] at h
      exact ⟨by omega, (hM.bounds h).2⟩
  tries {k c stop l} h := by
    by_cases hk : k < mid
    · rw [join_left hk] at h
      obtain ⟨hlt, hstop⟩ := hL.tries h
      exact ⟨hlt, by rw [join_left (hL.bounds hstop).2]; exact hstop⟩
    · rw [join_right (by omega)] at h
      obtain ⟨hlt, hstop⟩ := hM.tries h
      exact ⟨hlt, by rw [join_right (hM.bounds hstop).1]; exact hstop⟩
  endTries {stop} h := by
    by_cases hk : stop < mid
    · rw [join_left hk] at h
      obtain ⟨k, c, l, hk⟩ := hL.endTries h
      exact ⟨k, c, l, by rw [join_left (hL.bounds hk).2]; exact hk⟩
    · rw [join_right (by omega)] at h
      obtain ⟨k, c, l, hk⟩ := hM.endTries h
      exact ⟨k, c, l, by rw [join_right (hM.bounds hk).1]; exact hk⟩
  spawns {k entry} h := by
    by_cases hk : k < mid
    · rw [join_left hk] at h
      obtain ⟨hentry, after, hjump, hlt, hret⟩ := hL.spawns h
      exact ⟨hentry, after, by rw [join_left (hL.bounds hjump).2]; exact hjump, hlt,
        by rw [join_left (hL.bounds hret).2]; exact hret⟩
    · rw [join_right (by omega)] at h
      obtain ⟨hentry, after, hjump, hlt, hret⟩ := hM.spawns h
      exact ⟨hentry, after, by rw [join_right (hM.bounds hjump).1]; exact hjump, hlt,
        by rw [join_right (hM.bounds hret).1]; exact hret⟩
  nested {j k a b a' b'} hj hk hlt := by
    rw [join_range hL] at hj hk
    split at hj
    · split at hk
      · exact hL.nested hj hk hlt
      · have := hL.range_bounds hj
        exact .inl (by omega)
    · rw [if_neg (by omega)] at hk
      exact hM.nested hj hk hlt
  leads {k t i} h ht := by
    simp only [join_covers hL hM]
    by_cases hk : k < mid
    · rw [join_left hk] at h ht
      have hnone := hM.not_covers (Or.inl hk.le)
      rcases hL.leads h ht with ⟨hmem, hc⟩ | ⟨hlo', hhi', hc⟩
      · exact .inl ⟨hmem, fun j => by rw [hc, hnone]; rfl⟩
      · have hnone' := hM.not_covers (Or.inl hhi')
        exact .inr ⟨hlo', by omega, fun j => by rw [hc, hnone, hnone']⟩
    · rw [join_right (by omega)] at h ht
      have hnone := hL.not_covers (Or.inr (Nat.not_lt.1 hk))
      rcases hM.leads h ht with ⟨hmem, hc⟩ | ⟨hlo', hhi', hc⟩
      · exact .inl ⟨hmem, fun j => by rw [hc, hnone]; rfl⟩
      · have hnone' := hL.not_covers (Or.inr hlo')
        exact .inr ⟨by omega, hhi', fun j => by rw [hc, hnone, hnone']⟩
  jumps {k t} h := by
    simp only [join_covers hL hM, Bool.or_eq_true]
    by_cases hk : k < mid
    · rw [join_left hk] at h
      rcases hL.jumps h with hmem | ⟨hlo', hhi', hc⟩
      · exact .inl hmem
      · refine .inr ⟨hlo', by omega, fun j hj => ?_⟩
        rw [hM.not_covers (.inl hhi') j] at hj
        exact .inl (hc j (hj.resolve_right (by decide)))
    · rw [join_right (by omega)] at h
      rcases hM.jumps h with hmem | ⟨hlo', hhi', hc⟩
      · exact .inl hmem
      · refine .inr ⟨by omega, hhi', fun j hj => ?_⟩
        rw [hL.not_covers (.inr hlo') j] at hj
        exact .inr (hc j (hj.resolve_left (by decide)))

/-- Code that opens no range. -/
theorem laid_straight (hb : ∀ k i, L k = some i → lo ≤ k ∧ k < hi)
    (hplain : ∀ k i, L k = some i → i.delimits = false)
    (ht : ∀ k i t, L k = some i → i.target? = some t → t ∈ T ∨ (lo ≤ t ∧ t ≤ hi)) :
    L.Laid E T lo hi := by
  have hrange : ∀ k, L.range k = none := by
    intro k
    cases hr : L.range k with
    | none => rfl
    | some r =>
      rcases range_cases (a := r.1) (b := r.2) hr with ⟨c, l, hk, -⟩ | ⟨entry, after, hk, -⟩
      · cases hplain _ _ hk
      · cases hplain _ _ hk
  have hcovers : ∀ j pos, covers L.range j pos = false := fun j pos => by
    simp only [covers, hrange, Option.any_none]
  refine ⟨hb _ _, fun h => ?_, fun h => ?_, fun h => ?_, fun h => ?_, fun {k t i} h hi => ?_,
    fun h => ?_⟩
  · cases hplain _ _ h
  · cases hplain _ _ h
  · cases hplain _ _ h
  · rw [hrange] at h
    cases h
  · rcases ht _ _ _ h (Instruction.target?_of_leadsTo? (hplain _ _ h) hi) with hmem | ⟨hlo, hhi⟩
    · exact .inl ⟨hmem, fun j => hcovers j k⟩
    · exact .inr ⟨hlo, hhi, fun j => by rw [hcovers, hcovers]⟩
  · rcases ht _ _ _ h rfl with hmem | ⟨hlo, hhi⟩
    · exact .inl hmem
    · exact .inr ⟨hlo, hhi, fun j hj => by rw [hcovers] at hj; cases hj⟩

/-! ## A range around a piece -/

section Around

variable {α β : Nat} (h : L.Laid E [] lo hi) (hin : ∀ k i, L k = some i → L' k = some i)

include hin in
theorem range_mono {r : Nat × Nat} (hr : L.range k = some r) : L'.range k = some r := by
  rcases range_cases (a := r.1) (b := r.2) hr with ⟨c, l, hk, ha⟩ | ⟨entry, after, hk, hj, ha, hb⟩
  · rw [range_beginTry (hin _ _ hk), ← ha]
  · rw [range_spawn (hin _ _ hk) (hin _ _ hj), ← ha, ← hb]

include h hin in
theorem range_of_mono {r : Nat × Nat} (hk : L k = some i) (hr : L'.range k = some r) :
    L.range k = some r := by
  have hk' := hin _ _ hk
  rcases range_cases (a := r.1) (b := r.2) hr with ⟨c, l, hi, ha⟩ | ⟨entry, after, hi, hj, ha, hb⟩
  · rw [hk'] at hi
    cases hi
    rw [range_beginTry hk, ← ha]
  · rw [hk'] at hi
    cases hi
    obtain ⟨-, after', hj', -⟩ := h.spawns hk
    rw [hin _ _ hj'] at hj
    cases hj
    rw [range_spawn hk hj', ← ha, ← hb]

variable (hrange : ∀ k r, L'.range k = some r ↔ L.range k = some r ∨ (k = pos ∧ r = (α, β)))
  (hpos : pos < lo) (hα : α < lo) (hβ : hi ≤ β)

include hrange in
theorem around_covers : covers L'.range j t = true ↔
    covers L.range j t = true ∨ (j = pos ∧ α < t ∧ t ≤ β) := by
  simp only [covers_iff, hrange]
  constructor
  · rintro ⟨a, b, hr | ⟨hj, hr⟩, ha, hb⟩
    · exact .inl ⟨a, b, hr, ha, hb⟩
    · cases hr
      exact .inr ⟨hj, ha, hb⟩
  · rintro (⟨a, b, hr, ha, hb⟩ | ⟨hj, ha, hb⟩)
    · exact ⟨a, b, .inl hr, ha, hb⟩
    · exact ⟨α, β, .inr ⟨hj, rfl⟩, ha, hb⟩

include h hrange in
/-- Outside of the piece only the new range may be around. -/
theorem around_not_covers (ht : t ≤ lo ∨ hi ≤ t) (hr : t ≤ α ∨ β < t) (j : Nat) :
    covers L'.range j t = false := by
  cases hc : covers L'.range j t with
  | false => rfl
  | true =>
    rcases (around_covers hrange).1 hc with hL | ⟨-, hlt, hle⟩
    · rw [h.not_covers ht] at hL
      cases hL
    · omega

include h hrange hpos in
theorem around_nested (hlt : ∀ k a b, L.range k = some (a, b) → b < β) {j k a b a' b' : Nat}
    (hj : L'.range j = some (a, b)) (hk : L'.range k = some (a', b')) (hjk : j < k) :
    b < k ∨ b' < b := by
  rcases (hrange _ _).1 hj with hj | ⟨rfl, hj⟩
  · rcases (hrange _ _).1 hk with hk | ⟨rfl, -⟩
    · exact h.nested hj hk hjk
    · have := h.range_bounds hj
      omega
  · cases hj
    rcases (hrange _ _).1 hk with hk | ⟨rfl, -⟩
    · exact .inr (hlt _ _ _ hk)
    · omega

include h hrange hα hβ in
theorem around_leads (hk : L k = some i) (ht : i.leadsTo? (E k) = some t) :
    lo ≤ t ∧ t ≤ hi ∧ ∀ j, covers L'.range j t = covers L'.range j k := by
  rcases h.leads hk ht with ⟨hmem, -⟩ | ⟨hlo, hhi, hc⟩
  · cases hmem
  · have := h.bounds hk
    refine ⟨hlo, hhi, fun j => Bool.eq_iff_iff.2 ?_⟩
    rw [around_covers hrange, around_covers hrange, hc]
    have hboth : (α < t ∧ t ≤ β) ↔ (α < k ∧ k ≤ β) := by omega
    rw [hboth]

include h hrange hα hβ in
theorem around_jumps (hk : L k = some (.jump t)) :
    lo ≤ t ∧ t ≤ hi ∧ ∀ j, covers L'.range j t = true → covers L'.range j k = true := by
  rcases h.jumps hk with hmem | ⟨hlo, hhi, hc⟩
  · cases hmem
  · have := h.bounds hk
    refine ⟨hlo, hhi, fun j hj => ?_⟩
    rw [around_covers hrange] at hj ⊢
    rcases hj with hj | ⟨hj, -⟩
    · exact .inl (hc j hj)
    · exact .inr ⟨hj, by omega, by omega⟩

end Around

/-- A protected body between its `BeginTry` and its `EndTry`. -/
def tryAround (pos stop c : Nat) (l : Option Nat) (L : Listing) : Listing := fun pc =>
  if pc = pos then some (.beginTry c stop l) else if pc = stop then some .endTry else L pc

theorem tryAround_cases (hk : tryAround pos stop c l L k = some i) :
    (k = pos ∧ i = .beginTry c stop l) ∨ (k = stop ∧ i = .endTry) ∨ L k = some i := by
  simp only [tryAround] at hk
  split at hk
  · cases hk
    exact .inl ⟨by assumption, rfl⟩
  · split at hk
    · cases hk
      exact .inr (.inl ⟨by assumption, rfl⟩)
    · exact .inr (.inr hk)

theorem Laid.tryAround (h : L.Laid E [] (pos + 1) stop) (hle : pos + 1 ≤ stop) :
    (tryAround pos stop c l L).Laid E [c] pos (stop + 1) := by
  have hbegin : Listing.tryAround pos stop c l L pos = some (.beginTry c stop l) := if_pos rfl
  have hend : Listing.tryAround pos stop c l L stop = some .endTry := by
    rw [Listing.tryAround, if_neg (by omega), if_pos rfl]
  have hin : ∀ k i, L k = some i → Listing.tryAround pos stop c l L k = some i := by
    intro k i hk
    have := h.bounds hk
    rw [Listing.tryAround, if_neg (by omega), if_neg (by omega), hk]
  have hrange : ∀ k r, (Listing.tryAround pos stop c l L).range k = some r ↔
      L.range k = some r ∨ (k = pos ∧ r = (pos, stop)) := by
    intro k r
    constructor
    · intro hr
      have hopens := range_cases (a := r.1) (b := r.2) hr
      cases hk : Listing.tryAround pos stop c l L k with
      | none => simp [hk] at hopens
      | some i =>
        rcases tryAround_cases hk with ⟨rfl, -⟩ | ⟨rfl, rfl⟩ | hL
        · rw [range_beginTry hbegin] at hr
          cases hr
          exact .inr ⟨rfl, rfl⟩
        · simp [hend] at hopens
        · exact .inl (range_of_mono h hin hL hr)
    · rintro (hr | ⟨rfl, rfl⟩)
      · exact range_mono hin hr
      · exact range_beginTry hbegin
  refine ⟨fun {k i} hk => ?_, fun {k c' stop' l'} hk => ?_, fun {e} hk => ?_, fun {k entry} hk => ?_,
    around_nested h hrange (by omega) fun k a b hr => (h.range_bounds hr).2.2.2,
    fun {k t i} hk ht => ?_, fun {k t} hk => ?_⟩
  · rcases tryAround_cases hk with ⟨rfl, -⟩ | ⟨rfl, -⟩ | hL
    · omega
    · omega
    · have := h.bounds hL
      omega
  · rcases tryAround_cases hk with ⟨rfl, hi⟩ | ⟨-, hi⟩ | hL
    · cases hi
      exact ⟨hle, hend⟩
    · cases hi
    · exact ⟨(h.tries hL).1, hin _ _ (h.tries hL).2⟩
  · rcases tryAround_cases hk with ⟨-, hi⟩ | ⟨rfl, -⟩ | hL
    · cases hi
    · exact ⟨pos, c, l, hbegin⟩
    · obtain ⟨k, c', l', hk'⟩ := h.endTries hL
      exact ⟨k, c', l', hin _ _ hk'⟩
  · rcases tryAround_cases hk with ⟨-, hi⟩ | ⟨-, hi⟩ | hL
    · cases hi
    · cases hi
    · obtain ⟨hentry, after, hjump, hlt, hret⟩ := h.spawns hL
      exact ⟨hentry, after, hin _ _ hjump, hlt, hin _ _ hret⟩
  · rcases tryAround_cases hk with ⟨rfl, rfl⟩ | ⟨-, rfl⟩ | hL
    · cases ht
      exact .inl ⟨List.mem_singleton_self c,
        around_not_covers h hrange (.inl (Nat.le_succ k)) (.inl le_rfl)⟩
    · cases ht
    · have hin := around_leads h hrange (by omega) le_rfl hL ht
      exact .inr ⟨by omega, by omega, hin.2.2⟩
  · rcases tryAround_cases hk with ⟨-, hi⟩ | ⟨-, hi⟩ | hL
    · cases hi
    · cases hi
    · have hin := around_jumps h hrange (by omega) le_rfl hL
      exact .inr ⟨by omega, by omega, hin.2.2⟩

/-- A spawned body between the jump that skips it and its `Return`. -/
def spawnAround (pos stop : Nat) (L : Listing) : Listing := fun pc =>
  if pc = pos then some (.spawn (pos + 2)) else if pc = pos + 1 then some (.jump (stop + 2))
  else if pc = stop then some .pushNull else if pc = stop + 1 then some .ret else L pc

theorem spawnAround_cases (hk : spawnAround pos stop L k = some i) :
    (k = pos ∧ i = .spawn (pos + 2)) ∨ (k = pos + 1 ∧ i = .jump (stop + 2)) ∨
      (k = stop ∧ i = .pushNull) ∨ (k = stop + 1 ∧ i = .ret) ∨ L k = some i := by
  simp only [spawnAround] at hk
  split at hk
  · cases hk
    exact .inl ⟨by assumption, rfl⟩
  · split at hk
    · cases hk
      exact .inr (.inl ⟨by assumption, rfl⟩)
    · split at hk
      · cases hk
        exact .inr (.inr (.inl ⟨by assumption, rfl⟩))
      · split at hk
        · cases hk
          exact .inr (.inr (.inr (.inl ⟨by assumption, rfl⟩)))
        · exact .inr (.inr (.inr (.inr hk)))

theorem Laid.spawnAround (h : L.Laid E [] (pos + 2) stop) (hle : pos + 2 ≤ stop) :
    (spawnAround pos stop L).Laid E [] pos (stop + 2) := by
  have hspawn : Listing.spawnAround pos stop L pos = some (.spawn (pos + 2)) := if_pos rfl
  have hskip : Listing.spawnAround pos stop L (pos + 1) = some (.jump (stop + 2)) := by
    rw [Listing.spawnAround, if_neg (by omega), if_pos rfl]
  have hret : Listing.spawnAround pos stop L (stop + 1) = some .ret := by
    rw [Listing.spawnAround, if_neg (by omega), if_neg (by omega), if_neg (by omega), if_pos rfl]
  have hin : ∀ k i, L k = some i → Listing.spawnAround pos stop L k = some i := by
    intro k i hk
    have := h.bounds hk
    rw [Listing.spawnAround, if_neg (by omega), if_neg (by omega), if_neg (by omega),
      if_neg (by omega), hk]
  have hrange : ∀ k r, (Listing.spawnAround pos stop L).range k = some r ↔
      L.range k = some r ∨ (k = pos ∧ r = (pos + 1, stop + 1)) := by
    intro k r
    constructor
    · intro hr
      have hopens := range_cases (a := r.1) (b := r.2) hr
      cases hk : Listing.spawnAround pos stop L k with
      | none => simp [hk] at hopens
      | some i =>
        rcases spawnAround_cases hk with ⟨rfl, -⟩ | ⟨-, rfl⟩ | ⟨-, rfl⟩ | ⟨-, rfl⟩ | hL
        · rw [range_spawn hspawn hskip] at hr
          cases hr
          exact .inr ⟨rfl, rfl⟩
        · simp [hk] at hopens
        · simp [hk] at hopens
        · simp [hk] at hopens
        · exact .inl (range_of_mono h hin hL hr)
    · rintro (hr | ⟨rfl, rfl⟩)
      · exact range_mono hin hr
      · exact range_spawn hspawn hskip
  refine ⟨fun {k i} hk => ?_, fun {k c' stop' l'} hk => ?_, fun {e} hk => ?_, fun {k entry} hk => ?_,
    around_nested h hrange (by omega) fun k a b hr => (h.range_bounds hr).2.2.2.trans (by omega),
    fun {k t i} hk ht => ?_, fun {k t} hk => ?_⟩
  · rcases spawnAround_cases hk with ⟨rfl, -⟩ | ⟨rfl, -⟩ | ⟨rfl, -⟩ | ⟨rfl, -⟩ | hL
    · omega
    · omega
    · omega
    · omega
    · have := h.bounds hL
      omega
  · rcases spawnAround_cases hk with ⟨-, hi⟩ | ⟨-, hi⟩ | ⟨-, hi⟩ | ⟨-, hi⟩ | hL
    · cases hi
    · cases hi
    · cases hi
    · cases hi
    · exact ⟨(h.tries hL).1, hin _ _ (h.tries hL).2⟩
  · rcases spawnAround_cases hk with ⟨-, hi⟩ | ⟨-, hi⟩ | ⟨-, hi⟩ | ⟨-, hi⟩ | hL
    · cases hi
    · cases hi
    · cases hi
    · cases hi
    · obtain ⟨k, c', l', hk'⟩ := h.endTries hL
      exact ⟨k, c', l', hin _ _ hk'⟩
  · rcases spawnAround_cases hk with ⟨rfl, hi⟩ | ⟨-, hi⟩ | ⟨-, hi⟩ | ⟨-, hi⟩ | hL
    · cases hi
      exact ⟨rfl, stop + 2, hskip, by omega, hret⟩
    · cases hi
    · cases hi
    · cases hi
    · obtain ⟨hentry, after, hjump, hlt, hret'⟩ := h.spawns hL
      exact ⟨hentry, after, hin _ _ hjump, hlt, hin _ _ hret'⟩
  · rcases spawnAround_cases hk with ⟨-, rfl⟩ | ⟨hk, rfl⟩ | ⟨-, rfl⟩ | ⟨-, rfl⟩ | hL
    · cases ht
    · cases Instruction.target?_of_leadsTo? rfl ht
      refine .inr ⟨by omega, le_rfl, fun j => ?_⟩
      rw [around_not_covers h hrange (.inr (by omega)) (.inr (by omega)),
        around_not_covers h hrange (.inl (by omega)) (.inl (by omega))]
    · cases ht
    · cases ht
    · have hin := around_leads h hrange (by omega) (by omega) hL ht
      exact .inr ⟨by omega, by omega, hin.2.2⟩
  · rcases spawnAround_cases hk with ⟨-, hi⟩ | ⟨-, hi⟩ | ⟨-, hi⟩ | ⟨-, hi⟩ | hL
    · cases hi
    · cases hi
      refine .inr ⟨by omega, le_rfl, fun j hj => ?_⟩
      rw [around_not_covers h hrange (.inr (by omega)) (.inr (by omega))] at hj
      cases hj
    · cases hi
    · cases hi
    · have hin := around_jumps h hrange (by omega) (by omega) hL
      exact .inr ⟨by omega, by omega, hin.2.2⟩

/-- Jumps to outside targets where the listing had none: exits, or jumps that no range is around. -/
theorem Laid.fill (h : L.Laid E T lo hi) (hL' : ∀ k, (L' k = L k ∧ E' k = E k) ∨
    (L k = none ∧ lo ≤ k ∧ k < hi ∧ (E' k = true ∨ ∀ j, covers L.range j k = false) ∧
      ∃ t ∈ T, L' k = some (.jump t))) : L'.Laid E' T lo hi := by
  have hin : ∀ k i, L k = some i → L' k = some i := by
    intro k i hk
    rcases hL' k with ⟨heq, -⟩ | ⟨hnone, -⟩
    · rw [heq, hk]
    · rw [hk] at hnone
      cases hnone
  have hcases : ∀ k i, L' k = some i → (L k = some i ∧ E' k = E k) ∨
      (lo ≤ k ∧ k < hi ∧ (E' k = true ∨ ∀ j, covers L.range j k = false) ∧
        ∃ t ∈ T, i = .jump t) := by
    intro k i hk
    rcases hL' k with ⟨heq, hE⟩ | ⟨-, hlo, hhi, hout, t, ht, hjump⟩
    · exact .inl ⟨heq.symm.trans hk, hE⟩
    · rw [hk] at hjump
      cases hjump
      exact .inr ⟨hlo, hhi, hout, t, ht, rfl⟩
  have hrange : ∀ k, L'.range k = L.range k := by
    intro k
    cases hr : L.range k with
    | some r => exact range_mono hin hr
    | none =>
      cases hr' : L'.range k with
      | none => rfl
      | some r =>
        rcases range_cases (a := r.1) (b := r.2) hr' with ⟨c, l, hk, -⟩ | ⟨entry, after, hk, -⟩
        · rcases hcases _ _ hk with ⟨hk, -⟩ | ⟨-, -, -, t, -, hi⟩
          · rw [range_beginTry hk] at hr
            cases hr
          · cases hi
        · rcases hcases _ _ hk with ⟨hk, -⟩ | ⟨-, -, -, t, -, hi⟩
          · obtain ⟨-, after', hjump, -⟩ := h.spawns hk
            rw [range_spawn hk hjump] at hr
            cases hr
          · cases hi
  have hcovers : ∀ j pos, covers L'.range j pos = covers L.range j pos := fun j pos => by
    simp only [covers, hrange]
  refine ⟨fun hk => ?_, fun hk => ?_, fun hk => ?_, fun hk => ?_, fun hj hk => ?_,
    fun {k t i} hk ht => ?_, fun {k t} hk => ?_⟩
  · rcases hcases _ _ hk with ⟨hk, -⟩ | ⟨hlo, hhi, -⟩
    · exact h.bounds hk
    · exact ⟨hlo, hhi⟩
  · rcases hcases _ _ hk with ⟨hk, -⟩ | ⟨-, -, -, t, -, hi⟩
    · exact ⟨(h.tries hk).1, hin _ _ (h.tries hk).2⟩
    · cases hi
  · rcases hcases _ _ hk with ⟨hk, -⟩ | ⟨-, -, -, t, -, hi⟩
    · obtain ⟨k, c, l, hk⟩ := h.endTries hk
      exact ⟨k, c, l, hin _ _ hk⟩
    · cases hi
  · rcases hcases _ _ hk with ⟨hk, -⟩ | ⟨-, -, -, t, -, hi⟩
    · obtain ⟨hentry, after, hjump, hlt, hret⟩ := h.spawns hk
      exact ⟨hentry, after, hin _ _ hjump, hlt, hin _ _ hret⟩
    · cases hi
  · rw [hrange] at hj hk
    exact h.nested hj hk
  · simp only [hcovers]
    rcases hcases _ _ hk with ⟨hk, hE⟩ | ⟨-, -, hout, t', ht', rfl⟩
    · exact h.leads hk (hE ▸ ht)
    · cases Instruction.target?_of_leadsTo? rfl ht
      refine .inl ⟨ht', hout.resolve_left fun hexit => ?_⟩
      rw [hexit] at ht
      cases ht
  · simp only [hcovers]
    rcases hcases _ _ hk with ⟨hk, -⟩ | ⟨-, -, -, t', ht', hi⟩
    · exact h.jumps hk
    · cases hi
      exact .inl ht'

/-! ## What one instruction enters and leaves -/

end Listing

/-- The instructions after which the next one is run in the same ranges. -/
def Instruction.passes : Instruction → Bool
  | .beginTry .. | .endTry | .jump _ | .ret => false
  | _ => true

namespace Listing.Laid

variable {L : Listing} {E : Nat → Bool} {T : List Nat} {lo hi j k a b c stop pc entry : Nat}
  {l : Option Nat} {i : Instruction} (h : L.Laid E T lo hi)

theorem opening (hr : L.range k = some (a, b)) :
    (a = k ∧ ∃ c, ∃ l, L a = some (.beginTry c b l)) ∨ (a = k + 1 ∧ ∃ t, L a = some (.jump t)) := by
  rcases range_cases hr with ⟨c, l, hk, rfl⟩ | ⟨entry, after, -, hjump, rfl, -⟩
  · exact .inl ⟨rfl, c, l, hk⟩
  · exact .inr ⟨rfl, after, hjump⟩

include h in
theorem nestedRanges : Nested L.range hi where
  lt_size {k r} hr := by
    have := h.range_bounds (a := r.1) (b := r.2) hr
    omega
  le_lo hr := (h.range_bounds hr).2.1
  nested hj hk hlt := by
    have hj' := h.ends hj
    have hk' := h.ends hk
    rcases h.nested hj hk hlt with hb | hb
    · exact .inl (by omega)
    · exact .inr ⟨by omega, by omega⟩

/-- A range that does not begin or end at `pc` covers `pc + 1` exactly if it covers `pc`. -/
theorem covers_step (hstep : ∀ a b, L.range j = some (a, b) → a ≠ pc ∧ b ≠ pc) :
    covers L.range j (pc + 1) = covers L.range j pc := by
  refine Bool.eq_iff_iff.2 ?_
  rw [covers_iff, covers_iff]
  constructor
  · rintro ⟨a, b, hr, ha, hb⟩
    obtain ⟨ha', -⟩ := hstep a b hr
    exact ⟨a, b, hr, by omega, by omega⟩
  · rintro ⟨a, b, hr, ha, hb⟩
    obtain ⟨-, hb'⟩ := hstep a b hr
    exact ⟨a, b, hr, by omega, by omega⟩

include h in
theorem covers_succ (hi : L pc = some i) (hpass : i.passes = true) (j : Nat) :
    covers L.range j (pc + 1) = covers L.range j pc := by
  refine covers_step fun a b hr => ⟨?_, ?_⟩
  · rintro rfl
    rcases opening hr with ⟨-, c, l, ha⟩ | ⟨-, t, ha⟩
    all_goals
      rw [hi] at ha
      cases ha
      cases hpass
  · rintro rfl
    rcases (h.ends hr).2.2.2 with hb | hb
    all_goals
      rw [hi] at hb
      cases hb
      cases hpass

include h in
theorem covers_begin (hk : L pc = some (.beginTry c stop l)) (j : Nat) :
    covers L.range j (pc + 1) = true ↔ covers L.range j pc = true ∨ j = pc := by
  by_cases hj : j = pc
  · subst hj
    obtain ⟨hlt, -⟩ := h.tries hk
    exact ⟨fun _ => .inr rfl, fun _ => covers_iff.2 ⟨j, stop, range_beginTry hk, by omega, by omega⟩⟩
  · have hsame : covers L.range j (pc + 1) = covers L.range j pc := by
      refine covers_step fun a b hr => ⟨?_, ?_⟩
      · rintro rfl
        rcases opening hr with ⟨ha, -⟩ | ⟨-, t, ha⟩
        · exact hj ha.symm
        · rw [hk] at ha
          cases ha
      · rintro rfl
        rcases (h.ends hr).2.2.2 with hb | hb
        all_goals
          rw [hk] at hb
          cases hb
    rw [hsame]
    exact ⟨.inl, fun hor => hor.resolve_right hj⟩

include h in
theorem covers_end (hend : L pc = some .endTry) : ∃ k c l, L k = some (.beginTry c pc l) ∧
    (∀ j, covers L.range j pc = true ↔ covers L.range j (pc + 1) = true ∨ j = k) ∧
      ∀ j, covers L.range j (pc + 1) = true → j < k := by
  obtain ⟨k, c, l, hk⟩ := h.endTries hend
  obtain ⟨hlt, -⟩ := h.tries hk
  have hrk := range_beginTry hk
  have hsame : ∀ j, j ≠ k → covers L.range j (pc + 1) = covers L.range j pc := by
    intro j hj
    refine covers_step fun a b hr => ⟨?_, ?_⟩
    · rintro rfl
      rcases opening hr with ⟨-, c, l, ha⟩ | ⟨-, t, ha⟩
      all_goals
        rw [hend] at ha
        cases ha
    · rintro rfl
      have hjb := h.range_bounds hr
      rcases Nat.lt_or_gt_of_ne hj with hjk | hjk
      · have := h.nested hr hrk hjk
        omega
      · have := h.nested hrk hr hjk
        omega
  have hout : covers L.range k (pc + 1) = false := by
    simp [covers, hrk]
  refine ⟨k, c, l, hk, fun j => ?_, fun j hj => ?_⟩
  · by_cases hj : j = k
    · subst hj
      exact ⟨fun _ => .inr rfl, fun _ => covers_iff.2 ⟨j, pc, hrk, hlt, le_rfl⟩⟩
    · rw [hsame j hj]
      exact ⟨.inl, fun hor => hor.resolve_right hj⟩
  · obtain ⟨a, b, hr, ha, hb⟩ := covers_iff.1 hj
    have hjb := h.range_bounds hr
    by_contra hge
    rcases Nat.eq_or_lt_of_le (Nat.not_lt.1 hge) with rfl | hkj
    · rw [hout] at hj
      cases hj
    · have := h.nested hrk hr hkj
      have hlt' : j < pc := by
        rw [hsame j (by omega)] at hj
        exact h.nestedRanges.covers_lt hj
      omega

include h in
theorem covers_spawn (hk : L pc = some (.spawn entry)) (j : Nat) :
    covers L.range j (pc + 2) = true ↔ covers L.range j pc = true ∨ j = pc := by
  obtain ⟨-, after, hjump, hlt, -⟩ := h.spawns hk
  have hrange := range_spawn hk hjump
  rw [← h.covers_succ hk rfl j]
  by_cases hj : j = pc
  · subst hj
    exact ⟨fun _ => .inr rfl, fun _ => covers_iff.2 ⟨_, _, hrange, by omega, by omega⟩⟩
  · have hsame : covers L.range j (pc + 1 + 1) = covers L.range j (pc + 1) := by
      refine covers_step fun a b hr => ⟨?_, ?_⟩
      · rintro rfl
        rcases opening hr with ⟨-, c, l, ha⟩ | ⟨ha, -⟩
        · rw [hjump] at ha
          cases ha
        · exact hj (by omega)
      · rintro rfl
        rcases (h.ends hr).2.2.2 with hb | hb
        all_goals
          rw [hjump] at hb
          cases hb
    rw [hsame]
    exact ⟨.inl, fun hor => hor.resolve_right hj⟩

end Listing.Laid

end Dream64.Vm
