import Dream64.Vm.Fragment
import Dream64.Vm.Layout

/-!
# The compiler lays its code out

`compileBlock_laid`: the draft of every block, at the position it is compiled
for, is `Laid` without outside targets, and its placeholders are those of the
loops around it. One lemma for each form of statement puts the pieces of its
draft together; the induction is over the statements.
-/

namespace Dream64.Vm

open Nesting

def DraftInstruction.placed? : DraftInstruction → Option Instruction
  | .placed instruction => some instruction
  | .loopExit target => some (.jump target)
  | _ => none

/-- A draft that starts at `pos`; a placeholder is no instruction yet. -/
def Draft.listing (pos : Nat) (draft : Draft) : Listing := fun pc =>
  if pos ≤ pc then (draft[pc - pos]?).bind DraftInstruction.placed? else none

/-- Where the jumps of `break` and `continue` are. -/
def Draft.exits (pos : Nat) (draft : Draft) (pc : Nat) : Bool :=
  decide (pos ≤ pc) && (draft[pc - pos]?).any DraftInstruction.isExit

def Draft.Laid (T : List Nat) (pos : Nat) (draft : Draft) : Prop :=
  (draft.listing pos).Laid (draft.exits pos) T pos (pos + draft.length)

/-- Code that begins and ends no range, with its targets in `T` or between two positions. -/
def Reaches (T : List Nat) (lo hi : Nat) (code : Code) : Prop :=
  ∀ i ∈ code, i.delimits = false ∧
    ∀ target, i.target? = some target → target ∈ T ∨ (lo ≤ target ∧ target ≤ hi)

variable {T : List Nat} {lo hi pos t c j k loops continueTarget breakTarget : Nat} {l : Option Nat}
  {code test : Code} {draft a b body : Draft} {i : Instruction}

@[simp] theorem reaches_nil : Reaches T lo hi [] := fun _ h => nomatch h

@[simp] theorem reaches_cons : Reaches T lo hi (i :: code) ↔ (i.delimits = false ∧
    ∀ target, i.target? = some target → target ∈ T ∨ (lo ≤ target ∧ target ≤ hi)) ∧
      Reaches T lo hi code :=
  List.forall_mem_cons

@[simp] theorem reaches_append {code' : Code} : Reaches T lo hi (code ++ code') ↔
    Reaches T lo hi code ∧ Reaches T lo hi code' :=
  List.forall_mem_append

theorem Instruction.delimits_of_ofStatement (h : i.ofStatement = false) : i.delimits = false := by
  cases i <;> first | rfl | cases h

theorem Within.reaches {lo' hi' : Nat} (h : Within lo' hi' code) (hlo : lo ≤ lo') (hhi : hi' ≤ hi) :
    Reaches T lo hi code := fun i hi =>
  ⟨Instruction.delimits_of_ofStatement (h i hi).1, fun target ht =>
    .inr ⟨hlo.trans ((h i hi).2 target ht).1, ((h i hi).2 target ht).2.trans hhi⟩⟩

namespace Draft

@[simp] theorem length_ofCode : (ofCode code).length = code.length := List.length_map ..

theorem listing_some (h : listing pos draft k = some i) :
    pos ≤ k ∧ ∃ d, draft[k - pos]? = some d ∧ d.placed? = some i := by
  simp only [listing] at h
  split at h
  · exact ⟨by assumption, Option.bind_eq_some_iff.1 h⟩
  · cases h

theorem listing_bounds (h : listing pos draft k = some i) : pos ≤ k ∧ k < pos + draft.length := by
  obtain ⟨hle, d, hd, -⟩ := listing_some h
  have := (List.getElem?_eq_some_iff.1 hd).1
  omega

theorem listing_append : listing pos (a ++ b) =
    Listing.join (pos + a.length) (listing pos a) (listing (pos + a.length) b) := by
  funext pc
  simp only [listing, Listing.join]
  by_cases hpc : pc < pos + a.length
  · rw [if_pos hpc]
    by_cases hle : pos ≤ pc
    · rw [if_pos hle, if_pos hle, List.getElem?_append_left (by omega)]
    · rw [if_neg hle, if_neg hle]
  · rw [if_neg hpc, if_pos (by omega), if_pos (by omega), List.getElem?_append_right (by omega)]
    congr 2
    omega

theorem exits_append : exits pos (a ++ b) =
    Listing.join (pos + a.length) (exits pos a) (exits (pos + a.length) b) := by
  funext pc
  simp only [exits, Listing.join]
  by_cases hpc : pc < pos + a.length
  · rw [if_pos hpc]
    by_cases hle : pos ≤ pc
    · rw [List.getElem?_append_left (by omega)]
    · simp only [decide_eq_false hle, Bool.false_and]
  · rw [if_neg hpc, decide_eq_true (show pos ≤ pc by omega), decide_eq_true (Nat.not_lt.1 hpc),
      List.getElem?_append_right (by omega), Nat.sub_sub]

theorem exits_ofCode (pc : Nat) : exits pos (ofCode code) pc = false := by
  rw [exits, ofCode, List.getElem?_map]
  cases code[pc - pos]? <;> exact Bool.and_false _

theorem exits_around {code' : Code} :
    exits pos (ofCode code ++ body ++ ofCode code') = exits (pos + code.length) body := by
  funext pc
  rw [exits_append, exits_append, length_ofCode]
  simp only [Listing.join, exits_ofCode]
  by_cases hlt : pc < pos + code.length
  · rw [if_pos hlt, ite_self, exits, decide_eq_false (Nat.not_le.2 hlt), Bool.false_and]
  · rw [if_neg hlt]
    split
    · rfl
    · rw [exits, List.getElem?_eq_none (by simp at *; omega), Option.any_none, Bool.and_false]

theorem Laid.append {n : Nat} (ha : Laid T pos a) (hb : Laid T n b) (hn : n = pos + a.length) :
    Laid T pos (a ++ b) := by
  subst hn
  have hend : pos + (a ++ b).length = pos + a.length + b.length := by
    rw [List.length_append, Nat.add_assoc]
  rw [Laid, listing_append, exits_append, hend]
  exact Listing.Laid.join ha hb (Nat.le_add_right ..) (Nat.le_add_right ..)

/-- Nothing is around the place where two pieces meet. -/
theorem Laid.boundary (ha : Laid T pos a) (hb : Laid T (pos + a.length) b) (j : Nat) :
    covers (listing pos (a ++ b)).range j (pos + a.length) = false := by
  rw [listing_append, Listing.join_covers ha hb, ha.not_covers (.inr le_rfl),
    hb.not_covers (.inl le_rfl)]
  rfl

theorem laid_code (h : Reaches T pos (pos + code.length) code) : Laid T pos (ofCode code) := by
  have hmem : ∀ k i, listing pos (ofCode code) k = some i → i ∈ code := by
    intro k i hk
    obtain ⟨-, d, hd, hplaced⟩ := listing_some hk
    obtain ⟨i', hi', rfl⟩ := List.mem_map.1 (List.mem_of_getElem? hd)
    cases hplaced
    exact hi'
  refine Listing.laid_straight (fun k i hk => listing_bounds hk)
    (fun k i hk => (h i (hmem k i hk)).1) fun k i t hk ht => ?_
  rw [length_ofCode]
  exact (h i (hmem k i hk)).2 t ht

theorem laid_nil : Laid T pos [] := laid_code reaches_nil

theorem Laid.closeStart (h : Laid (pos :: T) pos draft) : Laid T pos draft :=
  Listing.Laid.close h le_rfl (Nat.le_add_right ..) (h.not_covers (.inl le_rfl))

theorem Laid.closeEnd (h : Laid (t :: T) pos draft) (ht : t = pos + draft.length) :
    Laid T pos draft := by
  subst ht
  exact Listing.Laid.close h (Nat.le_add_right ..) le_rfl (h.not_covers (.inr le_rfl))

/-- Two pieces with jumps to the place where they meet. -/
theorem Laid.meet (ha : Laid (t :: T) pos a) (hb : Laid (t :: T) t b) (ht : t = pos + a.length) :
    Laid T pos (a ++ b) := by
  subst ht
  exact Listing.Laid.close (ha.append hb rfl) (Nat.le_add_right ..) (by simp) (ha.boundary hb)

/-! ## Patching -/

theorem isExit_of_placed? {d : DraftInstruction} (h : d.placed? = none) : d.isExit = false := by
  cases d <;> first | rfl | cases h

/-- The jumps to the end of a switch are in no range of its code. -/
def EndsOutside (pos : Nat) (draft : Draft) : Prop :=
  ∀ n, draft[n]? = some .endSwitch → ∀ j, covers (listing pos draft).range j (pos + n) = false

/-- Patching turns placeholders into exits, or into jumps that are in no range. -/
theorem Laid.patch {f : DraftInstruction → DraftInstruction} (h : Laid T pos draft)
    (hplaced : ∀ d i, d.placed? = some i → f d = d)
    (hf : ∀ n d, draft[n]? = some d → d.placed? = none → (f d).placed? = none ∨
      (∃ t ∈ T, f d = .loopExit t) ∨ ∃ t ∈ T, f d = .placed (.jump t) ∧
        ∀ j, covers (listing pos draft).range j (pos + n) = false) :
    Laid T pos (draft.map f) := by
  rw [Laid, List.length_map]
  refine Listing.Laid.fill h fun k => ?_
  simp only [listing, exits]
  by_cases hle : pos ≤ k
  · obtain ⟨n, rfl⟩ := Nat.exists_eq_add_of_le hle
    simp only [if_pos hle, decide_eq_true hle, Bool.true_and, Nat.add_sub_cancel_left,
      List.getElem?_map]
    cases hd : draft[n]? with
    | none => exact .inl ⟨rfl, rfl⟩
    | some d =>
      have hlt := (List.getElem?_eq_some_iff.1 hd).1
      cases hp : d.placed? with
      | some i =>
        rw [Option.map_some, hplaced d i hp]
        exact .inl ⟨rfl, rfl⟩
      | none =>
        rcases hf n d hd hp with hnone | ⟨t, ht, heq⟩ | ⟨t, ht, heq, hout⟩
        · exact .inl ⟨by simp [hnone, hp], by simp [isExit_of_placed?, hnone, hp]⟩
        · exact .inr ⟨hp, hle, by omega, .inl (by simp [heq, DraftInstruction.isExit]), t, ht,
            by simp [heq, DraftInstruction.placed?]⟩
        · exact .inr ⟨hp, hle, by omega, .inr hout, t, ht, by simp [heq, DraftInstruction.placed?]⟩
  · exact .inl ⟨by rw [if_neg hle, if_neg hle], by simp [hle]⟩

theorem Laid.patchLoop (h : Laid T pos draft) (hcontinue : continueTarget ∈ T)
    (hbreak : breakTarget ∈ T) :
    Laid T pos (draft.map (·.patchLoop continueTarget breakTarget)) := by
  refine h.patch (fun d i hi => ?_) fun n d _ hd => ?_
  · cases d <;> first | rfl | cases hi
  cases d with
  | placed _ | loopExit _ => cases hd
  | breakLoop depth =>
    cases depth with
    | zero => exact .inr (.inl ⟨_, hbreak, rfl⟩)
    | succ depth => exact .inl rfl
  | continueLoop depth =>
    cases depth with
    | zero => exact .inr (.inl ⟨_, hcontinue, rfl⟩)
    | succ depth => exact .inl rfl
  | endSwitch => exact .inl rfl

theorem Laid.patchSwitch (h : Laid T pos draft) (hends : EndsOutside pos draft) (ht : t ∈ T) :
    Laid T pos (draft.map (·.patchSwitch t)) := by
  refine h.patch (fun d i hi => ?_) fun n d hn hd => ?_
  · cases d <;> first | rfl | cases hi
  cases d with
  | placed _ | loopExit _ => cases hd
  | endSwitch => exact .inr (.inr ⟨_, ht, rfl, hends n hn⟩)
  | _ => exact .inl rfl

theorem EndsOutside.append {n : Nat} (ha : EndsOutside pos a) (hb : EndsOutside n b)
    (hlaid : Laid T pos a) (hlaid' : Laid T n b) (hn : n = pos + a.length) :
    EndsOutside pos (a ++ b) := by
  subst hn
  intro k hk j
  rw [listing_append, Listing.join_covers hlaid hlaid']
  by_cases hlt : k < a.length
  · rw [List.getElem?_append_left hlt] at hk
    rw [ha k hk, hlaid'.not_covers (.inl (by omega))]
    rfl
  · obtain ⟨m, rfl⟩ := Nat.exists_eq_add_of_le (Nat.not_lt.1 hlt)
    rw [List.getElem?_append_right (by omega), Nat.add_sub_cancel_left] at hk
    rw [hlaid.not_covers (.inr (by omega)), ← Nat.add_assoc, hb m hk]
    rfl

theorem Laid.mono {T' : List Nat} (h : Laid T pos draft) (hT : ∀ t ∈ T, t ∈ T') :
    Laid T' pos draft :=
  Listing.Laid.mono h hT

theorem Laid.outside (h : Laid [] pos draft) (T : List Nat) : Laid T pos draft :=
  h.mono fun _ ht => nomatch ht

theorem laid_placeholder {d : DraftInstruction} (hd : d.placed? = none) : Laid T pos [d] := by
  have hnone : ∀ k i, listing pos [d] k ≠ some i := by
    intro k i hk
    obtain ⟨-, d', hd', hplaced⟩ := listing_some hk
    rw [List.mem_singleton.1 (List.mem_of_getElem? hd'), hd] at hplaced
    cases hplaced
  exact Listing.laid_straight (fun k i hk => absurd hk (hnone k i))
    (fun k i hk => absurd hk (hnone k i)) fun k i t hk _ => absurd hk (hnone k i)

/-! ## Ranges -/

theorem listing_of_lt (h : k < pos) : listing pos draft k = none := if_neg (by omega)

theorem listing_nil : listing pos [] k = none := by simp [listing]

@[simp] theorem listing_cons_self : listing pos (.placed i :: draft) pos = some i := by
  simp [listing, DraftInstruction.placed?]

theorem listing_cons {d : DraftInstruction} (h : k ≠ pos) :
    listing pos (d :: draft) k = listing (pos + 1) draft k := by
  by_cases hle : pos ≤ k
  · obtain ⟨m, rfl⟩ : ∃ m, k = pos + (m + 1) := ⟨k - pos - 1, by omega⟩
    have hindex : pos + (m + 1) - (pos + 1) = m := by omega
    simp only [listing, if_pos hle, if_pos (show pos + 1 ≤ pos + (m + 1) by omega),
      Nat.add_sub_cancel_left, List.getElem?_cons_succ, hindex]
  · rw [listing_of_lt (by omega), listing_of_lt (by omega)]

theorem listing_tryCatch {stop : Nat} (hstop : stop = pos + 1 + body.length) :
    listing pos (ofCode [.beginTry c stop l] ++ body ++ ofCode [.endTry]) =
      Listing.tryAround pos stop c l (listing (pos + 1) body) := by
  funext pc
  have hcode : ofCode [.beginTry c stop l] ++ body ++ ofCode [.endTry] =
      .placed (.beginTry c stop l) :: (body ++ [.placed .endTry]) := by
    simp [ofCode]
  rw [hcode, Listing.tryAround]
  by_cases hpos : pc = pos
  · rw [if_pos hpos, hpos, listing_cons_self]
  · rw [if_neg hpos, listing_cons hpos, listing_append, ← hstop, Listing.join]
    by_cases hend : pc = stop
    · rw [if_pos hend, if_neg (by omega), hend, listing_cons_self]
    · rw [if_neg hend]
      by_cases hlt : pc < stop
      · rw [if_pos hlt]
      · rw [if_neg hlt, listing_cons hend, listing_nil, eq_comm,
          Option.eq_none_iff_forall_ne_some]
        intro i hi
        have := listing_bounds hi
        omega

theorem Laid.tryCatch {stop : Nat} (h : Laid [] (pos + 1) body)
    (hstop : stop = pos + 1 + body.length) :
    Laid [c] pos (ofCode [.beginTry c stop l] ++ body ++ ofCode [.endTry]) := by
  have hend : pos + (ofCode [.beginTry c stop l] ++ body ++ ofCode [.endTry]).length =
      stop + 1 := by
    simp only [List.length_append, length_ofCode, List.length_cons, List.length_nil]
    omega
  rw [Laid, listing_tryCatch hstop, exits_around, hend]
  subst hstop
  exact Listing.Laid.tryAround h (Nat.le_add_right ..)

theorem listing_spawn {stop : Nat} (hstop : stop = pos + 2 + body.length) :
    listing pos (ofCode [.spawn (pos + 2), .jump (stop + 2)] ++ body ++ ofCode [.pushNull, .ret]) =
      Listing.spawnAround pos stop (listing (pos + 2) body) := by
  funext pc
  have hcode : ofCode [.spawn (pos + 2), .jump (stop + 2)] ++ body ++ ofCode [.pushNull, .ret] =
      .placed (.spawn (pos + 2)) :: .placed (.jump (stop + 2)) ::
        (body ++ [.placed .pushNull, .placed .ret]) := by
    simp [ofCode]
  rw [hcode, Listing.spawnAround]
  by_cases hpos : pc = pos
  · rw [if_pos hpos, hpos, listing_cons_self]
  · rw [if_neg hpos, listing_cons hpos]
    by_cases hskip : pc = pos + 1
    · rw [if_pos hskip, hskip, listing_cons_self]
    · rw [if_neg hskip, listing_cons hskip, listing_append, ← hstop, Listing.join]
      by_cases hnull : pc = stop
      · rw [if_pos hnull, if_neg (by omega), hnull, listing_cons_self]
      · rw [if_neg hnull]
        by_cases hret : pc = stop + 1
        · rw [if_pos hret, if_neg (by omega), hret, listing_cons (by omega), listing_cons_self]
        · rw [if_neg hret]
          by_cases hlt : pc < stop
          · rw [if_pos hlt]
          · rw [if_neg hlt, listing_cons hnull, listing_cons hret, listing_nil, eq_comm,
              Option.eq_none_iff_forall_ne_some]
            intro i hi
            have := listing_bounds hi
            omega

theorem Laid.spawn {stop : Nat} (h : Laid [] (pos + 2) body) (hstop : stop = pos + 2 + body.length) :
    Laid [] pos
      (ofCode [.spawn (pos + 2), .jump (stop + 2)] ++ body ++ ofCode [.pushNull, .ret]) := by
  have hend : pos + (ofCode [.spawn (pos + 2), .jump (stop + 2)] ++ body ++
      ofCode [.pushNull, .ret]).length = stop + 2 := by
    simp only [List.length_append, length_ofCode, List.length_cons, List.length_nil]
    omega
  rw [Laid, listing_spawn hstop, exits_around, hend]
  subst hstop
  exact Listing.Laid.spawnAround h (Nat.le_add_right ..)

/-! ## Placeholders -/

end Draft

/-- The instructions that only the specialisation of loop headers makes. -/
def Instruction.specialized : Instruction → Bool
  | .nextLocalListIteration .. => true
  | _ => false

def Unspecialized (code : Code) : Prop := ∀ i ∈ code, i.specialized = false

@[simp] theorem unspecialized_nil : Unspecialized [] := fun _ h => nomatch h

@[simp] theorem unspecialized_cons :
    Unspecialized (i :: code) ↔ i.specialized = false ∧ Unspecialized code :=
  List.forall_mem_cons

@[simp] theorem unspecialized_append {code' : Code} :
    Unspecialized (code ++ code') ↔ Unspecialized code ∧ Unspecialized code' :=
  List.forall_mem_append

theorem Within.unspecialized (h : Within lo hi code) : Unspecialized code := by
  intro i hi
  have := (h i hi).1
  cases i <;> first | rfl | cases this

/-- A placeholder for one of `loops` loops. -/
def DraftInstruction.Below (loops : Nat) : DraftInstruction → Prop
  | .placed instruction => instruction.specialized = false
  | .breakLoop depth | .continueLoop depth => depth < loops
  | .endSwitch => False
  | .loopExit _ => True

def Draft.Below (loops : Nat) (draft : Draft) : Prop := ∀ d ∈ draft, d.Below loops

namespace Draft

@[simp] theorem below_append : (a ++ b).Below loops ↔ a.Below loops ∧ b.Below loops :=
  List.forall_mem_append

@[simp] theorem below_ofCode : (ofCode code).Below loops ↔ Unspecialized code :=
  List.forall_mem_map

theorem Below.patchLoop (h : draft.Below (loops + 1)) :
    Below loops (draft.map (·.patchLoop continueTarget breakTarget)) := by
  intro d hd
  obtain ⟨d', hd', rfl⟩ := List.mem_map.1 hd
  have hbelow := h d' hd'
  cases d' with
  | placed i => exact hbelow
  | breakLoop depth | continueLoop depth =>
    cases depth with
    | zero => trivial
    | succ depth => exact Nat.lt_of_succ_lt_succ hbelow
  | endSwitch => cases hbelow
  | loopExit t => trivial

theorem Below.endsOutside (h : draft.Below loops) : EndsOutside pos draft := fun _ hn =>
  (h _ (List.mem_of_getElem? hn)).elim

theorem below_patchSwitch (h : ∀ d ∈ draft, d.Below loops ∨ d = .endSwitch) :
    Below loops (draft.map (·.patchSwitch t)) := by
  intro d hd
  obtain ⟨d', hd', rfl⟩ := List.mem_map.1 hd
  rcases h d' hd' with hbelow | rfl
  · cases d' with
    | endSwitch => cases hbelow
    | _ => exact hbelow
  · rfl

/-! ## The forms of statements -/

section Forms

variable {thenCode elseCode bodyCode caseCode catchCode codes : Draft} {stop : Nat}
  {value initial fetch filter store step : Code}

/-- A test and the jump past what it guards. -/
theorem laid_test (htest : Within pos (pos + test.length) test) (ht : t ∈ T) :
    Laid T pos (ofCode (test ++ [.jumpIfFalse t])) := by
  refine laid_code (reaches_append.2 ⟨htest.reaches le_rfl (by simp), ?_⟩)
  simp only [reaches_cons, reaches_nil, and_true]
  refine ⟨rfl, fun target htarget => ?_⟩
  cases htarget
  exact .inl ht

theorem laid_jump (ht : t ∈ T) : Laid T pos (ofCode [.jump t]) := by
  refine laid_code (reaches_cons.2 ⟨⟨rfl, fun target htarget => ?_⟩, reaches_nil⟩)
  cases htarget
  exact .inl ht

theorem laid_within (h : Within pos (pos + code.length) code) : Laid T pos (ofCode code) :=
  laid_code (h.reaches le_rfl le_rfl)

/-- Straight code and one instruction that does not jump. -/
theorem laid_ending (h : Within pos (pos + code.length) code) (hi : i.delimits = false)
    (ht : i.target? = none) : Laid T pos (ofCode (code ++ [i])) := by
  refine laid_code (reaches_append.2 ⟨h.reaches le_rfl (by simp), ?_⟩)
  simp only [reaches_cons, reaches_nil, and_true]
  refine ⟨hi, fun target htarget => ?_⟩
  rw [ht] at htarget
  cases htarget

theorem laid_ifThen (htest : Within pos (pos + test.length) test)
    (hthen : Laid [] (pos + test.length + 1) thenCode)
    (hstop : stop = pos + test.length + 1 + thenCode.length) :
    Laid [] pos (ofCode (test ++ [.jumpIfFalse stop]) ++ thenCode) :=
  .closeEnd (.append (laid_test htest List.mem_cons_self) (hthen.outside _) (by simp; omega))
    (by simp; omega)

theorem laid_ifElse {endJump : Code} {elseTarget : Nat}
    (htest : Within pos (pos + test.length) test)
    (hthen : Laid [] (pos + test.length + 1) thenCode) (helse : Laid [] elseTarget elseCode)
    (hjump : endJump = [] ∨ endJump = [.jump (elseTarget + elseCode.length)])
    (htarget : elseTarget = pos + test.length + 1 + thenCode.length + endJump.length) :
    Laid [] pos (ofCode (test ++ [.jumpIfFalse elseTarget]) ++ thenCode ++ ofCode endJump ++
      elseCode) := by
  have hend : Laid [elseTarget, elseTarget + elseCode.length]
      (pos + test.length + 1 + thenCode.length) (ofCode endJump) := by
    rcases hjump with rfl | rfl
    · exact laid_code reaches_nil
    · exact laid_jump (by simp)
  have hskip : Laid [elseTarget, elseTarget + elseCode.length] pos
      (ofCode (test ++ [.jumpIfFalse elseTarget]) ++ thenCode ++ ofCode endJump) :=
    .append (.append (laid_test htest (by simp)) (hthen.outside _) (by simp; omega)) hend
      (by simp; omega)
  exact .closeEnd (.meet hskip (helse.outside _) (by simp; omega)) (by simp; omega)

theorem laid_case (htest : Within pos (pos + test.length) test)
    (hbody : Laid [] (pos + test.length + 1) bodyCode) (hrest : Laid [] t codes)
    (hbelow : Below loops (ofCode (test ++ [.jumpIfFalse t]) ++ bodyCode))
    (hends : EndsOutside t codes) (ht : t = pos + test.length + 1 + bodyCode.length + 1) :
    Laid [] pos (ofCode (test ++ [.jumpIfFalse t]) ++ bodyCode ++ .endSwitch :: codes) ∧
      EndsOutside pos (ofCode (test ++ [.jumpIfFalse t]) ++ bodyCode ++ .endSwitch :: codes) := by
  have hend : Laid [t] (pos + test.length + 1 + bodyCode.length) [.endSwitch] :=
    laid_placeholder rfl
  have hendOutside : EndsOutside (pos + test.length + 1 + bodyCode.length) [.endSwitch] := by
    intro n hn
    have hzero := (List.getElem?_eq_some_iff.1 hn).1
    exact hend.not_covers (.inl (by simp at hzero; omega))
  have hguarded : Laid [t] pos (ofCode (test ++ [.jumpIfFalse t]) ++ bodyCode) :=
    .append (laid_test htest (by simp)) (hbody.outside _) (by simp; omega)
  have hcase := hguarded.append hend (by simp; omega)
  have hall := Laid.meet hcase (hrest.outside _) (by simp; omega)
  have hallOutside := (hbelow.endsOutside.append hendOutside hguarded hend (by simp; omega)).append
    hends hcase (hrest.outside _) (by simp; omega)
  rw [List.append_assoc, List.singleton_append] at hall hallOutside
  exact ⟨hall, hallOutside⟩

theorem laid_switch {slot : Nat} {defaultCode : Draft}
    (hvalue : Within pos (pos + value.length) value)
    (hcases : Laid [] (pos + value.length + 1) caseCode)
    (hdefault : Laid [] (pos + value.length + 1 + caseCode.length) defaultCode)
    (hends : EndsOutside (pos + value.length + 1) (caseCode ++ defaultCode))
    (hstop : stop = pos + value.length + 1 + caseCode.length + defaultCode.length) :
    Laid [] pos (ofCode (value ++ [.storeLocal slot]) ++
      (caseCode ++ defaultCode).map (·.patchSwitch stop)) := by
  have hstore : Laid [stop] pos (ofCode (value ++ [.storeLocal slot])) :=
    laid_ending hvalue rfl rfl
  have hcode := ((hcases.append hdefault rfl).outside [stop]).patchSwitch hends
    (List.mem_singleton_self _)
  exact .closeEnd (hstore.append hcode (by simp; omega)) (by simp; omega)

theorem laid_while (htest : Within pos (pos + test.length) test)
    (hbody : Laid [] (pos + test.length + 1) bodyCode)
    (hstop : stop = pos + test.length + 1 + bodyCode.length + 1) :
    Laid [] pos (ofCode (test ++ [.jumpIfFalse stop]) ++ bodyCode.map (·.patchLoop pos stop) ++
      ofCode [.jump pos]) := by
  have hpatched : Laid [pos, stop] (pos + test.length + 1) (bodyCode.map (·.patchLoop pos stop)) :=
    (hbody.outside [pos, stop]).patchLoop (by simp) (by simp)
  have hall : Laid [pos, stop] pos (ofCode (test ++ [.jumpIfFalse stop]) ++
      bodyCode.map (·.patchLoop pos stop) ++ ofCode [.jump pos]) :=
    .append (.append (laid_test htest (by simp)) hpatched (by simp; omega)) (laid_jump (by simp))
      rfl
  exact .closeEnd hall.closeStart (by simp; omega)

theorem laid_doWhile (hbody : Laid [] pos bodyCode)
    (htest : Within (pos + bodyCode.length) (pos + bodyCode.length + test.length) test)
    (hstop : stop = pos + bodyCode.length + test.length + 2) :
    Laid [] pos (bodyCode.map (·.patchLoop (pos + bodyCode.length) stop) ++
      ofCode (test ++ [.jumpIfFalse stop, .jump pos])) := by
  have hpatched : Laid [pos + bodyCode.length, pos, stop] pos
      (bodyCode.map (·.patchLoop (pos + bodyCode.length) stop)) :=
    (hbody.outside [pos + bodyCode.length, pos, stop]).patchLoop (by simp) (by simp)
  have hjumps : Laid [pos + bodyCode.length, pos, stop] (pos + bodyCode.length)
      (ofCode (test ++ [.jumpIfFalse stop, .jump pos])) := by
    refine laid_code (reaches_append.2 ⟨htest.reaches le_rfl (by simp), ?_⟩)
    simp only [reaches_cons, reaches_nil, and_true]
    refine ⟨⟨rfl, fun target htarget => ?_⟩, rfl, fun target htarget => ?_⟩
    · cases htarget
      exact .inl (by simp)
    · cases htarget
      exact .inl (by simp)
  exact .closeEnd (hpatched.meet hjumps (by simp)).closeStart (by simp; omega)

theorem laid_forLoop {filterJump : Code} {conditionTarget fetchStart filterStart storeStart
    bodyStart stepTarget : Nat} (hinitial : Within pos (pos + initial.length) initial)
    (hcondition : conditionTarget = pos + initial.length)
    (htest : Within conditionTarget (conditionTarget + test.length) test)
    (hfetchStart : fetchStart = conditionTarget + test.length + 1)
    (hfetch : Within fetchStart (fetchStart + fetch.length) fetch)
    (hfilterStart : filterStart = fetchStart + fetch.length)
    (hfilter : Within filterStart (filterStart + filter.length) filter)
    (hjump : filterJump = [] ∨ filterJump = [.jumpIfFalse stepTarget])
    (hstoreStart : storeStart = filterStart + filter.length + filterJump.length)
    (hstore : Within storeStart (storeStart + store.length) store)
    (hbodyStart : bodyStart = storeStart + store.length) (hbody : Laid [] bodyStart bodyCode)
    (hstepTarget : stepTarget = bodyStart + bodyCode.length)
    (hstep : Within stepTarget (stepTarget + step.length) step)
    (hstop : stop = stepTarget + step.length + 1) :
    Laid [] pos (ofCode (initial ++ test ++ [.jumpIfFalse stop] ++ fetch ++ filter ++ filterJump ++
        store) ++ bodyCode.map (·.patchLoop stepTarget stop) ++
      ofCode (step ++ [.jump conditionTarget])) := by
  have hpatched : Laid [stepTarget, conditionTarget, stop] bodyStart
      (bodyCode.map (·.patchLoop stepTarget stop)) :=
    (hbody.outside [stepTarget, conditionTarget, stop]).patchLoop (by simp) (by simp)
  have hheader : Laid [stepTarget, conditionTarget, stop] conditionTarget
      (ofCode (test ++ [.jumpIfFalse stop] ++ fetch ++ filter ++ filterJump ++ store)) := by
    have hfilterJump : Reaches [stepTarget, conditionTarget, stop] conditionTarget bodyStart
        filterJump := by
      rcases hjump with rfl | rfl
      · exact reaches_nil
      · simp only [reaches_cons, reaches_nil, and_true]
        refine ⟨rfl, fun target htarget => ?_⟩
        cases htarget
        exact .inl List.mem_cons_self
    have hlen : conditionTarget + (test ++ [Instruction.jumpIfFalse stop] ++ fetch ++ filter ++ filterJump ++
        store).length = bodyStart := by
      simp
      omega
    refine laid_code ?_
    rw [hlen]
    simp only [reaches_append, reaches_cons, reaches_nil, and_true]
    refine ⟨⟨⟨⟨⟨htest.reaches le_rfl (by omega), rfl, fun target htarget => ?_⟩,
      hfetch.reaches (by omega) (by omega)⟩, hfilter.reaches (by omega) (by omega)⟩, hfilterJump⟩,
      hstore.reaches (by omega) (by omega)⟩
    cases htarget
    exact .inl (by simp)
  have hback : Laid [stepTarget, conditionTarget, stop] stepTarget
      (ofCode (step ++ [.jump conditionTarget])) := by
    refine laid_code (reaches_append.2 ⟨hstep.reaches le_rfl (by simp), ?_⟩)
    simp only [reaches_cons, reaches_nil, and_true]
    refine ⟨rfl, fun target htarget => ?_⟩
    cases htarget
    exact .inl (by simp)
  have hturn := (Laid.meet (.append hheader hpatched (by simp; omega)) hback
    (by simp; omega)).closeStart
  have hall := Laid.closeEnd (.append (laid_within hinitial) hturn (by simp; omega)) (by simp; omega)
  simpa [ofCode] using hall

theorem laid_tryCatch {endJump : Code} (hbody : Laid [] (pos + 1) bodyCode)
    (hcatch : Laid [] c catchCode) (hstop : stop = pos + 1 + bodyCode.length)
    (hjump : endJump = [] ∨ endJump = [.jump (c + catchCode.length)])
    (hc : c = stop + 1 + endJump.length) :
    Laid [] pos (ofCode [.beginTry c stop l] ++ bodyCode ++ ofCode (.endTry :: endJump) ++
      catchCode) := by
  have hend : Laid [c, c + catchCode.length] (stop + 1) (ofCode endJump) := by
    rcases hjump with rfl | rfl
    · exact laid_code reaches_nil
    · exact laid_jump (by simp)
  have hprotected := (hbody.tryCatch (c := c) (l := l) hstop).mono
    (show ∀ t ∈ [c], t ∈ [c, c + catchCode.length] by simp)
  have htry := hprotected.append hend (by simp; omega)
  have hall := Laid.closeEnd (.meet htry (hcatch.outside _) (by simp; omega)) (by simp; omega)
  simpa [ofCode] using hall

theorem laid_spawn {delay : Code} (hdelay : Within pos (pos + delay.length) delay)
    (hbody : Laid [] (pos + delay.length + 2) bodyCode)
    (hstop : stop = pos + delay.length + 2 + bodyCode.length) :
    Laid [] pos (ofCode (delay ++ [.spawn (pos + delay.length + 2), .jump (stop + 2)]) ++
      bodyCode ++ ofCode [.pushNull, .ret]) := by
  have hspawn := hbody.spawn hstop
  have hall := (laid_within (T := []) hdelay).append hspawn (by simp)
  simpa [ofCode] using hall

end Forms

end Draft

/-! ## Every statement -/

open Draft

theorem loopDepth_lt {depth n : Nat} {outside tooDeep : CompileError}
    (h : loopDepth loops depth outside tooDeep = .ok n) : n < loops := by
  simp only [loopDepth] at h
  split at h
  · cases h
  · split at h
    · cases h
    · cases h
      omega

/-- What compiling a block, or a statement, gives. -/
def CompilesLaid (compiled : Except CompileError (Draft × Bool)) (loops pos : Nat) : Prop :=
  ∀ draft fallsThrough, compiled = .ok (draft, fallsThrough) →
    Draft.Laid [] pos draft ∧ draft.Below loops

mutual

theorem compileStatement_laid (loops pos : Nat) (s : Statement) :
    CompilesLaid (compileStatement loops pos s) loops pos := by
  intro draft fallsThrough h
  cases s with
  | simple code =>
    simp only [compileStatement, Except.bind_eq_ok, Except.pure_eq_ok, Prod.mk.injEq] at h
    obtain ⟨codes, hcode, rfl, -⟩ := h
    exact ⟨laid_within (code.within hcode), below_ofCode.2 (code.within hcode).unspecialized⟩
  | ifElse condition thenBody elseBody =>
    cases elseBody with
    | none =>
      simp only [compileStatement, Except.bind_eq_ok, Except.pure_eq_ok, Prod.exists,
        Prod.mk.injEq] at h
      obtain ⟨test, htest, thenCode, _, hthen, rfl, -⟩ := h
      obtain ⟨hlaid, hbelow⟩ := compileBlock_laid loops _ thenBody _ _ hthen
      refine ⟨laid_ifThen (condition.within htest) hlaid rfl, ?_⟩
      simpa [Instruction.specialized, (condition.within htest).unspecialized] using hbelow
    | some elseBody =>
      simp only [compileStatement, Except.bind_eq_ok, Except.pure_eq_ok, Prod.exists,
        Prod.mk.injEq] at h
      obtain ⟨test, htest, thenCode, thenFallsThrough, hthen, elseCode, _, helse, rfl, -⟩ := h
      obtain ⟨hlaid, hbelow⟩ := compileBlock_laid loops _ thenBody _ _ hthen
      obtain ⟨hlaid', hbelow'⟩ := compileBlock_laid loops _ elseBody _ _ helse
      refine ⟨laid_ifElse (condition.within htest) hlaid hlaid' ?_ ?_, ?_⟩
      · cases thenFallsThrough
        · exact .inl rfl
        · exact .inr rfl
      · cases thenFallsThrough <;> rfl
      · cases thenFallsThrough <;>
          simp [Instruction.specialized, (condition.within htest).unspecialized, hbelow, hbelow']
  | switch selector slot cases default =>
    cases default with
    | none =>
      simp only [compileStatement, Except.bind_eq_ok, Except.pure_eq_ok, Prod.exists,
        Prod.mk.injEq, Except.ok.injEq] at h
      obtain ⟨value, hvalue, caseCode, hcases, _, _, ⟨rfl, -⟩, rfl, -⟩ := h
      obtain ⟨hlaid, hbelow, hends⟩ := compileCases_laid loops _ cases hcases
      refine ⟨laid_switch (selector.within hvalue) hlaid laid_nil (by simpa using hends) rfl, ?_⟩
      rw [List.append_nil, below_append]
      refine ⟨?_, below_patchSwitch hbelow⟩
      simp [Instruction.specialized, (selector.within hvalue).unspecialized]
    | some body =>
      simp only [compileStatement, Except.bind_eq_ok, Except.pure_eq_ok, Prod.exists,
        Prod.mk.injEq] at h
      obtain ⟨value, hvalue, caseCode, hcases, defaultCode, _, hbody, rfl, -⟩ := h
      obtain ⟨hlaid, hbelow, hends⟩ := compileCases_laid loops _ cases hcases
      obtain ⟨hlaid', hbelow'⟩ := compileBlock_laid loops _ body _ _ hbody
      refine ⟨laid_switch (selector.within hvalue) hlaid hlaid'
        (hends.append hbelow'.endsOutside hlaid hlaid' rfl) rfl, below_append.2 ⟨?_, below_patchSwitch fun d hd => ?_⟩⟩
      · simp [Instruction.specialized, (selector.within hvalue).unspecialized]
      · rcases List.mem_append.1 hd with hd | hd
        · exact hbelow d hd
        · exact .inl (hbelow' d hd)
  | whileLoop condition body =>
    simp only [compileStatement, Except.bind_eq_ok, Except.pure_eq_ok, Prod.exists,
      Prod.mk.injEq] at h
    obtain ⟨test, htest, bodyCode, _, hbody, rfl, -⟩ := h
    obtain ⟨hlaid, hbelow⟩ := compileBlock_laid (loops + 1) _ body _ _ hbody
    refine ⟨laid_while (condition.within htest) hlaid rfl, ?_⟩
    simp [Instruction.specialized, (condition.within htest).unspecialized, hbelow.patchLoop]
  | doWhile body condition =>
    simp only [compileStatement, Except.bind_eq_ok, Except.pure_eq_ok, Prod.exists,
      Prod.mk.injEq] at h
    obtain ⟨bodyCode, _, hbody, test, htest, rfl, -⟩ := h
    obtain ⟨hlaid, hbelow⟩ := compileBlock_laid (loops + 1) _ body _ _ hbody
    refine ⟨laid_doWhile hlaid (condition.within htest) rfl, ?_⟩
    simp [Instruction.specialized, (condition.within htest).unspecialized, hbelow.patchLoop]
  | forLoop header body =>
    obtain ⟨initial, condition, fetch, filter, store, step⟩ := header
    simp only [compileStatement, Except.bind_eq_ok, Except.pure_eq_ok, Prod.exists,
      Prod.mk.injEq] at h
    obtain ⟨initialCode, hinitial, test, htest, fetchCode, hfetch, filterCode, hfilter, storeCode,
      hstore, bodyCode, _, hbody, stepCode, hstep, rfl, -⟩ := h
    obtain ⟨hlaid, hbelow⟩ := compileBlock_laid (loops + 1) _ body _ _ hbody
    have hplain := And.intro (initial.within hinitial).unspecialized
      (And.intro (condition.within htest).unspecialized (And.intro (fetch.within hfetch).unspecialized
        (And.intro (store.within hstore).unspecialized (step.within hstep).unspecialized)))
    cases filter with
    | none =>
      cases hfilter
      refine ⟨laid_forLoop (initial.within hinitial) rfl (condition.within htest) rfl
        (fetch.within hfetch) rfl within_nil (.inl rfl) rfl (store.within hstore) rfl hlaid rfl
        (step.within hstep) rfl, ?_⟩
      simp [Instruction.specialized, hplain, hbelow.patchLoop]
    | some filter =>
      refine ⟨laid_forLoop (initial.within hinitial) rfl (condition.within htest) rfl
        (fetch.within hfetch) rfl (filter.within hfilter) (.inr rfl) rfl (store.within hstore)
        rfl hlaid rfl (step.within hstep) rfl, ?_⟩
      simp [Instruction.specialized, hplain, (filter.within hfilter).unspecialized,
        hbelow.patchLoop]
  | tryCatch body catchLocal catchBody =>
    cases catchBody with
    | none =>
      simp only [compileStatement, Except.bind_eq_ok, Except.pure_eq_ok, Prod.exists,
        Prod.mk.injEq, Except.ok.injEq] at h
      obtain ⟨bodyCode, fallsThrough, hbody, _, _, ⟨rfl, -⟩, rfl, -⟩ := h
      obtain ⟨hlaid, hbelow⟩ := compileBlock_laid loops _ body _ _ hbody
      refine ⟨laid_tryCatch hlaid laid_nil rfl ?_ ?_, ?_⟩
      · cases fallsThrough
        · exact .inl rfl
        · exact .inr rfl
      · cases fallsThrough <;> rfl
      · rw [List.append_nil]
        cases fallsThrough <;> simp [Instruction.specialized, hbelow]
    | some catchBody =>
      simp only [compileStatement, Except.bind_eq_ok, Except.pure_eq_ok, Prod.exists,
        Prod.mk.injEq] at h
      obtain ⟨bodyCode, fallsThrough, hbody, catchCode, _, hcatch, rfl, -⟩ := h
      obtain ⟨hlaid, hbelow⟩ := compileBlock_laid loops _ body _ _ hbody
      obtain ⟨hlaid', hbelow'⟩ := compileBlock_laid loops _ catchBody _ _ hcatch
      refine ⟨laid_tryCatch hlaid hlaid' rfl ?_ ?_, ?_⟩
      · cases fallsThrough
        · exact .inl rfl
        · exact .inr rfl
      · cases fallsThrough <;> rfl
      · cases fallsThrough <;> simp [Instruction.specialized, hbelow, hbelow']
  | spawn delay body =>
    simp only [compileStatement, Except.bind_eq_ok, Except.pure_eq_ok, Prod.exists,
      Prod.mk.injEq] at h
    obtain ⟨delayCode, hdelay, bodyCode, _, hbody, rfl, -⟩ := h
    obtain ⟨hlaid, hbelow⟩ := compileBlock_laid loops _ body _ _ hbody
    have hwithin : Within pos (pos + delayCode.length) delayCode := by
      cases delay with
      | none =>
        cases hdelay
        exact within_cons.2 ⟨⟨rfl, fun target ht => nomatch ht⟩, within_nil⟩
      | some delay => exact delay.within hdelay
    refine ⟨laid_spawn hwithin hlaid rfl, ?_⟩
    simp [Instruction.specialized, hwithin.unspecialized, hbelow]
  | breakLoop _ | continueLoop _ =>
    simp only [compileStatement, Except.bind_eq_ok, Except.pure_eq_ok, Prod.mk.injEq] at h
    obtain ⟨n, hn, rfl, -⟩ := h
    refine ⟨laid_placeholder rfl, fun d hd => ?_⟩
    rw [List.mem_singleton.1 hd]
    exact loopDepth_lt hn
  | returnValue value =>
    simp only [compileStatement, Except.bind_eq_ok, Except.pure_eq_ok, Prod.mk.injEq] at h
    obtain ⟨code, hcode, rfl, -⟩ := h
    have hwithin : Within pos (pos + code.length) code := by
      cases value with
      | none =>
        cases hcode
        exact within_cons.2 ⟨⟨rfl, fun target ht => nomatch ht⟩, within_nil⟩
      | some value => exact value.within hcode
    exact ⟨laid_ending hwithin rfl rfl, by simp [Instruction.specialized, hwithin.unspecialized]⟩
  | crash message =>
    simp only [compileStatement, Except.bind_eq_ok, Except.pure_eq_ok, Prod.mk.injEq] at h
    obtain ⟨code, hcode, rfl, -⟩ := h
    exact ⟨laid_ending (message.within hcode) rfl rfl,
      by simp [Instruction.specialized, (message.within hcode).unspecialized]⟩
  | throwValue value =>
    simp only [compileStatement, Except.bind_eq_ok, Except.pure_eq_ok, Prod.mk.injEq] at h
    obtain ⟨code, hcode, rfl, -⟩ := h
    exact ⟨laid_ending (value.within hcode) rfl rfl,
      by simp [Instruction.specialized, (value.within hcode).unspecialized]⟩

theorem compileBlock_laid (loops pos : Nat) (body : List Statement) :
    CompilesLaid (compileBlock loops pos body) loops pos := by
  intro draft fallsThrough h
  cases body with
  | nil =>
    simp only [compileBlock, Except.ok.injEq, Prod.mk.injEq] at h
    obtain ⟨rfl, -⟩ := h
    exact ⟨laid_nil, fun _ hd => nomatch hd⟩
  | cons s rest =>
    simp only [compileBlock, Except.bind_eq_ok, Except.pure_eq_ok, Prod.exists,
      Prod.mk.injEq] at h
    obtain ⟨code, _, hs, codes, _, hrest, rfl, -⟩ := h
    obtain ⟨hlaid, hbelow⟩ := compileStatement_laid loops pos s _ _ hs
    obtain ⟨hlaid', hbelow'⟩ := compileBlock_laid loops _ rest _ _ hrest
    exact ⟨hlaid.append hlaid' rfl, below_append.2 ⟨hbelow, hbelow'⟩⟩

theorem compileCases_laid (loops pos : Nat) (cases : List (Fragment × List Statement))
    {draft : Draft} (h : compileCases loops pos cases = .ok draft) :
    Draft.Laid [] pos draft ∧ (∀ d ∈ draft, d.Below loops ∨ d = .endSwitch) ∧
      EndsOutside pos draft := by
  cases cases with
  | nil =>
    simp only [compileCases, Except.ok.injEq] at h
    subst h
    exact ⟨laid_nil, fun _ hd => (nomatch hd), fun _ hn => nomatch hn⟩
  | cons first rest =>
    obtain ⟨condition, body⟩ := first
    simp only [compileCases, Except.bind_eq_ok, Except.pure_eq_ok, Prod.exists] at h
    obtain ⟨test, htest, bodyCode, _, hbody, codes, hrest, rfl⟩ := h
    obtain ⟨hlaid, hbelow⟩ := compileBlock_laid loops _ body _ _ hbody
    obtain ⟨hlaid', hbelow', hends⟩ := compileCases_laid loops _ rest hrest
    have htest' : (ofCode (test ++ [.jumpIfFalse (pos + test.length + 1 + bodyCode.length + 1)]) ++
        bodyCode).Below loops := by
      simp [Instruction.specialized, (condition.within htest).unspecialized, hbelow]
    obtain ⟨hcase, hcaseEnds⟩ := laid_case (condition.within htest) hlaid hlaid' htest' hends rfl
    refine ⟨hcase, fun d hd => ?_, hcaseEnds⟩
    rcases List.mem_append.1 hd with hd | hd
    · exact .inl (htest' d hd)
    · rcases List.mem_cons.1 hd with rfl | hd
      · exact .inr rfl
      · exact hbelow' d hd

end

end Dream64.Vm
