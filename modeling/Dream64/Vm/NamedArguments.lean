import Dream64.Vm.Calls

/-!
# Calls with named arguments

`makeFrameNamed` gives the positional arguments to the first parameters,
whichever of these have been named, and it keeps an extra argument only behind
all parameters, those without a name included. So it binds every argument
exactly when no parameter among the first ones is named and none of the extra
arguments takes the place of an unnamed parameter
(`makeFrameNamed_bindsEvery_iff`).
-/

namespace Dream64.Vm

variable {V : Type}

/-- The arguments with their names; behind the last name they have none. -/
def namedEntries : List V → List (Option String) → List (V × Option String)
  | [], _ => []
  | value :: values, names => (value, names.head?.join) :: namedEntries values names.tail

/-- The arguments that have no name of a parameter. -/
def Program.positional (program : Program) (entries : List (V × Option String)) : List V :=
  (entries.filter fun entry => (program.namedSlot entry.2).isNone).map Prod.fst

def Program.IsNamed (program : Program) (entries : List (V × Option String)) (slot : Nat) : Prop :=
  ∃ entry ∈ entries, program.namedSlot entry.2 = some slot

instance (program : Program) (entries : List (V × Option String)) (slot : Nat) :
    Decidable (program.IsNamed entries slot) := by
  unfold Program.IsNamed
  infer_instance

/-- The parameters that no argument names, in their order. -/
def Program.freeSlots (program : Program) (entries : List (V × Option String)) : List Nat :=
  (List.range program.parameterCount).filter fun slot => ¬ program.IsNamed entries slot

/-- A frame binds every argument: those that name a parameter to that, the others in their order to
the parameters that are left, and what remains of them stands in `args` behind the declared
parameters. Without names of parameters it is the frame of a call without names. -/
structure BindsEvery (null : V) (procedure : Nat) (program : Program) (arguments : List V)
    (names : List (Option String)) (frame : Frame V) : Prop where
  named : ∀ entry ∈ namedEntries arguments names, ∀ slot,
    program.namedSlot entry.2 = some slot →
      frame.locals[slot]? = some entry.1 ∧ frame.suppliedParameters[slot]? = some true
  positional : ∀ (k slot : Nat) (value : V),
    (program.positional (namedEntries arguments names))[k]? = some value →
    (program.freeSlots (namedEntries arguments names))[k]? = some slot →
      frame.locals[slot]? = some value ∧ frame.suppliedParameters[slot]? = some true
  remaining : frame.arguments.drop program.declaredArgumentCount =
    (program.positional (namedEntries arguments names)).drop
      ((program.freeSlots (namedEntries arguments names)).filter
        (· < program.declaredArgumentCount)).length
  unnamed : (∀ slot, ¬ program.IsNamed (namedEntries arguments names) slot) →
    frame = makeFrame null procedure program arguments

/-- The arguments for one parameter agree, the parameters that are named come behind all those that
take a positional argument, and no positional argument is left for a parameter without a name. -/
structure NamedBehind (program : Program) (entries : List (V × Option String)) : Prop where
  agree : ∀ entry ∈ entries, ∀ entry' ∈ entries, ∀ slot,
    program.namedSlot entry.2 = some slot → program.namedSlot entry'.2 = some slot →
      entry.1 = entry'.1
  behind : ∀ slot, program.IsNamed entries slot → (program.positional entries).length ≤ slot
  declared : (program.positional entries).length ≤ program.declaredArgumentCount ∨
    program.declaredArgumentCount = program.parameterCount

/-! ## The loop over the arguments -/

section

variable {program : Program} {entry : V × Option String} {entries : List (V × Option String)}
  {slot : Nat}

theorem positional_cons_named (h : program.namedSlot entry.2 = some slot) :
    program.positional (entry :: entries) = program.positional entries := by
  rw [Program.positional, List.filter_cons_of_neg (by rw [h]; exact Bool.false_ne_true)]
  rfl

theorem positional_cons_unnamed (h : program.namedSlot entry.2 = none) :
    program.positional (entry :: entries) = entry.1 :: program.positional entries := by
  rw [Program.positional, List.filter_cons_of_pos (by rw [h]; rfl), List.map_cons]
  rfl

theorem isNamed_cons :
    program.IsNamed (entry :: entries) slot ↔
      program.namedSlot entry.2 = some slot ∨ program.IsNamed entries slot := by
  rw [Program.IsNamed, List.exists_mem_cons_iff]
  rfl

/-- The loop of `bindAll`, over the arguments with their names. -/
def Positioned.bindEntries (program : Program) (b : Positioned V)
    (entries : List (V × Option String)) : Positioned V :=
  entries.foldl (fun b entry => b.bind program entry.1 entry.2) b

theorem Positioned.bindAll_eq (b : Positioned V) (values : List V) (names : List (Option String)) :
    b.bindAll program values names = b.bindEntries program (namedEntries values names) := by
  induction values generalizing b names with
  | nil => rfl
  | cons value values ih =>
    rw [Positioned.bindAll, ih]
    rfl

theorem Positioned.bind_named (b : Positioned V) (h : program.namedSlot entry.2 = some slot)
    (hlength : b.positioned.length = program.parameterCount) :
    b.bind program entry.1 entry.2 =
      { b with positioned := b.positioned.set slot entry.1, supplied := b.supplied.set slot true } := by
  have hslot := program.namedSlot_lt h
  simp only [Positioned.bind, h, Option.getD_some, Option.isSome_some, if_true, hlength, hslot]

theorem Positioned.bind_unnamed (b : Positioned V) (h : program.namedSlot entry.2 = none)
    (hlength : b.positioned.length = program.parameterCount) :
    b.bind program entry.1 entry.2 =
      if b.nextPositional < program.parameterCount then
        { b with
          positioned := b.positioned.set b.nextPositional entry.1
          supplied := b.supplied.set b.nextPositional true
          nextPositional := b.nextPositional + 1 }
      else { b with extras := b.extras ++ [entry.1], nextPositional := b.nextPositional + 1 } := by
  simp only [Positioned.bind, h, Option.getD_none, Option.isSome_none, Bool.false_eq_true, if_false,
    hlength]

theorem Positioned.bindEntries_length (b : Positioned V) (entries : List (V × Option String)) :
    (b.bindEntries program entries).positioned.length = b.positioned.length ∧
      (b.bindEntries program entries).supplied.length = b.supplied.length := by
  induction entries generalizing b with
  | nil => exact ⟨rfl, rfl⟩
  | cons entry entries ih =>
    have hbind := b.bind_length program entry.1 entry.2
    have hrest := ih (b.bind program entry.1 entry.2)
    exact ⟨hrest.1.trans hbind.1, hrest.2.trans hbind.2⟩

/-- The positional arguments behind the last parameter are the extra arguments. -/
theorem Positioned.bindEntries_extras (b : Positioned V) (entries : List (V × Option String))
    (hlength : b.positioned.length = program.parameterCount) :
    (b.bindEntries program entries).extras =
      b.extras ++ (program.positional entries).drop (program.parameterCount - b.nextPositional) := by
  induction entries generalizing b with
  | nil => exact (List.append_nil _).symm.trans (congrArg _ (List.drop_nil).symm)
  | cons entry entries ih =>
    have hstep := ih (b.bind program entry.1 entry.2)
      ((b.bind_length program entry.1 entry.2).1.trans hlength)
    rw [show b.bindEntries program (entry :: entries) =
      (b.bind program entry.1 entry.2).bindEntries program entries from rfl, hstep]
    cases h : program.namedSlot entry.2 with
    | some slot => rw [b.bind_named h hlength, positional_cons_named h]
    | none =>
      rw [b.bind_unnamed h hlength, positional_cons_unnamed h]
      split
      · rename_i hnext
        dsimp only
        rw [show program.parameterCount - b.nextPositional =
          program.parameterCount - (b.nextPositional + 1) + 1 by omega, List.drop_succ_cons]
      · rename_i hnext
        dsimp only
        rw [show program.parameterCount - b.nextPositional = 0 by omega,
          show program.parameterCount - (b.nextPositional + 1) = 0 by omega, List.drop_zero,
          List.drop_zero, List.append_assoc, List.singleton_append]

/-- The slots that are supplied: those that were, the named ones, and one for each positional
argument from the next on. -/
theorem Positioned.bindEntries_supplied (b : Positioned V) (entries : List (V × Option String))
    (hlength : b.positioned.length = program.parameterCount)
    (hsupplied : b.supplied.length = program.parameterCount) (hslot : slot < program.parameterCount) :
    (b.bindEntries program entries).supplied[slot]? = some true ↔
      b.supplied[slot]? = some true ∨ program.IsNamed entries slot ∨
        (b.nextPositional ≤ slot ∧ slot < b.nextPositional + (program.positional entries).length) := by
  induction entries generalizing b with
  | nil =>
    have hnone : ¬ program.IsNamed ([] : List (V × Option String)) slot := by
      rintro ⟨entry, hmem, -⟩
      cases hmem
    have hlen : (program.positional ([] : List (V × Option String))).length = 0 := rfl
    rw [hlen]
    constructor
    · exact Or.inl
    · rintro (h | h | h)
      · exact h
      · exact absurd h hnone
      · omega
  | cons entry entries ih =>
    have hlengths := b.bind_length program entry.1 entry.2
    have hstep := ih (b.bind program entry.1 entry.2) (hlengths.1.trans hlength)
      (hlengths.2.trans hsupplied)
    rw [show b.bindEntries program (entry :: entries) =
      (b.bind program entry.1 entry.2).bindEntries program entries from rfl, hstep, isNamed_cons]
    cases h : program.namedSlot entry.2 with
    | some slot' =>
      rw [b.bind_named h hlength, positional_cons_named h]
      dsimp only
      rw [List.getElem?_set]
      by_cases heq : slot' = slot
      · subst heq
        simp [hsupplied, hslot]
      · simp [heq]
    | none =>
      rw [b.bind_unnamed h hlength, positional_cons_unnamed h, List.length_cons]
      have hnone : ¬ (none = some slot) := fun h => by cases h
      split
      · rename_i hnext
        dsimp only
        rw [List.getElem?_set]
        by_cases heq : b.nextPositional = slot
        · subst heq
          simp [hsupplied, hslot]
        · simp only [heq, if_false, hnone, false_or]
          have hrange : b.nextPositional + 1 ≤ slot ∧
              slot < b.nextPositional + 1 + (program.positional entries).length ↔
              b.nextPositional ≤ slot ∧
                slot < b.nextPositional + ((program.positional entries).length + 1) := by omega
          rw [hrange]
      · rename_i hnext
        dsimp only
        simp only [hnone, false_or]
        have hrange : b.nextPositional + 1 ≤ slot ∧
            slot < b.nextPositional + 1 + (program.positional entries).length ↔
            b.nextPositional ≤ slot ∧
              slot < b.nextPositional + ((program.positional entries).length + 1) := by omega
        rw [hrange]

/-- A slot that no argument names has the positional argument of its place, or its old value. -/
theorem Positioned.bindEntries_unnamed (b : Positioned V) (entries : List (V × Option String))
    (hlength : b.positioned.length = program.parameterCount) (hslot : slot < program.parameterCount)
    (hnamed : ¬ program.IsNamed entries slot) :
    (b.bindEntries program entries).positioned[slot]? =
      if b.nextPositional ≤ slot ∧ slot < b.nextPositional + (program.positional entries).length then
        (program.positional entries)[slot - b.nextPositional]?
      else b.positioned[slot]? := by
  induction entries generalizing b with
  | nil =>
    have hlen : (program.positional ([] : List (V × Option String))).length = 0 := rfl
    rw [hlen, if_neg (by omega)]
    rfl
  | cons entry entries ih =>
    rw [isNamed_cons, not_or] at hnamed
    have hstep := ih (b.bind program entry.1 entry.2)
      ((b.bind_length program entry.1 entry.2).1.trans hlength) hnamed.2
    rw [show b.bindEntries program (entry :: entries) =
      (b.bind program entry.1 entry.2).bindEntries program entries from rfl, hstep]
    cases h : program.namedSlot entry.2 with
    | some slot' =>
      have hne : slot' ≠ slot := by
        rintro rfl
        exact hnamed.1 h
      rw [b.bind_named h hlength, positional_cons_named h]
      dsimp only
      rw [List.getElem?_set_ne hne]
    | none =>
      rw [b.bind_unnamed h hlength, positional_cons_unnamed h, List.length_cons]
      split
      · rename_i hnext
        dsimp only
        by_cases heq : b.nextPositional = slot
        · subst heq
          rw [if_neg (by omega), if_pos (by omega), Nat.sub_self, List.getElem?_cons_zero,
            List.getElem?_set_self (by omega)]
        · rw [List.getElem?_set_ne heq]
          by_cases hrange : b.nextPositional + 1 ≤ slot ∧
              slot < b.nextPositional + 1 + (program.positional entries).length
          · rw [if_pos hrange, if_pos (by omega),
              show slot - b.nextPositional = slot - (b.nextPositional + 1) + 1 by omega,
              List.getElem?_cons_succ]
          · rw [if_neg hrange, if_neg (by omega)]
      · rename_i hnext
        dsimp only
        rw [if_neg (by omega), if_neg (by omega)]

/-- A slot that is named, with one value only, and that no positional argument gets to. -/
theorem Positioned.bindEntries_named (b : Positioned V) (entries : List (V × Option String))
    {value : V} (hlength : b.positioned.length = program.parameterCount)
    (hvalue : ∀ entry ∈ entries, program.namedSlot entry.2 = some slot → entry.1 = value)
    (hbehind : b.nextPositional + (program.positional entries).length ≤ slot)
    (hold : program.IsNamed entries slot ∨ b.positioned[slot]? = some value) :
    (b.bindEntries program entries).positioned[slot]? = some value := by
  induction entries generalizing b with
  | nil =>
    rcases hold with ⟨entry, hmem, -⟩ | hold
    · cases hmem
    · exact hold
  | cons entry entries ih =>
    rw [show b.bindEntries program (entry :: entries) =
      (b.bind program entry.1 entry.2).bindEntries program entries from rfl]
    have hvalues : ∀ entry ∈ entries, program.namedSlot entry.2 = some slot → entry.1 = value :=
      fun entry hmem => hvalue entry (List.mem_cons_of_mem _ hmem)
    have hlength' := (b.bind_length program entry.1 entry.2).1.trans hlength
    rw [isNamed_cons] at hold
    cases h : program.namedSlot entry.2 with
    | some slot' =>
      rw [positional_cons_named h] at hbehind
      have hbound := program.namedSlot_lt h
      refine ih _ hlength' hvalues (by rw [b.bind_named h hlength]; exact hbehind) ?_
      rw [b.bind_named h hlength]
      dsimp only
      by_cases heq : slot' = slot
      · subst heq
        refine .inr ?_
        rw [List.getElem?_set_self (by omega), hvalue entry (List.mem_cons_self ..) h]
      · rw [List.getElem?_set_ne heq]
        rcases hold with (hold | hold) | hold
        · rw [h] at hold
          exact absurd (Option.some.inj hold) heq
        · exact .inl hold
        · exact .inr hold
    | none =>
      rw [positional_cons_unnamed h, List.length_cons] at hbehind
      have hold' : program.IsNamed entries slot ∨ b.positioned[slot]? = some value := by
        rcases hold with (hold | hold) | hold
        · rw [h] at hold
          cases hold
        · exact .inl hold
        · exact .inr hold
      refine ih _ hlength' hvalues ?_ ?_
      · rw [b.bind_unnamed h hlength]
        split
        · dsimp only
          omega
        · dsimp only
          omega
      · rw [b.bind_unnamed h hlength]
        split
        · dsimp only
          rwa [List.getElem?_set_ne (by omega)]
        · exact hold'

/-! ## The parameters that are left -/

theorem mem_freeSlots :
    slot ∈ program.freeSlots entries ↔
      slot < program.parameterCount ∧ ¬ program.IsNamed entries slot := by
  rw [Program.freeSlots, List.mem_filter, List.mem_range, decide_eq_true_eq]

theorem freeSlots_sublist :
    (program.freeSlots entries).Sublist (List.range program.parameterCount) := List.filter_sublist

theorem freeSlots_pairwise : (program.freeSlots entries).Pairwise (· < ·) :=
  List.pairwise_lt_range.sublist freeSlots_sublist

theorem freeSlots_nodup : (program.freeSlots entries).Nodup :=
  List.nodup_range.sublist freeSlots_sublist

/-- The free parameters among the first ones, when no one of these is named. -/
theorem freeSlots_of_behind {count : Nat} (hcount : count ≤ program.parameterCount)
    (hbehind : ∀ slot, program.IsNamed entries slot → count ≤ slot) :
    ∃ others, program.freeSlots entries = List.range count ++ others := by
  have hsplit : List.range program.parameterCount = List.range count ++
      (List.range (program.parameterCount - count)).map (count + ·) := by
    rw [← List.range_add]
    congr 1
    omega
  have hfirst : (List.range count).filter (fun slot => decide ¬ program.IsNamed entries slot) =
      List.range count := by
    refine List.filter_eq_self.2 fun slot hslot => decide_eq_true fun hnamed => ?_
    have hle := hbehind slot hnamed
    have hlt := List.mem_range.1 hslot
    omega
  rw [Program.freeSlots, hsplit, List.filter_append, hfirst]
  exact ⟨_, rfl⟩

/-- An increasing list without a number goes beyond it. -/
theorem lt_of_not_mem {slots : List Nat} (hslots : slots.Pairwise (· < ·)) {missing k x : Nat}
    (hmissing : missing ∉ slots) (hx : slots[k]? = some x) (hk : missing ≤ k) : k < x := by
  obtain ⟨hlength, rfl⟩ := List.getElem?_eq_some_iff.1 hx
  have hnodup : (slots.take (k + 1)).Nodup :=
    (hslots.sublist (List.take_sublist _ _)).imp fun h => Nat.ne_of_lt h
  have hsubset : slots.take (k + 1) ⊆ (List.range (slots[k] + 1)).erase missing := by
    intro slot hslot
    have hne : slot ≠ missing := fun heq => hmissing (heq ▸ List.mem_of_mem_take hslot)
    refine (List.mem_erase_of_ne hne).2 (List.mem_range.2 ?_)
    obtain ⟨i, hi, rfl⟩ := List.getElem_of_mem hslot
    rw [List.length_take] at hi
    rw [List.getElem_take]
    rcases Nat.lt_or_eq_of_le (show i ≤ k by omega) with hlt | rfl
    · exact Nat.lt_succ_of_lt (List.pairwise_iff_getElem.1 hslots i k _ hlength hlt)
    · exact Nat.lt_succ_self _
  have hle := (List.subperm_of_subset hnodup hsubset).length_le
  rw [List.length_take, List.length_erase, List.length_range] at hle
  by_cases hmem : missing ∈ List.range (slots[k] + 1)
  · rw [if_pos hmem] at hle
    omega
  · rw [if_neg hmem] at hle
    rw [List.mem_range] at hmem
    omega

theorem freeSlots_length_lt (h : program.IsNamed entries slot) :
    (program.freeSlots entries).length < program.parameterCount := by
  obtain ⟨entry, hmem, hslot⟩ := h
  have hlt := program.namedSlot_lt hslot
  have hfilter : (program.freeSlots entries).length <
      (List.range program.parameterCount).length := by
    refine List.length_filter_lt_length_iff_exists.2 ⟨slot, List.mem_range.2 hlt, ?_⟩
    rw [decide_eq_true_eq, not_not]
    exact ⟨entry, hmem, hslot⟩
  rwa [List.length_range] at hfilter

theorem freeDeclared_le :
    ((program.freeSlots entries).filter (· < program.declaredArgumentCount)).length ≤
      program.declaredArgumentCount := by
  have hsubset : (program.freeSlots entries).filter (· < program.declaredArgumentCount) ⊆
      List.range program.declaredArgumentCount := by
    intro slot hslot
    exact List.mem_range.2 (of_decide_eq_true (List.mem_filter.1 hslot).2)
  have hle := (List.subperm_of_subset (freeSlots_nodup.sublist List.filter_sublist)
    hsubset).length_le
  rwa [List.length_range] at hle

theorem le_freeDeclared {count : Nat} (hcount : count ≤ program.declaredArgumentCount)
    (hbehind : ∀ slot, program.IsNamed entries slot → count ≤ slot) :
    count ≤ ((program.freeSlots entries).filter (· < program.declaredArgumentCount)).length := by
  have hdeclared := program.declaredArgumentCount_le
  obtain ⟨others, hothers⟩ := freeSlots_of_behind (hcount.trans hdeclared) hbehind
  have hfirst : (List.range count).filter (· < program.declaredArgumentCount) = List.range count :=
    List.filter_eq_self.2 fun slot hslot =>
      decide_eq_true ((List.mem_range.1 hslot).trans_le hcount)
  rw [hothers, List.filter_append, hfirst, List.length_append, List.length_range]
  exact Nat.le_add_right ..

end

/-! ## The frame -/

section

variable (null : V) (procedure : Nat) (program : Program) (arguments : List V)
  (names : List (Option String))

/-- Before the first argument. -/
def Positioned.start : Positioned V :=
  ⟨List.replicate program.parameterCount null, [], List.replicate program.parameterCount false, 0⟩

theorem makeFrameNamed_eq (h : names.all Option.isNone = false) :
    makeFrameNamed null procedure program arguments names =
      let b := (Positioned.start null program).bindEntries program (namedEntries arguments names)
      { procedure := procedure
        locals := b.positioned ++ List.replicate (program.localCount - program.parameterCount) null
        arguments := b.positioned.take program.declaredArgumentCount ++
          (program.positional (namedEntries arguments names)).drop program.parameterCount
        suppliedParameters := b.supplied } := by
  have hfit : program.parameterCount ≤ program.localCount := program.parameters_fit
  have hstart : (Positioned.start null program).positioned.length = program.parameterCount :=
    List.length_replicate
  have hlength := (@Positioned.bindEntries_length _ program (Positioned.start null program)
    (namedEntries arguments names)).1.trans hstart
  have hextras := (Positioned.start null program).bindEntries_extras (namedEntries arguments names)
    hstart
  rw [show (Positioned.start null program).nextPositional = 0 from rfl, Nat.sub_zero,
    show (Positioned.start null program).extras = [] from rfl, List.nil_append] at hextras
  rw [makeFrameNamed, h, if_neg Bool.false_ne_true, Positioned.bindAll_eq]
  dsimp only [makeFrame]
  rw [Frame.mk.injEq]
  refine ⟨rfl, ?_, ?_, rfl⟩
  · rw [Nat.min_eq_left hfit]
    refine (congrArg _ (List.take_of_length_le hlength.le)).trans ?_
    rw [padTo]
    exact congrArg _ (congrArg (fun n => List.replicate (program.localCount - n) null) hlength)
  · exact congrArg _ hextras

theorem makeFrame_bindsEvery (h : names.all Option.isNone) :
    BindsEvery null procedure program arguments names
      (makeFrame null procedure program arguments) := by
  have hnone : ∀ entry ∈ namedEntries arguments names, program.namedSlot entry.2 = none := by
    induction arguments generalizing names with
    | nil =>
      intro entry hmem
      cases hmem
    | cons value values ih =>
      intro entry hmem
      rcases List.mem_cons.1 hmem with rfl | hmem
      · cases names with
        | nil => rfl
        | cons name names =>
          rw [List.all_cons, Bool.and_eq_true, Option.isNone_iff_eq_none] at h
          rw [h.1]
          rfl
      · refine ih names.tail ?_ entry hmem
        cases names with
        | nil => rfl
        | cons name names =>
          rw [List.all_cons, Bool.and_eq_true] at h
          exact h.2
  have hpositional : program.positional (namedEntries arguments names) = arguments := by
    have hmap : (namedEntries arguments names).map Prod.fst = arguments := by
      clear h hnone
      induction arguments generalizing names with
      | nil => rfl
      | cons value values ih => exact congrArg _ (ih names.tail)
    rw [Program.positional, List.filter_eq_self.2 fun entry hmem => by rw [hnone entry hmem]; rfl,
      hmap]
  have hunnamed : ∀ slot, ¬ program.IsNamed (namedEntries arguments names) slot := by
    rintro slot ⟨entry, hmem, hslot⟩
    rw [hnone entry hmem] at hslot
    cases hslot
  have hfree : program.freeSlots (namedEntries arguments names) =
      List.range program.parameterCount :=
    List.filter_eq_self.2 fun slot _ => decide_eq_true (hunnamed slot)
  have hfit : program.parameterCount ≤ program.localCount := program.parameters_fit
  have hdeclared := program.declaredArgumentCount_le
  refine ⟨fun entry hmem slot hslot => absurd ⟨entry, hmem, hslot⟩ (hunnamed slot),
    fun k slot value hvalue hslot => ?_, ?_, fun _ => rfl⟩
  · rw [hpositional] at hvalue
    rw [hfree] at hslot
    obtain ⟨hk, heq⟩ := List.getElem?_eq_some_iff.1 hslot
    rw [List.length_range] at hk
    rw [List.getElem_range] at heq
    subst heq
    obtain ⟨hlength, hget⟩ := List.getElem?_eq_some_iff.1 hvalue
    constructor
    · dsimp only [makeFrame]
      rw [padTo, List.getElem?_append_left (by rw [List.length_take]; omega),
        List.getElem?_take_of_lt (by omega), hvalue]
    · dsimp only [makeFrame]
      rw [List.getElem?_map, List.getElem?_range hk]
      exact congrArg some (decide_eq_true hlength)
  · have hcount : ((List.range program.parameterCount).filter
        (· < program.declaredArgumentCount)).length = program.declaredArgumentCount := by
      rw [← hfree]
      refine Nat.le_antisymm freeDeclared_le ?_
      exact le_freeDeclared le_rfl fun slot hnamed => absurd hnamed (hunnamed slot)
    rw [hpositional, hfree, hcount]
    dsimp only [makeFrame]
    have hpadding : (List.replicate (program.declaredArgumentCount - arguments.length) null).drop
        (program.declaredArgumentCount - arguments.length) = [] := by
      rw [List.drop_replicate, Nat.sub_self]
      rfl
    rw [padTo, List.drop_append, hpadding, List.append_nil]

variable {program arguments names}

section

variable (hnames : names.all Option.isNone = false)
  (h : BindsEvery null procedure program arguments names (makeFrameNamed null procedure program
    arguments names))

include hnames h

/-- A named parameter among the first ones loses its argument or leaves another one unbound. -/
theorem behind_of_bindsEvery {slot : Nat}
    (hslot : program.IsNamed (namedEntries arguments names) slot) :
    (program.positional (namedEntries arguments names)).length ≤ slot := by
  generalize hentries : namedEntries arguments names = entries at h hslot ⊢
  rw [makeFrameNamed_eq null procedure program arguments names hnames, hentries] at h
  have hdeclared := program.declaredArgumentCount_le
  have hstart : (Positioned.start null program).positioned.length = program.parameterCount :=
    List.length_replicate
  have hsupplied : (Positioned.start null program).supplied.length = program.parameterCount :=
    List.length_replicate
  have hfree := freeSlots_length_lt hslot
  by_contra hlt
  have hlast : ∃ k, slot ≤ k ∧ k + 1 = (program.positional entries).length :=
    ⟨(program.positional entries).length - 1, by omega, by omega⟩
  obtain ⟨k, hk, hcount⟩ := hlast
  rcases Nat.lt_or_ge k (program.freeSlots entries).length with hmany | hfew
  · -- The last positional argument is due to a parameter that the loop does not get to.
    have hx : (program.freeSlots entries)[k]? = some (program.freeSlots entries)[k] :=
      List.getElem?_eq_getElem hmany
    have hv : (program.positional entries)[k]? = some (program.positional entries)[k] :=
      List.getElem?_eq_getElem (by omega)
    have hbound := (h.positional k _ _ (by rw [hentries]; exact hv) (by rw [hentries]; exact hx)).2
    have hmem := mem_freeSlots.1 (List.mem_of_getElem? hx)
    have hbeyond := lt_of_not_mem freeSlots_pairwise
      (fun hmissing => (mem_freeSlots.1 hmissing).2 hslot) hx hk
    rcases ((Positioned.start null program).bindEntries_supplied entries hstart hsupplied
      hmem.1).1 hbound with hold | hnamed | ⟨-, hnext⟩
    · rw [Positioned.start, List.getElem?_replicate_of_lt hmem.1] at hold
      cases hold
    · exact hmem.2 hnamed
    · rw [show (Positioned.start null program).nextPositional = 0 from rfl] at hnext
      omega
  · -- More arguments remain than there are behind all parameters.
    have hlength := (@Positioned.bindEntries_length _ program (Positioned.start null program)
      entries).1.trans hstart
    have hremaining := congrArg List.length h.remaining
    have hfilter := List.length_filter_le (fun slot => decide (slot < program.declaredArgumentCount))
      (program.freeSlots entries)
    dsimp only at hremaining
    rw [hentries, List.length_drop, List.length_append, List.length_take, hlength,
      List.length_drop, List.length_drop] at hremaining
    omega

theorem declared_of_bindsEvery :
    (program.positional (namedEntries arguments names)).length ≤ program.declaredArgumentCount ∨
      program.declaredArgumentCount = program.parameterCount := by
  rw [makeFrameNamed_eq null procedure program arguments names hnames] at h
  have hdeclared := program.declaredArgumentCount_le
  have hlength := (@Positioned.bindEntries_length _ program (Positioned.start null program)
    (namedEntries arguments names)).1
  have hstart : (Positioned.start null program).positioned.length = program.parameterCount :=
    List.length_replicate
  have hfree := @freeDeclared_le _ program (namedEntries arguments names)
  have hremaining := congrArg List.length h.remaining
  dsimp only at hremaining
  rw [List.length_drop, List.length_append, List.length_take, hlength, hstart, List.length_drop,
    List.length_drop] at hremaining
  omega

theorem namedBehind_of_bindsEvery : NamedBehind program (namedEntries arguments names) where
  agree := by
    intro entry hmem entry' hmem' slot hslot hslot'
    have hvalue := (h.named entry hmem slot hslot).1
    have hvalue' := (h.named entry' hmem' slot hslot').1
    exact Option.some.inj (hvalue.symm.trans hvalue')
  behind := fun slot hslot => behind_of_bindsEvery null procedure hnames h hslot
  declared := declared_of_bindsEvery null procedure hnames h

end

/-- The slots of the parameters, when the named ones come behind the positional arguments. -/
theorem NamedBehind.free_eq {entries : List (V × Option String)}
    (h : NamedBehind program entries) {k slot : Nat}
    (hk : k < (program.positional entries).length)
    (hslot : (program.freeSlots entries)[k]? = some slot) : slot = k := by
  have hlength := (List.getElem?_eq_some_iff.1 hslot).1
  have hpc := (@freeSlots_sublist _ program entries).length_le
  rw [List.length_range] at hpc
  have hrange : k < min (program.positional entries).length program.parameterCount := by omega
  obtain ⟨others, hothers⟩ := freeSlots_of_behind
    (Nat.min_le_right (program.positional entries).length program.parameterCount)
    fun slot hnamed => (Nat.min_le_left _ _).trans (h.behind slot hnamed)
  rw [hothers, List.getElem?_append_left (by rw [List.length_range]; exact hrange),
    List.getElem?_range hrange] at hslot
  exact (Option.some.inj hslot).symm

/-- Positional arguments alone fill the slots from the first on. -/
theorem bindEntries_positional {entries : List (V × Option String)}
    (hunnamed : ∀ slot, ¬ program.IsNamed entries slot) :
    let b := (Positioned.start null program).bindEntries program entries
    let values := program.positional entries
    b.positioned = values.take program.parameterCount ++
        List.replicate (program.parameterCount - values.length) null ∧
      b.supplied = (List.range program.parameterCount).map fun slot => decide (slot < values.length) := by
  intro b values
  have hstart : (Positioned.start null program).positioned.length = program.parameterCount :=
    List.length_replicate
  have hsupplied : (Positioned.start null program).supplied.length = program.parameterCount :=
    List.length_replicate
  obtain ⟨hlength, hlength'⟩ := @Positioned.bindEntries_length _ program
    (Positioned.start null program) entries
  rw [hstart] at hlength
  rw [hsupplied] at hlength'
  constructor
  · refine List.ext_getElem? fun slot => ?_
    by_cases hslot : slot < program.parameterCount
    · rw [show b.positioned[slot]? = _ from Positioned.bindEntries_unnamed _ _ hstart hslot
        (hunnamed slot), show (Positioned.start null program).nextPositional = 0 from rfl,
        Nat.zero_add, Nat.sub_zero]
      split
      · rename_i hrange
        rw [List.getElem?_append_left (by rw [List.length_take]; exact lt_min hslot hrange.2),
          List.getElem?_take_of_lt hslot]
      · rename_i hrange
        have hle : values.length ≤ slot := by
          by_contra hlt
          exact hrange ⟨Nat.zero_le _, Nat.lt_of_not_le hlt⟩
        rw [List.getElem?_append_right (by rw [List.length_take]; omega), List.length_take,
          Positioned.start, List.getElem?_replicate_of_lt hslot,
          List.getElem?_replicate_of_lt (by omega)]
    · have hnone : slot ≥ program.parameterCount := Nat.le_of_not_lt hslot
      rw [List.getElem?_eq_none (hlength.le.trans hnone), List.getElem?_eq_none]
      rw [List.length_append, List.length_take, List.length_replicate]
      omega
  · refine List.ext_getElem? fun slot => ?_
    by_cases hslot : slot < program.parameterCount
    · have hiff := (Positioned.start null program).bindEntries_supplied entries hstart hsupplied hslot
      have hrange : b.supplied[slot]? = some true ↔ slot < values.length := by
        rw [hiff, Positioned.start, List.getElem?_replicate_of_lt hslot]
        constructor
        · rintro (hold | hnamed | ⟨-, hlt⟩)
          · cases hold
          · exact absurd hnamed (hunnamed slot)
          · rwa [Nat.zero_add] at hlt
        · intro hlt
          exact .inr (.inr ⟨Nat.zero_le _, by rwa [Nat.zero_add]⟩)
      have hget : b.supplied[slot]? = some b.supplied[slot] :=
        List.getElem?_eq_getElem (by rw [hlength']; exact hslot)
      rw [hget, Option.some.injEq] at hrange
      rw [hget, List.getElem?_map, List.getElem?_range hslot, Option.map_some]
      exact congrArg some (Bool.eq_iff_iff.2 (hrange.trans (decide_eq_true_iff).symm))
    · have hnone : slot ≥ program.parameterCount := Nat.le_of_not_lt hslot
      rw [List.getElem?_eq_none (hlength'.le.trans hnone), List.getElem?_eq_none]
      rw [List.length_map, List.length_range]
      exact hnone

theorem positional_of_unnamed
    (hunnamed : ∀ slot, ¬ program.IsNamed (namedEntries arguments names) slot) :
    program.positional (namedEntries arguments names) = arguments := by
  have hnone : ∀ entry ∈ namedEntries arguments names,
      (program.namedSlot entry.2).isNone = true := by
    intro entry hmem
    cases h : program.namedSlot entry.2 with
    | none => rfl
    | some slot => exact absurd ⟨entry, hmem, h⟩ (hunnamed slot)
  rw [Program.positional, List.filter_eq_self.2 hnone]
  clear hunnamed hnone
  induction arguments generalizing names with
  | nil => rfl
  | cons value values ih => exact congrArg _ ih

theorem NamedBehind.bindsEvery (h : NamedBehind program (namedEntries arguments names))
    (hnames : names.all Option.isNone = false) :
    BindsEvery null procedure program arguments names
      (makeFrameNamed null procedure program arguments names) := by
  rw [makeFrameNamed_eq null procedure program arguments names hnames]
  have hfit : program.parameterCount ≤ program.localCount := program.parameters_fit
  have hdeclared := program.declaredArgumentCount_le
  have hstart : (Positioned.start null program).positioned.length = program.parameterCount :=
    List.length_replicate
  have hsupplied : (Positioned.start null program).supplied.length = program.parameterCount :=
    List.length_replicate
  have hlength := (@Positioned.bindEntries_length _ program (Positioned.start null program)
    (namedEntries arguments names)).1.trans hstart
  have hlocal : ∀ (others : List V) (slot : Nat) (value : V),
      ((Positioned.start null program).bindEntries program
        (namedEntries arguments names)).positioned[slot]? = some value →
      (((Positioned.start null program).bindEntries program
        (namedEntries arguments names)).positioned ++ others)[slot]? = some value :=
    fun others slot value hvalue => by
      rw [List.getElem?_append_left (List.getElem?_eq_some_iff.1 hvalue).1, hvalue]
  refine ⟨fun entry hmem slot hslot => ?_, fun k slot value hvalue hslot => ?_, ?_,
    fun hunnamed => ?_⟩
  · have hnamed : program.IsNamed (namedEntries arguments names) slot := ⟨entry, hmem, hslot⟩
    have hbehind := h.behind slot hnamed
    refine ⟨hlocal _ _ _ ?_, ?_⟩
    · refine Positioned.bindEntries_named _ _ hstart (fun entry' hmem' hslot' =>
        h.agree entry' hmem' entry hmem slot hslot' hslot) ?_ (.inl hnamed)
      rw [show (Positioned.start null program).nextPositional = 0 from rfl, Nat.zero_add]
      exact hbehind
    · exact (Positioned.bindEntries_supplied _ _ hstart hsupplied (program.namedSlot_lt hslot)).2
        (.inr (.inl hnamed))
  · obtain ⟨hk, -⟩ := List.getElem?_eq_some_iff.1 hvalue
    obtain ⟨hpc, hfree⟩ := mem_freeSlots.1 (List.mem_of_getElem? hslot)
    have hplace := h.free_eq hk hslot
    subst hplace
    refine ⟨hlocal _ _ _ ?_, ?_⟩
    · rw [Positioned.bindEntries_unnamed _ _ hstart hpc hfree,
        show (Positioned.start null program).nextPositional = 0 from rfl, Nat.zero_add,
        if_pos ⟨Nat.zero_le _, hk⟩, Nat.sub_zero, hvalue]
    · refine (Positioned.bindEntries_supplied _ _ hstart hsupplied hpc).2 (.inr (.inr ?_))
      exact ⟨Nat.zero_le _, by rwa [show (Positioned.start null program).nextPositional = 0 from rfl,
        Nat.zero_add]⟩
  · have hfree := @freeDeclared_le _ program (namedEntries arguments names)
    dsimp only
    rw [List.drop_append, List.length_take, hlength, Nat.min_eq_left hdeclared, Nat.sub_self,
      List.drop_zero, List.drop_eq_nil_of_le (by rw [List.length_take]; omega), List.nil_append]
    rcases h.declared with hfew | hall
    · have hmany := le_freeDeclared hfew h.behind
      rw [List.drop_eq_nil_of_le (by omega), List.drop_eq_nil_of_le hmany]
    · rcases Nat.lt_or_ge (program.positional (namedEntries arguments names)).length
        program.parameterCount with hlt | hge
      · have hmany := le_freeDeclared (by omega) h.behind
        rw [List.drop_eq_nil_of_le hlt.le, List.drop_eq_nil_of_le hmany]
      · have hmany := le_freeDeclared (program.declaredArgumentCount_le.trans hall.ge)
          fun slot hnamed => (hall.le.trans hge).trans (h.behind slot hnamed)
        congr 1
        omega
  · have hpositional := positional_of_unnamed hunnamed
    obtain ⟨hpositioned, hflags⟩ := bindEntries_positional null hunnamed
    rw [hpositional] at hpositioned hflags
    have hcount := h.declared
    rw [hpositional] at hcount
    dsimp only [makeFrame]
    rw [Frame.mk.injEq, hpositional]
    refine ⟨rfl, ?_, ?_, hflags⟩
    · rw [hpositioned, padTo, List.append_assoc, List.replicate_append_replicate,
        Nat.min_eq_left hfit, List.length_take]
      congr 2
      omega
    · rw [hpositioned, padTo]
      rcases hcount with hfew | hall
      · rw [List.take_of_length_le (hfew.trans hdeclared), List.take_append,
          List.take_of_length_le hfew, List.take_replicate,
          List.drop_eq_nil_of_le (hfew.trans hdeclared), List.append_nil]
        congr 2
        omega
      · rw [hall, List.take_of_length_le (by
          rw [List.length_append, List.length_take, List.length_replicate]
          omega)]
        rcases Nat.lt_or_ge arguments.length program.parameterCount with hlt | hge
        · rw [List.take_of_length_le hlt.le, List.drop_eq_nil_of_le hlt.le, List.append_nil]
        · rw [Nat.sub_eq_zero_of_le hge, List.replicate_zero, List.append_nil, List.append_nil,
            List.take_append_drop]

/-- A call binds every argument if and only if no argument has a name at all, or the named parameters
come behind all those that take a positional argument, with one value each, and no positional
argument is left for a parameter without a name. -/
theorem makeFrameNamed_bindsEvery_iff (program : Program) (arguments : List V)
    (names : List (Option String)) :
    BindsEvery null procedure program arguments names
        (makeFrameNamed null procedure program arguments names) ↔
      names.all Option.isNone ∨ NamedBehind program (namedEntries arguments names) := by
  cases hnames : names.all Option.isNone with
  | true =>
    rw [makeFrameNamed, if_pos hnames]
    exact ⟨fun _ => .inl rfl, fun _ => makeFrame_bindsEvery null procedure program arguments names
      hnames⟩
  | false =>
    constructor
    · intro h
      exact .inr (namedBehind_of_bindsEvery null procedure hnames h)
    · rintro (h | h)
      · cases h
      · exact h.bindsEvery null procedure hnames

/-- The second argument is positional and replaces the first one, which is for the parameter `a`. -/
theorem makeFrameNamed_overwrites :
    ¬ BindsEvery 0 0 ⟨["a", "b"], 2, le_rfl⟩ [1, 2] [some "a", none]
      (makeFrameNamed 0 0 ⟨["a", "b"], 2, le_rfl⟩ [1, 2] [some "a", none]) := by
  intro h
  have hbound := (h.named (1, some "a") (List.mem_cons_self ..) 0 (by decide)).1
  revert hbound
  decide

end

end Dream64.Vm
