import Dream64.Bytecode.RoundTrip

/-!
# Control safety of decoded modules

The checks of a decoded module cover the targets of all instructions but one:
the exit of a fused list iteration is not looked at. A decoded module is
control-safe where these exits lie inside their procedures.
-/

namespace Dream64.Bytecode

open Codec

/-- The instructions of its procedure that an instruction may continue at. -/
def Instruction.targets : Instruction → List Nat
  | .loadStaticLocalOrJump _ target => [target]
  | .jumpIfNull target => [target]
  | .jumpIfFalse target => [target]
  | .jump target => [target]
  | .jumpIfArgumentSupplied _ target => [target]
  | .spawn entry => [entry]
  | .beginTry catchTarget endTarget _ => [catchTarget, endTarget]
  | .nextLocalListIteration _ _ _ exit => [exit]
  | _ => []

/-- Every target is an instruction of the procedure, and every procedure one of the module. -/
def Program.ControlSafe (program : Program) (procedureCount : Nat) : Prop :=
  ∀ i ∈ program.instructions,
    (∀ target ∈ i.targets, target < program.instructions.length) ∧ i.Refers procedureCount

/-- The procedures of an index are procedures of the module. -/
def NameIndex.Below (index : NameIndex) (procedureCount : Nat) : Prop :=
  ∀ path procedure, index path = some procedure → procedure.toNat < procedureCount

structure Module.ControlSafe (module : Module) : Prop where
  programs : ∀ program ∈ module.procedures, program.ControlSafe module.procedures.length
  names : module.names.Below module.procedures.length
  dynamicNames : module.dynamicNames.Below module.procedures.length
  initializerCallNames : ∀ index, module.initializerCallNames = some index →
    index.names.Below module.procedures.length

/-- The exits of the fused list iterations are instructions of their procedures. -/
def Module.ExitsInside (module : Module) : Prop :=
  ∀ program ∈ module.procedures, ∀ listSlot indexSlot itemSlot exit,
    .nextLocalListIteration listSlot indexSlot itemSlot exit ∈ program.instructions →
      exit < program.instructions.length

/-! ## What is checked -/

theorem validJump_eq_ok {instructionCount target : Nat} {u : Unit} :
    validJump instructionCount target = .ok u ↔ target < instructionCount := by
  rw [validJump, refuse_eq_ok, Nat.not_le]
  exact and_iff_left rfl

/-- The targets of an instruction that is no fused list iteration are checked. -/
theorem targets_of_validate {instructionCount procedureCount : Nat} {i : Instruction}
    (h : validateInstruction instructionCount procedureCount i = .ok ())
    (hfused : ∀ listSlot indexSlot itemSlot exit,
      i = .nextLocalListIteration listSlot indexSlot itemSlot exit → exit < instructionCount) :
    ∀ target ∈ i.targets, target < instructionCount := by
  intro target hmem
  cases i with
  | nextLocalListIteration listSlot indexSlot itemSlot exit =>
    rw [List.mem_singleton.1 hmem]
    exact hfused _ _ _ _ rfl
  | beginTry catchTarget endTarget local? =>
    obtain ⟨_, hcatch, hend⟩ := bind_eq_ok h
    rcases List.mem_cons.1 hmem with rfl | hmem
    · exact validJump_eq_ok.1 hcatch
    · rw [List.mem_singleton.1 hmem]
      exact validJump_eq_ok.1 hend
  | loadStaticLocalOrJump _ _ | jumpIfNull _ | jumpIfFalse _ | jump _ | jumpIfArgumentSupplied _ _
    | spawn _ =>
    rw [List.mem_singleton.1 hmem]
    exact validJump_eq_ok.1 h
  | _ => exact absurd hmem List.not_mem_nil

theorem Program.Checked.controlSafe {program : Program} {procedureCount : Nat}
    (h : program.Checked procedureCount) (hexits : ∀ listSlot indexSlot itemSlot exit,
      .nextLocalListIteration listSlot indexSlot itemSlot exit ∈ program.instructions →
        exit < program.instructions.length) : program.ControlSafe procedureCount := by
  intro i hi
  have hvalid := h.instructions i hi
  refine ⟨targets_of_validate hvalid fun listSlot indexSlot itemSlot exit heq => ?_,
    refers_of_validate hvalid⟩
  exact hexits listSlot indexSlot itemSlot exit (heq ▸ hi)

/-! ## The indexes -/

variable {index : NameIndex} {bound place : Nat}

theorem NameIndex.Below.insert (h : index.Below bound) (hplace : place < bound)
    (hwide : bound ≤ 2 ^ 32) (path : String) :
    (index.insert path (UInt32.ofNat place)).Below bound := by
  intro other procedure hsome
  rw [NameIndex.insert, Function.update_apply] at hsome
  by_cases heq : other = path
  · rw [if_pos heq] at hsome
    rw [← Option.some.inj hsome, UInt32.toNat_ofNat_of_lt' (show place < 2 ^ 32 by omega)]
    exact hplace
  · rw [if_neg heq] at hsome
    exact h other procedure hsome

theorem NameIndex.Below.addDynamicName (h : index.Below bound) (hplace : place < bound)
    (hwide : bound ≤ 2 ^ 32) (path : String) :
    (addDynamicName index path (UInt32.ofNat place)).Below bound := by
  rw [Bytecode.addDynamicName, NameIndex.orInsert]
  split
  · split
    · exact h
    · exact h.insert hplace hwide _
  · exact h.insert hplace hwide _

theorem nameIndexFrom_below {paths : List String} (h : index.Below bound)
    (hbound : place + paths.length ≤ bound) (hwide : bound ≤ 2 ^ 32) :
    (nameIndexFrom place index paths).Below bound := by
  induction paths generalizing place index with
  | nil => exact h
  | cons path paths ih =>
    rw [List.length_cons] at hbound
    rw [nameIndexFrom]
    refine ih ?_ (by omega)
    split
    · exact h.insert (by omega) hwide path
    · exact h

theorem dynamicNamesFrom_below {paths : List String} (h : index.Below bound)
    (hbound : place + paths.length ≤ bound) (hwide : bound ≤ 2 ^ 32) :
    (dynamicNamesFrom place index paths).Below bound := by
  induction paths generalizing place index with
  | nil => exact h
  | cons path paths ih =>
    rw [List.length_cons] at hbound
    rw [dynamicNamesFrom]
    exact ih (h.addDynamicName (by omega) hwide path) (by omega)

theorem empty_below (bound : Nat) : NameIndex.empty.Below bound := by
  intro path procedure h
  cases h

/-! ## Decoded modules -/

theorem controlSafe_iff {module : Module} {bytes : Bytes} (h : decodePortable bytes = .ok module) :
    module.ControlSafe ↔ module.ExitsInside := by
  obtain ⟨-, hchecked, -, -, hrebuilt, -⟩ := decodePortable_eq_ok.1 h
  have hcount := hchecked.procedureCount
  rw [maxProcedures] at hcount
  have hwide : module.procedures.length ≤ 2 ^ 32 := by omega
  have hpaths : 0 + module.paths.length ≤ module.procedures.length := by
    rw [Nat.zero_add, hchecked.pathCount]
  constructor
  · intro hsafe program hprogram listSlot indexSlot itemSlot exit hmem
    exact (hsafe.programs program hprogram _ hmem).1 exit List.mem_cons_self
  · intro hexits
    refine ⟨fun program hprogram => (hchecked.programs program hprogram).controlSafe
      (hexits program hprogram), ?_, ?_, ?_⟩
    · rw [← hrebuilt]
      exact nameIndexFrom_below (empty_below _) hpaths hwide
    · rw [← hrebuilt]
      exact dynamicNamesFrom_below (empty_below _) hpaths hwide
    · intro index hindex
      rw [← hrebuilt] at hindex
      cases hindex

/-- The bytes are those of a module whose fused list iterations stay inside their procedures. -/
def EncodesExitsInside (bytes : Bytes) : Prop :=
  ∃ source : Module, source.HasUnions ∧ DistinctPaths source.paths ∧
    encodePortable source = .ok bytes ∧ source.ExitsInside

/-- A decoded module is control-safe if and only if it was encoded with the exits inside. -/
theorem decoded_controlSafe {bytes : Bytes} {module : Module}
    (h : decodePortable bytes = .ok module) : module.ControlSafe ↔ EncodesExitsInside bytes := by
  rw [controlSafe_iff h]
  constructor
  · intro hexits
    obtain ⟨-, -, hunions, hdistinct, -⟩ := decodePortable_eq_ok.1 h
    exact ⟨module, hunions, hdistinct, encodePortable_of_decoded h, hexits⟩
  · rintro ⟨source, hunions, hdistinct, hencode, hexits⟩
    have hdecode := decodePortable_of_encoded hunions hdistinct hencode
    rw [h] at hdecode
    rw [Except.ok.inj hdecode]
    exact hexits

/-- A list iteration in a procedure of two instructions, with its exit. -/
def leaveAt (exit : Nat) : Module :=
  { returnNull with procedures := [{ returnNullProgram with
      localCount := 3
      instructions := [.nextLocalListIteration 0 1 2 exit, .ret] }] }

theorem leaveAt_hasUnions (exit : Nat) : (leaveAt exit).HasUnions := by
  refine hasUnions_of_nil fun program hprogram => ?_
  rw [List.mem_singleton.1 hprogram]
  rfl

theorem leaveAt_decodes {exit : Nat} {bytes : Bytes}
    (h : encodePortable (leaveAt exit) = .ok bytes) :
    decodePortable bytes = .ok (leaveAt exit) := by
  have hdecode := decodePortable_of_encoded (leaveAt_hasUnions exit)
    (show DistinctPaths ["/proc/main"] by unfold DistinctPaths; decide) h
  rwa [leaveAt, rebuilt_programs] at hdecode

theorem leaveAtOne_controlSafe : ∃ bytes, encodePortable (leaveAt 1) = .ok bytes ∧
    decodePortable bytes = .ok (leaveAt 1) ∧ (leaveAt 1).ControlSafe := by
  refine ⟨_, rfl, leaveAt_decodes rfl, (decoded_controlSafe (leaveAt_decodes rfl)).2
    ⟨leaveAt 1, leaveAt_hasUnions 1, by unfold DistinctPaths; decide, rfl, ?_⟩⟩
  intro program hprogram listSlot indexSlot itemSlot exit hmem
  rw [List.mem_singleton.1 hprogram] at hmem ⊢
  simp only [List.mem_cons, List.not_mem_nil, or_false, reduceCtorEq,
    Instruction.nextLocalListIteration.injEq] at hmem
  rw [hmem.2.2.2]
  exact Nat.lt_succ_self 1

theorem leaveAtNine_not_controlSafe :
    ¬ ∀ bytes module, decodePortable bytes = .ok module → module.ControlSafe := by
  intro h
  have hdecode := leaveAt_decodes (rfl : encodePortable (leaveAt 9) = .ok _)
  have hsafe := (h _ _ hdecode).programs _ List.mem_cons_self _ List.mem_cons_self
  exact absurd (hsafe.1 9 List.mem_cons_self) (by decide)

end Dream64.Bytecode
