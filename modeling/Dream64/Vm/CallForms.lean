import Dream64.Vm.Calls
import Dream64.Vm.EmitCorrect

/-!
# The call forms bind their arguments alike

Each form of call evaluates its receivers and its argument vector and hands
them to a call instruction. `Starts` is what all of them should do: start one
frame, which binds the expanded arguments by their names, unless the engine
answers the call itself (`CallForm.Answered`). `CallForm.PassesNames` says where
a form hands on the names and expands the lists of its vector. A self or parent
call that is written without arguments forwards the parameter variables instead.
-/

namespace Dream64.Vm

/-- A form of call, without its arguments. -/
inductive CallForm where
  | static (procedure : String)
  | current
  | parent
  | dynamic (target procedure : Expression) (nullReceiverIsGlobal : Bool)
  | safeDynamic (target procedure : Expression)
  | constructor (type : Expression) (overrides : List (FieldName × Expression))
  | builtin (name : String)
  | nativeSrcMethod (name : String)

namespace CallForm

/-- The arguments of a self or parent call; none are the ones it forwards. -/
def optionalArguments (arguments : List Expression) : Option (List Expression) :=
  if arguments.isEmpty then none else some arguments

def expression (arguments : List Expression) : CallForm → Expression
  | .static procedure => .call procedure arguments
  | .current => .currentCall (optionalArguments arguments)
  | .parent => .parentCall (optionalArguments arguments)
  | .dynamic target procedure nullReceiverIsGlobal =>
    .dynamicCall target procedure arguments nullReceiverIsGlobal
  | .safeDynamic target procedure => .safeDynamicCall target procedure arguments
  | .constructor type overrides => .new (some type) arguments overrides
  | .builtin name => .standardBuiltin name arguments
  | .nativeSrcMethod name => .nativeSrcMethod name arguments

/-- A project procedure answers the call of a builtin or a native method. -/
def IsOverridden (procs : Procedures) : CallForm → Prop
  | .builtin name | .nativeSrcMethod name => (procs name).isSome
  | _ => True

end CallForm

variable {σ ε V : Type} (R : CallRuntime σ ε V) (L : LocalTable) (procs : Procedures)

/-- The selector of a dynamic call, unless it is in the instruction. -/
def evalSelector (S : Semantics σ ε V) (n : Nat) (procedure : Expression) : Eval σ ε (List V) :=
  match literalSelector procedure with
  | some _ => pure []
  | none => do return [← .operand n (eval S L procs n procedure)]

/-- The receivers and the values of the arguments of a call; none where a
receiver is null and the call is not made. -/
def CallForm.operands (n : Nat) (arguments : List Expression) :
    CallForm → Eval (CallState σ V) ε (Option (List V × List V))
  | .dynamic target procedure _ => do
    let receiver ← .operand (n + 1) (eval (callSemantics R) L procs (n + 1) target)
    let selector ← evalSelector L procs (callSemantics R) (n + 1 + target.size) procedure
    let values ← evalAll (callSemantics R) L procs (n + 1 + target.size + procedure.size) arguments
    return some (receiver :: selector, values)
  | .safeDynamic target procedure => do
    let receiver ← .operand (n + 1) (eval (callSemantics R) L procs (n + 1) target)
    fun s =>
      if (callSemantics R).isNull receiver s then ([], .ok (none, s))
      else (do
        let selector ← evalSelector L procs (callSemantics R) (n + 1 + target.size) procedure
        let values ← evalAll (callSemantics R) L procs (n + 1 + target.size + procedure.size)
          arguments
        return some (receiver :: selector, values)) s
  | .constructor type _ => do
    let receiver ← .operand (n + 1) (eval (callSemantics R) L procs (n + 1) type)
    let values ← evalAll (callSemantics R) L procs (n + 1 + type.size) arguments
    return some ([receiver], values)
  | _ => do return some ([], ← evalAll (callSemantics R) L procs (n + 1) arguments)

/-- What a form does with the result of its call. -/
def CallForm.finish (n : Nat) (arguments : List Expression) (result : V) :
    CallForm → Eval (CallState σ V) ε V
  | .constructor type overrides => do
    evalOverrideStores (callSemantics R) L procs (n + 1 + type.size + sizeAll arguments) result
      overrides
    return result
  | _ => pure result

/-- The argument vector with its lists expanded. -/
def expandArguments (w : σ) (arguments : List Expression) (values : List V) :
    Except ε (Expanded V) :=
  expandArgumentLists R w (argumentNames arguments) (expandedIndices 0 arguments) values

/-- From `s` to `s'` one frame starts, and it binds `values` by `names`. -/
def Starts (values : List V) (names : List (Option String)) (s s' : CallState σ V) : Prop :=
  ∃ procedure program, R.program procedure = .ok program ∧
    s'.started = s.started ++ [makeFrameNamed R.null procedure program values names]

/-- From `s` to `s'` one frame starts, for the parameter variables of the caller. -/
def Forwards (s s' : CallState σ V) : Prop :=
  ∃ procedure program caller, R.program procedure = .ok program ∧
    R.program s.frame.procedure = .ok caller ∧
    s'.started = s.started ++
      [makeFrame R.null procedure program (forwardedFrameArguments s.frame caller)]

/-- No frame starts from `s` to `s'` where the engine answers, and else one as `starts` says. -/
def StartsUnless (answered starts : Prop) (s s' : CallState σ V) : Prop :=
  (answered → s'.started = s.started) ∧ (¬answered → starts)

/-- A procedure that the engine answers: a builtin that needs no frame, or the parent of a type. -/
def AnswersProcedure (procedure : ProcedureId) (values : List V) (unnamed : Bool)
    (frame : Frame V) (w : σ) : Prop :=
  ∃ target, R.redispatch procedure frame w = .ok target ∧
    (unnamed = true ∧ (R.nativeBuiltin target values w).isSome ∨
      (R.typeParent target values w).isSome)

/-- A method of a list, or one that the engine gives a datum without a procedure of the name. -/
def AnswersMethod (staticSelector : Option String) (receiver : V) (selector values : List V)
    (frame : Frame V) (w : σ) : Prop :=
  ∃ method, selectorText R staticSelector selector w = some method ∧
    ((∃ entries, R.kind receiver w = .list entries) ∨
      R.kind receiver w = .datum ∧ (∃ e, R.resolve receiver method frame w = .error e) ∧
        (R.datumMethod receiver method values w).isSome)

/-- From `s` to `s'` the call binds what its arguments expand to, unless the engine answers. -/
def BindsArguments (answered : List V → Bool → Prop) (arguments : List Expression)
    (values : List V) (s s' : CallState σ V) : Prop :=
  ∃ expanded, expandArguments R s.world arguments values = .ok expanded ∧
    StartsUnless (answered expanded.values (expanded.names.all Option.isNone))
      (Starts R expanded.values expanded.names s s') s s'

/-- The engine answers the call itself: no frame starts. -/
def CallForm.Answered (receivers values : List V) (unnamed : Bool) (frame : Frame V) (w : σ) :
    CallForm → Prop
  | .static name | .builtin name | .nativeSrcMethod name => ∃ procedure,
    procs name = some procedure ∧ AnswersProcedure R procedure values unnamed frame w
  | .current => False
  | .parent => ∃ world, R.parentTarget (procs "..") frame w = .ok (none, world)
  | .dynamic _ procedure _ | .safeDynamic _ procedure => ∃ receiver selector,
    receivers = receiver :: selector ∧
      AnswersMethod R (literalSelector procedure) receiver selector values frame w
  | .constructor .. => ∃ type datum world, receivers = [type] ∧
    R.allocate type values frame w = .ok (datum, none, world)

/-- Where a form hands on the names of its arguments and expands its lists. -/
def CallForm.PassesNames (w : σ) (arguments : List Expression) (receivers values : List V) :
    CallForm → Prop
  | .static _ | .constructor .. => True
  | .current | .parent => arguments ≠ [] ∧
    (expandedIndices 0 arguments ≠ [] ∨ ∀ e ∈ arguments, argumentName e = none)
  | .dynamic _ procedure _ | .safeDynamic _ procedure =>
    (∀ expanded, expandArguments R w arguments values = .ok expanded →
      ∀ name ∈ expanded.names, name = none) ∨
    ∃ receiver selector, receivers = receiver :: selector ∧ R.kind receiver w = .datum ∧
      (selectorText R (literalSelector procedure) selector w).isSome
  | .builtin _ => expandedIndices 0 arguments = []
  | .nativeSrcMethod _ =>
    expandedIndices 0 arguments ≠ [] ∨ ∀ e ∈ arguments, argumentName e = none

/-! ## What a call instruction starts -/

section Instructions

variable {R} {values : List V} {names : List (Option String)} {s s' : CallState σ V} {v : V}

theorem makeFrameNamed_none {null : V} {procedure : ProcedureId} {program : Program}
    (h : names.all Option.isNone = true) :
    makeFrameNamed null procedure program values names =
      makeFrame null procedure program values := by
  rw [makeFrameNamed, if_pos h]

/-- Vectors without names are bound alike. -/
theorem Starts.of_none {names' : List (Option String)} (h : Starts R values names' s s')
    (hnames' : names'.all Option.isNone = true) (hnames : names.all Option.isNone = true) :
    Starts R values names s s' := by
  obtain ⟨procedure, program, hprogram, h⟩ := h
  refine ⟨procedure, program, hprogram, ?_⟩
  rw [h, makeFrameNamed_none hnames', makeFrameNamed_none hnames]

theorem StartsUnless.mono {answered starts starts' : Prop} (h : StartsUnless answered starts s s')
    (himp : starts → starts') : StartsUnless answered starts' s s' :=
  ⟨h.1, fun hnot => himp (h.2 hnot)⟩

theorem startFrame_starts {procedure : ProcedureId}
    (h : startFrame R procedure values names s = .ok (v, s')) : Starts R values names s s' := by
  simp only [startFrame, Except.bind_eq_ok, Except.pure_eq_ok, Prod.exists] at h
  obtain ⟨program, hprogram, v, world, -, h⟩ := h
  cases h
  exact ⟨procedure, program, hprogram, rfl⟩

@[simp] theorem takeNames_started (count : Nat) (s : CallState σ V) :
    (takeNames count s).2.started = s.started := by
  rw [takeNames]
  split <;> rfl

@[simp] theorem takeNames_world (count : Nat) (s : CallState σ V) :
    (takeNames count s).2.world = s.world := by
  rw [takeNames]
  split <;> rfl

@[simp] theorem takeNames_frame (count : Nat) (s : CallState σ V) :
    (takeNames count s).2.frame = s.frame := by
  rw [takeNames]
  split <;> rfl

variable {count : Nat}

theorem Starts.takeNames (h : Starts R values names (Vm.takeNames count s).2 s') :
    Starts R values names s s' := by
  rwa [Starts, takeNames_started] at h

variable {argumentNames : List (Option String)}

/-- The call of a procedure starts a frame unless the engine answers it. -/
theorem callStatic_starts {procedure : ProcedureId}
    (h : callStatic R procedure count argumentNames values s = .ok (v, s')) : StartsUnless
      (AnswersProcedure R procedure values
        (((takeNames count s).1.getD argumentNames).all Option.isNone) s.frame s.world)
      (Starts R values ((takeNames count s).1.getD argumentNames) s s') s s' := by
  simp only [callStatic, Except.bind_eq_ok, takeNames_world, takeNames_frame] at h
  obtain ⟨target, htarget, h⟩ := h
  cases hnative : (if ((takeNames count s).1.getD argumentNames).all Option.isNone then
      R.nativeBuiltin target values s.world else none) with
  | some result =>
    simp only [hnative] at h
    cases h
    obtain ⟨hunnamed, hbuiltin⟩ := Option.ite_none_right_eq_some.1 hnative
    exact ⟨fun _ => takeNames_started count s,
      fun hnot => absurd ⟨target, htarget, .inl ⟨hunnamed, by rw [hbuiltin]; rfl⟩⟩ hnot⟩
  | none =>
    simp only [hnative] at h
    cases htype : R.typeParent target values s.world with
    | some result =>
      simp only [htype] at h
      cases h
      exact ⟨fun _ => takeNames_started count s,
        fun hnot => absurd ⟨target, htarget, .inr (by rw [htype]; rfl)⟩ hnot⟩
    | none =>
      simp only [htype] at h
      refine ⟨?_, fun _ => (startFrame_starts h).takeNames⟩
      rintro ⟨target', htarget', hanswers⟩
      rw [htarget] at htarget'
      cases htarget'
      rcases hanswers with ⟨hunnamed, hbuiltin⟩ | hparent
      · rw [if_pos hunnamed] at hnative
        rw [hnative] at hbuiltin
        cases hbuiltin
      · rw [htype] at hparent
        cases hparent

theorem callForwarding_starts {target : ProcedureId} {program : Program}
    (h : callForwarding R target program (some count) values s = .ok (v, s')) :
    Starts R values ((takeNames count s).1.getD []) s s' := by
  rw [callForwarding] at h
  exact (startFrame_starts h).takeNames

theorem callForwarding_forwards {target : ProcedureId} {caller : Program}
    (hcaller : R.program s.frame.procedure = .ok caller)
    (h : callForwarding R target caller none values s = .ok (v, s')) : Forwards R s s' := by
  rw [callForwarding] at h
  obtain ⟨procedure, program, hprogram, h⟩ := startFrame_starts h
  exact ⟨procedure, program, caller, hprogram, hcaller, h⟩

theorem callCurrent_starts (h : callCurrent R (some count) values s = .ok (v, s')) :
    StartsUnless False (Starts R values ((takeNames count s).1.getD []) s s') s s' := by
  simp only [callCurrent, Except.bind_eq_ok] at h
  obtain ⟨program, -, h⟩ := h
  exact ⟨False.elim, fun _ => callForwarding_starts h⟩

theorem callCurrent_forwards (h : callCurrent R none values s = .ok (v, s')) :
    StartsUnless False (Forwards R s s') s s' := by
  simp only [callCurrent, Except.bind_eq_ok] at h
  obtain ⟨program, hprogram, h⟩ := h
  exact ⟨False.elim, fun _ => callForwarding_forwards hprogram h⟩

variable {procedure : Option ProcedureId}

/-- A parent call is forwarded unless there is no parent. -/
theorem callParent_target {count : Option Nat} {starts : Prop}
    (hstarts : ∀ {caller world target}, R.program s.frame.procedure = .ok caller →
      callForwarding R target caller count values { s with world := world } = .ok (v, s') → starts)
    (h : callParent R procedure count values s = .ok (v, s')) :
    StartsUnless (∃ world, R.parentTarget procedure s.frame s.world = .ok (none, world)) starts
      s s' := by
  simp only [callParent, Except.bind_eq_ok, Prod.exists] at h
  obtain ⟨program, hprogram, target, world, htarget, h⟩ := h
  cases target with
  | none =>
    cases h
    exact ⟨fun _ => rfl, fun hnot => absurd ⟨world, htarget⟩ hnot⟩
  | some target =>
    refine ⟨?_, fun _ => hstarts hprogram h⟩
    rintro ⟨world', hnone⟩
    rw [htarget] at hnone
    cases hnone

theorem takeNames_names (count : Nat) (world : σ) :
    (takeNames count { s with world := world }).1 = (takeNames count s).1 := by
  rw [takeNames, takeNames]
  split <;> rfl

theorem callParent_starts (h : callParent R procedure (some count) values s = .ok (v, s')) :
    StartsUnless (∃ world, R.parentTarget procedure s.frame s.world = .ok (none, world))
      (Starts R values ((takeNames count s).1.getD []) s s') s s' := by
  refine callParent_target (fun _ h => ?_) h
  have hstarts := callForwarding_starts h
  rwa [takeNames_names] at hstarts

theorem callParent_forwards (h : callParent R procedure none values s = .ok (v, s')) :
    StartsUnless (∃ world, R.parentTarget procedure s.frame s.world = .ok (none, world))
      (Forwards R s s') s s' :=
  callParent_target (fun {_ world _} hcaller h =>
    callForwarding_forwards (s := { s with world := world }) hcaller h) h

variable {staticSelector : Option String} {nullReceiverIsGlobal : Bool} {receiver : V}
  {selector : List V}

theorem callResolved_starts
    (h : callResolved R staticSelector nullReceiverIsGlobal receiver selector values s =
      .ok (v, s')) :
    Starts R values [] s s' := by
  simp only [callResolved, Except.bind_eq_ok] at h
  obtain ⟨spelling, -, target, -, h⟩ := h
  exact startFrame_starts h

theorem selectorSpelling_of_text {w : σ} {method : String}
    (h : selectorText R staticSelector selector w = some method) :
    selectorSpelling R staticSelector selector w = .ok method := by
  cases staticSelector with
  | some selector => cases h; rfl
  | none =>
    rcases selector with _ | ⟨selector, _ | ⟨_, _⟩⟩
    · cases h
    · simp only [selectorText] at h
      simp only [selectorSpelling]
      cases hkind : R.kind selector w with
      | text text => simp only [hkind] at h; cases h; rfl
      | _ => simp [hkind] at h
    · cases h

theorem dynamicCallTarget_datum (hdatum : R.kind receiver s.world = .datum) (selector : String)
    (nullReceiverIsGlobal : Bool) : dynamicCallTarget R receiver selector nullReceiverIsGlobal s =
      R.resolve receiver selector s.frame s.world := by
  simp only [dynamicCallTarget, hdatum]

/-- A datum has the procedure that its type resolves, and else the engine's methods: a target
that could not be resolved is not found later. -/
theorem callDatum_starts {method : String} (hdatum : R.kind receiver s.world = .datum)
    (htext : selectorText R staticSelector selector s.world = some method)
    (h : callDatum R staticSelector method nullReceiverIsGlobal names receiver selector values s =
      .ok (v, s')) :
    StartsUnless (AnswersMethod R staticSelector receiver selector values s.frame s.world)
      (Starts R values names s s') s s' := by
  simp only [callDatum, dynamicCallTarget_datum hdatum] at h
  cases htarget : R.resolve receiver method s.frame s.world with
  | ok target =>
    simp only [htarget] at h
    refine ⟨?_, fun _ => startFrame_starts h⟩
    rintro ⟨method', htext', ⟨entries, hlist⟩ | ⟨-, ⟨e, herror⟩, -⟩⟩
    · rw [hdatum] at hlist
      cases hlist
    · cases htext.symm.trans htext'
      rw [htarget] at herror
      cases herror
  | error e =>
    simp only [htarget] at h
    cases hmethod : R.datumMethod receiver method values s.world with
    | some result =>
      simp only [hmethod] at h
      cases result with
      | error e => cases h
      | ok result =>
        cases h
        exact ⟨fun _ => rfl, fun hnot => absurd
          ⟨method, htext, .inr ⟨hdatum, ⟨e, htarget⟩, by rw [hmethod]; rfl⟩⟩ hnot⟩
    | none =>
      simp only [hmethod, callResolved, selectorSpelling_of_text htext] at h
      simp only [Except.bind_eq_ok, dynamicCallTarget_datum hdatum] at h
      obtain ⟨_, hmethod, target, htarget', -⟩ := h
      cases hmethod
      rw [htarget] at htarget'
      cases htarget'

/-- A dynamic call keeps the names for a datum with a text selector; every
other receiver loses them. -/
theorem callDynamic_starts
    (h : callDynamic R staticSelector count argumentNames nullReceiverIsGlobal receiver selector
      values s = .ok (v, s')) :
    StartsUnless (AnswersMethod R staticSelector receiver selector values s.frame s.world)
      (R.kind receiver s.world = .datum ∧
          (selectorText R staticSelector selector s.world).isSome ∧
          Starts R values ((takeNames count s).1.getD argumentNames) s s' ∨
        (R.kind receiver s.world = .datum →
          selectorText R staticSelector selector s.world = none) ∧ Starts R values [] s s')
      s s' := by
  have hnames : ((takeNames count s).1.or
      (if argumentNames.isEmpty then none else some argumentNames)).getD [] =
        (takeNames count s).1.getD argumentNames := by
    cases (takeNames count s).1 with
    | some names => rfl
    | none => cases argumentNames <;> rfl
  simp only [callDynamic, hnames, takeNames_world] at h
  cases hkind : R.kind receiver s.world with
  | list entries =>
    cases htext : selectorText R staticSelector selector s.world with
    | none => simp only [hkind, htext] at h; cases h
    | some method =>
      simp only [hkind, htext] at h
      refine ⟨fun _ => ?_, fun hnot => absurd ⟨method, htext, .inl ⟨entries, hkind⟩⟩ hnot⟩
      cases hresult : R.listMethod method receiver values s.world with
      | error e => rw [hresult] at h; cases h
      | ok result =>
        rw [hresult] at h
        cases h
        exact takeNames_started count s
  | datum =>
    cases htext : selectorText R staticSelector selector s.world with
    | some method =>
      simp only [hkind, htext] at h
      have hdatum := callDatum_starts (s := (takeNames count s).2)
        (by rw [takeNames_world]; exact hkind) (by rw [takeNames_world]; exact htext) h
      rw [StartsUnless, takeNames_started, takeNames_world, takeNames_frame] at hdatum
      exact ⟨hdatum.1, fun hnot => .inl ⟨rfl, rfl, (hdatum.2 hnot).takeNames⟩⟩
    | none =>
      simp only [hkind, htext] at h
      refine ⟨?_, fun _ => .inr ⟨fun _ => rfl, (callResolved_starts h).takeNames⟩⟩
      rintro ⟨method, hmethod, -⟩
      rw [htext] at hmethod
      cases hmethod
  | _ =>
    simp only [hkind] at h
    refine ⟨?_, fun _ => .inr ⟨nofun, (callResolved_starts h).takeNames⟩⟩
    rintro ⟨_, -, ⟨entries, hlist⟩ | ⟨hdatum, -⟩⟩
    · rw [hkind] at hlist
      cases hlist
    · rw [hkind] at hdatum
      cases hdatum

/-- `new` starts the constructor of the value, if it has one. -/
theorem allocateDatum_starts {type : V}
    (h : allocateDatum R count argumentNames type values s = .ok (v, s')) :
    StartsUnless (∃ datum world, R.allocate type values s.frame s.world = .ok (datum, none, world))
      (Starts R values ((takeNames count s).1.getD argumentNames) s s') s s' := by
  simp only [allocateDatum, Except.bind_eq_ok, Prod.exists, takeNames_world, takeNames_frame] at h
  obtain ⟨datum, constructor, world, hallocate, h⟩ := h
  cases constructor with
  | none =>
    cases h
    exact ⟨fun _ => takeNames_started count s, fun hnot => absurd ⟨_, _, hallocate⟩ hnot⟩
  | some constructor =>
    simp only [Except.bind_eq_ok, Except.pure_eq_ok, Prod.exists] at h
    obtain ⟨result, s₁, hstart, h⟩ := h
    cases h
    have hstarts := startFrame_starts hstart
    refine ⟨?_, fun _ => by rwa [Starts, takeNames_started] at hstarts⟩
    rintro ⟨_, _, hnone⟩
    rw [hallocate] at hnone
    cases hnone

end Instructions

/-! ## Argument vectors -/

section Arguments

variable {R L procs} {arguments : List Expression} {values : List V} {n pos : Nat}

/-- Without expansions every argument keeps its value and its name. -/
theorem expandFrom_nil (w : σ) (names : List (Option String)) (index : Nat) :
    expandFrom R w names [] index values =
      .ok ((values.zipIdx index).map fun entry => (entry.1, names[entry.2]?.join)) := by
  induction values generalizing index with
  | nil => rfl
  | cons value values ih =>
    rw [expandFrom, ih]
    rfl

theorem expandArguments_plain {w : σ} (hplain : expandedIndices 0 arguments = [])
    (hlen : values.length = arguments.length) (hle : arguments.length ≤ 65535) :
    expandArguments R w arguments values = .ok ⟨values, argumentNames arguments⟩ := by
  have hvalues : (values.zipIdx.map fun entry =>
      (entry.1, (argumentNames arguments)[entry.2]?.join)).map (·.1) = values := by
    rw [List.map_map]
    exact List.zipIdx_map_fst 0 values
  have hnames : (values.zipIdx.map fun entry =>
      (entry.1, (argumentNames arguments)[entry.2]?.join)).map (·.2) =
        argumentNames arguments := by
    refine List.ext_getElem (by simp [argumentNames, hlen]) fun i hi hi' => ?_
    simp only [List.getElem_map, List.getElem_zipIdx, Nat.zero_add]
    rw [List.getElem?_eq_getElem hi', Option.join_some]
  rw [expandArguments, expandArgumentLists, hplain, expandFrom_nil]
  simp only [bind, Except.bind, hvalues, hnames]
  rw [if_pos (by simpa [hlen] using hle)]
  rfl

/-- A call-like instruction runs on the vector as it is, or on the expanded one. -/
theorem evalCall_cases {i : Nat → Instruction} {receivers : List V} {s s' : CallState σ V} {v : V}
    (h : (evalCall (callSemantics R) i receivers arguments values s).2 = .ok (v, s')) :
    (expandedIndices 0 arguments = [] ∧
      callValue R (i arguments.length) (receivers ++ values) s = .ok (v, s')) ∨
    (expandedIndices 0 arguments ≠ [] ∧ ∃ expanded,
      expandArguments R s.world arguments values = .ok expanded ∧
      callValue R (i expandedArgumentCount) (receivers ++ expanded.values)
        { s with pendingNames := some expanded.names } = .ok (v, s')) := by
  rw [evalCall] at h
  by_cases hempty : expandedIndices 0 arguments = []
  · rw [if_pos (by simp [hempty])] at h
    exact .inl ⟨hempty, h⟩
  · rw [if_neg (by simpa using hempty), Eval.bind_eq_ok] at h
    obtain ⟨expanded, s₁, hexpand, h⟩ := h
    refine .inr ⟨hempty, ?_⟩
    simp only [Eval.lift, callSemantics, callExpand] at hexpand
    split at hexpand
    · rename_i result hresult
      cases hexpand
      exact ⟨result, hresult, h⟩
    · cases hexpand

variable {code : Code}

theorem correctArguments (S : Semantics σ ε V) (hcode : code.length ≤ 65535) :
    CorrectArguments S L procs code arguments := fun e _ =>
  ⟨emitExpression_emits hcode e, fun values _ => emitExpression_emits hcode values⟩

/-- An argument vector has code for each argument. -/
theorem emitCallArguments_length {call : Code} {count : Nat} (S : Semantics σ ε V) (s : σ)
    (hcode : code.length ≤ 65535)
    (h : emitCallArguments arguments (emitArgumentValues L procs pos 0 arguments) =
      .ok (call, count))
    (hc : Placed code pos call) : arguments.length ≤ call.length := by
  cases hvalues : emitArgumentValues L procs pos 0 arguments with
  | error e =>
    rw [hvalues] at h
    simp [emitCallArguments, Except.bind_eq_ok] at h
  | ok p =>
    obtain ⟨code', expansions⟩ := p
    rw [hvalues] at h
    obtain ⟨expand, rfl⟩ := emitCallArguments_values h
    obtain ⟨-, hx⟩ := emitArgumentValues_emits (n := 0) (correctArguments S hcode) hvalues
    have hle := hx.count_le ⟨s⟩ (placed_append.1 hc).1
    rw [List.length_append]
    omega

/-- The count of the arguments is never the marker of an expanded vector. -/
theorem CallForm.arguments_lt {fragment : Code} (S : Semantics σ ε V) (s : σ) {form : CallForm}
    (hcode : code.length ≤ 65535) (hover : form.IsOverridden procs)
    (h : emitExpression L procs pos (form.expression arguments) = .ok fragment)
    (hc : Placed code pos fragment) : arguments.length < 65535 := by
  have hfragment := hc.length_le
  have hcall : ∀ {pos : Nat} {call : Code} {count : Nat}, Placed code pos call →
      emitCallArguments arguments (emitArgumentValues L procs pos 0 arguments) =
        .ok (call, count) → arguments.length ≤ call.length :=
    fun hc h => emitCallArguments_length S s hcode h hc
  have hlast : ∀ {call : Code} {i : Instruction} {count : Nat}, fragment = call ++ [i] →
      emitCallArguments arguments (emitArgumentValues L procs pos 0 arguments) =
        .ok (call, count) → arguments.length < 65535 := by
    rintro call i count rfl h
    have hle := hcall (placed_append.1 hc).1 h
    rw [List.length_append, List.length_singleton] at hfragment
    omega
  cases form with
  | static procedure =>
    rw [CallForm.expression, emitExpression] at h
    cases htarget : procs procedure with
    | none => rw [htarget] at h; cases h
    | some target =>
      rw [htarget] at h
      simp only [Except.bind_eq_ok, Except.pure_eq_ok, Prod.exists] at h
      obtain ⟨call, count, h, rfl⟩ := h
      exact hlast rfl h
  | current | parent =>
    cases arguments with
    | nil => simp
    | cons e rest =>
      simp only [CallForm.expression, CallForm.optionalArguments, List.isEmpty_cons,
        Bool.false_eq_true, if_false, emitExpression, Except.bind_eq_ok, Except.pure_eq_ok,
        Prod.exists] at h
      obtain ⟨call, count, h, rfl⟩ := h
      exact hlast rfl h
  | dynamic target procedure nullReceiverIsGlobal =>
    simp only [CallForm.expression, emitExpression, Except.bind_eq_ok, Except.pure_eq_ok,
      Prod.exists] at h
    obtain ⟨first, -, selector, -, call, count, h, rfl⟩ := h
    simp only [placed_append] at hc
    have hle := hcall hc.1.2 (by simpa [Nat.add_assoc] using h)
    simp only [List.length_append, List.length_singleton] at hfragment
    omega
  | safeDynamic target procedure =>
    simp only [CallForm.expression, emitExpression, Except.bind_eq_ok, Except.pure_eq_ok,
      Prod.exists] at h
    obtain ⟨first, -, selector, -, call, count, h, rfl⟩ := h
    simp only [nullGuard, placed_append] at hc
    have hle := hcall hc.2.1.2 (by simpa [Nat.add_assoc] using h)
    simp only [nullGuard, List.length_append, List.length_singleton] at hfragment
    omega
  | constructor type overrides =>
    simp only [CallForm.expression, emitExpression, Except.bind_eq_ok, Except.pure_eq_ok,
      Prod.exists] at h
    obtain ⟨first, -, call, count, h, stores, -, rfl⟩ := h
    simp only [placed_append] at hc
    have hle := hcall hc.1.2 h
    simp only [List.length_append, List.length_cons] at hfragment
    omega
  | builtin name =>
    have hsome : (procs name).isSome := hover
    obtain ⟨procedure, hprocedure⟩ := Option.isSome_iff_exists.1 hsome
    simp only [CallForm.expression, emitExpression, Except.bind_eq_ok, countU16_eq_ok] at h
    obtain ⟨_, ⟨-, rfl⟩, h⟩ := h
    rw [if_neg (by simp [hprocedure])] at h
    simp only [Except.bind_eq_ok, hprocedure, Except.pure_eq_ok] at h
    obtain ⟨values, hvalues, rfl⟩ := h
    have hx := emitBuiltinArguments_emits (n := 0) (correctArguments S hcode) hvalues
    have hle := hx.count_le ⟨s⟩ (placed_append.1 hc).1
    rw [List.length_append, List.length_singleton] at hfragment
    omega
  | nativeSrcMethod name =>
    have hsome : (procs name).isSome := hover
    obtain ⟨procedure, hprocedure⟩ := Option.isSome_iff_exists.1 hsome
    simp only [CallForm.expression, emitExpression, hprocedure, Except.bind_eq_ok,
      Except.pure_eq_ok, Prod.exists] at h
    obtain ⟨call, count, h, rfl⟩ := h
    exact hlast rfl h

end Arguments

/-! ## The forms -/

section Forms

variable {R L procs} {arguments : List Expression} {values : List V} {n pos : Nat}
  {s s' : CallState σ V} {v : V}

theorem argumentNames_none (h : ∀ e ∈ arguments, argumentName e = none) :
    (argumentNames arguments).all Option.isNone = true := by
  rw [List.all_eq_true]
  intro name hname
  obtain ⟨e, he, rfl⟩ := List.mem_map.1 hname
  rw [h e he, Option.isNone_none]

theorem ne_expandedArgumentCount (hlt : arguments.length < 65535) :
    arguments.length ≠ expandedArgumentCount := by
  simp only [expandedArgumentCount]
  omega

variable {receivers : List V}

/-- A call whose instruction starts frames by `l` binds the expanded arguments, where
`l` is the names of the arguments unless the vector is expanded. -/
theorem evalCall_binds {i : Nat → Instruction} {l : List (Option String)}
    (answered : List V → Bool → Frame V → σ → Prop)
    (hi : ∀ {count values} {s s' : CallState σ V} {v : V},
      callValue R (i count) (receivers ++ values) s = .ok (v, s') →
      StartsUnless
        (answered values (((takeNames count s).1.getD l).all Option.isNone) s.frame s.world)
        (Starts R values ((takeNames count s).1.getD l) s s') s s')
    (hlen : values.length = arguments.length) (hlt : arguments.length < 65535)
    (hnames : expandedIndices 0 arguments = [] → l = argumentNames arguments ∨
      l.all Option.isNone = true ∧ ∀ e ∈ arguments, argumentName e = none)
    (h : (evalCall (callSemantics R) i receivers arguments values s).2 = .ok (v, s')) :
    BindsArguments R (answered · · s.frame s.world) arguments values s s' := by
  obtain ⟨hplain, h⟩ | ⟨-, expanded, hexpanded, h⟩ := evalCall_cases h
  · refine ⟨_, expandArguments_plain hplain hlen (by omega), ?_⟩
    have hstarts := hi h
    rw [takeNames, if_neg (ne_expandedArgumentCount hlt), Option.getD_none] at hstarts
    obtain rfl | ⟨hnone, harguments⟩ := hnames hplain
    · exact hstarts
    · have hunnamed := argumentNames_none harguments
      rw [hnone, ← hunnamed] at hstarts
      exact hstarts.mono fun h => h.of_none hnone hunnamed
  · have hstarts := hi h
    rw [takeNames, if_pos rfl, Option.getD_some] at hstarts
    exact ⟨expanded, hexpanded, hstarts⟩

variable {receiver : V}

/-- A dynamic call binds by the names for a datum with a text selector, and else when no
argument has a name. -/
theorem evalDynamic_binds {procedure : Expression} {nullReceiverIsGlobal : Bool} {selector : List V}
    (hselector : selector.length = if (literalSelector procedure).isSome then 0 else 1)
    (hlen : values.length = arguments.length) (hlt : arguments.length < 65535)
    (hpasses : (∀ expanded, expandArguments R s.world arguments values = .ok expanded →
        ∀ name ∈ expanded.names, name = none) ∨
      R.kind receiver s.world = .datum ∧
        (selectorText R (literalSelector procedure) selector s.world).isSome)
    (h : (evalCall (callSemantics R)
      (.callDynamic (literalSelector procedure) · (argumentNames arguments) nullReceiverIsGlobal)
      (receiver :: selector) arguments values s).2 = .ok (v, s')) :
    BindsArguments R (fun values _ => AnswersMethod R (literalSelector procedure) receiver selector
      values s.frame s.world) arguments values s s' := by
  have hstep : ∀ {count : Nat} {vs : List V} {s₁ : CallState σ V},
      callValue R (.callDynamic (literalSelector procedure) count (argumentNames arguments)
        nullReceiverIsGlobal) (receiver :: selector ++ vs) s₁ = .ok (v, s') →
      s₁.world = s.world →
      StartsUnless
        (AnswersMethod R (literalSelector procedure) receiver selector vs s₁.frame s₁.world)
        (Starts R vs ((takeNames count s₁).1.getD (argumentNames arguments)) s₁ s' ∨
          (∀ expanded, expandArguments R s.world arguments values = .ok expanded →
            expanded.names.all Option.isNone = true) ∧ Starts R vs [] s₁ s') s₁ s' := by
    intro count vs s₁ h hs₁
    simp only [callValue, List.cons_append, ← hselector, List.take_left, List.drop_left] at h
    refine (callDynamic_starts h).mono ?_
    rintro (⟨-, -, h⟩ | ⟨hnone, h⟩)
    · exact .inl h
    · obtain hpasses | ⟨hdatum, htext⟩ := hpasses
      · refine .inr ⟨fun expanded hexpanded => List.all_eq_true.2 fun name hname => ?_, h⟩
        rw [hpasses expanded hexpanded name hname, Option.isNone_none]
      · rw [hs₁] at hnone
        rw [hnone hdatum] at htext
        cases htext
  obtain ⟨hplain, h⟩ | ⟨-, expanded, hexpanded, h⟩ := evalCall_cases h
  · have hexpanded := expandArguments_plain (R := R) (w := s.world) hplain hlen (by omega)
    refine ⟨_, hexpanded, (hstep h rfl).mono ?_⟩
    rintro (hstarts | ⟨hnone, hstarts⟩)
    · rwa [takeNames, if_neg (ne_expandedArgumentCount hlt), Option.getD_none] at hstarts
    · exact hstarts.of_none rfl (hnone _ hexpanded)
  · refine ⟨expanded, hexpanded, (hstep h rfl).mono ?_⟩
    rintro (hstarts | ⟨hnone, hstarts⟩)
    · rwa [takeNames, if_pos rfl, Option.getD_some] at hstarts
    · exact hstarts.of_none rfl (hnone _ hexpanded)

variable {s₁ : CallState σ V}

/-- The operands of a form that has no receivers. -/
theorem evalAll_operands {k : Nat}
    (h : ((do return some ([], ← evalAll (callSemantics R) L procs k arguments)) s).2 =
      .ok (some (receivers, values), s₁)) :
    receivers = [] ∧ (evalAll (callSemantics R) L procs k arguments s).2 = .ok (values, s₁) ∧
      values.length = arguments.length := by
  rw [Eval.bind_eq_ok] at h
  obtain ⟨vs, s₂, hvs, h⟩ := h
  cases h
  exact ⟨rfl, hvs, evalAll_length hvs⟩

variable {name : String}

variable (R procs) in
/-- A call of the form binds its arguments from the state in which its operands are evaluated. -/
def CallForm.Binds (form : CallForm) (receivers values : List V) (arguments : List Expression)
    (s s' : CallState σ V) : Prop :=
  BindsArguments R (form.Answered R procs receivers · · s.frame s.world) arguments values s s'

/-- The procedure of the name is the one the call has. -/
theorem BindsArguments.procedure {procedure : ProcedureId}
    (hprocedure : procs name = some procedure)
    (h : BindsArguments R (AnswersProcedure R procedure · · s₁.frame s₁.world) arguments values s₁
      s') :
    BindsArguments R (fun values unnamed => ∃ procedure, procs name = some procedure ∧
      AnswersProcedure R procedure values unnamed s₁.frame s₁.world) arguments values s₁ s' := by
  simpa only [hprocedure, Option.some.injEq, exists_eq_left'] using h

theorem static_binds {procedure : String} (hlt : arguments.length < 65535)
    (h : (eval (callSemantics R) L procs n (.call procedure arguments) s).2 = .ok (v, s'))
    (hoperands : ((CallForm.static procedure).operands R L procs n arguments s).2 =
      .ok (some (receivers, values), s₁)) :
    (CallForm.static procedure).Binds R procs receivers values arguments s₁ s' := by
  obtain ⟨-, hvalues, hlen⟩ := evalAll_operands hoperands
  rw [eval] at h
  cases htarget : procs procedure with
  | none => rw [htarget] at h; cases h
  | some target =>
    simp only [htarget, Eval.bind_of_ok hvalues] at h
    refine BindsArguments.procedure htarget (evalCall_binds _ ?_ hlen hlt (fun _ => .inl rfl) h)
    exact fun h => callStatic_starts h

theorem nativeSrcMethod_binds (hlt : arguments.length < 65535) (hover : (procs name).isSome)
    (hpasses : expandedIndices 0 arguments ≠ [] ∨ ∀ e ∈ arguments, argumentName e = none)
    (h : (eval (callSemantics R) L procs n (.nativeSrcMethod name arguments) s).2 = .ok (v, s'))
    (hoperands : ((CallForm.nativeSrcMethod name).operands R L procs n arguments s).2 =
      .ok (some (receivers, values), s₁)) :
    (CallForm.nativeSrcMethod name).Binds R procs receivers values arguments s₁ s' := by
  obtain ⟨-, hvalues, hlen⟩ := evalAll_operands hoperands
  obtain ⟨procedure, hprocedure⟩ := Option.isSome_iff_exists.1 hover
  simp only [eval, hprocedure, Eval.bind_of_ok hvalues] at h
  refine BindsArguments.procedure hprocedure (evalCall_binds (l := arguments.map fun _ => none) _ ?_
    hlen hlt (fun hplain => .inr ⟨?_, ?_⟩) h)
  · exact fun h => callStatic_starts h
  · simp
  · exact hpasses.resolve_left (not_not_intro hplain)

theorem builtin_binds (hlt : arguments.length < 65535) (hover : (procs name).isSome)
    (hplain : expandedIndices 0 arguments = [])
    (h : (eval (callSemantics R) L procs n (.standardBuiltin name arguments) s).2 = .ok (v, s'))
    (hoperands : ((CallForm.builtin name).operands R L procs n arguments s).2 =
      .ok (some (receivers, values), s₁)) :
    (CallForm.builtin name).Binds R procs receivers values arguments s₁ s' := by
  obtain ⟨-, hvalues, hlen⟩ := evalAll_operands hoperands
  obtain ⟨procedure, hprocedure⟩ := Option.isSome_iff_exists.1 hover
  rw [eval, if_neg (by simp [hprocedure])] at h
  simp only [hprocedure, Eval.bind_of_ok hvalues] at h
  have hcall : callStatic R procedure arguments.length (argumentNames arguments) values s₁ =
      .ok (v, s') := h
  have hstarts := callStatic_starts hcall
  rw [takeNames, if_neg (ne_expandedArgumentCount hlt), Option.getD_none] at hstarts
  exact BindsArguments.procedure hprocedure
    ⟨_, expandArguments_plain hplain hlen (by omega), hstarts⟩

theorem optionalArguments_some (hne : arguments ≠ []) :
    CallForm.optionalArguments arguments = some arguments := by
  rw [CallForm.optionalArguments, if_neg (by simpa using hne)]

/-- A self or parent call with arguments. -/
theorem forwarding_binds {form : CallForm} (hform : form = .current ∨ form = .parent)
    (hlt : arguments.length < 65535) (hne : arguments ≠ [])
    (hpasses : expandedIndices 0 arguments ≠ [] ∨ ∀ e ∈ arguments, argumentName e = none)
    (h : (eval (callSemantics R) L procs n (form.expression arguments) s).2 = .ok (v, s'))
    (hoperands : (form.operands R L procs n arguments s).2 = .ok (some (receivers, values), s₁)) :
    form.Binds R procs receivers values arguments s₁ s' := by
  have hnames : expandedIndices 0 arguments = [] → ([] : List (Option String)) =
      argumentNames arguments ∨ ([] : List (Option String)).all Option.isNone = true ∧
        ∀ e ∈ arguments, argumentName e = none :=
    fun hplain => .inr ⟨rfl, hpasses.resolve_left (not_not_intro hplain)⟩
  obtain rfl | rfl := hform <;> obtain ⟨-, hvalues, hlen⟩ := evalAll_operands hoperands <;>
    simp only [CallForm.expression, optionalArguments_some hne, eval, Eval.bind_of_ok hvalues] at h
  · refine evalCall_binds (fun _ _ _ _ => False) ?_ hlen hlt hnames h
    exact fun h => callCurrent_starts h
  · refine evalCall_binds (fun _ _ frame w =>
      ∃ world, R.parentTarget (procs "..") frame w = .ok (none, world)) ?_ hlen hlt hnames h
    exact fun h => callParent_starts h

/-- A self or parent call without arguments. -/
theorem forwarding_forwards {form : CallForm} (hform : form = .current ∨ form = .parent)
    (h : (eval (callSemantics R) L procs n (form.expression []) s).2 = .ok (v, s')) :
    StartsUnless (form.Answered R procs [] [] true s.frame s.world) (Forwards R s s') s s' := by
  obtain rfl | rfl := hform
  · exact callCurrent_forwards h
  · exact callParent_forwards h

/-- The receiver, the selector and the arguments of a dynamic call. -/
theorem dynamic_operands {procedure : Expression} {j k : Nat} (h : ((do
      let selector ← evalSelector L procs (callSemantics R) j procedure
      let values ← evalAll (callSemantics R) L procs k arguments
      return some (receiver :: selector, values)) s).2 = .ok (some (receivers, values), s₁)) :
    ∃ selector s₂, receivers = receiver :: selector ∧
      (evalSelector L procs (callSemantics R) j procedure s).2 = .ok (selector, s₂) ∧
      (evalAll (callSemantics R) L procs k arguments s₂).2 = .ok (values, s₁) ∧
      selector.length = if (literalSelector procedure).isSome then 0 else 1 := by
  simp only [Eval.bind_eq_ok] at h
  obtain ⟨selector, s₂, hselector, vs, s₃, hvs, h⟩ := h
  cases h
  refine ⟨selector, s₂, rfl, hselector, hvs, ?_⟩
  rw [evalSelector] at hselector
  cases hliteral : literalSelector procedure with
  | some name => rw [hliteral] at hselector; cases hselector; rfl
  | none =>
    simp only [hliteral, Eval.bind_eq_ok] at hselector
    obtain ⟨w, s₄, -, h⟩ := hselector
    cases h
    rfl

theorem dynamicForm_binds {form : CallForm} {target procedure : Expression}
    {nullReceiverIsGlobal : Bool} {j k : Nat} {selector : List V} {s₂ : CallState σ V}
    (hform : form = .dynamic target procedure nullReceiverIsGlobal ∨
      form = .safeDynamic target procedure)
    (hlt : arguments.length < 65535)
    (hpasses : form.PassesNames R s₁.world arguments (receiver :: selector) values)
    (hselector : (evalSelector L procs (callSemantics R) j procedure s).2 = .ok (selector, s₂))
    (hvalues : (evalAll (callSemantics R) L procs k arguments s₂).2 = .ok (values, s₁))
    (hlength : selector.length = (if (literalSelector procedure).isSome then 0 else 1))
    (h : ((do
      let selector ← evalSelector L procs (callSemantics R) j procedure
      let values ← evalAll (callSemantics R) L procs k arguments
      evalCall (callSemantics R)
        (.callDynamic (literalSelector procedure) · (argumentNames arguments) nullReceiverIsGlobal)
        (receiver :: selector) arguments values) s).2 = .ok (v, s')) :
    form.Binds R procs (receiver :: selector) values arguments s₁ s' := by
  rw [Eval.bind_of_ok hselector, Eval.bind_of_ok hvalues] at h
  obtain rfl | rfl := hform
  all_goals
    have hbinds := evalDynamic_binds hlength (evalAll_length hvalues) hlt (hpasses.imp_right ?_) h
    · simpa [CallForm.Binds, CallForm.Answered, and_assoc] using hbinds
    · rintro ⟨_, _, heq, hrest⟩
      cases heq
      exact hrest

theorem dynamic_binds {target procedure : Expression} {nullReceiverIsGlobal : Bool}
    (hlt : arguments.length < 65535)
    (hpasses : (CallForm.dynamic target procedure nullReceiverIsGlobal).PassesNames R s₁.world
      arguments receivers values)
    (h : (eval (callSemantics R) L procs n
      (.dynamicCall target procedure arguments nullReceiverIsGlobal) s).2 = .ok (v, s'))
    (hoperands : ((CallForm.dynamic target procedure nullReceiverIsGlobal).operands R L procs n
      arguments s).2 = .ok (some (receivers, values), s₁)) :
    (CallForm.dynamic target procedure nullReceiverIsGlobal).Binds R procs receivers values
      arguments s₁ s' := by
  rw [CallForm.operands, Eval.bind_eq_ok] at hoperands
  obtain ⟨receiver, s₂, hreceiver, hoperands⟩ := hoperands
  obtain ⟨selector, s₃, rfl, hselector, hvalues, hlength⟩ := dynamic_operands hoperands
  rw [eval, Eval.bind_of_ok hreceiver] at h
  exact dynamicForm_binds (.inl rfl) hlt hpasses hselector hvalues hlength h

theorem safeDynamic_binds {target procedure : Expression} (hlt : arguments.length < 65535)
    (hpasses : (CallForm.safeDynamic target procedure).PassesNames R s₁.world arguments receivers
      values)
    (h : (eval (callSemantics R) L procs n (.safeDynamicCall target procedure arguments) s).2 =
      .ok (v, s'))
    (hoperands : ((CallForm.safeDynamic target procedure).operands R L procs n arguments s).2 =
      .ok (some (receivers, values), s₁)) :
    (CallForm.safeDynamic target procedure).Binds R procs receivers values arguments s₁ s' := by
  rw [CallForm.operands] at hoperands
  obtain ⟨receiver, s₂, hreceiver, hoperands⟩ := Eval.bind_eq_ok.1 hoperands
  rw [eval, Eval.bind_of_ok hreceiver] at h
  by_cases hnull : (callSemantics R).isNull receiver s₂ = true
  · simp only [hnull, if_true] at hoperands
    cases hoperands
  · simp only [hnull] at hoperands
    rw [unlessNull, if_neg hnull] at h
    obtain ⟨selector, s₃, rfl, hselector, hvalues, hlength⟩ := dynamic_operands hoperands
    exact dynamicForm_binds (.inr rfl) hlt hpasses hselector hvalues hlength h

/-- A constructor binds before the overrides of the new value are stored. -/
theorem constructor_binds {type : Expression} {overrides : List (FieldName × Expression)}
    (hlt : arguments.length < 65535)
    (h : (eval (callSemantics R) L procs n (.new (some type) arguments overrides) s).2 =
      .ok (v, s'))
    (hoperands : ((CallForm.constructor type overrides).operands R L procs n arguments s).2 =
      .ok (some (receivers, values), s₁)) :
    ∃ result s₂,
      (CallForm.constructor type overrides).Binds R procs receivers values arguments s₁ s₂ ∧
      ((CallForm.constructor type overrides).finish R L procs n arguments result s₂).2 =
        .ok (v, s') := by
  rw [CallForm.operands, Eval.bind_eq_ok] at hoperands
  obtain ⟨receiver, s₂, hreceiver, hoperands⟩ := hoperands
  rw [Eval.bind_eq_ok] at hoperands
  obtain ⟨vs, s₃, hvalues, hoperands⟩ := hoperands
  cases hoperands
  rw [eval, Eval.bind_of_ok hreceiver, Eval.bind_of_ok hvalues, Eval.bind_eq_ok] at h
  obtain ⟨datum, s₄, hcall, h⟩ := h
  have hbinds : BindsArguments R (fun values _ => ∃ datum world,
      R.allocate receiver values s₁.frame s₁.world = .ok (datum, none, world)) arguments values s₁
      s₄ := by
    refine evalCall_binds (fun values _ frame w => ∃ datum world,
      R.allocate receiver values frame w = .ok (datum, none, world)) ?_ (evalAll_length hvalues)
      hlt (fun _ => .inl rfl) hcall
    exact fun h => allocateDatum_starts h
  exact ⟨datum, s₄, by simpa [CallForm.Binds, CallForm.Answered] using hbinds, h⟩

/-- Every form of call, run from any state: unless the engine answers it itself, it starts one
frame, which binds the expanded arguments by their names where the form hands on the names and
expands the lists. A self or parent call that is written without arguments forwards the
parameters and the extra arguments of the caller. -/
theorem call_binds_arguments {code fragment : Code} (form : CallForm)
    (hcode : code.length ≤ 65535) (hover : form.IsOverridden procs)
    (h : emitExpression L procs pos (form.expression arguments) = .ok fragment)
    (hc : Placed code pos fragment) (stack : List V) (s : CallState σ V) :
    Ends (callSemantics R) code (pos + fragment.length) single ⟨pos, stack, s⟩ stack
        (eval (callSemantics R) L procs n (form.expression arguments) s).2 ∧
      ∀ v s', (eval (callSemantics R) L procs n (form.expression arguments) s).2 = .ok (v, s') →
        ∀ receivers values s₁,
          (form.operands R L procs n arguments s).2 = .ok (some (receivers, values), s₁) →
          (form.PassesNames R s₁.world arguments receivers values →
            ∃ result s₂, BindsArguments R (form.Answered R procs receivers · · s₁.frame s₁.world)
                arguments values s₁ s₂ ∧
              (form.finish R L procs n arguments result s₂).2 = .ok (v, s')) ∧
          (form = .current ∨ form = .parent → arguments = [] →
            StartsUnless (form.Answered R procs [] [] true s₁.frame s₁.world) (Forwards R s₁ s')
              s₁ s') := by
  refine ⟨emitExpression_emits hcode _ pos n fragment h stack hc s, ?_⟩
  intro v s' hok receivers values s₁ hoperands
  have hlt := CallForm.arguments_lt (callSemantics R) s hcode hover h hc
  constructor
  · intro hpasses
    cases form with
    | static procedure => exact ⟨v, s', static_binds hlt hok hoperands, rfl⟩
    | current =>
      exact ⟨v, s', forwarding_binds (.inl rfl) hlt hpasses.1 hpasses.2 hok hoperands, rfl⟩
    | parent =>
      exact ⟨v, s', forwarding_binds (.inr rfl) hlt hpasses.1 hpasses.2 hok hoperands, rfl⟩
    | dynamic target procedure nullReceiverIsGlobal =>
      exact ⟨v, s', dynamic_binds hlt hpasses hok hoperands, rfl⟩
    | safeDynamic target procedure =>
      exact ⟨v, s', safeDynamic_binds hlt hpasses hok hoperands, rfl⟩
    | constructor type overrides => exact constructor_binds hlt hok hoperands
    | builtin name => exact ⟨v, s', builtin_binds hlt hover hpasses hok hoperands, rfl⟩
    | nativeSrcMethod name =>
      exact ⟨v, s', nativeSrcMethod_binds hlt hover hpasses hok hoperands, rfl⟩
  · rintro hform rfl
    have hsame : s₁ = s := by
      obtain rfl | rfl := hform
      · cases hoperands; rfl
      · cases hoperands; rfl
    rw [hsame]
    exact forwarding_forwards hform hok

end Forms

/-! ## A self call and a parent call of their own -/

/-- The values are numbers: 0 is null, 1 a datum, 2 a list of one value, 5 a value. Procedure 1
is the one project procedure, and its own parent. -/
def numberRuntime : CallRuntime Unit String Nat where
  base :=
    { value instruction _ s :=
        match instruction with
        | .loadSrc => .ok (1, s)
        | .loadCaller => .ok (2, s)
        | .loadUsr => .ok (5, s)
        | _ => .ok (0, s)
      store _ _ s := .ok s
      truthy v _ := .ok (v ≠ 0)
      isNull v _ := v = 0
      expand _ _ s := .ok (noValues, s)
      count n := n
      readCount v := .ok v
      readCount_count _ _ := rfl
      rejected := "rejected" }
  error message := message
  null := 0
  kind v _ := if v = 0 then .null else if v = 1 then .datum
    else if v = 2 then .list (.ok [(7, none)]) else .other
  program _ := .ok ⟨["a", "b"], 2, by decide⟩
  run _ w := .ok (0, w)
  redispatch procedure _ _ := .ok procedure
  nativeBuiltin _ _ _ := none
  typeParent _ _ _ := none
  parentTarget procedure _ w := .ok (procedure, w)
  listMethod _ _ _ w := .ok (0, w)
  datumMethod _ _ _ _ := none
  resolveGlobal _ _ _ := .ok 1
  resolve _ _ _ _ := .ok 1
  allocate _ _ _ w := .ok (1, some 1, w)

def oneProcedure : Procedures := fun _ => some 1

/-- In a frame whose parameters are 5 and null. -/
def callerState : CallState Unit Nat where
  world := ()
  frame := ⟨1, [5, 0], [5, 0], [true, false]⟩
  pendingNames := none
  started := []

def startedBy (form : CallForm) (arguments : List Expression) : Option (List (Frame Nat)) :=
  match (eval (callSemantics numberRuntime) {} oneProcedure 0 (form.expression arguments)
    callerState).2 with
  | .ok (_, s) => some s.started
  | .error _ => none

/-- A parent call without arguments forwards the parameters of its frame; a static call does
not. -/
theorem parentCall_binds_otherwise :
    startedBy (.static "p") [] = some [⟨1, [0, 0], [0, 0], [false, false]⟩] ∧
      startedBy .parent [] = some [⟨1, [5, 0], [5, 0], [true, true]⟩] := ⟨rfl, rfl⟩

/-- `b = usr, arglist(caller)`, whose list holds one value. -/
def mixedArguments : List Expression := [.namedArgument "b" .usr, .argList .caller]

/-- Every form that expands a list, each a call of the one procedure. -/
def expandingForms : List CallForm :=
  [.static "p", .current, .parent, .dynamic .src (.text "p") false,
    .safeDynamic .src (.text "p"), .constructor .src [], .nativeSrcMethod "p"]

/-- The frame that has 7 for the first parameter and 5 for the second. -/
def mixedFrame : Frame Nat := ⟨1, [7, 5], [7, 5], [true, true]⟩

/-- From `callerState`, the form starts the one frame, which binds the arguments. -/
def BindsOnRun (form : CallForm) (arguments : List Expression) (values : List Nat)
    (frame : Frame Nat) : Prop :=
  startedBy form arguments = some [frame] ∧ ∃ expanded s₂,
    expandArguments numberRuntime () arguments values = .ok expanded ∧
      Starts numberRuntime expanded.values expanded.names callerState s₂ ∧ s₂.started = [frame]

theorem numberRuntime_not_answered (form : CallForm) {receivers values : List Nat} {unnamed : Bool}
    {frame : Frame Nat} (h : ∀ receiver ∈ receivers, receiver = 1) :
    ¬form.Answered numberRuntime oneProcedure receivers values unnamed frame () := by
  have hprocedure : ∀ name, ¬∃ procedure, oneProcedure name = some procedure ∧
      AnswersProcedure numberRuntime procedure values unnamed frame () := by
    rintro name ⟨_, -, _, -, ⟨-, hbuiltin⟩ | hparent⟩
    · cases hbuiltin
    · cases hparent
  have hmethod : ∀ literal, ¬∃ receiver selector, receivers = receiver :: selector ∧
      AnswersMethod numberRuntime literal receiver selector values frame () := by
    rintro literal ⟨receiver, selector, rfl, _, -, ⟨_, hkind⟩ | ⟨-, ⟨_, hresolve⟩, -⟩⟩
    · rw [h receiver List.mem_cons_self] at hkind
      cases hkind
    · cases hresolve
  cases form with
  | static name | builtin name | nativeSrcMethod name => exact hprocedure name
  | current => exact id
  | parent => rintro ⟨_, hparent⟩; cases hparent
  | dynamic target procedure | safeDynamic target procedure => exact hmethod _
  | constructor type overrides => rintro ⟨_, _, _, -, hallocate⟩; cases hallocate

theorem call_binds_arguments_mixed :
    (∀ form ∈ expandingForms, BindsOnRun form mixedArguments [5, 2] mixedFrame) ∧
      BindsOnRun (.builtin "p") [.namedArgument "b" .usr] [5] ⟨1, [0, 5], [0, 5], [false, true]⟩ := by
  have hrun : ∀ {form : CallForm} {arguments : List Expression} {values : List Nat}
      {frame : Frame Nat} {receivers : List Nat} {v : Nat} {fragment : Code},
      emitExpression {} oneProcedure 0 (form.expression arguments) = .ok fragment →
      fragment.length ≤ 65535 → form.IsOverridden oneProcedure →
      (eval (callSemantics numberRuntime) {} oneProcedure 0 (form.expression arguments)
        callerState).2 = .ok (v, { callerState with started := [frame] }) →
      (form.operands numberRuntime {} oneProcedure 0 arguments callerState).2 =
        .ok (some (receivers, values), callerState) →
      (∀ receiver ∈ receivers, receiver = 1) →
      (∀ result s, (form.finish numberRuntime {} oneProcedure 0 arguments result s).2 =
        .ok (result, s)) →
      form.PassesNames numberRuntime () arguments receivers values →
      BindsOnRun form arguments values frame := by
    intro form arguments values frame receivers v fragment hemit hcode hover hok hoperands hone
      hfinish hpasses
    have hbinds := call_binds_arguments (R := numberRuntime) (n := 0) form hcode hover hemit
      (List.prefix_refl _) [] callerState
    obtain ⟨result, s₂, ⟨expanded, hexpanded, hstarts⟩, hend⟩ :=
      (hbinds.2 _ _ hok receivers values callerState hoperands).1 hpasses
    cases (hfinish result s₂).symm.trans hend
    refine ⟨?_, expanded, _, hexpanded, hstarts.2 (numberRuntime_not_answered form hone), rfl⟩
    rw [startedBy, hok]
  refine ⟨fun form hform => ?_, hrun rfl (by decide) rfl rfl rfl nofun (fun _ _ => rfl) rfl⟩
  have hlist : expandedIndices 0 mixedArguments ≠ [] := by decide
  simp only [expandingForms, List.mem_cons, List.not_mem_nil, or_false] at hform
  rcases hform with rfl | rfl | rfl | rfl | rfl | rfl | rfl
  · exact hrun rfl (by decide) trivial rfl rfl nofun (fun _ _ => rfl) trivial
  · exact hrun rfl (by decide) trivial rfl rfl nofun (fun _ _ => rfl) ⟨by decide, .inl hlist⟩
  · exact hrun rfl (by decide) trivial rfl rfl nofun (fun _ _ => rfl) ⟨by decide, .inl hlist⟩
  · exact hrun rfl (by decide) trivial rfl rfl (by decide) (fun _ _ => rfl)
      (.inr ⟨1, [], rfl, rfl, rfl⟩)
  · exact hrun rfl (by decide) trivial rfl rfl (by decide) (fun _ _ => rfl)
      (.inr ⟨1, [], rfl, rfl, rfl⟩)
  · exact hrun rfl (by decide) trivial rfl rfl (by decide) (fun _ _ => rfl) trivial
  · exact hrun rfl (by decide) rfl rfl rfl nofun (fun _ _ => rfl) (.inl hlist)

end Dream64.Vm
