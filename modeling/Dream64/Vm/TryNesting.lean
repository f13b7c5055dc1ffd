import Dream64.Vm.Threads

/-!
# Exception handlers and the nesting of `try`

`enclosingTries code pc` are the `try` statements whose protected body has the
instruction at `pc`, outermost first, each by the index of its `BeginTry`. A
jump out of a `try` leaves the handler of the `try` on the stack of handlers.
`Layered` is what every run keeps nevertheless: the handlers of the enclosing
`try`s are on the stack in their order, and above each of them only handlers of
`try`s inside it. So a failure goes to the innermost enclosing catch
(`findActiveExceptionHandler_reachable`). Only the jumps of `break` and
`continue` leave a `try` so. In a run in which none of them does, the handlers
are those of the enclosing `try`s and no others (`handlers_reachable`).
-/

namespace Dream64.Vm

open Nesting

def Code.isTry (code : Code) (k : Nat) : Bool :=
  match code[k]? with
  | some (.beginTry ..) => true
  | _ => false

def enclosingTries (code : Code) (pc : Nat) : List Nat :=
  enclosing (Code.listing code).range code.length code.isTry pc

/-- `handler` is what the `BeginTry` at `k` pushes. -/
structure IsHandler (code : Code) (k : Nat) (handler : ExceptionHandler) : Prop where
  start : handler.start = k + 1
  beginTry : code[k]? = some (.beginTry handler.catchTarget handler.stop handler.local?)

/-- The innermost frame in a `try`, and that `try`. -/
def innermostTry {V : Type} (code : ProcedureId → Code) : List (CallFrame V) → Option (Nat × Nat)
  | [] => none
  | frame :: callers =>
    match (enclosingTries (code frame.procedure) frame.instruction).getLast? with
    | some k => some (0, k)
    | none => (innermostTry code callers).map fun found => (found.1 + 1, found.2)

theorem compiled_layout (M : CompiledModule) (p : ProcedureId) : Layout (M.code p) (M.exits p) := by
  have hcompiled := M.compiled p
  cases hsource : M.source p with
  | none =>
    have hlaid : (Code.listing []).Laid (M.exits p) [] 0 ([] : Code).length :=
      Listing.laid_straight (fun _ _ hk => nomatch hk) (fun _ _ hk => nomatch hk)
        fun _ _ _ hk => nomatch hk
    rw [hsource, Option.elim_none] at hcompiled
    rw [hcompiled]
    exact layout_specialize hlaid unspecialized_nil
  | some procedure =>
    rw [hsource, Option.elim_some] at hcompiled
    obtain ⟨draft, hdraft, hcode⟩ := compileProcedure_eq_ok hcompiled
    have hexits : M.exits p = draft.exits 0 := by
      funext pc
      simp only [CompiledModule.exits, hsource, Option.bind_some, hdraft, Except.toOption,
        Option.any_some]
    rw [hcode, hexits]
    exact procedureDraft_layout hdraft

/-! ## The last handler in range -/

section Position

variable {α : Type} {p : α → Bool} {l : List α}

theorem rposition_none (h : ∀ a ∈ l, p a = false) : rposition p l = none := by
  induction l with
  | nil => rfl
  | cons a rest ih =>
    rw [rposition, ih fun b hb => h b (List.mem_cons_of_mem a hb)]
    simp [h a List.mem_cons_self]

theorem rposition_append {a : α} {outer inner : List α} (ha : p a = true)
    (hinner : ∀ b ∈ inner, p b = false) : rposition p (outer ++ a :: inner) = some outer.length := by
  induction outer with
  | nil => simp [rposition, rposition_none hinner, ha]
  | cons b outer ih => simp [rposition, ih]

end Position

/-! ## Enclosing tries -/

section Enclosing

variable {code : Code} {exits : Nat → Bool} (H : Layout code exits) {pc target k c stop exit entry : Nat} {l : Option Nat}
  {i : Instruction} {around : List Nat}

theorem isTry_iff : code.isTry k = true ↔ ∃ c stop l, code[k]? = some (.beginTry c stop l) := by
  unfold Code.isTry
  split
  · rename_i h
    exact ⟨fun _ => ⟨_, _, _, h⟩, fun _ => rfl⟩
  · rename_i h
    refine ⟨fun h => (nomatch h), ?_⟩
    rintro ⟨c, stop, l, hk⟩
    exact absurd hk (h c stop l)

include H in
theorem nested : Nested (Code.listing code).range code.length := H.laid.nestedRanges

include H in
theorem mem_enclosingTries : k ∈ enclosingTries code pc ↔
    code.isTry k = true ∧ covers (Code.listing code).range k pc = true :=
  (nested H).mem_enclosing

theorem enclosingTries_sorted : (enclosingTries code pc).Pairwise (· < ·) :=
  enclosing_sorted _ _

@[simp] theorem enclosingTries_zero (H : Layout code exits) : enclosingTries code 0 = [] := by
  refine List.eq_nil_iff_forall_not_mem.2 fun k hk => ?_
  have := (nested H).covers_lt ((mem_enclosingTries H).1 hk).2
  omega

theorem enclosingTries_congr (h : ∀ j, covers (Code.listing code).range j target =
    covers (Code.listing code).range j pc) : enclosingTries code target = enclosingTries code pc :=
  enclosing_congr fun j _ => h j

include H in
theorem enclosingTries_succ (hi : code[pc]? = some i) (hpass : i.passes = true) :
    enclosingTries code (pc + 1) = enclosingTries code pc :=
  enclosingTries_congr (H.laid.covers_succ hi hpass)

include H in
theorem covers_width (hi : code[pc]? = some i) (hpass : i.ordinary = true) (j : Nat) :
    covers (Code.listing code).range j (pc + i.width) = covers (Code.listing code).range j pc := by
  cases i with
  | nextLocalListIteration a b c exit => exact H.headers hi j
  | _ =>
    refine H.laid.covers_succ hi ?_ j
    first | rfl | cases hpass

include H in
theorem covers_leads (hi : code[pc]? = some i) (ht : i.leadsTo? (exits pc) = some target) (j : Nat) :
    covers (Code.listing code).range j target = covers (Code.listing code).range j pc := by
  rcases H.laid.leads hi ht with ⟨hmem, -⟩ | ⟨-, -, hc⟩
  · cases hmem
  · exact hc j

include H in
/-- A jump that is no exit goes on in the same ranges. -/
theorem covers_jump (hi : code[pc]? = some (.jump target)) (hexit : exits pc = false) (j : Nat) :
    covers (Code.listing code).range j target = covers (Code.listing code).range j pc :=
  covers_leads H hi (by rw [hexit]; rfl) j

include H in
theorem enclosingTries_jump (hi : code[pc]? = some (.jump target)) :
    enclosingTries code target <+: enclosingTries code pc := by
  rcases H.laid.jumps hi with hmem | ⟨-, -, hc⟩
  · cases hmem
  · exact (nested H).enclosing_outer hc

include H in
theorem enclosingTries_begin (hi : code[pc]? = some (.beginTry c stop l)) :
    enclosingTries code (pc + 1) = enclosingTries code pc ++ [pc] :=
  (nested H).enclosing_open (isTry_iff.2 ⟨c, stop, l, hi⟩) (H.laid.covers_begin hi)
    fun _ hj => (nested H).covers_lt hj

include H in
theorem enclosingTries_end (hi : code[pc]? = some .endTry) :
    ∃ k c l, code[k]? = some (.beginTry c pc l) ∧
      enclosingTries code pc = enclosingTries code (pc + 1) ++ [k] := by
  obtain ⟨k, c, l, hk, hcovers, hlt⟩ := H.laid.covers_end hi
  exact ⟨k, c, l, hk, (nested H).enclosing_open (isTry_iff.2 ⟨c, pc, l, hk⟩) hcovers hlt⟩

include H in
theorem enclosingTries_spawn (hi : code[pc]? = some (.spawn entry)) :
    enclosingTries code entry = enclosingTries code pc := by
  obtain ⟨rfl, -⟩ := H.laid.spawns hi
  refine enclosing_congr fun j hj => Bool.eq_iff_iff.2 ?_
  rw [H.laid.covers_spawn hi]
  refine ⟨fun h => h.resolve_right ?_, .inl⟩
  rintro rfl
  obtain ⟨c, stop, l, hj⟩ := isTry_iff.1 hj
  rw [hi] at hj
  cases hj

theorem covers_try (hk : code[k]? = some (.beginTry c stop l)) :
    covers (Code.listing code).range k pc = (decide (k + 1 ≤ pc) && decide (pc ≤ stop)) := by
  simp [covers, Listing.range_beginTry (L := Code.listing code) hk]

include H in
/-- Around the innermost `try` are the others. -/
theorem enclosingTries_innermost (h : enclosingTries code pc = around ++ [k]) :
    enclosingTries code k = around := by
  have hsorted : (around ++ [k]).Pairwise (· < ·) := h ▸ enclosingTries_sorted
  obtain ⟨hsorted', -, hlt⟩ := List.pairwise_append.1 hsorted
  have hmem : ∀ j, j ∈ around ++ [k] ↔ code.isTry j = true ∧
      covers (Code.listing code).range j pc = true := fun j => by rw [← h, mem_enclosingTries H]
  obtain ⟨hkTry, hkCovers⟩ := (hmem k).1 (by simp)
  obtain ⟨c, stop, l, hk⟩ := isTry_iff.1 hkTry
  refine (nested H).enclosing_eq_of_mem hsorted' fun j => ?_
  constructor
  · intro hj
    obtain ⟨hjTry, hjCovers⟩ := (hmem j).1 (List.mem_append_left _ hj)
    have hjk := hlt j hj k (List.mem_singleton_self k)
    refine ⟨hjTry, ?_⟩
    obtain ⟨c', stop', l', hj'⟩ := isTry_iff.1 hjTry
    rw [covers_try hj', Bool.and_eq_true, decide_eq_true_eq, decide_eq_true_eq] at hjCovers ⊢
    have := (nested H).covers_lt hkCovers
    omega
  · rintro ⟨hjTry, hjCovers⟩
    have hjk := (nested H).covers_lt hjCovers
    obtain ⟨c', stop', l', hj'⟩ := isTry_iff.1 hjTry
    rw [covers_try hj', Bool.and_eq_true, decide_eq_true_eq, decide_eq_true_eq] at hjCovers
    have hnested := H.laid.nested (Listing.range_beginTry (L := Code.listing code) hj')
      (Listing.range_beginTry (L := Code.listing code) hk) hjk
    have hpc : covers (Code.listing code).range j pc = true := by
      rw [covers_try hk, Bool.and_eq_true, decide_eq_true_eq, decide_eq_true_eq] at hkCovers
      rw [covers_try hj', Bool.and_eq_true, decide_eq_true_eq, decide_eq_true_eq]
      omega
    rcases List.mem_append.1 ((hmem j).2 ⟨hjTry, hpc⟩) with hj | hj
    · exact hj
    · cases List.mem_singleton.1 hj
      omega

end Enclosing

theorem Instruction.passes_of_ordinary {i : Instruction} (h : i.ordinary = true) :
    i.passes = true := by
  cases i <;> first | rfl | cases h

/-! ## What the handlers keep of the enclosing tries -/

/-- A relation between the openings on a stack and those around a position, which pushing,
closing and catching keep. -/
structure Tracks (rel : List Nat → List Nat → Prop) : Prop where
  nil : rel [] []
  push {opened around : List Nat} (k : Nat) : rel opened around → rel (opened ++ [k]) (around ++ [k])
  pop {opened around : List Nat} {k : Nat} : (around ++ [k]).Pairwise (· < ·) →
    rel opened (around ++ [k]) → rel opened.dropLast around
  cut {opened around : List Nat} {k : Nat} : rel opened (around ++ [k]) →
    ∃ outer inner, opened = outer ++ k :: inner ∧ rel outer around ∧ ∀ j ∈ inner, k < j

theorem tracks_layered : Tracks Layered where
  nil := .outside []
  push k h := h.push k
  pop hsorted h := h.pop hsorted
  cut h := h.split

theorem tracks_eq : Tracks Eq where
  nil := rfl
  push k h := by rw [h]
  pop _ h := by rw [h, List.dropLast_concat]
  cut {_ around _} h := ⟨around, [], h, rfl, fun _ hj => nomatch hj⟩

variable {σ V : Type} {R : Effects σ V} {M : CompiledModule} {rel : List Nat → List Nat → Prop}
  {frame : CallFrame V} {frames callers : List (CallFrame V)} {around : List Nat} {k : Nat}
  {ctl : Control}

def Control.Tracked (rel : List Nat → List Nat → Prop) (code : ProcedureId → Code)
    (c : Control) : Prop :=
  ∃ opened, List.Forall₂ (IsHandler (code c.procedure)) opened c.handlers ∧
    rel opened (enclosingTries (code c.procedure) c.instruction)

theorem Control.Tracked.goto {pc : Nat} (h : ctl.Tracked rel M.code)
    (htries : enclosingTries (M.code ctl.procedure) pc =
      enclosingTries (M.code ctl.procedure) ctl.instruction) : (ctl.goto pc).Tracked rel M.code := by
  obtain ⟨opened, hopened, hrel⟩ := h
  refine ⟨opened, hopened, ?_⟩
  show rel opened (enclosingTries (M.code ctl.procedure) pc)
  rw [htries]
  exact hrel

/-! ## Finding a handler -/

theorem activeHandler_eq {opened : List Nat}
    (hopened : List.Forall₂ (IsHandler (M.code frame.procedure)) opened frame.exceptionHandlers) :
    frame.activeHandler = rposition
      (fun j => covers (Code.listing (M.code frame.procedure)).range j frame.instruction) opened := by
  unfold CallFrame.activeHandler
  generalize frame.exceptionHandlers = handlers at hopened
  induction hopened with
  | nil => rfl
  | cons h _ ih =>
    simp only [rposition, ih, h.start, covers_try h.beginTry]

theorem isTry_of_mem {code : Code} {opened : List Nat} {handlers : List ExceptionHandler}
    (h : List.Forall₂ (IsHandler code) opened handlers) : ∀ j ∈ opened, code.isTry j = true := by
  induction h with
  | nil => exact fun _ hj => nomatch hj
  | cons h _ ih =>
    intro j hj
    rcases List.mem_cons.1 hj with rfl | hj
    · exact isTry_iff.2 ⟨_, _, _, h.beginTry⟩
    · exact ih j hj

/-- An opening on the stack that is in range is around the instruction. -/
theorem mem_enclosingTries_of_covers {opened : List Nat}
    (hopened : List.Forall₂ (IsHandler (M.code frame.procedure)) opened frame.exceptionHandlers)
    {j : Nat} (hj : j ∈ opened)
    (hc : covers (Code.listing (M.code frame.procedure)).range j frame.instruction = true) :
    j ∈ enclosingTries (M.code frame.procedure) frame.instruction :=
  (mem_enclosingTries (compiled_layout M _)).2 ⟨isTry_of_mem hopened j hj, hc⟩

theorem activeHandler_none (h : frame.control.Tracked rel M.code)
    (hnone : enclosingTries (M.code frame.procedure) frame.instruction = []) :
    frame.activeHandler = none := by
  obtain ⟨opened, hopened, -⟩ := h
  rw [activeHandler_eq hopened]
  refine rposition_none fun j hj => Bool.eq_false_iff.2 fun hc => ?_
  have hmem := mem_enclosingTries_of_covers hopened hj hc
  rw [hnone] at hmem
  cases hmem

/-- The last handler in range is the one of the innermost `try`; below it are the handlers of
the others. -/
theorem activeHandler_some (T : Tracks rel) (h : frame.control.Tracked rel M.code)
    (hsome : enclosingTries (M.code frame.procedure) frame.instruction = around ++ [k]) :
    ∃ outer outerHandlers handler innerHandlers,
      frame.exceptionHandlers = outerHandlers ++ handler :: innerHandlers ∧
        frame.activeHandler = some outerHandlers.length ∧
        IsHandler (M.code frame.procedure) k handler ∧
        List.Forall₂ (IsHandler (M.code frame.procedure)) outer outerHandlers ∧
        rel outer around := by
  obtain ⟨opened, hopened, hrel⟩ := h
  change List.Forall₂ (IsHandler (M.code frame.procedure)) opened frame.exceptionHandlers at hopened
  change rel opened (enclosingTries (M.code frame.procedure) frame.instruction) at hrel
  have hsorted : (enclosingTries (M.code frame.procedure) frame.instruction).Pairwise (· < ·) :=
    enclosingTries_sorted
  rw [hsome] at hrel hsorted
  obtain ⟨outer, inner, rfl, houter, hinner⟩ := T.cut hrel
  have hk : covers (Code.listing (M.code frame.procedure)).range k frame.instruction = true := by
    have hmem : k ∈ enclosingTries (M.code frame.procedure) frame.instruction := by
      rw [hsome]
      simp
    exact ((mem_enclosingTries (compiled_layout M _)).1 hmem).2
  -- What is above the handler of `k` was opened inside it, and is closed or left again.
  have hinside : ∀ j ∈ inner,
      covers (Code.listing (M.code frame.procedure)).range j frame.instruction = false := by
    refine fun j hj => Bool.eq_false_iff.2 fun hc => ?_
    have hmem := mem_enclosingTries_of_covers hopened
      (List.mem_append_right _ (List.mem_cons_of_mem _ hj)) hc
    have hkj := hinner j hj
    rw [hsome] at hmem
    rcases List.mem_append.1 hmem with hmem | hmem
    · have := (List.pairwise_append.1 hsorted).2.2 j hmem k (List.mem_singleton_self k)
      omega
    · cases List.mem_singleton.1 hmem
      omega
  have hactive := (activeHandler_eq hopened).trans (rposition_append
    (p := fun j => covers (Code.listing (M.code frame.procedure)).range j frame.instruction)
    hk hinside)
  have htake := List.forall₂_take outer.length hopened
  have hdrop := List.forall₂_drop outer.length hopened
  rw [List.take_left] at htake
  rw [List.drop_left] at hdrop
  have hlen := htake.length_eq
  generalize hrest : frame.exceptionHandlers.drop outer.length = rest at hdrop
  cases hdrop with
  | @cons _ handler _ innerHandlers hhandler _ =>
    refine ⟨outer, _, handler, innerHandlers, ?_, ?_, hhandler, htake, houter⟩
    · rw [← hrest, List.take_append_drop]
    · rw [hactive, ← hlen]

/-- A failure is delivered to the innermost `try` of the innermost frame that is in one. -/
structure Delivers (code : ProcedureId → Code) (frames : List (CallFrame V)) (i k : Nat) : Prop where
  found : ∃ frame position handler, frames[i]? = some frame ∧
    findActiveExceptionHandler frames = some (i, position) ∧
    frame.exceptionHandlers[position]? = some handler ∧
    IsHandler (code frame.procedure) k handler

theorem findActive_none (h : ∀ frame ∈ frames, frame.control.Tracked rel M.code)
    (hnone : innermostTry M.code frames = none) : findActiveExceptionHandler frames = none := by
  induction frames with
  | nil => rfl
  | cons frame callers ih =>
    rw [innermostTry] at hnone
    cases hlast : (enclosingTries (M.code frame.procedure) frame.instruction).getLast? with
    | some k => simp [hlast] at hnone
    | none =>
      simp only [hlast, Option.map_eq_none_iff] at hnone
      have hactive := activeHandler_none (h frame List.mem_cons_self)
        (List.getLast?_eq_none_iff.1 hlast)
      rw [findActiveExceptionHandler, hactive,
        ih (fun frame hframe => h frame (List.mem_cons_of_mem _ hframe)) hnone]
      rfl

/-- The frame that a failure is delivered to. -/
theorem innermostTry_some {i : Nat} (T : Tracks rel) (h : ∀ frame ∈ frames, frame.control.Tracked rel M.code)
    (hsome : innermostTry M.code frames = some (i, k)) :
    ∃ frame callers around outer outerHandlers handler innerHandlers,
      frames.drop i = frame :: callers ∧
        enclosingTries (M.code frame.procedure) frame.instruction = around ++ [k] ∧
        frame.exceptionHandlers = outerHandlers ++ handler :: innerHandlers ∧
        findActiveExceptionHandler frames = some (i, outerHandlers.length) ∧
        IsHandler (M.code frame.procedure) k handler ∧
        List.Forall₂ (IsHandler (M.code frame.procedure)) outer outerHandlers ∧
        rel outer around := by
  induction frames generalizing i with
  | nil => cases hsome
  | cons frame callers ih =>
    rw [innermostTry] at hsome
    cases hlast : (enclosingTries (M.code frame.procedure) frame.instruction).getLast? with
    | some k' =>
      simp only [hlast, Option.some.injEq, Prod.mk.injEq] at hsome
      obtain ⟨rfl, rfl⟩ := hsome
      obtain ⟨around, haround⟩ := List.getLast?_eq_some_iff.1 hlast
      obtain ⟨outer, outerHandlers, handler, innerHandlers, hsplit, hactive, hhandler, houter,
        hrel⟩ := activeHandler_some T (h frame List.mem_cons_self) haround
      exact ⟨frame, callers, around, outer, outerHandlers, handler, innerHandlers, rfl, haround,
        hsplit, by rw [findActiveExceptionHandler, hactive], hhandler, houter, hrel⟩
    | none =>
      simp only [hlast, Option.map_eq_some_iff, Prod.exists, Prod.mk.injEq] at hsome
      obtain ⟨i', k', hinner, rfl, rfl⟩ := hsome
      have hactive := activeHandler_none (h frame List.mem_cons_self)
        (List.getLast?_eq_none_iff.1 hlast)
      obtain ⟨frame', callers', around, outer, outerHandlers, handler, innerHandlers, hdrop, haround,
        hsplit, hfind, hrest⟩ :=
        ih (fun frame hframe => h frame (List.mem_cons_of_mem _ hframe)) hinner
      exact ⟨frame', callers', around, outer, outerHandlers, handler, innerHandlers, hdrop, haround,
        hsplit, by rw [findActiveExceptionHandler, hactive, hfind]; rfl, hrest⟩

/-! ## The rule -/

/-- The innermost frame does not leave a `try` by a jump, as far as `rel` can tell. -/
def Thread.JumpTracked (rel : List Nat → List Nat → Prop) (code : ProcedureId → Code)
    (t : Thread V) : Prop :=
  ∀ frame ∈ t.frames.head?, ∀ target,
    (code frame.procedure)[frame.instruction]? = some (.jump target) →
      ∀ opened, rel opened (enclosingTries (code frame.procedure) frame.instruction) →
        rel opened (enclosingTries (code frame.procedure) target)

/-- The `try` that catches is the innermost one around the frame, and its catch is where its
`BeginTry` is. -/
theorem tracked_caught {i position : Nat} {handler : ExceptionHandler} (T : Tracks rel)
    (h : ∀ frame ∈ frames, frame.control.Tracked rel M.code)
    (hfind : findActiveExceptionHandler frames = some (i, position))
    (hget : frames[i]? = some frame)
    (hhandler : frame.exceptionHandlers[position]? = some handler) :
    ∃ k around outer, innermostTry M.code frames = some (i, k) ∧
      enclosingTries (M.code frame.procedure) frame.instruction = around ++ [k] ∧
      IsHandler (M.code frame.procedure) k handler ∧
      List.Forall₂ (IsHandler (M.code frame.procedure)) outer
        (frame.exceptionHandlers.take position) ∧ rel outer around := by
  cases htry : innermostTry M.code frames with
  | none =>
    rw [findActive_none h htry] at hfind
    cases hfind
  | some found =>
    obtain ⟨i', k⟩ := found
    obtain ⟨frame', callers, around, outer, outerHandlers, handler', innerHandlers, hdrop, haround,
      hsplit, hfind', hhandler', houter, hrel⟩ := innermostTry_some T h htry
    rw [hfind] at hfind'
    cases hfind'
    have hget' : frames[i]? = (frames.drop i)[0]? := by simp
    rw [hdrop, hget] at hget'
    cases hget'
    rw [hsplit, List.getElem?_append_right le_rfl, Nat.sub_self] at hhandler
    cases hhandler
    rw [hsplit, List.take_left]
    exact ⟨k, around, outer, rfl, haround, hhandler', houter, hrel⟩

theorem frameRule_tracked {ok : Thread V → Event → Prop} (T : Tracks rel)
    (hok : ∀ t e, ok t e → t.JumpTracked rel M.code) :
    FrameRule M.code ok (Control.Tracked rel M.code) where
  entry procedure := by
    refine ⟨[], .nil, ?_⟩
    show rel [] (enclosingTries (M.code procedure) 0)
    rw [enclosingTries_zero (compiled_layout M procedure)]
    exact T.nil
  next h hi hordinary :=
    h.goto (enclosingTries_congr (covers_width (compiled_layout M _) hi hordinary))
  resume h hi hordinary := h.goto (enclosingTries_succ (compiled_layout M _) hi
    (Instruction.passes_of_ordinary hordinary))
  taken {c i target} h hi hordinary htarget := by
    have hleads : i.leadsTo? (M.exits c.procedure c.instruction) = some target := by
      cases i <;> first | exact htarget | cases hordinary
    exact h.goto (enclosingTries_congr (covers_leads (compiled_layout M _) hi hleads))
  beginTry {c catchTarget stop depth l} h hi := by
    obtain ⟨opened, hopened, hrel⟩ := h
    refine ⟨opened ++ [c.instruction], List.rel_append hopened (.cons ⟨rfl, hi⟩ .nil), ?_⟩
    show rel _ (enclosingTries (M.code c.procedure) (c.instruction + 1))
    rw [enclosingTries_begin (compiled_layout M _) hi]
    exact T.push _ hrel
  endTry {c} h hi := by
    obtain ⟨opened, hopened, hrel⟩ := h
    obtain ⟨k, catchTarget, l, -, hend⟩ := enclosingTries_end (compiled_layout M _) hi
    have hsorted : (enclosingTries (M.code c.procedure) c.instruction).Pairwise (· < ·) :=
      enclosingTries_sorted
    rw [hend] at hrel hsorted
    refine ⟨opened.dropLast, ?_, T.pop hsorted hrel⟩
    show List.Forall₂ _ opened.dropLast c.handlers.dropLast
    rw [List.dropLast_eq_take, List.dropLast_eq_take, hopened.length_eq]
    exact List.forall₂_take _ hopened
  spawn h hi := ⟨h.goto (enclosingTries_succ (compiled_layout M _) hi rfl),
    h.goto (enclosingTries_spawn (compiled_layout M _) hi)⟩
  jump hok' h hi := by
    obtain ⟨opened, hopened, hrel⟩ := h
    exact ⟨opened, hopened, hok _ _ hok' _ rfl _ hi opened hrel⟩
  caught {t frame handler i position} _ h hfind hget hhandler := by
    obtain ⟨k, around, outer, -, haround, hk, houter, hrel⟩ :=
      tracked_caught T h hfind hget hhandler
    have H := compiled_layout M frame.procedure
    refine ⟨outer, houter, ?_⟩
    show rel outer (enclosingTries (M.code frame.procedure) handler.catchTarget)
    rw [enclosingTries_congr (covers_leads H hk.beginTry rfl), enclosingTries_innermost H haround]
    exact hrel

/-! ## The handlers of a run -/

/-- The next instruction of the thread is no `break` or `continue` in a `try` that its loop is not
in. -/
def Thread.StaysInTries (M : CompiledModule) (t : Thread V) : Prop :=
  ∀ frame ∈ t.frames.head?, M.exits frame.procedure frame.instruction = true → ∀ target,
    (M.code frame.procedure)[frame.instruction]? = some (.jump target) →
      ∀ k ∈ enclosingTries (M.code frame.procedure) frame.instruction,
        k ∈ enclosingTries (M.code frame.procedure) target

/-- The handlers of a frame are those of the `try`s around its instruction, outermost first. -/
def CallFrame.MirrorsTries (code : ProcedureId → Code) (frame : CallFrame V) : Prop :=
  List.Forall₂ (IsHandler (code frame.procedure))
    (enclosingTries (code frame.procedure) frame.instruction) frame.exceptionHandlers

theorem Thread.StaysInTries.jumpTracked {t : Thread V} (h : t.StaysInTries M) :
    t.JumpTracked Eq M.code := by
  rintro frame hframe target hi opened rfl
  have H := compiled_layout M frame.procedure
  cases hexit : M.exits frame.procedure frame.instruction with
  | false => exact (enclosingTries_congr (covers_jump H hi hexit)).symm
  | true =>
    have hprefix := enclosingTries_jump H hi
    exact List.Pairwise.eq_of_mem_iff enclosingTries_sorted enclosingTries_sorted fun k =>
      ⟨h frame hframe hexit target hi k, fun hk => hprefix.subset hk⟩

theorem layered_jumpTracked (t : Thread V) : t.JumpTracked Layered M.code := by
  intro frame _ target hi opened hlayered
  obtain ⟨rest, hrest⟩ := enclosingTries_jump (compiled_layout M frame.procedure) hi
  rw [← hrest] at hlayered
  exact hlayered.leave (hrest ▸ enclosingTries_sorted)

theorem frameRule_layered {ok : Thread V → Event → Prop} :
    FrameRule M.code ok (Control.Tracked Layered M.code) :=
  frameRule_tracked tracks_layered fun t _ _ => layered_jumpTracked t

theorem delivers_of_tracked (T : Tracks rel)
    (h : ∀ frame ∈ frames, frame.control.Tracked rel M.code) :
    (∀ i k, innermostTry M.code frames = some (i, k) → Delivers M.code frames i k) ∧
      (innermostTry M.code frames = none → findActiveExceptionHandler frames = none) := by
  refine ⟨fun i k hsome => ?_, findActive_none h⟩
  obtain ⟨frame, callers, around, outer, outerHandlers, handler, innerHandlers, hdrop, -, hsplit,
    hfind, hhandler, -⟩ := innermostTry_some T h hsome
  refine ⟨frame, outerHandlers.length, handler, ?_, hfind, ?_, hhandler⟩
  · have hget : (frames.drop i)[0]? = some frame := by rw [hdrop]; rfl
    simpa using hget
  · rw [hsplit]
    simp

theorem CallFrame.MirrorsTries.endTry (h : frame.MirrorsTries M.code)
    (hi : (M.code frame.procedure)[frame.instruction]? = some .endTry) :
    ∃ k handler, frame.exceptionHandlers.getLast? = some handler ∧
      IsHandler (M.code frame.procedure) k handler ∧ handler.stop = frame.instruction := by
  obtain ⟨k, c, l, hk, hend⟩ := enclosingTries_end (compiled_layout M _) hi
  rw [MirrorsTries, hend] at h
  have hlast := List.forall₂_drop (enclosingTries (M.code frame.procedure)
    (frame.instruction + 1)).length h
  rw [List.drop_left] at hlast
  generalize hrest : frame.exceptionHandlers.drop _ = rest at hlast
  cases hlast with
  | @cons _ handler _ rest hhandler hnil =>
    cases hnil
    refine ⟨k, handler, ?_, hhandler, ?_⟩
    · rw [← List.take_append_drop (enclosingTries (M.code frame.procedure)
        (frame.instruction + 1)).length frame.exceptionHandlers, hrest]
      simp
    · have hbegin := hhandler.beginTry
      rw [hk] at hbegin
      simp only [Option.some.injEq, Instruction.beginTry.injEq] at hbegin
      exact hbegin.2.1.symm

/-- In a run in which no `break` or `continue` leaves a `try`, the handlers of every frame
are those of the `try`s around its instruction; so an `EndTry` removes its own handler, and a
failure goes to the innermost enclosing catch of the innermost frame that has one. -/
theorem handlers_reachable (M : CompiledModule) (R : Effects σ V) {system : System σ V}
    (h : System.Reachable R M.code (fun t _ => t.StaysInTries M) system) :
    ∀ t ∈ system.threads,
      (∀ frame ∈ t.frames, frame.MirrorsTries M.code ∧
        frame.exceptionHandlers.length =
          (enclosingTries (M.code frame.procedure) frame.instruction).length ∧
        ((M.code frame.procedure)[frame.instruction]? = some .endTry →
          ∃ k handler, frame.exceptionHandlers.getLast? = some handler ∧
            IsHandler (M.code frame.procedure) k handler ∧
            handler.stop = frame.instruction)) ∧
      (∀ i k, innermostTry M.code t.frames = some (i, k) → Delivers M.code t.frames i k) ∧
      (innermostTry M.code t.frames = none → findActiveExceptionHandler t.frames = none) := by
  intro t ht
  have htracked := (h.framesHold (frameRule_tracked tracks_eq fun t _ ht => ht.jumpTracked) t ht).holds
  refine ⟨fun frame hframe => ?_, delivers_of_tracked tracks_eq htracked⟩
  obtain ⟨opened, hopened, rfl⟩ := htracked frame hframe
  exact ⟨hopened, hopened.length_eq.symm, CallFrame.MirrorsTries.endTry hopened⟩

/-! ## A `continue` in a `try` -/

/-- The number 1 as an expression. -/
def pushOne : Fragment :=
  .straight [.pushNumber .one] (by simp [Instruction.ofStatement, Instruction.target?])

/-- `while(1) try continue catch` -/
def continueInTry : List Statement :=
  [.whileLoop pushOne [.tryCatch [.continueLoop 1] none none]]

def continueInTryModule : CompiledModule where
  source _ := some (.none, continueInTry)
  code _ := [.pushNumber .one, .jumpIfFalse 6, .beginTry 5 4 none, .jump 0, .endTry, .jump 0,
    .loadResult, .ret]
  compiled _ := rfl

/-- A runtime of natural numbers that pushes and tests. -/
def pushAndTest : Effects Unit Nat where
  executes i frame _ outcome _ :=
    (∃ bits, i = .pushNumber bits ∧
      outcome = .next ((if bits = .one then 1 else 0) :: frame.stack) frame.locals) ∨
      ((∃ target, i = .jumpIfFalse target) ∧ frame.stack.head? = some 1 ∧
        outcome = .next frame.stack.tail frame.locals)
  isNumber _ := true
  null := 0
  strict := false

/-- A thread of one frame, at an instruction of procedure 0. -/
def threadAt (instruction : Nat) (stack : List Nat) (handlers : List ExceptionHandler)
    (spawnedBy : Option Nat) : Thread Nat where
  frames := [{ CallFrame.entry 0 [] with
    instruction := instruction
    stack := stack
    exceptionHandlers := handlers
    spawnedBy := spawnedBy }]

def inContinueInTry (instruction : Nat) (stack : List Nat) (handlers : List ExceptionHandler) :
    System Unit Nat where
  threads := [threadAt instruction stack handlers none]
  state := ()

/-- An iteration up to the `continue`, which makes no jump, pushes a handler. -/
theorem continueInTry_enters (handlers : List ExceptionHandler) : Relation.ReflTransGen
    (System.Step pushAndTest continueInTryModule.code
      fun t _ => t.StaysInTries continueInTryModule)
    (inContinueInTry 0 [] handlers) (inContinueInTry 3 [] (handlers ++ [⟨3, 4, 5, none, 0⟩])) := by
  have hstays : ∀ pc stack, pc < 3 → ∀ t ∈ (inContinueInTry pc stack handlers).threads,
      t.StaysInTries continueInTryModule := by
    intro pc stack hpc t ht frame hframe _ target hi
    cases List.mem_singleton.1 ht
    cases Option.some.inj hframe
    have : pc = 0 ∨ pc = 1 ∨ pc = 2 := by omega
    rcases this with rfl | rfl | rfl <;> cases hi
  have push : System.Step pushAndTest continueInTryModule.code
      (fun t _ => t.StaysInTries continueInTryModule) (inContinueInTry 0 [] handlers)
      (inContinueInTry 1 [1] handlers) :=
    .only (.next (i := .pushNumber .one) rfl rfl (Or.inl ⟨_, rfl, rfl⟩))
      (hstays 0 [] (by omega) _ (List.mem_singleton_self _))
  have test : System.Step pushAndTest continueInTryModule.code
      (fun t _ => t.StaysInTries continueInTryModule) (inContinueInTry 1 [1] handlers)
      (inContinueInTry 2 [] handlers) :=
    .only (.next (i := .jumpIfFalse 6) rfl rfl (Or.inr ⟨⟨6, rfl⟩, rfl, rfl⟩))
      (hstays 1 [1] (by omega) _ (List.mem_singleton_self _))
  have enter : System.Step pushAndTest continueInTryModule.code
      (fun t _ => t.StaysInTries continueInTryModule) (inContinueInTry 2 [] handlers)
      (inContinueInTry 3 [] (handlers ++ [⟨3, 4, 5, none, 0⟩])) :=
    .only (.beginTry rfl (show 5 < 8 by decide) (show 4 < 8 by decide))
      (hstays 2 [] (by omega) _ (List.mem_singleton_self _))
  exact ((Relation.ReflTransGen.single push).tail test).tail enter

theorem continueInTry_reachable : System.Reachable pushAndTest continueInTryModule.code
    (fun t _ => t.StaysInTries continueInTryModule)
    (inContinueInTry 3 [] [⟨3, 4, 5, none, 0⟩]) :=
  ⟨(), .head (.start 0 []) (continueInTry_enters [])⟩

/-- In the `try` the frame has the one handler of it. -/
theorem handlers_reachable_continueInTry :
    ∃ t ∈ (inContinueInTry 3 [] [⟨3, 4, 5, none, 0⟩]).threads, ∃ frame ∈ t.frames,
      frame.MirrorsTries continueInTryModule.code ∧
        enclosingTries (continueInTryModule.code frame.procedure) frame.instruction = [2] := by
  refine ⟨_, List.mem_singleton_self _, _, List.mem_singleton_self _, ?_, rfl⟩
  exact ((handlers_reachable continueInTryModule pushAndTest continueInTry_reachable _
    (List.mem_singleton_self _)).1 _ (List.mem_singleton_self _)).1

/-- Each iteration leaves one more handler behind. -/
theorem continueInTry_handlers (n : Nat) : System.Reachable pushAndTest continueInTryModule.code
    (fun _ _ => True) (inContinueInTry 0 [] (List.replicate n ⟨3, 4, 5, none, 0⟩)) := by
  induction n with
  | zero => exact ⟨(), .single (.start 0 [])⟩
  | succ n ih =>
    obtain ⟨s, hrun⟩ := ih
    have henter := Relation.ReflTransGen.mono
      (fun _ _ hstep => System.Step.mono hstep fun _ _ _ => trivial) _ _
      (continueInTry_enters (List.replicate n ⟨3, 4, 5, none, 0⟩))
    refine ⟨s, (hrun.trans henter).tail ?_⟩
    rw [List.replicate_succ']
    exact .only (.jump rfl) trivial

/-- At the start of the loop no `try` is around the frame, and its handlers have no bound. -/
theorem handlers_not_mirrored :
    (∃ system, System.Reachable pushAndTest continueInTryModule.code (fun _ _ => True) system ∧
      ∃ t ∈ system.threads, ∃ frame ∈ t.frames, ¬ frame.MirrorsTries continueInTryModule.code) ∧
    ∀ bound, ∃ system,
      System.Reachable pushAndTest continueInTryModule.code (fun _ _ => True) system ∧
        ∃ t ∈ system.threads, ∃ frame ∈ t.frames, bound < frame.exceptionHandlers.length ∧
          enclosingTries (continueInTryModule.code frame.procedure) frame.instruction = [] := by
  refine ⟨⟨_, continueInTry_handlers 1, _, List.mem_singleton_self _, _,
    List.mem_singleton_self _, fun h => ?_⟩, fun bound => ⟨_, continueInTry_handlers (bound + 1), _,
    List.mem_singleton_self _, _, List.mem_singleton_self _, ?_, rfl⟩⟩
  · exact absurd h.length_eq (by decide)
  · simp

end Dream64.Vm
