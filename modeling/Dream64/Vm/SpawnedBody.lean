import Dream64.Vm.TryNesting

/-!
# Spawned bodies

The frame of a spawned body runs in the code of its procedure, with the
handlers its parent had. `InSpawnedBody code k pc`: the instruction at `pc` is
one of the body that the `Spawn` at `k` starts. Only the jump of a `break` or
`continue` leads out of it, and only a failure that a `try` around the `spawn`
catches. In a run in which neither happens, a spawned frame is in its body until
it returns (`spawned_reachable`).
-/

namespace Dream64.Vm

open Nesting

/-- The body stands between the jump that skips it and that jump's target. -/
def Code.InSpawnedBody (code : Code) (k pc : Nat) : Prop :=
  ∃ entry after, code[k]? = some (.spawn entry) ∧ code[k + 1]? = some (.jump after) ∧
    entry ≤ pc ∧ pc < after

section Body

variable {code : Code} {exits : Nat → Bool} (H : Layout code exits)
  {pc target k b c stop entry : Nat} {l : Option Nat} {i : Instruction}

include H in
theorem inSpawnedBody_iff : code.InSpawnedBody k pc ↔
    (∃ entry, code[k]? = some (.spawn entry)) ∧ covers (Code.listing code).range k pc = true := by
  constructor
  · rintro ⟨entry, after, hk, hjump, hle, hlt⟩
    obtain ⟨rfl, -⟩ := H.laid.spawns hk
    refine ⟨⟨_, hk⟩, covers_iff.2 ⟨_, _, Listing.range_spawn (L := Code.listing code) hk hjump, ?_⟩⟩
    omega
  · rintro ⟨⟨entry, hk⟩, hc⟩
    obtain ⟨rfl, after, hjump, -⟩ := H.laid.spawns hk
    obtain ⟨lo, hi, hr, hlo, hhi⟩ := covers_iff.1 hc
    rw [Listing.range_spawn (L := Code.listing code) hk hjump] at hr
    cases hr
    exact ⟨_, after, hk, hjump, by omega, by omega⟩

include H in
theorem Code.InSpawnedBody.goto (h : code.InSpawnedBody k pc)
    (hc : covers (Code.listing code).range k pc = true →
      covers (Code.listing code).range k target = true) : code.InSpawnedBody k target := by
  rw [inSpawnedBody_iff H] at h ⊢
  exact ⟨h.1, hc h.2⟩

include H in
theorem Code.InSpawnedBody.endTry (h : code.InSpawnedBody k pc) (hi : code[pc]? = some .endTry) :
    code.InSpawnedBody k (pc + 1) := by
  refine h.goto H fun hc => ?_
  obtain ⟨b, c, l, hb, hcovers, -⟩ := H.laid.covers_end hi
  refine ((hcovers k).1 hc).resolve_right ?_
  rintro rfl
  obtain ⟨entry, after, hk, -⟩ := h
  rw [Code.listing, hk] at hb
  cases hb

include H in
theorem inSpawnedBody_entry (hi : code[pc]? = some (.spawn entry)) :
    code.InSpawnedBody pc entry := by
  obtain ⟨rfl, -⟩ := H.laid.spawns hi
  exact (inSpawnedBody_iff H).2 ⟨⟨_, hi⟩, (H.laid.covers_spawn hi pc).2 (.inr rfl)⟩

include H in
/-- The catch of a `try` around the position that is inside the body is in the body. -/
theorem Code.InSpawnedBody.caught (h : code.InSpawnedBody k pc)
    (hb : code[b]? = some (.beginTry c stop l)) (hkb : k < b)
    (hc : covers (Code.listing code).range b pc = true) : code.InSpawnedBody k c := by
  obtain ⟨entry, after, hk, hjump, hle, hlt⟩ := h
  obtain ⟨rfl, -⟩ := H.laid.spawns hk
  have hrk := Listing.range_spawn (L := Code.listing code) hk hjump
  have hrb := Listing.range_beginTry (L := Code.listing code) hb
  obtain ⟨lo, hi, hr, hlo, hhi⟩ := covers_iff.1 hc
  rw [hrb] at hr
  cases hr
  have hne : b ≠ k + 1 := by
    rintro rfl
    rw [hjump] at hb
    cases hb
  have hin : code.InSpawnedBody k b := by
    rcases (nested H).nested hrk hrb hkb with hout | ⟨-, hinside⟩
    · omega
    · exact ⟨_, after, hk, hjump, by omega, by omega⟩
  exact hin.goto H fun hkb => (covers_leads H hb rfl k).trans hkb

end Body

variable {σ V : Type} {R : Effects σ V} {M : CompiledModule} {ctl : Control}

/-- A spawned frame is in its body. -/
def Control.Confined (code : ProcedureId → Code) (c : Control) : Prop :=
  ∀ k ∈ c.spawnedBy, (code c.procedure).InSpawnedBody k c.instruction

/-- The next instruction of the thread is no `break` or `continue` whose loop is around the `spawn`
that the frame comes from. And a failure is caught by no `try` around the `spawn` of the frame that
catches it. -/
structure Thread.StaysInBody (M : CompiledModule) (t : Thread V) (e : Event) : Prop where
  jump : ∀ frame ∈ t.frames.head?, M.exits frame.procedure frame.instruction = true → ∀ target,
    (M.code frame.procedure)[frame.instruction]? = some (.jump target) →
      ∀ k ∈ frame.spawnedBy, (M.code frame.procedure).InSpawnedBody k target
  caught : e = .raises true → ∀ i b, innermostTry M.code t.frames = some (i, b) →
    ∀ frame ∈ t.frames[i]?, ∀ k ∈ frame.spawnedBy, k < b

theorem Control.Confined.goto {pc : Nat} (h : ctl.Confined M.code)
    (hc : ∀ k, covers (Code.listing (M.code ctl.procedure)).range k ctl.instruction = true →
      covers (Code.listing (M.code ctl.procedure)).range k pc = true) :
    (ctl.goto pc).Confined M.code :=
  fun k hk => (h k hk).goto (compiled_layout M _) (hc k)

/-- What the handlers keep in these runs too. -/
theorem handlersRule (V : Type) (M : CompiledModule) : FrameRule M.code (V := V)
    (Thread.StaysInBody M) (Control.Tracked Layered M.code) :=
  frameRule_layered

theorem frameRule_confined : FrameRule M.code (V := V) (Thread.StaysInBody M)
    fun c => c.Tracked Layered M.code ∧ c.Confined M.code where
  entry procedure := ⟨(handlersRule V M).entry procedure, fun k hk => (nomatch hk)⟩
  next h hi hordinary := by
    refine ⟨(handlersRule V M).next h.1 hi hordinary, h.2.goto fun k hk => ?_⟩
    rw [covers_width (compiled_layout M _) hi hordinary]
    exact hk
  resume h hi hordinary := by
    refine ⟨(handlersRule V M).resume h.1 hi hordinary, h.2.goto fun k hk => ?_⟩
    rw [(compiled_layout M _).laid.covers_succ hi (Instruction.passes_of_ordinary hordinary)]
    exact hk
  taken {c i target} h hi hordinary htarget := by
    refine ⟨(handlersRule V M).taken h.1 hi hordinary htarget, h.2.goto fun k hk => ?_⟩
    have hleads : i.leadsTo? (M.exits c.procedure c.instruction) = some target := by
      cases i <;> first | exact htarget | cases hordinary
    rw [covers_leads (compiled_layout M _) hi hleads]
    exact hk
  beginTry h hi := by
    refine ⟨(handlersRule V M).beginTry h.1 hi, h.2.goto fun k hk => ?_⟩
    exact ((compiled_layout M _).laid.covers_begin hi k).2 (.inl hk)
  endTry h hi := ⟨(handlersRule V M).endTry h.1 hi,
    fun k hk => (h.2 k hk).endTry (compiled_layout M _) hi⟩
  spawn h hi := by
    obtain ⟨hparent, hspawned⟩ := (handlersRule V M).spawn h.1 hi
    refine ⟨⟨hparent, h.2.goto fun k hk => ?_⟩, hspawned, ?_⟩
    · rw [(compiled_layout M _).laid.covers_succ hi rfl]
      exact hk
    · rintro k ⟨⟩
      exact inSpawnedBody_entry (compiled_layout M _) hi
  jump {e frame callers target} hok h hi := by
    refine ⟨(handlersRule V M).jump hok h.1 hi, ?_⟩
    cases hexit : M.exits frame.procedure frame.instruction with
    | true => exact hok.jump _ rfl hexit _ hi
    | false =>
      exact h.2.goto fun k hk =>
        (covers_jump (compiled_layout M frame.procedure) hi hexit k).trans hk
  caught {t frame handler i position} hok h hfind hget hhandler := by
    have htracked : ∀ frame ∈ t.frames, frame.control.Tracked Layered M.code :=
      fun f hf => (h f hf).1
    obtain ⟨b, around, outer, htry, haround, hb, -⟩ :=
      tracked_caught tracks_layered htracked hfind hget hhandler
    refine ⟨(handlersRule V M).caught hok htracked hfind hget hhandler, fun k hk => ?_⟩
    have hmem : b ∈ enclosingTries (M.code frame.procedure) frame.instruction := by
      rw [haround]
      simp
    exact ((h frame (List.mem_of_getElem? hget)).2 k hk).caught (compiled_layout M _) hb.beginTry
      (hok.caught rfl i b htry frame hget k hk)
      ((mem_enclosingTries (compiled_layout M _)).1 hmem).2

/-- A spawned frame is in its body until it returns. -/
theorem spawned_reachable (M : CompiledModule) (R : Effects σ V) {system : System σ V}
    (h : System.Reachable R M.code (Thread.StaysInBody M) system) :
    ∀ t ∈ system.threads, ∀ frame ∈ t.frames, ∀ k ∈ frame.spawnedBy,
      (M.code frame.procedure).InSpawnedBody k frame.instruction :=
  fun t ht frame hframe => ((h.framesHold frameRule_confined t ht).holds frame hframe).2

/-! ## Leaving a body -/

theorem Thread.StaysInBody.of_none {t : Thread V} {e : Event}
    (h : ∀ frame ∈ t.frames, frame.spawnedBy = none) : t.StaysInBody M e where
  jump frame hframe _ _ _ k hk := by
    rw [h frame (List.mem_of_mem_head? hframe)] at hk
    cases hk
  caught _ i _ _ frame hframe k hk := by
    rw [h frame (List.mem_of_getElem? hframe)] at hk
    cases hk

/-- `while(1) spawn(0) break` -/
def breakInSpawn : List Statement :=
  [.whileLoop pushOne [.spawn none [.breakLoop 1]]]

def breakInSpawnModule : CompiledModule where
  source _ := some (.none, breakInSpawn)
  code _ := [.pushNumber .one, .jumpIfFalse 9, .pushNumber .zero, .spawn 5, .jump 8, .jump 9,
    .pushNull, .ret, .jump 0, .loadResult, .ret]
  compiled _ := rfl

/-- `try spawn(0) throw 1 catch` -/
def throwInSpawn : List Statement :=
  [.tryCatch [.spawn none [.throwValue pushOne]] none none]

def throwInSpawnModule : CompiledModule where
  source _ := some (.none, throwInSpawn)
  code _ := [.beginTry 10 8 none, .pushNumber .zero, .spawn 4, .jump 8, .pushNumber .one, .throw,
    .pushNull, .ret, .endTry, .jump 10, .loadResult, .ret]
  compiled _ := rfl

theorem staysInBody_threadAt {e : Event} {pc : Nat} {stack : List Nat}
    {handlers : List ExceptionHandler} : (threadAt pc stack handlers none).StaysInBody M e := by
  refine .of_none fun frame hframe => ?_
  cases List.mem_singleton.1 hframe
  rfl

/-- The parent goes on behind the `spawn`, and the spawned frame is at its first instruction. -/
theorem breakInSpawn_reachable : System.Reachable pushAndTest breakInSpawnModule.code
    (fun _ _ => True)
    ⟨[threadAt 4 [] [] none, threadAt 5 [] [] (some 3)], ()⟩ := by
  have test : System.Step pushAndTest breakInSpawnModule.code (fun _ _ => True)
      ⟨[threadAt 0 [] [] none], ()⟩ ⟨[threadAt 1 [1] [] none], ()⟩ :=
    .only (.next (i := .pushNumber .one) rfl rfl (Or.inl ⟨_, rfl, rfl⟩)) trivial
  have enter : System.Step pushAndTest breakInSpawnModule.code (fun _ _ => True)
      ⟨[threadAt 1 [1] [] none], ()⟩ ⟨[threadAt 2 [] [] none], ()⟩ :=
    .only (.next (i := .jumpIfFalse 9) rfl rfl (Or.inr ⟨⟨9, rfl⟩, rfl, rfl⟩)) trivial
  have delay : System.Step pushAndTest breakInSpawnModule.code (fun _ _ => True)
      ⟨[threadAt 2 [] [] none], ()⟩ ⟨[threadAt 3 [0] [] none], ()⟩ :=
    .only (.next (i := .pushNumber .zero) rfl rfl (Or.inl ⟨_, rfl, rfl⟩)) trivial
  have spawn : System.Step pushAndTest breakInSpawnModule.code (fun _ _ => True)
      ⟨[threadAt 3 [0] [] none], ()⟩
      ⟨[threadAt 4 [] [] none, threadAt 5 [] [] (some 3)], ()⟩ :=
    .only (.spawn rfl rfl rfl) trivial
  exact ⟨(), ((((Relation.ReflTransGen.single (.start 0 [])).tail test).tail enter).tail
    delay).tail spawn⟩

/-- `spawn(0) while(1) continue` -/
def loopInSpawn : List Statement :=
  [.spawn none [.whileLoop pushOne [.continueLoop 1]]]

def loopInSpawnModule : CompiledModule where
  source _ := some (.none, loopInSpawn)
  code _ := [.pushNumber .zero, .spawn 3, .jump 9, .pushNumber .one, .jumpIfFalse 7, .jump 3,
    .jump 3, .pushNull, .ret, .loadResult, .ret]
  compiled _ := rfl

/-- The spawned frame has gone round its loop once, by the `continue` that its loop is around. -/
theorem loopInSpawn_reachable : System.Reachable pushAndTest loopInSpawnModule.code
    (Thread.StaysInBody loopInSpawnModule)
    ⟨[threadAt 2 [] [] none, threadAt 3 [] [] (some 1)], ()⟩ := by
  have hstays (pc : Nat) (stack : List Nat) (e : Event) (hpc : pc = 3 ∨ pc = 4 ∨ pc = 5)
      (he : e = .runs) : (threadAt pc stack [] (some 1)).StaysInBody loopInSpawnModule e := by
    refine ⟨fun frame hframe _ target hi k hk => ?_, fun hraises => ?_⟩
    · cases Option.some.inj hframe
      cases hk
      rcases hpc with rfl | rfl | rfl
      · cases hi
      · cases hi
      · cases hi
        exact ⟨3, 9, rfl, rfl, by decide, by decide⟩
    · rw [he] at hraises
      cases hraises
  have delay : System.Step pushAndTest loopInSpawnModule.code
      (Thread.StaysInBody loopInSpawnModule) ⟨[threadAt 0 [] [] none], ()⟩
      ⟨[threadAt 1 [0] [] none], ()⟩ :=
    .only (.next (i := .pushNumber .zero) rfl rfl (Or.inl ⟨_, rfl, rfl⟩)) staysInBody_threadAt
  have spawn : System.Step pushAndTest loopInSpawnModule.code
      (Thread.StaysInBody loopInSpawnModule) ⟨[threadAt 1 [0] [] none], ()⟩
      ⟨[threadAt 2 [] [] none, threadAt 3 [] [] (some 1)], ()⟩ :=
    .only (.spawn rfl rfl rfl) staysInBody_threadAt
  have test : System.Step pushAndTest loopInSpawnModule.code
      (Thread.StaysInBody loopInSpawnModule)
      ⟨[threadAt 2 [] [] none, threadAt 3 [] [] (some 1)], ()⟩
      ⟨[threadAt 2 [] [] none, threadAt 4 [1] [] (some 1)], ()⟩ :=
    .second (.next (i := .pushNumber .one) rfl rfl (Or.inl ⟨_, rfl, rfl⟩))
      (hstays 3 [] .runs (by simp) rfl)
  have enter : System.Step pushAndTest loopInSpawnModule.code
      (Thread.StaysInBody loopInSpawnModule)
      ⟨[threadAt 2 [] [] none, threadAt 4 [1] [] (some 1)], ()⟩
      ⟨[threadAt 2 [] [] none, threadAt 5 [] [] (some 1)], ()⟩ :=
    .second (.next (i := .jumpIfFalse 7) rfl rfl (Or.inr ⟨⟨7, rfl⟩, rfl, rfl⟩))
      (hstays 4 [1] .runs (by simp) rfl)
  have turn : System.Step pushAndTest loopInSpawnModule.code
      (Thread.StaysInBody loopInSpawnModule)
      ⟨[threadAt 2 [] [] none, threadAt 5 [] [] (some 1)], ()⟩
      ⟨[threadAt 2 [] [] none, threadAt 3 [] [] (some 1)], ()⟩ :=
    .second (.jump rfl) (hstays 5 [] .runs (by simp) rfl)
  exact ⟨(), (((((Relation.ReflTransGen.single (.start 0 [])).tail delay).tail spawn).tail
    test).tail enter).tail turn⟩

/-- The spawned frame is in the body of the `Spawn` it comes from. -/
theorem spawned_reachable_loopInSpawn : (loopInSpawnModule.code 0).InSpawnedBody 1 3 :=
  spawned_reachable loopInSpawnModule pushAndTest loopInSpawn_reachable
    (threadAt 3 [] [] (some 1)) (by simp) _ (List.mem_singleton_self _) 1 rfl

/-- The parent goes on behind the `spawn`, and the spawned frame is about to throw. -/
theorem throwInSpawn_reachable : System.Reachable pushAndTest throwInSpawnModule.code
    (fun _ _ => True)
    ⟨[threadAt 3 [] [⟨1, 8, 10, none, 0⟩] none, threadAt 5 [1] [⟨1, 8, 10, none, 0⟩] (some 2)],
      ()⟩ := by
  have enter : System.Step pushAndTest throwInSpawnModule.code (fun _ _ => True)
      ⟨[threadAt 0 [] [] none], ()⟩ ⟨[threadAt 1 [] [⟨1, 8, 10, none, 0⟩] none], ()⟩ :=
    .only (.beginTry rfl (show 10 < 12 by decide) (show 8 < 12 by decide)) trivial
  have delay : System.Step pushAndTest throwInSpawnModule.code (fun _ _ => True)
      ⟨[threadAt 1 [] [⟨1, 8, 10, none, 0⟩] none], ()⟩
      ⟨[threadAt 2 [0] [⟨1, 8, 10, none, 0⟩] none], ()⟩ :=
    .only (.next (i := .pushNumber .zero) rfl rfl
      (Or.inl ⟨_, rfl, rfl⟩)) trivial
  have spawn : System.Step pushAndTest throwInSpawnModule.code (fun _ _ => True)
      ⟨[threadAt 2 [0] [⟨1, 8, 10, none, 0⟩] none], ()⟩
      ⟨[threadAt 3 [] [⟨1, 8, 10, none, 0⟩] none, threadAt 4 [] [⟨1, 8, 10, none, 0⟩] (some 2)],
        ()⟩ :=
    .only (.spawn rfl rfl rfl) trivial
  have value : System.Step pushAndTest throwInSpawnModule.code (fun _ _ => True)
      ⟨[threadAt 3 [] [⟨1, 8, 10, none, 0⟩] none, threadAt 4 [] [⟨1, 8, 10, none, 0⟩] (some 2)], ()⟩
      ⟨[threadAt 3 [] [⟨1, 8, 10, none, 0⟩] none,
        threadAt 5 [1] [⟨1, 8, 10, none, 0⟩] (some 2)], ()⟩ :=
    .second
      (.next (i := .pushNumber .one) rfl rfl (Or.inl ⟨_, rfl, rfl⟩)) trivial
  exact ⟨(), ((((Relation.ReflTransGen.single (.start 0 [])).tail enter).tail delay).tail
    spawn).tail value⟩

/-- The `break` takes the spawned frame behind the loop of its parent, and the failure takes it
into the catch of its parent. -/
theorem spawned_leaves_body :
    (∃ system, System.Reachable pushAndTest breakInSpawnModule.code (fun _ _ => True) system ∧
      ∃ t ∈ system.threads, ∃ frame ∈ t.frames, frame.spawnedBy = some 3 ∧
        ¬ (breakInSpawnModule.code 0).InSpawnedBody 3 frame.instruction) ∧
    ∃ system, System.Reachable pushAndTest throwInSpawnModule.code (fun _ _ => True) system ∧
      ∃ t ∈ system.threads, ∃ frame ∈ t.frames, frame.spawnedBy = some 2 ∧
        ¬ (throwInSpawnModule.code 0).InSpawnedBody 2 frame.instruction := by
  refine ⟨⟨⟨[threadAt 4 [] [] none, threadAt 9 [] [] (some 3)], ()⟩, ?_, threadAt 9 [] [] (some 3),
    by simp, _, List.mem_singleton_self _, rfl, ?_⟩, ⟨⟨[threadAt 3 [] [⟨1, 8, 10, none, 0⟩] none,
    threadAt 10 [] [] (some 2)], ()⟩, ?_, threadAt 10 [] [] (some 2), by simp, _,
    List.mem_singleton_self _, rfl, ?_⟩⟩
  · obtain ⟨s, hrun⟩ := breakInSpawn_reachable
    exact ⟨s, hrun.tail (.second (.jump rfl) trivial)⟩
  · rintro ⟨entry, after, -, hjump, -, hlt⟩
    cases hjump
    exact absurd hlt (by decide)
  · obtain ⟨s, hrun⟩ := throwInSpawn_reachable
    have hthrow : ThreadStep pushAndTest throwInSpawnModule.code
        (threadAt 5 [1] [⟨1, 8, 10, none, 0⟩] (some 2)) () (.raises true)
        [⟨unwindRuntimeFailure false true 0 1
          (threadAt 5 [] [⟨1, 8, 10, none, 0⟩] (some 2)).frames⟩] () := .throw rfl rfl
    exact ⟨s, hrun.tail (.second hthrow trivial)⟩
  · rintro ⟨entry, after, -, hjump, -, hlt⟩
    cases hjump
    exact absurd hlt (by decide)

end Dream64.Vm
