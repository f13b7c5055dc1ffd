import Dream64.Vm.TryNesting

/-!
# Frames stay in their code

Whatever a run does, every frame is at an instruction of its procedure or right
behind the last one, and each of its handlers protects a range of that code and
leads to a place in it.
-/

namespace Dream64.Vm

variable {σ V : Type} {R : Effects σ V} {M : CompiledModule} {code : Code} {k t : Nat}
  {i : Instruction}

/-- Where a frame may be, and what its handlers may name. -/
structure Control.InCode (code : ProcedureId → Code) (c : Control) : Prop where
  instruction : c.instruction ≤ (code c.procedure).length
  handlers : ∀ handler ∈ c.handlers, handler.start ≤ handler.stop ∧
    handler.stop < (code c.procedure).length ∧ handler.catchTarget ≤ (code c.procedure).length

/-! ## Targets -/

/-- The header of a loop ends in the code that it is in. -/
theorem header_end (p : ProcedureId) {a b c exit : Nat}
    (hk : (M.code p)[k]? = some (.nextLocalListIteration a b c exit)) :
    k + 7 ≤ (M.code p).length := by
  have hcompiled := M.compiled p
  cases hsource : M.source p with
  | none =>
    rw [hsource, Option.elim_none] at hcompiled
    rw [hcompiled] at hk
    cases hk
  | some procedure =>
    rw [hsource, Option.elim_some] at hcompiled
    obtain ⟨draft, hdraft, hcode⟩ := compileProcedure_eq_ok hcompiled
    rw [hcode] at hk ⊢
    rcases (specialize_specializes _).cases hk with hk | ⟨_, _, _, _, hheader, -⟩
    · cases (procedureDraft_laid hdraft).2.unspecialized _ (List.mem_of_getElem? hk)
    · have hlast := (List.getElem?_eq_some_iff.1 hheader.store).1
      rw [length_specialize]
      omega

theorem target_le {exits : Nat → Bool} (h : Layout code exits) (hk : code[k]? = some i)
    (ht : i.target? = some t) : t ≤ code.length := by
  cases i with
  | jump target =>
    cases ht
    rcases h.laid.jumps hk with hmem | ⟨-, hle, -⟩
    · cases hmem
    · exact hle
  | _ =>
    first
    | cases ht; done
    | rcases h.laid.leads hk ht with ⟨hmem, -⟩ | ⟨-, hle, -⟩
      · cases hmem
      · exact hle

theorem width_le (p : ProcedureId) (hk : (M.code p)[k]? = some i) :
    k + i.width ≤ (M.code p).length := by
  have hlt := (List.getElem?_eq_some_iff.1 hk).1
  cases i with
  | nextLocalListIteration a b c exit => exact header_end p hk
  | _ => exact hlt

/-! ## Runs -/

theorem frameRule_inCode {ok : Thread V → Event → Prop} :
    FrameRule M.code ok (Control.InCode M.code) where
  entry procedure := ⟨Nat.zero_le _, fun _ h => by cases h⟩
  next hc hi _ := ⟨width_le _ hi, hc.handlers⟩
  resume hc hi _ := ⟨(List.getElem?_eq_some_iff.1 hi).1, hc.handlers⟩
  taken hc hi _ ht := ⟨target_le (compiled_layout M _) hi ht, hc.handlers⟩
  jump _ hc hi := ⟨target_le (compiled_layout M _) hi rfl, hc.handlers⟩
  beginTry {c catchTarget stop depth l} hc hi := by
    have hlaid := (compiled_layout M c.procedure).laid
    obtain ⟨hlt, hstop⟩ := hlaid.tries hi
    refine ⟨(List.getElem?_eq_some_iff.1 hi).1, fun handler hmem => ?_⟩
    rcases List.mem_append.1 hmem with hmem | hmem
    · exact hc.handlers handler hmem
    · rw [List.mem_singleton.1 hmem]
      refine ⟨hlt, (hlaid.bounds hstop).2, ?_⟩
      rcases hlaid.leads hi rfl with ⟨hmem, -⟩ | ⟨-, hle, -⟩
      · cases hmem
      · exact hle
  endTry hc hi := ⟨(List.getElem?_eq_some_iff.1 hi).1,
    fun handler hmem => hc.handlers handler (List.mem_of_mem_dropLast hmem)⟩
  spawn {c entry} hc hi := by
    obtain ⟨rfl, after, hjump, -⟩ := (compiled_layout M c.procedure).laid.spawns hi
    have hlt := (List.getElem?_eq_some_iff.1 hjump).1
    exact ⟨⟨Nat.le_of_lt hlt, hc.handlers⟩, ⟨hlt, hc.handlers⟩⟩
  caught {t frame handler i position} _ hc _ hframe hhandler := by
    have hin := hc frame (List.mem_of_getElem? hframe)
    exact ⟨(hin.handlers handler (List.mem_of_getElem? hhandler)).2.2,
      fun other hmem => hin.handlers other (List.mem_of_mem_take hmem)⟩

/-- No frame of a run leaves the code of its procedure. -/
theorem inCode_reachable {ok : Thread V → Event → Prop} {system : System σ V}
    (h : System.Reachable R M.code ok system) :
    ∀ t ∈ system.threads, ∀ frame ∈ t.frames, frame.control.InCode M.code :=
  fun t ht => (h.framesHold frameRule_inCode t ht).holds

/-- The frame in front of the loop with the handlers of two iterations. -/
theorem continueInTry_inCode :
    ∃ frame ∈ (threadAt 0 [] (List.replicate 2 ⟨3, 4, 5, none, 0⟩) none).frames,
      frame.exceptionHandlers.length = 2 ∧ frame.control.InCode continueInTryModule.code :=
  ⟨_, List.mem_singleton_self _, rfl, inCode_reachable (continueInTry_handlers 2) _
    (List.mem_singleton_self _) _ (List.mem_singleton_self _)⟩

end Dream64.Vm
