import Dream64.Vm.StatementLayout

/-!
# The layout of a procedure

`procedureDraft_layout`: the code of a procedure is laid out, and the
specialised header of a for-in loop goes on, seven instructions later, in the
ranges it is in itself.
-/

namespace Dream64.Vm

open Nesting

/-- The instructions of a whole procedure. -/
def Code.listing (code : Code) : Listing := fun pc => code[pc]?

structure Layout (code : Code) (exits : Nat → Bool) : Prop where
  laid : (Code.listing code).Laid exits [] 0 code.length
  headers {k a b c exit : Nat} : code[k]? = some (.nextLocalListIteration a b c exit) →
    ∀ j, covers (Code.listing code).range j (k + 7) = covers (Code.listing code).range j k

variable {L L' : Listing} {E : Nat → Bool} {T : List Nat} {code : Code} {draft : Draft} {lo hi j k pc : Nat}
  {i : Instruction}

theorem Draft.listing_of_below (h : draft.Below 0) :
    draft.listing 0 = Code.listing (draft.map (·.instruction)) := by
  funext pc
  simp only [listing, Code.listing, Nat.zero_le, if_true, Nat.sub_zero, List.getElem?_map]
  cases hd : draft[pc]? with
  | none => rfl
  | some d =>
    have hbelow := h d (List.mem_of_getElem? hd)
    cases d with
    | placed i => rfl
    | breakLoop depth => cases hbelow
    | continueLoop depth => cases hbelow
    | endSwitch => cases hbelow
    | loopExit target => rfl

/-! ## Specialised loop headers -/

/-- The seven instructions at `k` are the header of a for-in loop. -/
structure Listing.Header (L : Listing) (k : Nat) (listSlot indexSlot itemSlot exit : Nat) : Prop where
  index : L k = some (.loadLocal indexSlot)
  length : L (k + 1) = some (.listLengthLocal listSlot)
  compare : L (k + 2) = some .lessEqual
  leave : L (k + 3) = some (.jumpIfFalse exit)
  fetchIndex : L (k + 4) = some (.loadLocal indexSlot)
  fetch : L (k + 5) = some (.indexLocalList listSlot)
  store : L (k + 6) = some (.storeLocal itemSlot)

theorem specializedHeader_some (h : specializedHeader (code.drop k) = some i) :
    ∃ listSlot indexSlot itemSlot exit,
      (Code.listing code).Header k listSlot indexSlot itemSlot exit ∧
        i = .nextLocalListIteration listSlot indexSlot itemSlot exit := by
  have hget : ∀ n, code[k + n]? = (code.drop k)[n]? := fun n => by rw [List.getElem?_drop]
  generalize hdrop : code.drop k = tail at h hget
  unfold specializedHeader at h
  split at h
  · split at h
    · rename_i heq
      obtain ⟨rfl, rfl⟩ := heq
      cases h
      exact ⟨_, _, _, _, ⟨hget 0, hget 1, hget 2, hget 3, hget 4, hget 5, hget 6⟩, rfl⟩
    · cases h
  · cases h

theorem specializeLocalListIterationHeaders_get (code : Code) (k : Nat) :
    (specializeLocalListIterationHeaders code)[k]? =
      code[k]?.map fun i => (specializedHeader (code.drop k)).getD i := by
  induction code generalizing k with
  | nil => rfl
  | cons i rest ih =>
    cases k with
    | zero => rfl
    | succ k => exact ih k

/-- The headers of for-in loops replaced by their specialised instruction. -/
def Listing.Specializes (L' L : Listing) : Prop := ∀ k, L' k = L k ∨
  ∃ listSlot indexSlot itemSlot exit, L.Header k listSlot indexSlot itemSlot exit ∧
    L' k = some (.nextLocalListIteration listSlot indexSlot itemSlot exit)

theorem specialize_specializes (code : Code) :
    (Code.listing (specializeLocalListIterationHeaders code)).Specializes (Code.listing code) := by
  intro k
  simp only [Code.listing, specializeLocalListIterationHeaders_get]
  cases hi : specializedHeader (code.drop k) with
  | none =>
    left
    cases code[k]? <;> rfl
  | some i =>
    obtain ⟨listSlot, indexSlot, itemSlot, exit, hheader, rfl⟩ := specializedHeader_some hi
    have hk : code[k]? = some (.loadLocal indexSlot) := hheader.index
    exact .inr ⟨listSlot, indexSlot, itemSlot, exit, hheader, by rw [hk]; rfl⟩

@[simp] theorem length_specialize (code : Code) :
    (specializeLocalListIterationHeaders code).length = code.length := by
  induction code with
  | nil => rfl
  | cons i rest ih => simp [specializeLocalListIterationHeaders, ih]

namespace Listing

variable {listSlot indexSlot itemSlot exit : Nat}

/-- Only a `LoadLocal` is replaced. -/
theorem Specializes.of_ne (h : L'.Specializes L) (hk : L k = some i)
    (hi : ∀ slot, i ≠ .loadLocal slot) : L' k = some i := by
  rcases h k with heq | ⟨_, indexSlot, _, _, hheader, -⟩
  · rw [heq, hk]
  · have hload := hheader.index
    rw [hk] at hload
    cases hload
    exact absurd rfl (hi indexSlot)

theorem Specializes.cases (h : L'.Specializes L) (hk : L' k = some i) : L k = some i ∨
    ∃ listSlot indexSlot itemSlot exit, L.Header k listSlot indexSlot itemSlot exit ∧
      i = .nextLocalListIteration listSlot indexSlot itemSlot exit := by
  rcases h k with heq | ⟨listSlot, indexSlot, itemSlot, exit, hheader, heq⟩
  · exact .inl (heq.symm.trans hk)
  · rw [hk] at heq
    cases heq
    exact .inr ⟨listSlot, indexSlot, itemSlot, exit, hheader, rfl⟩

theorem Specializes.range (h : L'.Specializes L) (k : Nat) : L'.range k = L.range k := by
  cases hr : L.range k with
  | some r =>
    rcases range_cases (a := r.1) (b := r.2) hr with ⟨c, l, hk, ha⟩ | ⟨entry, after, hk, hj, ha, hb⟩
    · rw [range_beginTry (h.of_ne hk nofun), ← ha]
    · rw [range_spawn (h.of_ne hk nofun) (h.of_ne hj nofun), ← ha, ← hb]
  | none =>
    cases hr' : L'.range k with
    | none => rfl
    | some r =>
      rcases range_cases (a := r.1) (b := r.2) hr' with ⟨c, l, hk, -⟩ | ⟨entry, after, hk, hj, -⟩
      · rcases h.cases hk with hk | ⟨_, _, _, _, -, hi⟩
        · rw [range_beginTry hk] at hr
          cases hr
        · cases hi
      · rcases h.cases hk with hk | ⟨_, _, _, _, -, hi⟩
        · rcases h.cases hj with hj | ⟨_, _, _, _, -, hi⟩
          · rw [range_spawn hk hj] at hr
            cases hr
          · cases hi
        · cases hi

theorem Specializes.covers_eq (h : L'.Specializes L) (j pc : Nat) :
    covers L'.range j pc = covers L.range j pc := by
  simp only [covers, h.range]

/-- The whole header is in the same ranges. -/
theorem Header.covers_eq (hheader : L.Header k listSlot indexSlot itemSlot exit)
    (h : L.Laid E T lo hi) (j : Nat) :
    covers L.range j (k + 3) = covers L.range j k ∧
      covers L.range j (k + 7) = covers L.range j k := by
  have h3 : covers L.range j (k + 3) = covers L.range j k := by
    rw [h.covers_succ hheader.compare rfl, h.covers_succ hheader.length rfl,
      h.covers_succ hheader.index rfl]
  refine ⟨h3, ?_⟩
  rw [h.covers_succ hheader.store rfl, h.covers_succ hheader.fetch rfl,
    h.covers_succ hheader.fetchIndex rfl, h.covers_succ hheader.leave rfl, h3]

theorem Laid.specialize (h : L.Laid E T lo hi) (hs : L'.Specializes L) : L'.Laid E T lo hi := by
  refine ⟨fun {k i} hk => ?_, fun hk => ?_, fun hk => ?_, fun hk => ?_, fun hj hk => ?_,
    fun {k t i} hk ht => ?_, fun hk => ?_⟩
  · rcases hs.cases hk with hk | ⟨_, _, _, _, hheader, -⟩
    · exact h.bounds hk
    · exact h.bounds hheader.index
  · rcases hs.cases hk with hk | ⟨_, _, _, _, -, hi⟩
    · exact ⟨(h.tries hk).1, hs.of_ne (h.tries hk).2 nofun⟩
    · cases hi
  · rcases hs.cases hk with hk | ⟨_, _, _, _, -, hi⟩
    · obtain ⟨k, c, l, hk⟩ := h.endTries hk
      exact ⟨k, c, l, hs.of_ne hk nofun⟩
    · cases hi
  · rcases hs.cases hk with hk | ⟨_, _, _, _, -, hi⟩
    · obtain ⟨hentry, after, hjump, hlt, hret⟩ := h.spawns hk
      exact ⟨hentry, after, hs.of_ne hjump nofun, hlt, hs.of_ne hret nofun⟩
    · cases hi
  · rw [hs.range] at hj hk
    exact h.nested hj hk
  · simp only [hs.covers_eq]
    rcases hs.cases hk with hk | ⟨_, _, _, exit, hheader, rfl⟩
    · exact h.leads hk ht
    · cases ht
      have hsame := fun j => (hheader.covers_eq h j).1
      rcases h.leads hheader.leave rfl with ⟨hmem, hc⟩ | ⟨hlo, hhi, hc⟩
      · exact .inl ⟨hmem, fun j => by rw [← hsame, hc]⟩
      · exact .inr ⟨hlo, hhi, fun j => by rw [hc, hsame]⟩
  · simp only [hs.covers_eq]
    rcases hs.cases hk with hk | ⟨_, _, _, _, -, hi⟩
    · exact h.jumps hk
    · cases hi

end Listing

/-! ## Procedures -/

theorem layout_specialize {code : Code} {exits : Nat → Bool}
    (h : (Code.listing code).Laid exits [] 0 code.length) (hplain : Unspecialized code) :
    Layout (specializeLocalListIterationHeaders code) exits := by
  have hs := specialize_specializes code
  refine ⟨?_, fun {k a b c exit} hk j => ?_⟩
  · rw [length_specialize]
    exact h.specialize hs
  · rw [hs.covers_eq, hs.covers_eq]
    rcases hs.cases hk with hk' | ⟨_, _, _, _, hheader, -⟩
    · cases hplain _ (List.mem_of_getElem? hk')
    · exact (hheader.covers_eq h j).2

theorem procedureDraft_laid {prologue : Fragment} {body : List Statement}
    (h : procedureDraft prologue body = .ok draft) : draft.Laid [] 0 ∧ draft.Below 0 := by
  simp only [procedureDraft, Except.bind_eq_ok, Except.pure_eq_ok, Prod.exists] at h
  obtain ⟨start, hstart, bodyCode, fallsThrough, hbody, rfl⟩ := h
  obtain ⟨hlaid, hbelow⟩ := compileBlock_laid 0 start.length body _ _ hbody
  have hwithin := prologue.within hstart
  generalize htail : (if fallsThrough then [Instruction.loadResult, .ret] else []) = tail
  have hlaidTail : Draft.Laid [] (0 + (Draft.ofCode start ++ bodyCode).length)
      (Draft.ofCode tail) := by
    rw [← htail]
    split
    · have hwithinResult : Within (0 + (Draft.ofCode start ++ bodyCode).length)
          (0 + (Draft.ofCode start ++ bodyCode).length + 1) [.loadResult] := by
        refine within_cons.2 ⟨⟨rfl, fun target ht => ?_⟩, within_nil⟩
        cases ht
      exact Draft.laid_ending hwithinResult rfl rfl
    · exact Draft.laid_nil
  have hplainTail : Unspecialized tail := by
    rw [← htail]
    split <;> simp [Instruction.specialized]
  refine ⟨.append (.append (Draft.laid_within hwithin) hlaid (by simp)) hlaidTail rfl, ?_⟩
  simp [hwithin.unspecialized, hbelow, hplainTail]

theorem compileProcedure_eq_ok {prologue : Fragment} {body : List Statement}
    (h : compileProcedure prologue body = .ok code) :
    ∃ draft, procedureDraft prologue body = .ok draft ∧
      code = specializeLocalListIterationHeaders (draft.map (·.instruction)) := by
  simp only [compileProcedure, Except.bind_eq_ok] at h
  obtain ⟨draft, hdraft, h⟩ := h
  split at h
  · cases h
    exact ⟨draft, hdraft, rfl⟩
  · cases h

theorem Draft.Below.unspecialized (h : draft.Below 0) :
    Unspecialized (draft.map (·.instruction)) := by
  intro i hi
  obtain ⟨d, hd, rfl⟩ := List.mem_map.1 hi
  cases d with
  | placed i => exact h _ hd
  | _ => rfl

theorem procedureDraft_layout {prologue : Fragment} {body : List Statement}
    (h : procedureDraft prologue body = .ok draft) :
    Layout (specializeLocalListIterationHeaders (draft.map (·.instruction))) (draft.exits 0) := by
  obtain ⟨hlaid, hbelow⟩ := procedureDraft_laid h
  refine layout_specialize ?_ hbelow.unspecialized
  rw [← Draft.listing_of_below hbelow, List.length_map]
  simpa only [Draft.Laid, Nat.zero_add] using hlaid

end Dream64.Vm
