import Dream64.World.Contents

/-!
# Deferred removals

Flushing every list gives the state that a run with immediate removals is in
(`flushAllAreaUncontain`): every operation commutes with it, except for two.
A read that does not flush sees entries whose removal is queued, and an atom
that enters a list from which its removal is still queued is taken for the old
entry when the queue is applied. `Op.Clean` excludes these two.
-/

namespace Dream64.World

open ListSubtract

theorem subtractEntries_eq (values entries : List DatumId) :
    subtractEntries values entries = subtract values entries := dropQuota_count values entries

variable {s : State} {list : ListId} {f : List DatumId → List DatumId}

/-- The changes of a list that can as well be made once its queue is applied. -/
def State.Commutes (s : State) (list : ListId) (f : List DatumId → List DatumId) : Prop :=
  ∀ entries, subtractEntries (s.pendingAreaUncontain list) (f entries) =
    f (subtractEntries (s.pendingAreaUncontain list) entries)

theorem commutes_removeFirst (s : State) (list : ListId) (value : DatumId) :
    s.Commutes list (removeFirst value) := by
  intro entries
  rw [subtractEntries_eq, subtractEntries_eq]
  exact (subtract_erase _ entries value).symm

theorem commutes_add {value : DatumId} (h : value ∉ s.pendingAreaUncontain list) :
    s.Commutes list (add value) := by
  intro entries
  rw [subtractEntries_eq, subtractEntries_eq]
  exact subtract_concat h entries

theorem commutes_of_nothing_pending (h : s.pendingAreaUncontain list = []) :
    s.Commutes list f := by
  intro entries
  rw [h, subtractEntries_eq, subtractEntries_eq]
  rfl

/-! ## Flushing everything, and one step -/

theorem flushAll_modifyList (h : s.Commutes list f) :
    (s.modifyList list f).flushAllAreaUncontain = s.flushAllAreaUncontain.modifyList list f := by
  simp only [State.flushAllAreaUncontain, State.modifyList, State.mk.injEq, true_and, and_true]
  funext other
  by_cases heq : other = list
  · subst heq
    rw [Function.update_self, Function.update_self]
    exact h _
  · rw [Function.update_of_ne heq, Function.update_of_ne heq]

theorem flushAll_flush (s : State) (list : ListId) :
    (s.flushAreaUncontain list).flushAllAreaUncontain = s.flushAllAreaUncontain := by
  simp only [State.flushAllAreaUncontain, State.flushAreaUncontain, State.mk.injEq, true_and,
    and_true]
  funext other
  by_cases heq : other = list
  · subst heq
    rw [Function.update_self, Function.update_self, subtractEntries_eq _ (subtractEntries _ _)]
    rfl
  · rw [Function.update_of_ne heq, Function.update_of_ne heq]

/-- With nothing queued a flush changes nothing. -/
theorem flush_of_nothing_pending (h : ∀ list, s.pendingAreaUncontain list = []) (list : ListId) :
    s.flushAreaUncontain list = s := by
  have hlists : Function.update s.lists list
      (subtractEntries (s.pendingAreaUncontain list) (s.lists list)) = s.lists := by
    rw [h list, subtractEntries_eq, subtract_nil, Function.update_eq_self]
  have hpending : Function.update s.pendingAreaUncontain list [] = s.pendingAreaUncontain := by
    rw [← h list, Function.update_eq_self]
  rw [State.flushAreaUncontain, hlists, hpending]

theorem flushAll_flushed (s : State) (list : ListId) :
    s.flushAllAreaUncontain.flushAreaUncontain list = s.flushAllAreaUncontain :=
  flush_of_nothing_pending (fun _ => rfl) list

/-- Queueing is removing at once, as far as the flushed lists can tell. -/
theorem flushAll_queue (s : State) (list : ListId) (values : List DatumId) :
    (queueAreaUncontain s list values).flushAllAreaUncontain =
      uncontainNow s.flushAllAreaUncontain list values := by
  simp only [State.flushAllAreaUncontain, queueAreaUncontain, uncontainNow, State.modifyList,
    State.mk.injEq, true_and, and_true]
  funext other
  by_cases heq : other = list
  · subst heq
    rw [Function.update_self, Function.update_self]
    simp only [subtractEntries_eq, subtract_append]
  · rw [Function.update_of_ne heq, Function.update_of_ne heq]

/-! ## Well-formed states -/

/-- Lists of contents have one owner, turfs are in areas, and only the lists of areas have
queues. -/
structure State.WellFormed (s : State) : Prop where
  owner_unique : ∀ a b list, s.contents a = some list → s.contents b = some list → a = b
  contents_lt : ∀ a list, s.contents a = some list → list < s.nextList
  turf_loc : ∀ turf area, s.kind turf = .turf → s.loc turf = some area → s.kind area = .area
  pending_area : ∀ list, s.pendingAreaUncontain list ≠ [] → ∃ area, s.kind area = .area ∧
    s.contents area = some list

theorem State.WellFormed.pending_eq_nil (h : s.WellFormed) {owner : DatumId}
    (howner : s.contents owner = some list) (hkind : s.kind owner ≠ .area) :
    s.pendingAreaUncontain list = [] := by
  by_contra hne
  obtain ⟨area, harea, hcontents⟩ := h.pending_area list hne
  rw [h.owner_unique owner area list howner hcontents] at hkind
  exact hkind harea

theorem State.WellFormed.pending_next (h : s.WellFormed) :
    s.pendingAreaUncontain s.nextList = [] := by
  by_contra hne
  obtain ⟨area, -, hcontents⟩ := h.pending_area _ hne
  exact Nat.lt_irrefl _ (h.contents_lt area _ hcontents)

theorem State.WellFormed.modifyList (h : s.WellFormed) (list : ListId)
    (f : List DatumId → List DatumId) : (s.modifyList list f).WellFormed :=
  ⟨h.owner_unique, h.contents_lt, h.turf_loc, h.pending_area⟩

theorem State.WellFormed.flush (h : s.WellFormed) (list : ListId) :
    (s.flushAreaUncontain list).WellFormed := by
  refine ⟨h.owner_unique, h.contents_lt, h.turf_loc, fun other hne => h.pending_area other ?_⟩
  rintro hnil
  refine hne ?_
  show Function.update s.pendingAreaUncontain list [] other = []
  by_cases heq : other = list
  · subst heq
    rw [Function.update_self]
  · rw [Function.update_of_ne heq, hnil]

theorem State.WellFormed.flushAll (h : s.WellFormed) : s.flushAllAreaUncontain.WellFormed :=
  ⟨h.owner_unique, h.contents_lt, h.turf_loc, fun _ hne => absurd rfl hne⟩

/-! ## A run and its flushed run -/

/-- A well-formed state and the one with every list flushed. -/
structure Sim (s t : State) : Prop where
  flushAll_eq : s.flushAllAreaUncontain = t
  wellFormed : s.WellFormed

variable {t : State}

theorem Sim.modifyList (h : Sim s t) (hf : s.Commutes list f) :
    Sim (s.modifyList list f) (t.modifyList list f) := by
  obtain ⟨rfl, hwell⟩ := h
  exact ⟨flushAll_modifyList hf, hwell.modifyList list f⟩

theorem Sim.flush (h : Sim s t) (list : ListId) :
    Sim (s.flushAreaUncontain list) (t.flushAreaUncontain list) := by
  obtain ⟨rfl, hwell⟩ := h
  exact ⟨(flushAll_flush s list).trans (flushAll_flushed s list).symm, hwell.flush list⟩

theorem Sim.flushAll (h : Sim s t) : Sim s.flushAllAreaUncontain t.flushAllAreaUncontain := by
  obtain ⟨rfl, hwell⟩ := h
  exact ⟨rfl, hwell.flushAll⟩

theorem Sim.removeFrom (h : Sim s t) (atom : DatumId) (container : Option DatumId) :
    Sim (s.removeFrom atom container) (t.removeFrom atom container) := by
  have hcontents : t.contents = s.contents := by rw [← h.flushAll_eq]; rfl
  rw [State.removeFrom, State.removeFrom, hcontents]
  cases container.bind s.contents with
  | none => exact h
  | some list => exact h.modifyList (commutes_removeFirst s list atom)

variable {datum : DatumId} {newLoc : Option DatumId}

theorem Sim.setLoc (h : Sim s t)
    (hturf : s.kind datum = .turf → ∀ area, newLoc = some area → s.kind area = .area) :
    Sim (s.setLoc datum newLoc) (t.setLoc datum newLoc) := by
  obtain ⟨rfl, hwell⟩ := h
  refine ⟨rfl, hwell.owner_unique, hwell.contents_lt, fun turf area hkind hloc => ?_,
    hwell.pending_area⟩
  have hupdate : Function.update s.loc datum newLoc turf = some area := hloc
  by_cases heq : turf = datum
  · subst heq
    rw [Function.update_self] at hupdate
    exact hturf hkind area hupdate
  · rw [Function.update_of_ne heq] at hupdate
    exact hwell.turf_loc turf area hkind hupdate

theorem ensureContents_some (h : s.contents datum = some list) : s.ensureContents datum =
      ({ s with contentsOwners := Function.update s.contentsOwners list (some datum) }, list) := by
  rw [State.ensureContents, h]

theorem ensureContents_none (h : s.contents datum = none) : s.ensureContents datum =
      ({ s with
          contents := Function.update s.contents datum (some s.nextList)
          contentsOwners := Function.update s.contentsOwners s.nextList (some datum)
          lists := Function.update s.lists s.nextList []
          nextList := s.nextList + 1 }, s.nextList) := by
  rw [State.ensureContents, h]

theorem ensureContents_pending (s : State) (datum : DatumId) :
    (s.ensureContents datum).1.pendingAreaUncontain = s.pendingAreaUncontain := by
  rw [State.ensureContents]
  cases s.contents datum <;> rfl

theorem ensureContents_kind (s : State) (datum : DatumId) :
    (s.ensureContents datum).1.kind = s.kind := by
  rw [State.ensureContents]
  cases s.contents datum <;> rfl

/-- The list is an old one of that datum, or new. -/
theorem ensureContents_contents {other : DatumId}
    (h : (s.ensureContents datum).1.contents other = some list) :
    s.contents other = some list ∨ list = s.nextList := by
  rw [State.ensureContents] at h
  cases hcontents : s.contents datum with
  | some old =>
    rw [hcontents] at h
    exact .inl h
  | none =>
    rw [hcontents] at h
    by_cases heq : other = datum
    · subst heq
      have hnew := (Function.update_self other (some s.nextList) s.contents).symm.trans h
      exact .inr (Option.some.inj hnew).symm
    · exact .inl ((Function.update_of_ne heq (some s.nextList) s.contents).symm.trans h)

theorem ensureContents_list (s : State) (datum : DatumId) :
    (s.ensureContents datum).1.contents datum = some (s.ensureContents datum).2 := by
  rw [State.ensureContents]
  cases hcontents : s.contents datum with
  | some list => exact hcontents
  | none => exact Function.update_self datum (some s.nextList) s.contents

theorem State.WellFormed.ensureContents (h : s.WellFormed) (datum : DatumId) :
    (s.ensureContents datum).1.WellFormed := by
  rw [State.ensureContents]
  cases hcontents : s.contents datum with
  | some list => exact ⟨h.owner_unique, h.contents_lt, h.turf_loc, h.pending_area⟩
  | none =>
    have hold : ∀ a list, Function.update s.contents datum (some s.nextList) a = some list →
        (a = datum ∧ list = s.nextList) ∨ (a ≠ datum ∧ s.contents a = some list) := by
      intro a list ha
      by_cases heq : a = datum
      · subst heq
        rw [Function.update_self] at ha
        exact .inl ⟨rfl, (Option.some.inj ha).symm⟩
      · rw [Function.update_of_ne heq] at ha
        exact .inr ⟨heq, ha⟩
    refine ⟨fun a b list ha hb => ?_, fun a list ha => ?_, h.turf_loc, fun list hne => ?_⟩
    · rcases hold a list ha with ⟨ha', hlist⟩ | ⟨-, ha'⟩
      · rcases hold b list hb with ⟨hb', -⟩ | ⟨-, hb'⟩
        · exact ha'.trans hb'.symm
        · exact absurd hlist (Nat.ne_of_lt (h.contents_lt b list hb'))
      · rcases hold b list hb with ⟨-, hlist⟩ | ⟨-, hb'⟩
        · exact absurd hlist (Nat.ne_of_lt (h.contents_lt a list ha'))
        · exact h.owner_unique a b list ha' hb'
    · show list < s.nextList + 1
      rcases hold a list ha with ⟨-, rfl⟩ | ⟨-, ha⟩
      · exact Nat.lt_succ_self _
      · exact Nat.lt_succ_of_lt (h.contents_lt a list ha)
    · obtain ⟨area, hkind, harea⟩ := h.pending_area list hne
      have hne' : area ≠ datum := by
        rintro rfl
        rw [hcontents] at harea
        cases harea
      exact ⟨area, hkind, (Function.update_of_ne hne' _ _).trans harea⟩

theorem Sim.ensureContents (h : Sim s t) (datum : DatumId) :
    Sim (s.ensureContents datum).1 (t.ensureContents datum).1 ∧
      (t.ensureContents datum).2 = (s.ensureContents datum).2 := by
  obtain ⟨rfl, hwell⟩ := h
  have hwell' := hwell.ensureContents datum
  cases hcontents : s.contents datum with
  | some list =>
    have hflushed : s.flushAllAreaUncontain.contents datum = some list := hcontents
    rw [ensureContents_some hcontents] at hwell' ⊢
    rw [ensureContents_some hflushed]
    exact ⟨⟨rfl, hwell'⟩, rfl⟩
  | none =>
    have hflushed : s.flushAllAreaUncontain.contents datum = none := hcontents
    rw [ensureContents_none hcontents] at hwell' ⊢
    rw [ensureContents_none hflushed]
    refine ⟨⟨?_, hwell'⟩, rfl⟩
    simp only [State.flushAllAreaUncontain, State.mk.injEq, true_and, and_true]
    funext list
    by_cases heq : list = s.nextList
    · subst heq
      rw [Function.update_self, Function.update_self, subtractEntries_eq, subtract_from_nil]
    · rw [Function.update_of_ne heq, Function.update_of_ne heq]

/-! ## Moves -/

theorem Sim.loc_eq (h : Sim s t) : t.loc = s.loc := by rw [← h.flushAll_eq]; rfl

theorem Sim.kind_eq (h : Sim s t) : t.kind = s.kind := by rw [← h.flushAll_eq]; rfl

theorem Sim.contents_eq (h : Sim s t) : t.contents = s.contents := by rw [← h.flushAll_eq]; rfl

theorem Sim.datumCount_eq (h : Sim s t) : t.datumCount = s.datumCount := by
  rw [← h.flushAll_eq]
  rfl

theorem Sim.enclosingArea_eq (h : Sim s t) : t.enclosingArea = s.enclosingArea := by
  funext turf
  rw [State.enclosingArea, State.enclosingArea, h.kind_eq, h.loc_eq]

/-- What a datum that is no area contains is not in a queue. -/
theorem Sim.contained_eq (h : Sim s t) {owner : DatumId} (hkind : s.kind owner ≠ .area) :
    (t.contents owner).map t.lists = (s.contents owner).map s.lists := by
  obtain ⟨rfl, hwell⟩ := h
  show (s.contents owner).map _ = _
  cases hcontents : s.contents owner with
  | none => rfl
  | some list =>
    have hpending := hwell.pending_eq_nil hcontents hkind
    show some (subtractEntries _ _) = some _
    rw [hpending, subtractEntries_eq, subtract_nil]

theorem Sim.queue (h : Sim s t) (values : List DatumId)
    (harea : ∃ area, s.kind area = .area ∧ s.contents area = some list) :
    Sim (queueAreaUncontain s list values) (uncontainNow t list values) := by
  obtain ⟨rfl, hwell⟩ := h
  refine ⟨flushAll_queue s list values, hwell.owner_unique, hwell.contents_lt, hwell.turf_loc,
    fun other hne => ?_⟩
  by_cases heq : other = list
  · subst heq
    exact harea
  · have hother := Function.update_of_ne heq (s.pendingAreaUncontain list ++ values)
      s.pendingAreaUncontain
    exact hwell.pending_area other fun hnil => hne (hother.trans hnil)

theorem leaveArea_kind (s : State) (oldArea : Option DatumId) (values : List DatumId) :
    (s.leaveArea queueAreaUncontain oldArea values).kind = s.kind := by
  rw [State.leaveArea]
  cases oldArea.bind s.contents <;> rfl

theorem Sim.leaveArea (h : Sim s t) {turf : DatumId} (hturf : s.kind turf = .turf)
    (values : List DatumId) :
    Sim (s.leaveArea queueAreaUncontain (s.loc turf) values)
      (t.leaveArea uncontainNow (s.loc turf) values) := by
  rw [State.leaveArea, State.leaveArea, h.contents_eq]
  cases hlist : (s.loc turf).bind s.contents with
  | none => exact h
  | some list =>
    obtain ⟨area, hloc, hcontents⟩ := Option.bind_eq_some_iff.1 hlist
    exact h.queue values ⟨area, h.wellFormed.turf_loc turf area hturf hloc, hcontents⟩

theorem enterArea_kind (s : State) (newArea : DatumId) (values : List DatumId) :
    (s.enterArea newArea values).kind = s.kind := ensureContents_kind s newArea

/-- The list that is entered is flushed first. -/
theorem Sim.enterArea (h : Sim s t) (newArea : DatumId) (values : List DatumId) :
    Sim (s.enterArea newArea values) (t.enterArea newArea values) := by
  obtain ⟨h₁, hlist⟩ := h.ensureContents newArea
  rw [State.enterArea, State.enterArea]
  dsimp only
  rw [hlist]
  generalize (s.ensureContents newArea).2 = list
  have hpending : ((s.ensureContents newArea).1.flushAreaUncontain list).pendingAreaUncontain
      list = [] := Function.update_self _ _ _
  exact (h₁.flush list).modifyList (commutes_of_nothing_pending hpending)

theorem Sim.moveTurfToArea (h : Sim s t) {turf newArea : DatumId} (hturf : s.kind turf = .turf)
    (harea : s.kind newArea = .area) :
    Sim (World.moveTurfToArea queueAreaUncontain s turf newArea)
      (World.moveTurfToArea uncontainNow t turf newArea) := by
  have hnotArea : s.kind turf ≠ .area := by
    rw [hturf]
    decide
  have hcontained := h.contained_eq hnotArea
  rw [World.moveTurfToArea, World.moveTurfToArea, hcontained, h.loc_eq]
  by_cases hsame : s.loc turf = some newArea
  · rw [if_pos hsame, if_pos hsame]
    exact h
  · rw [if_neg hsame, if_neg hsame]
    generalize ((s.contents turf).map s.lists).getD [] = contained
    refine ((h.leaveArea hturf (turf :: contained)).enterArea newArea _).setLoc ?_
    rintro - area ⟨⟩
    rw [enterArea_kind, leaveArea_kind, harea]

/-- No removal of the atom is queued in the contents of the container. -/
def State.NotPendingIn (s : State) (atom : DatumId) (container : Option DatumId) : Prop :=
  ∀ list, container.bind s.contents = some list → atom ∉ s.pendingAreaUncontain list

variable {atom : DatumId}

theorem Sim.addToArea (h : Sim s t) {area : Option DatumId} (hpending : s.NotPendingIn atom area) :
    Sim (s.addToArea atom area) (t.addToArea atom area) := by
  rw [State.addToArea, State.addToArea, h.contents_eq]
  cases hlist : area.bind s.contents with
  | none => exact h
  | some list => exact h.modifyList (commutes_add (hpending list hlist))

theorem Sim.addToLoc (h : Sim s t) (hpending : s.NotPendingIn atom newLoc) :
    Sim (s.addToLoc atom newLoc) (t.addToLoc atom newLoc) := by
  rw [State.addToLoc, State.addToLoc]
  cases hcontainer : newLoc.filter (· ≠ atom) with
  | none => exact h
  | some container =>
    obtain rfl : newLoc = some container := (Option.filter_eq_some_iff.1 hcontainer).1
    obtain ⟨h₁, hlist⟩ := h.ensureContents container
    dsimp only
    rw [hlist]
    refine h₁.modifyList (commutes_add ?_)
    rw [ensureContents_pending]
    rcases ensureContents_contents (ensureContents_list s container) with hold | hnew
    · exact hpending _ hold
    · rw [hnew, h.wellFormed.pending_next]
      exact List.not_mem_nil

theorem removeFrom_pending (s : State) (atom : DatumId) (container : Option DatumId) :
    (s.removeFrom atom container).pendingAreaUncontain = s.pendingAreaUncontain ∧
      (s.removeFrom atom container).contents = s.contents ∧
      (s.removeFrom atom container).nextList = s.nextList := by
  rw [State.removeFrom]
  cases container.bind s.contents <;> exact ⟨rfl, rfl, rfl⟩

theorem State.NotPendingIn.removeFrom {container : Option DatumId}
    (h : s.NotPendingIn atom container) (other : Option DatumId) :
    (s.removeFrom atom other).NotPendingIn atom container := by
  obtain ⟨hpending, hcontents, -⟩ := removeFrom_pending s atom other
  intro list hlist
  rw [hcontents] at hlist
  rw [hpending]
  exact h list hlist

theorem State.NotPendingIn.addToLoc {container : Option DatumId} (hwell : s.WellFormed)
    (h : s.NotPendingIn atom container) : (s.addToLoc atom newLoc).NotPendingIn atom container := by
  rw [State.addToLoc]
  cases newLoc.filter (· ≠ atom) with
  | none => exact h
  | some loc =>
    intro list hlist
    obtain ⟨owner, rfl, hcontents⟩ := Option.bind_eq_some_iff.1 hlist
    show atom ∉ (s.ensureContents loc).1.pendingAreaUncontain list
    rw [ensureContents_pending]
    rcases ensureContents_contents hcontents with hold | rfl
    · exact h list hold
    · rw [hwell.pending_next]
      exact List.not_mem_nil

theorem removeFrom_kind (s : State) (atom : DatumId) (container : Option DatumId) :
    (s.removeFrom atom container).kind = s.kind := by
  rw [State.removeFrom]
  cases container.bind s.contents <;> rfl

theorem addToLoc_kind (s : State) (atom : DatumId) (newLoc : Option DatumId) :
    (s.addToLoc atom newLoc).kind = s.kind := by
  rw [State.addToLoc]
  cases newLoc.filter (· ≠ atom) with
  | none => rfl
  | some container => exact ensureContents_kind s container

theorem addToArea_kind (s : State) (atom : DatumId) (area : Option DatumId) :
    (s.addToArea atom area).kind = s.kind := by
  rw [State.addToArea]
  cases area.bind s.contents <;> rfl

theorem synchronize_kind (s : State) (atom : DatumId) (oldLoc newLoc : Option DatumId) :
    (synchronizeMovedAtomContents s atom oldLoc newLoc).kind = s.kind := by
  rw [synchronizeMovedAtomContents]
  by_cases hne : oldLoc.bind s.enclosingArea ≠ newLoc.bind s.enclosingArea
  · rw [if_pos hne, addToArea_kind, removeFrom_kind, addToLoc_kind, removeFrom_kind]
  · rw [if_neg hne, addToLoc_kind, removeFrom_kind]

theorem Sim.synchronize (h : Sim s t) {oldLoc : Option DatumId} (hloc : s.NotPendingIn atom newLoc)
    (harea : oldLoc.bind s.enclosingArea ≠ newLoc.bind s.enclosingArea →
      s.NotPendingIn atom (newLoc.bind s.enclosingArea)) :
    Sim (synchronizeMovedAtomContents s atom oldLoc newLoc)
      (synchronizeMovedAtomContents t atom oldLoc newLoc) := by
  rw [synchronizeMovedAtomContents, synchronizeMovedAtomContents, h.enclosingArea_eq]
  have hadded := (h.removeFrom atom oldLoc).addToLoc (hloc.removeFrom oldLoc)
  by_cases hne : oldLoc.bind s.enclosingArea ≠ newLoc.bind s.enclosingArea
  · rw [if_pos hne, if_pos hne]
    have hpending : ((s.removeFrom atom oldLoc).addToLoc atom newLoc).NotPendingIn atom
        (newLoc.bind s.enclosingArea) :=
      ((harea hne).removeFrom oldLoc).addToLoc (h.removeFrom atom oldLoc).wellFormed
    exact (hadded.removeFrom atom _).addToArea (hpending.removeFrom _)
  · rw [if_neg hne, if_neg hne]
    exact hadded

/-- The movable enters the contents of an area from which its removal is not queued. -/
structure State.EntersCleanly (s : State) (movable : DatumId) (newLoc : Option DatumId) : Prop where
  loc : s.loc movable ≠ newLoc → s.NotPendingIn movable newLoc
  area : (s.loc movable).bind s.enclosingArea ≠ newLoc.bind s.enclosingArea →
    s.NotPendingIn movable (newLoc.bind s.enclosingArea)

variable {movable : DatumId}

/-- Where a movable is does not matter to what encloses a turf. -/
theorem enclosingArea_setLoc (hkind : s.kind movable = .movable) (newLoc : Option DatumId) :
    (s.setLoc movable newLoc).enclosingArea = s.enclosingArea := by
  funext turf
  rw [State.enclosingArea, State.enclosingArea]
  show (if s.kind turf = .turf then _ else _) = _
  by_cases hturf : s.kind turf = .turf
  · have hne : turf ≠ movable := by
      rintro rfl
      rw [hkind] at hturf
      cases hturf
    rw [if_pos hturf, if_pos hturf]
    exact Function.update_of_ne hne newLoc s.loc
  · rw [if_neg hturf, if_neg hturf]

theorem Sim.setLoc_movable (h : Sim s t) (hkind : s.kind movable = .movable)
    (newLoc : Option DatumId) : Sim (s.setLoc movable newLoc) (t.setLoc movable newLoc) :=
  h.setLoc fun hturf => by rw [hkind] at hturf; cases hturf

/-- The move to any location, once it is known to be possible. -/
theorem Sim.moveMovable (h : Sim s t) {location : DatumId} (hkind : s.kind movable = .movable)
    (hclean : s.EntersCleanly movable (some location)) :
    Sim (World.moveMovableToTurf s movable location)
      (World.moveMovableToTurf t movable location) := by
  rw [World.moveMovableToTurf, World.moveMovableToTurf, h.loc_eq]
  have hset := h.setLoc_movable hkind (some location)
  by_cases hne : s.loc movable ≠ some location
  · rw [if_pos hne, if_pos hne]
    refine hset.synchronize (hclean.loc hne) ?_
    rw [enclosingArea_setLoc hkind]
    exact hclean.area
  · rw [if_neg hne, if_neg hne]
    exact hset

theorem insideItself_congr (hloc : t.loc = s.loc) (movable : DatumId) (fuel : Nat)
    (visited : List DatumId) (cursor : Option DatumId) :
    insideItself t movable fuel visited cursor = insideItself s movable fuel visited cursor := by
  induction fuel generalizing visited cursor with
  | zero => cases cursor <;> rfl
  | succ fuel ih =>
    cases cursor with
    | none => rfl
    | some container => rw [insideItself, insideItself, ih, hloc]

theorem Sim.moveMovableToAtom (h : Sim s t) {location : DatumId} (hkind : s.kind movable = .movable)
    (hclean : s.EntersCleanly movable (some location)) :
    Sim (World.moveMovableToAtom s movable location)
      (World.moveMovableToAtom t movable location) := by
  rw [World.moveMovableToAtom, World.moveMovableToAtom, insideItself_congr h.loc_eq,
    h.datumCount_eq, h.kind_eq]
  by_cases hinside : insideItself s movable (s.datumCount + 1) [] (some location) = true
  · rw [if_pos hinside, if_pos hinside]
    exact h
  · rw [if_neg hinside, if_neg hinside]
    by_cases hturf : s.kind location = .turf
    · rw [if_pos hturf, if_pos hturf]
      exact h.moveMovable hkind hclean
    · rw [if_neg hturf, if_neg hturf]
      exact h.moveMovable hkind hclean

theorem Sim.assignLoc (h : Sim s t) (hkind : s.kind movable = .movable)
    (hclean : s.EntersCleanly movable newLoc) :
    Sim (World.assignLoc s movable newLoc) (World.assignLoc t movable newLoc) := by
  cases newLoc with
  | some location =>
    rw [World.assignLoc, World.assignLoc, h.kind_eq]
    by_cases hturf : s.kind location = .turf
    · rw [if_pos hturf, if_pos hturf]
      exact h.moveMovable hkind hclean
    · rw [if_neg hturf, if_neg hturf]
      exact h.moveMovableToAtom hkind hclean
  | none =>
    rw [World.assignLoc, World.assignLoc, h.loc_eq]
    by_cases hne : s.loc movable ≠ none
    · rw [if_pos hne, if_pos hne]
      have hleft : Sim (synchronizeMovedAtomContents s movable (s.loc movable) none)
          (synchronizeMovedAtomContents t movable (s.loc movable) none) :=
        h.synchronize (hclean.loc hne) hclean.area
      exact hleft.setLoc_movable ((congrFun (synchronize_kind s _ _ _) movable).trans hkind) none
    · rw [if_neg hne, if_neg hne]
      exact h.setLoc_movable hkind none

/-! ## Reads -/

/-- The lists that a read looks at. -/
def Read.lists : Read → List ListId
  | .prepareIteration list | .length list | .lenField list | .indexList list _
  | .contains _ list | .copy list _ _ | .operatorSnapshot list | .locate _ list => [list]
  | .operator _ left (.list right) => [left, right]
  | .operator _ left (.value _) => [left]

variable {query : Read}

/-- A read sees the lists it looks at, their owners and where the entries are. -/
theorem observe_congr (hloc : t.loc = s.loc) (howners : t.contentsOwners = s.contentsOwners)
    (hlive : t.live = s.live) (hlists : ∀ list ∈ query.lists, t.lists list = s.lists list) :
    t.observe query = s.observe query := by
  have hsnapshot : ∀ list, t.lists list = s.lists list →
      t.listOperatorSnapshot list = s.listOperatorSnapshot list := by
    intro list hlist
    rw [State.listOperatorSnapshot, State.listOperatorSnapshot, hlist, hlive]
  have hcanonicalize : t.canonicalize = s.canonicalize := by
    funext value
    rw [State.canonicalize, State.canonicalize, hlive]
  cases query with
  | operator operator left right =>
    have hleft : t.lists left = s.lists left := by
      cases right <;> exact hlists left List.mem_cons_self
    have hright : t.operatorRhsEntries right = s.operatorRhsEntries right := by
      cases right with
      | list right =>
        exact hsnapshot right (hlists right (List.mem_cons_of_mem _ List.mem_cons_self))
      | value value => rfl
    simp only [State.observe, State.executeListBinaryOperator, hleft, hright, hsnapshot left hleft]
  | operatorSnapshot list =>
    simp only [State.observe, hsnapshot list (hlists list List.mem_cons_self)]
  | prepareIteration list =>
    simp only [State.observe, State.iterationSnapshot, hlists list List.mem_cons_self, hloc,
      howners]
  | indexList list index =>
    simp only [State.observe, hlists list List.mem_cons_self, hcanonicalize]
  | contains needle list =>
    simp only [State.observe, hlists list List.mem_cons_self, hcanonicalize]
  | _ list => simp only [State.observe, hlists _ List.mem_cons_self]

/-- No entry of the list is queued to be removed. -/
def State.Settled (s : State) (list : ListId) : Prop :=
  ∀ value ∈ s.pendingAreaUncontain list, value ∉ s.lists list

theorem Sim.lists_eq (h : Sim s t) (hsettled : s.Settled list) : t.lists list = s.lists list := by
  obtain ⟨rfl, -⟩ := h
  show subtractEntries _ _ = _
  rw [subtractEntries_eq]
  exact subtract_of_disjoint hsettled

theorem Sim.observe (h : Sim s t) (hsettled : ∀ list ∈ query.lists, s.Settled list) :
    t.observe query = s.observe query := by
  refine observe_congr h.loc_eq ?_ ?_ fun list hlist => h.lists_eq (hsettled list hlist)
  · rw [← h.flushAll_eq]
    rfl
  · rw [← h.flushAll_eq]
    rfl

/-! ## Clean runs -/

/-- What goes wrong in neither way: a read that does not flush sees no queued entry, and no
movable enters an area from whose contents its removal is queued. -/
def Op.Clean (s : State) : Op → Prop
  | .read query => query.flushes = none → ∀ list ∈ query.lists, s.Settled list
  | .addToTurf movable turf => s.EntersCleanly movable (some turf)
  | .place movable location => s.EntersCleanly movable (some location)
  | .assignLoc movable newLoc => s.EntersCleanly movable newLoc
  | .moveTurf _ _ | .flush _ | .flushAll => True

/-- Every operation is clean in the state the run has come to. -/
def CleanRun : State → List Op → Prop
  | _, [] => True
  | s, op :: ops => op.Clean s ∧ CleanRun (op.step queueAreaUncontain s).1 ops

theorem Sim.read (h : Sim s t) (hclean : (Op.read query).Clean s) :
    Sim (s.flushFor query) (t.flushFor query) ∧
      (t.flushFor query).observe query = (s.flushFor query).observe query := by
  rw [State.flushFor, State.flushFor]
  cases hflushes : query.flushes with
  | none => exact ⟨h, h.observe (hclean hflushes)⟩
  | some list =>
    have hflushed := h.flush list
    refine ⟨hflushed, hflushed.observe fun other hother => ?_⟩
    -- a read that flushes looks at the list it flushes
    have heq : other = list := by
      cases query <;> simp_all [Read.flushes, Read.lists]
    subst heq
    intro value hvalue
    have hnil : (s.flushAreaUncontain other).pendingAreaUncontain other = [] :=
      Function.update_self _ _ _
    rw [hnil] at hvalue
    cases hvalue

theorem Sim.operation (h : Sim s t) {op : Op} (hchecked : op.checked s = true) (hclean : op.Clean s) :
    Sim (op.run queueAreaUncontain s).1 (op.run uncontainNow t).1 ∧
      (op.run queueAreaUncontain s).2 = (op.run uncontainNow t).2 := by
  cases op with
  | moveTurf turf area =>
    have hkinds : s.kind turf = .turf ∧ s.kind area = .area := by simpa [Op.checked] using hchecked
    exact ⟨h.moveTurfToArea hkinds.1 hkinds.2, rfl⟩
  | addToTurf movable turf =>
    have hkinds : s.kind movable = .movable ∧ s.kind turf = .turf := by
      simpa [Op.checked] using hchecked
    exact ⟨h.moveMovable hkinds.1 hclean, rfl⟩
  | place movable location =>
    exact ⟨h.moveMovableToAtom (by simpa [Op.checked] using hchecked) hclean, rfl⟩
  | assignLoc movable location =>
    exact ⟨h.assignLoc (by simpa [Op.checked] using hchecked) hclean, rfl⟩
  | read query =>
    obtain ⟨hsim, hobserve⟩ := h.read hclean
    exact ⟨hsim, congrArg (fun observation => [observation]) hobserve.symm⟩
  | flush list => exact ⟨h.flush list, rfl⟩
  | flushAll => exact ⟨h.flushAll, rfl⟩

theorem Sim.step (h : Sim s t) {op : Op} (hclean : op.Clean s) :
    Sim (op.step queueAreaUncontain s).1 (op.step uncontainNow t).1 ∧
      (op.step queueAreaUncontain s).2 = (op.step uncontainNow t).2 := by
  have hchecked : op.checked t = op.checked s := by
    cases op <;> simp only [Op.checked, h.kind_eq]
  rw [Op.step, Op.step, hchecked]
  cases hcheck : op.checked s with
  | true => exact h.operation hcheck hclean
  | false => exact ⟨h, rfl⟩

theorem Sim.runs (h : Sim s t) (ops : List Op) (hclean : CleanRun s ops) :
    Sim (run queueAreaUncontain s ops).1 (run uncontainNow t ops).1 ∧
      (run queueAreaUncontain s ops).2 = (run uncontainNow t ops).2 := by
  induction ops generalizing s t with
  | nil => exact ⟨h, rfl⟩
  | cons op ops ih =>
    obtain ⟨hstep, hobserved⟩ := h.step hclean.1
    obtain ⟨hruns, hrest⟩ := ih hstep hclean.2
    exact ⟨hruns, congrArg₂ (· ++ ·) hobserved hrest⟩

theorem Sim.refl (hwell : s.WellFormed) (hpending : ∀ list, s.pendingAreaUncontain list = []) :
    Sim s s := by
  refine ⟨?_, hwell⟩
  have hlists : (fun list => subtractEntries (s.pendingAreaUncontain list) (s.lists list)) =
      s.lists := funext fun list => by rw [hpending list, subtractEntries_eq, subtract_nil]
  have hnone : (fun _ => []) = s.pendingAreaUncontain := funext fun list => (hpending list).symm
  rw [State.flushAllAreaUncontain, hlists, hnone]

/-- A clean run with queued removals observes what the run with immediate removals does, and
ends in its state once everything is flushed. -/
theorem deferred_run_eq (hwell : s.WellFormed)
    (hpending : ∀ list, s.pendingAreaUncontain list = []) (ops : List Op)
    (hclean : CleanRun s ops) :
    (run queueAreaUncontain s ops).2 = (run uncontainNow s ops).2 ∧
      (run queueAreaUncontain s ops).1.flushAllAreaUncontain = (run uncontainNow s ops).1 := by
  obtain ⟨hsim, hobserved⟩ := (Sim.refl hwell hpending).runs ops hclean
  exact ⟨hobserved, hsim.flushAll_eq⟩

/-! ## A turf that is still seen -/

/-- The areas 0 and 1, with the contents 0 and 1, and the turf 2 in the area 0. -/
def twoAreas : State where
  kind datum := if datum < 2 then .area else .turf
  live _ := true
  loc datum := if datum = 2 then some 0 else none
  contents datum := if datum < 2 then some datum else none
  contentsOwners list := if list < 2 then some list else none
  lists list := if list = 0 then [2] else []
  nextList := 2
  datumCount := 3
  pendingAreaUncontain _ := []

theorem twoAreas_wellFormed : twoAreas.WellFormed := by
  refine ⟨fun a b list ha hb => ?_, fun a list ha => ?_, fun turf area _ harea => ?_,
    fun list hne => absurd rfl hne⟩
  · simp only [twoAreas, Option.ite_none_right_eq_some, Option.some.injEq] at ha hb
    exact ha.2.trans hb.2.symm
  · simp only [twoAreas, Option.ite_none_right_eq_some, Option.some.injEq] at ha
    exact ha.2 ▸ ha.1
  · simp only [twoAreas, Option.ite_none_right_eq_some, Option.some.injEq] at harea
    rw [← harea.2]
    rfl

/-- The turf moves and the list it has left is asked for its length. -/
theorem deferred_run_eq_length :
    (run queueAreaUncontain twoAreas [.moveTurf 2 1, .read (.length 0)]).2 =
        (run uncontainNow twoAreas [.moveTurf 2 1, .read (.length 0)]).2 ∧
      (run queueAreaUncontain twoAreas [.moveTurf 2 1, .read (.length 0)]).1.flushAllAreaUncontain =
        (run uncontainNow twoAreas [.moveTurf 2 1, .read (.length 0)]).1 :=
  deferred_run_eq twoAreas_wellFormed (fun _ => rfl) _ ⟨trivial, nofun, trivial⟩

/-- The turf moves and the first entry of the list it has left is read. -/
theorem deferred_run_ne :
    ¬ ∀ (s : State) (ops : List Op), s.WellFormed →
      (∀ list, s.pendingAreaUncontain list = []) →
      (run queueAreaUncontain s ops).2 = (run uncontainNow s ops).2 ∧
        (run queueAreaUncontain s ops).1.flushAllAreaUncontain.lists =
          (run uncontainNow s ops).1.lists := by
  intro h
  have hobserved := (h twoAreas [.moveTurf 2 1, .read (.indexList 0 1)] twoAreas_wellFormed
    fun _ => rfl).1
  have hqueued : (run queueAreaUncontain twoAreas [.moveTurf 2 1, .read (.indexList 0 1)]).2 =
      [.value (some 2)] := by decide
  have hnow : (run uncontainNow twoAreas [.moveTurf 2 1, .read (.indexList 0 1)]).2 =
      [.error] := by decide
  rw [hqueued, hnow] at hobserved
  cases hobserved

end Dream64.World
