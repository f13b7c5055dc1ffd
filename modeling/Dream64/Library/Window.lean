import Mathlib

/-!
# Events that are returned until they are acknowledged

Events get numbers in the order in which they are produced. A poll that finds
everything acknowledged that was returned before takes all the events there
are; any other poll returns again what is not acknowledged, and nothing else.
An acknowledgement covers the returned events up to its number. `Delivered`
says what the polls of such an exchange have in common, without the window.
-/

namespace Window

/-- What happens at the two ends of a channel, in its order. -/
inductive Exchange (E : Type) where
  | produced (event : E)
  | polled (batch : List (Nat × E))
  | acknowledged (sequence : Nat)
deriving DecidableEq, Repr

variable {E : Type}

/-- The events with their numbers, from one on. -/
def numbered (events : List E) : List (Nat × E) := events.zipIdx.map fun p => (p.2 + 1, p.1)

/-- What was produced, how many of these events were returned, and how many of those are
acknowledged. -/
structure State (E : Type) where
  produced : List E
  taken : Nat
  acked : Nat
deriving DecidableEq, Repr

namespace State

def initial : State E := ⟨[], 0, 0⟩

/-- What was returned and is not acknowledged. -/
def batch (s : State E) : List (Nat × E) := ((numbered s.produced).take s.taken).drop s.acked

def poll (s : State E) : State E :=
  if s.acked = s.taken then { s with taken := s.produced.length } else s

def step (s : State E) : Exchange E → State E
  | .produced event => { s with produced := s.produced ++ [event] }
  | .polled _ => s.poll
  | .acknowledged sequence => { s with acked := max s.acked (min s.taken sequence) }

/-- The polls are answered with the batch of the window. -/
def Answers (s : State E) : Exchange E → Prop
  | .polled batch => batch = s.poll.batch
  | _ => True

end State

/-! ## What the exchange says -/

def producedIn (exchanges : List (Exchange E)) : List E :=
  exchanges.filterMap fun
    | .produced event => some event
    | _ => none

/-- A poll has returned the event. -/
def Returned (exchanges : List (Exchange E)) (n : Nat) (event : E) : Prop :=
  ∃ batch, .polled batch ∈ exchanges ∧ (n, event) ∈ batch

/-- The number was acknowledged after an event was returned with it. -/
def Acked (exchanges : List (Exchange E)) (n : Nat) : Prop :=
  ∃ before after sequence, exchanges = before ++ .acknowledged sequence :: after ∧ n ≤ sequence ∧
    ∃ event, Returned before n event

/-- What a poll returns after an exchange. -/
structure Answered (before : List (Exchange E)) (batch : List (Nat × E)) : Prop where
  /-- Numbers follow the order of production. -/
  numbered : ∀ n event, (n, event) ∈ batch →
    ∃ i, n = i + 1 ∧ (producedIn before)[i]? = some event
  sorted : (batch.map Prod.fst).Pairwise (· < ·)
  /-- What was returned and is not acknowledged is returned again. -/
  again : ∀ n event, Returned before n event → ¬ Acked before n → (n, event) ∈ batch
  /-- What is acknowledged is not returned. -/
  gone : ∀ n event, (n, event) ∈ batch → ¬ Acked before n
  /-- Nothing is left out once all that was returned is acknowledged. -/
  complete : (∀ n event, Returned before n event → Acked before n) →
    ∀ (i : Nat) (event : E), (producedIn before)[i]? = some event → ¬ Acked before (i + 1) →
      (i + 1, event) ∈ batch
  /-- A number that comes for the first time is larger than all before. -/
  later : ∀ n event, (n, event) ∈ batch → (∀ other, ¬ Returned before n other) →
    ∀ m other, Returned before m other → m < n

/-- Every poll of the exchange. -/
def Delivered (exchanges : List (Exchange E)) : Prop :=
  ∀ before batch after, exchanges = before ++ .polled batch :: after → Answered before batch

/-! ## Numbers -/

theorem numbered_getElem? (events : List E) (i : Nat) :
    (numbered events)[i]? = events[i]?.map fun event => (i + 1, event) := by
  rw [numbered, List.getElem?_map, List.getElem?_zipIdx, Option.map_map]
  simp only [Function.comp_def, Nat.zero_add]

theorem length_numbered (events : List E) : (numbered events).length = events.length := by
  rw [numbered, List.length_map, List.length_zipIdx]

theorem sorted_numbered (events : List E) :
    ((numbered events).map Prod.fst).Pairwise (· < ·) := by
  have hfst : (numbered events).map Prod.fst = (List.range' 0 events.length).map (· + 1) := by
    rw [numbered, List.map_map, ← List.zipIdx_map_snd 0 events, List.map_map]
    rfl
  rw [hfst, List.pairwise_map]
  have hrange : (List.range' 0 events.length).Pairwise (· < ·) := List.pairwise_lt_range'
  exact hrange.imp Nat.succ_lt_succ

theorem mem_batch {s : State E} {n : Nat} {event : E} :
    (n, event) ∈ s.batch ↔
      ∃ i, s.acked ≤ i ∧ i < s.taken ∧ n = i + 1 ∧ s.produced[i]? = some event := by
  rw [State.batch, List.mem_iff_getElem?]
  simp only [List.getElem?_drop, List.getElem?_take, numbered_getElem?]
  constructor
  · rintro ⟨j, hj⟩
    split at hj
    · rename_i hlt
      obtain ⟨event', hevent, heq⟩ := Option.map_eq_some_iff.1 hj
      cases heq
      exact ⟨s.acked + j, Nat.le_add_right _ _, hlt, rfl, hevent⟩
    · cases hj
  · rintro ⟨i, hle, hlt, rfl, hevent⟩
    refine ⟨i - s.acked, ?_⟩
    rw [Nat.add_sub_cancel' hle, if_pos hlt, hevent]
    rfl

/-! ## The window after an exchange -/

/-- The window says what has been returned and acknowledged. -/
structure Explains (s : State E) (exchanges : List (Exchange E)) : Prop where
  produced : s.produced = producedIn exchanges
  acked_le : s.acked ≤ s.taken
  taken_le : s.taken ≤ s.produced.length
  returned : ∀ n event, Returned exchanges n event ↔
    ∃ i, i < s.taken ∧ n = i + 1 ∧ s.produced[i]? = some event
  acked : ∀ n, Acked exchanges n ↔ 1 ≤ n ∧ n ≤ s.acked

variable {s : State E} {exchanges : List (Exchange E)}

theorem explains_initial : Explains (.initial : State E) [] where
  produced := rfl
  acked_le := Nat.le_refl 0
  taken_le := Nat.le_refl 0
  returned n event := by
    constructor
    · rintro ⟨batch, hmem, -⟩
      cases hmem
    · rintro ⟨i, hlt, -⟩
      exact absurd hlt (Nat.not_lt_zero i)
  acked n := by
    constructor
    · rintro ⟨before, after, sequence, hsplit, -⟩
      simp at hsplit
    · rintro ⟨hpos, hle⟩
      exact absurd (Nat.le_trans hpos hle) (Nat.not_succ_le_zero 0)

theorem returned_concat {exchange : Exchange E} {n : Nat} {event : E} :
    Returned (exchanges ++ [exchange]) n event ↔
      Returned exchanges n event ∨ ∃ batch, exchange = .polled batch ∧ (n, event) ∈ batch := by
  constructor
  · rintro ⟨batch, hmem, hin⟩
    rcases List.mem_append.1 hmem with hmem | hmem
    · exact .inl ⟨batch, hmem, hin⟩
    · exact .inr ⟨batch, (List.mem_singleton.1 hmem).symm, hin⟩
  · rintro (⟨batch, hmem, hin⟩ | ⟨batch, rfl, hin⟩)
    · exact ⟨batch, List.mem_append_left _ hmem, hin⟩
    · exact ⟨batch, List.mem_append_right _ (List.mem_singleton_self _), hin⟩

theorem acked_concat {exchange : Exchange E} {n : Nat} :
    Acked (exchanges ++ [exchange]) n ↔ Acked exchanges n ∨
      ∃ sequence, exchange = .acknowledged sequence ∧ n ≤ sequence ∧
        ∃ event, Returned exchanges n event := by
  constructor
  · rintro ⟨before, after, sequence, hsplit, hle, hreturned⟩
    rcases List.eq_nil_or_concat after with rfl | ⟨rest, last, rfl⟩
    · obtain ⟨hbefore, hlast⟩ := List.append_inj' hsplit rfl
      subst hbefore
      exact .inr ⟨sequence, List.singleton_inj.1 hlast, hle, hreturned⟩
    · rw [List.concat_eq_append, ← List.cons_append, ← List.append_assoc] at hsplit
      obtain ⟨hbefore, -⟩ := List.append_inj' hsplit rfl
      exact .inl ⟨before, rest, sequence, hbefore, hle, hreturned⟩
  · rintro (⟨before, after, sequence, rfl, hle, hreturned⟩ | ⟨sequence, rfl, hle, hreturned⟩)
    · exact ⟨before, after ++ [exchange], sequence, by simp, hle, hreturned⟩
    · exact ⟨exchanges, [], sequence, rfl, hle, hreturned⟩

theorem producedIn_concat (exchanges : List (Exchange E)) (exchange : Exchange E) :
    producedIn (exchanges ++ [exchange]) = producedIn exchanges ++ producedIn [exchange] :=
  List.filterMap_append

theorem Explains.produce (h : Explains s exchanges) (event : E) :
    Explains (s.step (.produced event)) (exchanges ++ [.produced event]) where
  produced := by
    rw [producedIn_concat, ← h.produced]
    rfl
  acked_le := h.acked_le
  taken_le := by
    show s.taken ≤ (s.produced ++ [event]).length
    rw [List.length_append]
    exact Nat.le_add_right_of_le h.taken_le
  returned n other := by
    rw [returned_concat, h.returned]
    constructor
    · rintro (⟨i, hlt, hn, hother⟩ | ⟨batch, hbatch, -⟩)
      · refine ⟨i, hlt, hn, ?_⟩
        show (s.produced ++ [event])[i]? = _
        rw [List.getElem?_append_left (Nat.lt_of_lt_of_le hlt h.taken_le), hother]
      · cases hbatch
    · rintro ⟨i, hlt, hn, hother⟩
      change (s.produced ++ [event])[i]? = _ at hother
      rw [List.getElem?_append_left (Nat.lt_of_lt_of_le hlt h.taken_le)] at hother
      exact .inl ⟨i, hlt, hn, hother⟩
  acked n := by
    rw [acked_concat, h.acked]
    constructor
    · rintro (hacked | ⟨sequence, hsequence, -⟩)
      · exact hacked
      · cases hsequence
    · exact .inl

theorem Explains.acknowledge (h : Explains s exchanges) (sequence : Nat) :
    Explains (s.step (.acknowledged sequence)) (exchanges ++ [.acknowledged sequence]) where
  produced := by
    rw [producedIn_concat, ← h.produced]
    exact (List.append_nil _).symm
  acked_le := Nat.max_le.2 ⟨h.acked_le, Nat.min_le_left _ _⟩
  taken_le := h.taken_le
  returned n event := by
    rw [returned_concat, h.returned]
    constructor
    · rintro (hreturned | ⟨batch, hbatch, -⟩)
      · exact hreturned
      · cases hbatch
    · exact .inl
  acked n := by
    have hreturned : (∃ event, Returned exchanges n event) ↔ 1 ≤ n ∧ n ≤ s.taken := by
      constructor
      · rintro ⟨event, hevent⟩
        obtain ⟨i, hlt, rfl, -⟩ := (h.returned n event).1 hevent
        exact ⟨Nat.le_add_left 1 i, hlt⟩
      · rintro ⟨hpos, hle⟩
        have hlt : n - 1 < s.produced.length := by
          have := h.taken_le
          omega
        exact ⟨_, (h.returned n _).2 ⟨n - 1, by omega, by omega, List.getElem?_eq_getElem hlt⟩⟩
    rw [acked_concat, h.acked]
    show _ ↔ 1 ≤ n ∧ n ≤ max s.acked (min s.taken sequence)
    constructor
    · rintro (hacked | ⟨sequence', heq, hle, hevent⟩)
      · exact ⟨hacked.1, le_max_of_le_left hacked.2⟩
      · cases heq
        have htaken := hreturned.1 hevent
        exact ⟨htaken.1, le_max_of_le_right (Nat.le_min.2 ⟨htaken.2, hle⟩)⟩
    · rintro ⟨hpos, hle⟩
      by_cases hacked : n ≤ s.acked
      · exact .inl ⟨hpos, hacked⟩
      · refine .inr ⟨sequence, rfl, by omega, hreturned.2 ⟨hpos, by omega⟩⟩

theorem Explains.polled (h : Explains s exchanges) :
    Explains s.poll (exchanges ++ [.polled s.poll.batch]) where
  produced := by
    rw [producedIn_concat, ← h.produced, State.poll]
    split
    · exact (List.append_nil _).symm
    · exact (List.append_nil _).symm
  acked_le := by
    have hacked := h.acked_le
    have htaken := h.taken_le
    rw [State.poll]
    split
    · show s.acked ≤ s.produced.length
      omega
    · exact hacked
  taken_le := by
    rw [State.poll]
    split
    · exact Nat.le_refl _
    · exact h.taken_le
  returned n event := by
    have htaken := h.taken_le
    rw [returned_concat, h.returned]
    constructor
    · rintro (⟨i, hlt, hn, hevent⟩ | ⟨batch, hbatch, hin⟩)
      · refine ⟨i, ?_, hn, ?_⟩
        · rw [State.poll]
          split
          · exact Nat.lt_of_lt_of_le hlt htaken
          · exact hlt
        · rw [State.poll]
          split
          · exact hevent
          · exact hevent
      · cases hbatch
        obtain ⟨i, -, hlt, hn, hevent⟩ := mem_batch.1 hin
        exact ⟨i, hlt, hn, hevent⟩
    · rintro ⟨i, hlt, hn, hevent⟩
      by_cases hold : i < s.taken
      · refine .inl ⟨i, hold, hn, ?_⟩
        rw [State.poll] at hevent
        split at hevent
        · exact hevent
        · exact hevent
      · -- What this poll takes is in its batch.
        refine .inr ⟨_, rfl, mem_batch.2 ⟨i, ?_, hlt, hn, hevent⟩⟩
        have hacked := h.acked_le
        rw [State.poll]
        split
        · show s.acked ≤ i
          omega
        · omega
  acked n := by
    rw [acked_concat, h.acked]
    have hsame : s.poll.acked = s.acked := by
      rw [State.poll]
      split
      · rfl
      · rfl
    rw [hsame]
    constructor
    · rintro (hacked | ⟨sequence, hsequence, -⟩)
      · exact hacked
      · cases hsequence
    · exact .inl

theorem Explains.answered (h : Explains s exchanges) : Answered exchanges s.poll.batch := by
  have hacked := h.acked_le
  have htaken := h.taken_le
  have hproduced : s.poll.produced = s.produced := by
    rw [State.poll]
    split
    · rfl
    · rfl
  have hpollAcked : s.poll.acked = s.acked := by
    rw [State.poll]
    split
    · rfl
    · rfl
  have hgrows : s.taken ≤ s.poll.taken := by
    rw [State.poll]
    split
    · exact htaken
    · exact Nat.le_refl _
  refine ⟨fun n event hin => ?_, ?_, fun n event hreturned hnot => ?_, fun n event hin hgone => ?_,
    fun hall i event hevent hnot => ?_, fun n event hin hnew m other hreturned => ?_⟩
  · obtain ⟨i, -, -, hn, hevent⟩ := mem_batch.1 hin
    exact ⟨i, hn, by rwa [← h.produced, ← hproduced]⟩
  · rw [State.batch, List.map_drop, List.map_take]
    exact ((sorted_numbered s.poll.produced).sublist (List.take_sublist _ _)).sublist
      (List.drop_sublist _ _)
  · obtain ⟨i, hlt, rfl, hevent⟩ := (h.returned n event).1 hreturned
    rw [h.acked] at hnot
    exact mem_batch.2 ⟨i, by omega, by omega, rfl, by rwa [hproduced]⟩
  · obtain ⟨i, hle, -, rfl, -⟩ := mem_batch.1 hin
    have := (h.acked _).1 hgone
    omega
  · have hnone : s.acked = s.taken := by
      by_contra hne
      have hlt : s.acked < s.produced.length := by omega
      have hreturned := (h.returned (s.acked + 1) _).2
        ⟨s.acked, by omega, rfl, List.getElem?_eq_getElem hlt⟩
      have := (h.acked _).1 (hall _ _ hreturned)
      omega
    rw [← h.produced] at hevent
    rw [h.acked] at hnot
    have hlt := (List.getElem?_eq_some_iff.1 hevent).1
    have hpoll : s.poll.taken = s.produced.length := by
      rw [State.poll, if_pos hnone]
    exact mem_batch.2 ⟨i, by omega, by omega, rfl, by rwa [hproduced]⟩
  · obtain ⟨i, -, -, rfl, hevent⟩ := mem_batch.1 hin
    obtain ⟨j, hj, rfl, -⟩ := (h.returned m other).1 hreturned
    have hnot : ¬ i < s.taken := by
      intro hlt
      exact hnew event ((h.returned _ _).2 ⟨i, hlt, rfl, by rwa [← hproduced]⟩)
    omega

theorem delivered_nil : Delivered ([] : List (Exchange E)) := by
  intro before batch after hsplit
  simp at hsplit

theorem Delivered.concat (hdelivered : Delivered exchanges) (h : Explains s exchanges)
    {exchange : Exchange E} (hanswers : s.Answers exchange) :
    Delivered (exchanges ++ [exchange]) := by
  intro before batch after hsplit
  rcases List.eq_nil_or_concat after with rfl | ⟨rest, last, rfl⟩
  · obtain ⟨hbefore, hlast⟩ := List.append_inj' hsplit rfl
    subst hbefore
    have hexchange := List.singleton_inj.1 hlast
    subst hexchange
    have hbatch : batch = s.poll.batch := hanswers
    rw [hbatch]
    exact h.answered
  · rw [List.concat_eq_append, ← List.cons_append, ← List.append_assoc] at hsplit
    obtain ⟨hbefore, -⟩ := List.append_inj' hsplit rfl
    exact hdelivered before batch rest hbefore

/-! ## Many events at once -/

theorem producedIn_append (first second : List (Exchange E)) :
    producedIn (first ++ second) = producedIn first ++ producedIn second :=
  List.filterMap_append

theorem Explains.produceAll (h : Explains s exchanges) (events : List E) :
    Explains { s with produced := s.produced ++ events } (exchanges ++ events.map .produced) := by
  induction events generalizing s exchanges with
  | nil => simpa using h
  | cons event rest ih =>
    have hrest := ih (h.produce event)
    simpa [State.step] using hrest

theorem Delivered.produceAll (hdelivered : Delivered exchanges) (h : Explains s exchanges)
    (events : List E) : Delivered (exchanges ++ events.map .produced) := by
  induction events generalizing s exchanges with
  | nil => simpa using hdelivered
  | cons event rest ih =>
    have hrest := ih (hdelivered.concat h (show s.Answers (.produced event) from trivial)) (h.produce event)
    simpa using hrest

/-! ## The window as a list -/

theorem State.batch_eq_nil (hacked : s.acked ≤ s.taken) (htaken : s.taken ≤ s.produced.length) :
    s.batch = [] ↔ s.acked = s.taken := by
  rw [← List.length_eq_zero_iff, State.batch, List.length_drop, List.length_take, length_numbered]
  omega

theorem State.batch_poll (h : s.acked = s.taken) :
    s.poll.batch = (numbered s.produced).drop s.taken := by
  rw [State.poll, if_pos h, State.batch, h]
  show ((numbered s.produced).take s.produced.length).drop s.taken = _
  rw [← length_numbered, List.take_length]

/-- The events from some number on. -/
def numberedFrom (n : Nat) (events : List E) : List (Nat × E) :=
  (events.zipIdx n).map fun p => (p.2 + 1, p.1)

theorem drop_numberedFrom (start : Nat) (events : List E) (n : Nat) :
    (numberedFrom start events).drop n = numberedFrom (start + n) (events.drop n) := by
  induction n generalizing start events with
  | zero => rfl
  | succ n ih =>
    cases events with
    | nil => rfl
    | cons event rest =>
      show (numberedFrom (start + 1) rest).drop n = _
      rw [ih, Nat.add_assoc, Nat.add_comm 1 n]
      rfl

theorem take_numbered (events : List E) (n : Nat) :
    (numbered events).take n = numbered (events.take n) := by
  apply List.ext_getElem?
  intro i
  rw [List.getElem?_take, numbered_getElem?, numbered_getElem?, List.getElem?_take]
  split
  · rfl
  · rfl

theorem filter_numberedFrom (start : Nat) (events : List E) (sequence : Nat) :
    ((numberedFrom start events).filter fun entry => decide (sequence < entry.1)) =
      (numberedFrom start events).drop (sequence - start) := by
  induction events generalizing start with
  | nil => rw [numberedFrom, List.zipIdx_nil, List.map_nil, List.filter_nil, List.drop_nil]
  | cons event rest ih =>
    show List.filter _ ((start + 1, event) :: numberedFrom (start + 1) rest) =
      List.drop _ ((start + 1, event) :: numberedFrom (start + 1) rest)
    by_cases hkept : sequence < start + 1
    · have hstart : sequence - start = 0 := by omega
      have hnext : sequence - (start + 1) = 0 := by omega
      rw [List.filter_cons_of_pos (by simpa using hkept), ih, hstart, hnext, List.drop_zero,
        List.drop_zero]
    · have hstart : sequence - start = sequence - (start + 1) + 1 := by omega
      rw [List.filter_cons_of_neg (by simpa using hkept), ih, hstart, List.drop_succ_cons]

theorem State.batch_eq (s : State E) :
    s.batch = numberedFrom s.acked ((s.produced.take s.taken).drop s.acked) := by
  rw [batch, take_numbered]
  show (numberedFrom 0 _).drop s.acked = _
  rw [drop_numberedFrom, Nat.zero_add]

/-- An acknowledgement leaves the later numbers of the batch. -/
theorem State.batch_acknowledge (s : State E) (sequence : Nat) :
    (s.step (.acknowledged sequence)).batch =
      s.batch.filter fun entry => decide (sequence < entry.1) := by
  rw [batch_eq s, filter_numberedFrom, drop_numberedFrom, List.drop_drop, batch_eq]
  show numberedFrom (max s.acked (min s.taken sequence))
    ((s.produced.take s.taken).drop (max s.acked (min s.taken sequence))) = _
  by_cases hsequence : sequence ≤ s.taken
  · have hmax : max s.acked (min s.taken sequence) = s.acked + (sequence - s.acked) := by omega
    rw [hmax]
  · -- Both sides are empty.
    have hlength : (s.produced.take s.taken).length ≤ s.taken := List.length_take_le _ _
    rw [List.drop_eq_nil_of_le (by omega), List.drop_eq_nil_of_le (by omega)]
    rfl

end Window
