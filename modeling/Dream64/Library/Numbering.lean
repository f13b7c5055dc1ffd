import Dream64.Library.ParentGraph

/-!
# Numbering the nodes of a forest

A walk that goes from a node into its children counts a tick when it enters a
node and one when it leaves it. The two ticks of a node enclose those of the
nodes below it and no others. `Numbers` says this of some nodes and their
spans; `nil`, `append` and `wrap` are the rules for no node, for two groups of
nodes one after the other, and for a node around those below it.
-/

namespace ParentGraph

variable {α : Type} {f : α → Option α} {a b c : α}

/-- From one node up to another. -/
def Reaches (f : α → Option α) (a b : α) : Prop := ∃ k, climb f k a = some b

def below (f : α → Option α) (b : α) : Set α := {a | Reaches f a b}

theorem Reaches.refl (a : α) : Reaches f a a := ⟨0, rfl⟩

theorem Reaches.trans (hab : Reaches f a b) (hbc : Reaches f b c) : Reaches f a c := by
  obtain ⟨j, hj⟩ := hab
  obtain ⟨k, hk⟩ := hbc
  exact ⟨j + k, climb_trans hj hk⟩

theorem Reaches.parent (h : f a = some b) : Reaches f a b := ⟨1, by rw [climb_one, h]⟩

/-- The node itself, or one from its parent on. -/
theorem reaches_iff : Reaches f a b ↔ a = b ∨ ∃ c, f a = some c ∧ Reaches f c b := by
  constructor
  · rintro ⟨k, hk⟩
    cases k with
    | zero => exact .inl (Option.some.inj hk)
    | succ k =>
      obtain ⟨c, hc, hrest⟩ := Option.bind_eq_some_iff.1 hk
      exact .inr ⟨c, hc, k, hrest⟩
  · rintro (rfl | ⟨c, hc, hrest⟩)
    · exact .refl a
    · exact (Reaches.parent hc).trans hrest

/-- Of two nodes above one, one is above the other. -/
theorem Reaches.comparable (hb : Reaches f a b) (hc : Reaches f a c) :
    Reaches f b c ∨ Reaches f c b := by
  obtain ⟨j, hj⟩ := hb
  obtain ⟨k, hk⟩ := hc
  rcases Nat.le_total j k with hle | hle
  · obtain ⟨m, rfl⟩ := Nat.exists_eq_add_of_le hle
    rw [climb_add, hj] at hk
    exact .inl ⟨m, hk⟩
  · obtain ⟨m, rfl⟩ := Nat.exists_eq_add_of_le hle
    rw [climb_add, hk] at hj
    exact .inr ⟨m, hj⟩

/-- Parents that are smaller by some measure have no cycle. -/
theorem not_onCycle_of_lt {measure : α → Nat}
    (h : ∀ a b, f a = some b → measure b < measure a) (a : α) : ¬ OnCycle f a := by
  have hclimb (k : Nat) (a b : α) (hab : climb f k a = some b) : measure b + k ≤ measure a := by
    induction k generalizing a with
    | zero => exact (Option.some.inj hab) ▸ Nat.le_refl _
    | succ k ih =>
      obtain ⟨c, hc, hrest⟩ := Option.bind_eq_some_iff.1 hab
      have hlt := h a c hc
      have hle := ih c hrest
      omega
  rintro ⟨k, hk⟩
  have hle := hclimb (k + 1) a a hk
  omega

/-- Without cycles two nodes are not above each other. -/
theorem Reaches.antisymm (hacyclic : ∀ a, ¬ OnCycle f a) (hab : Reaches f a b)
    (hba : Reaches f b a) : a = b := by
  obtain ⟨j, hj⟩ := hab
  obtain ⟨k, hk⟩ := hba
  cases j with
  | zero => exact Option.some.inj hj
  | succ j =>
    have hround := climb_trans hj hk
    rw [show j + 1 + k = j + k + 1 by omega] at hround
    exact absurd ⟨_, hround⟩ (hacyclic a)

/-- Neither of two nodes is below the other. -/
def Unrelated (f : α → Option α) (a b : α) : Prop := ¬ Reaches f a b ∧ ¬ Reaches f b a

/-- Nothing below a node is related to anything below an unrelated one. -/
theorem Unrelated.below (h : Unrelated f b c) {x y : α} (hx : Reaches f x b) (hy : Reaches f y c) :
    Unrelated f x y := by
  constructor
  · intro hxy
    exact (hx.comparable (hxy.trans hy)).elim h.1 h.2
  · intro hyx
    exact ((hyx.trans hx).comparable hy).elim h.1 h.2

theorem unrelated_of_parent (hacyclic : ∀ a, ¬ OnCycle f a) (hne : a ≠ b) (ha : f a = some c)
    (hb : f b = some c) : Unrelated f a b := by
  have hnot {a b : α} (hne : a ≠ b) (ha : f a = some c) (hb : f b = some c) : ¬ Reaches f a b := by
    intro hab
    rcases reaches_iff.1 hab with heq | ⟨up, hup, hrest⟩
    · exact hne heq
    · rw [ha, Option.some.injEq] at hup
      rw [← hup] at hrest
      have heq := hrest.antisymm hacyclic (Reaches.parent hb)
      rw [heq] at hb
      exact hacyclic b ⟨0, by rw [climb_one, hb]⟩
  exact ⟨hnot hne ha hb, hnot hne.symm hb ha⟩

theorem unrelated_of_root (hne : a ≠ b) (ha : f a = none) (hb : f b = none) : Unrelated f a b := by
  have hnot {a b : α} (hne : a ≠ b) (ha : f a = none) : ¬ Reaches f a b := by
    intro hab
    rcases reaches_iff.1 hab with heq | ⟨up, hup, -⟩
    · exact hne heq
    · rw [ha] at hup
      cases hup
  exact ⟨hnot hne ha, hnot hne.symm hb⟩

/-! ## Spans -/

/-- A node with the ticks at which it was entered and left. -/
structure Span (α : Type) where
  node : α
  start : Nat
  stop : Nat

def Span.Within (one other : Span α) : Prop := other.start ≤ one.start ∧ one.stop ≤ other.stop

def Span.Apart (one other : Span α) : Prop := one.stop < other.start ∨ other.stop < one.start

/-- The spans of some nodes, with all the ticks of a range. -/
structure Numbers (f : α → Option α) (lo hi : Nat) (nodes : Set α) (spans : List (Span α)) :
    Prop where
  nodes : ∀ a, a ∈ nodes ↔ ∃ span ∈ spans, span.node = a
  inside : ∀ span ∈ spans, lo ≤ span.start ∧ span.start < span.stop ∧ span.stop < hi
  ticks : hi = lo + 2 * spans.length
  covers : ∀ tick, lo ≤ tick → tick < hi → ∃ span ∈ spans, span.start = tick ∨ span.stop = tick
  starts : (spans.map (·.start)).Nodup
  nested : ∀ one ∈ spans, ∀ other ∈ spans, one.Within other ↔ Reaches f one.node other.node
  laminar : ∀ one ∈ spans, ∀ other ∈ spans, one.Within other ∨ other.Within one ∨ one.Apart other

namespace Numbers

variable {lo mid hi : Nat} {nodes others : Set α} {spans more : List (Span α)}

theorem nil (f : α → Option α) (lo : Nat) : Numbers f lo lo ∅ [] where
  nodes a :=
    ⟨fun ha => absurd ha (Set.notMem_empty a), fun ⟨_, hspan, _⟩ => absurd hspan List.not_mem_nil⟩
  inside _ hspan := absurd hspan List.not_mem_nil
  ticks := rfl
  covers _ hlo hhi := absurd hlo (Nat.not_le.2 hhi)
  starts := List.nodup_nil
  nested _ hone := absurd hone List.not_mem_nil
  laminar _ hone := absurd hone List.not_mem_nil

theorem mem_nodes (h : Numbers f lo hi nodes spans) {span : Span α} (hspan : span ∈ spans) :
    span.node ∈ nodes := (h.nodes _).2 ⟨span, hspan, rfl⟩

/-- Unrelated nodes, one group after the other. -/
theorem append (h : Numbers f lo mid nodes spans) (h' : Numbers f mid hi others more)
    (hunrelated : ∀ a ∈ nodes, ∀ b ∈ others, Unrelated f a b) :
    Numbers f lo hi (nodes ∪ others) (spans ++ more) := by
  have hle : lo ≤ mid := by
    have := h.ticks
    omega
  have hle' : mid ≤ hi := by
    have := h'.ticks
    omega
  have happart (one : Span α) (hone : one ∈ spans) (other : Span α) (hother : other ∈ more) :
      one.stop < other.start ∧ Unrelated f one.node other.node := by
    have hbefore := h.inside one hone
    have hafter := h'.inside other hother
    exact ⟨by omega, hunrelated _ (h.mem_nodes hone) _ (h'.mem_nodes hother)⟩
  refine ⟨fun a => ?_, fun span hspan => ?_, ?_, fun tick hlo hhi => ?_, ?_,
    fun one hone other hother => ?_, fun one hone other hother => ?_⟩
  · rw [Set.mem_union, h.nodes, h'.nodes]
    simp only [List.mem_append, or_and_right, exists_or]
  · rcases List.mem_append.1 hspan with hspan | hspan
    · have := h.inside span hspan
      omega
    · have := h'.inside span hspan
      omega
  · have := h.ticks
    have := h'.ticks
    rw [List.length_append]
    omega
  · rcases Nat.lt_or_ge tick mid with hlt | hge
    · obtain ⟨span, hspan, htick⟩ := h.covers tick hlo hlt
      exact ⟨span, List.mem_append_left _ hspan, htick⟩
    · obtain ⟨span, hspan, htick⟩ := h'.covers tick hge hhi
      exact ⟨span, List.mem_append_right _ hspan, htick⟩
  · rw [List.map_append, List.nodup_append]
    refine ⟨h.starts, h'.starts, fun start hstart other hother heq => ?_⟩
    obtain ⟨span, hspan, rfl⟩ := List.mem_map.1 hstart
    obtain ⟨next, hnext, rfl⟩ := List.mem_map.1 hother
    have hbefore := h.inside span hspan
    have hafter := h'.inside next hnext
    omega
  · rcases List.mem_append.1 hone with hone | hone <;>
      rcases List.mem_append.1 hother with hother | hother
    · exact h.nested one hone other hother
    · obtain ⟨hlt, hnot⟩ := happart one hone other hother
      have hspan := h'.inside other hother
      refine iff_of_false (fun hwithin => ?_) hnot.1
      have := hwithin.1
      have := (h.inside one hone).2.1
      omega
    · obtain ⟨hlt, hnot⟩ := happart other hother one hone
      refine iff_of_false (fun hwithin => ?_) hnot.2
      have := hwithin.2
      have := (h'.inside one hone).2.1
      omega
    · exact h'.nested one hone other hother
  · rcases List.mem_append.1 hone with hone | hone <;>
      rcases List.mem_append.1 hother with hother | hother
    · exact h.laminar one hone other hother
    · exact .inr (.inr (.inl (happart one hone other hother).1))
    · exact .inr (.inr (.inr (happart other hother one hone).1))
    · exact h'.laminar one hone other hother

/-- A node around the nodes below it. -/
theorem wrap (hacyclic : ∀ a, ¬ OnCycle f a) (h : Numbers f (lo + 1) hi nodes spans)
    (hnodes : ∀ a, a ∈ nodes ↔ Reaches f a b ∧ a ≠ b) :
    Numbers f lo (hi + 1) (below f b) (spans ++ [⟨b, lo, hi⟩]) := by
  have hle : lo < hi := by
    have := h.ticks
    omega
  have hin (span : Span α) (hspan : span ∈ spans) :
      lo < span.start ∧ span.stop < hi ∧ Reaches f span.node b ∧ ¬ Reaches f b span.node := by
    have hinside := h.inside span hspan
    obtain ⟨hreaches, hne⟩ := (hnodes _).1 (h.mem_nodes hspan)
    exact ⟨by omega, by omega, hreaches, fun hback => hne (hreaches.antisymm hacyclic hback)⟩
  have hmem (span : Span α) : span ∈ spans ++ [⟨b, lo, hi⟩] ↔ span ∈ spans ∨ span = ⟨b, lo, hi⟩ := by
    rw [List.mem_append, List.mem_singleton]
  refine ⟨fun a => ?_, fun span hspan => ?_, ?_, fun tick hlo hhi => ?_, ?_,
    fun one hone other hother => ?_, fun one hone other hother => ?_⟩
  · constructor
    · intro ha
      by_cases heq : a = b
      · exact ⟨⟨b, lo, hi⟩, (hmem _).2 (.inr rfl), heq.symm⟩
      · obtain ⟨span, hspan, hnode⟩ := (h.nodes a).1 ((hnodes a).2 ⟨ha, heq⟩)
        exact ⟨span, (hmem _).2 (.inl hspan), hnode⟩
    · rintro ⟨span, hspan, rfl⟩
      rcases (hmem span).1 hspan with hspan | rfl
      · exact (hin span hspan).2.2.1
      · exact Reaches.refl b
  · rcases (hmem span).1 hspan with hspan | rfl
    · have := hin span hspan
      have := (h.inside span hspan).2.1
      omega
    · exact ⟨Nat.le_refl lo, hle, Nat.lt_succ_self hi⟩
  · have := h.ticks
    rw [List.length_append, List.length_singleton]
    omega
  · by_cases hfirst : tick = lo
    · exact ⟨⟨b, lo, hi⟩, (hmem _).2 (.inr rfl), .inl hfirst.symm⟩
    · by_cases hlast : tick = hi
      · exact ⟨⟨b, lo, hi⟩, (hmem _).2 (.inr rfl), .inr hlast.symm⟩
      · obtain ⟨span, hspan, htick⟩ := h.covers tick (by omega) (by omega)
        exact ⟨span, (hmem _).2 (.inl hspan), htick⟩
  · rw [List.map_append, List.nodup_append]
    refine ⟨h.starts, List.nodup_singleton _, fun start hstart other hother heq => ?_⟩
    obtain ⟨span, hspan, rfl⟩ := List.mem_map.1 hstart
    have hlast : other = lo := List.mem_singleton.1 hother
    have := (hin span hspan).1
    omega
  · rcases (hmem one).1 hone with hone | rfl <;> rcases (hmem other).1 hother with hother | rfl
    · exact h.nested one hone other hother
    · have hspan := hin one hone
      exact iff_of_true ⟨Nat.le_of_lt hspan.1, Nat.le_of_lt hspan.2.1⟩ hspan.2.2.1
    · have hspan := hin other hother
      refine iff_of_false (fun hwithin => ?_) hspan.2.2.2
      have hle : other.start ≤ lo := hwithin.1
      omega
    · exact iff_of_true ⟨Nat.le_refl _, Nat.le_refl _⟩ (Reaches.refl b)
  · rcases (hmem one).1 hone with hone | rfl <;> rcases (hmem other).1 hother with hother | rfl
    · exact h.laminar one hone other hother
    · have hspan := hin one hone
      exact .inl ⟨Nat.le_of_lt hspan.1, Nat.le_of_lt hspan.2.1⟩
    · have hspan := hin other hother
      exact .inr (.inl ⟨Nat.le_of_lt hspan.1, Nat.le_of_lt hspan.2.1⟩)
    · exact .inl ⟨Nat.le_refl _, Nat.le_refl _⟩

theorem congr (h : Numbers f lo hi nodes spans) (hnodes : ∀ a, a ∈ nodes ↔ a ∈ others) :
    Numbers f lo hi others spans := by
  refine ⟨fun a => ?_, h.inside, h.ticks, h.covers, h.starts, h.nested, h.laminar⟩
  rw [← hnodes a, h.nodes]

/-- A start tells a span. -/
theorem eq_of_start (h : Numbers f lo hi nodes spans) {one other : Span α} (hone : one ∈ spans)
    (hother : other ∈ spans) (heq : one.start = other.start) : one = other :=
  List.inj_on_of_nodup_map h.starts hone hother heq

/-- Every node has one span. -/
theorem length_eq (h : Numbers f lo hi nodes spans) {known : List α} (hknown : known.Nodup)
    (hmem : ∀ a, a ∈ nodes ↔ a ∈ known) : spans.length = known.length := by
  have hnodup : (spans.map (·.node)).Nodup := by
    refine (List.Nodup.of_map _ h.starts).map_on fun one hone other hother heq => ?_
    have hwithin := (h.nested one hone other hother).2 (heq ▸ Reaches.refl _)
    have hback := (h.nested other hother one hone).2 (heq ▸ Reaches.refl _)
    exact h.eq_of_start hone hother (Nat.le_antisymm hback.1 hwithin.1)
  have hperm : (spans.map (·.node)).Perm known := by
    refine (List.perm_ext_iff_of_nodup hnodup hknown).2 fun a => ?_
    rw [← hmem, h.nodes, List.mem_map]
  rw [← hperm.length_eq, List.length_map]

end Numbers

/-! ## The last start -/

/-- After the last start come the stops of a branch of nodes. -/
structure LastStart (hi depth : Nat) (spans : List (Span α)) : Prop where
  within : ∀ span ∈ spans, span.start + depth < hi
  reached : spans ≠ [] → ∃ span ∈ spans, span.start + depth + 1 = hi
  empty : spans = [] → depth = 0

namespace LastStart

variable {lo mid hi depth count : Nat} {spans more : List (Span α)}

theorem nil (hi : Nat) : LastStart hi 0 ([] : List (Span α)) where
  within _ hspan := absurd hspan List.not_mem_nil
  reached h := absurd rfl h
  empty _ := rfl

theorem append (h : LastStart mid count spans) (hle : mid + depth < hi)
    (h' : LastStart hi depth more) (hmore : more ≠ []) : LastStart hi depth (spans ++ more) := by
  refine ⟨fun span hspan => ?_, fun _ => ?_, fun hnil => ?_⟩
  · rcases List.mem_append.1 hspan with hspan | hspan
    · have := h.within span hspan
      omega
    · exact h'.within span hspan
  · obtain ⟨span, hspan, hstart⟩ := h'.reached hmore
    exact ⟨span, List.mem_append_right _ hspan, hstart⟩
  · exact absurd (List.append_eq_nil_iff.1 hnil).2 hmore

theorem wrap (h : LastStart hi depth spans) (b : α) (hlo : lo < hi)
    (hspans : ∀ span ∈ spans, lo < span.start) (hempty : spans = [] → hi = lo + 1) :
    LastStart (hi + 1) (depth + 1) (spans ++ [⟨b, lo, hi⟩]) := by
  refine ⟨fun span hspan => ?_, fun _ => ?_, fun hnil => ?_⟩
  · rcases List.mem_append.1 hspan with hspan | hspan
    · have := h.within span hspan
      omega
    · rw [List.mem_singleton] at hspan
      have hstart : span.start = lo := by rw [hspan]
      by_cases hnil : spans = []
      · have := h.empty hnil
        omega
      · obtain ⟨last, hlast, hreached⟩ := h.reached hnil
        have := hspans last hlast
        omega
  · by_cases hnil : spans = []
    · have hdepth := h.empty hnil
      have hhi := hempty hnil
      refine ⟨⟨b, lo, hi⟩, List.mem_append_right _ (List.mem_singleton_self _), ?_⟩
      show lo + (depth + 1) + 1 = hi + 1
      omega
    · obtain ⟨last, hlast, hreached⟩ := h.reached hnil
      exact ⟨last, List.mem_append_left _ hlast, by omega⟩
  · exact absurd (List.append_eq_nil_iff.1 hnil).2 (List.cons_ne_nil _ _)

end LastStart

/-! ## A clock that stops

The clock may have a last tick, at which it stays. -/

def Span.cap (limit : Nat) (span : Span α) : Span α :=
  ⟨span.node, min span.start limit, min span.stop limit⟩

/-- The spans tell which nodes are below which. -/
structure Decide (f : α → Option α) (spans : List (Span α)) : Prop where
  nested : ∀ one ∈ spans, ∀ other ∈ spans, one.Within other ↔ Reaches f one.node other.node
  distinct : ∀ one ∈ spans, ∀ other ∈ spans, one.node ≠ other.node →
    (one.start, one.stop) ≠ (other.start, other.stop)
  laminar : ∀ one ∈ spans, ∀ other ∈ spans, one.Within other ∨ other.Within one ∨ one.Apart other

namespace Numbers

variable {lo hi limit : Nat} {nodes : Set α} {spans : List (Span α)}

theorem decide_cap (h : Numbers f lo hi nodes spans) (hlimit : ∀ span ∈ spans, span.start ≤ limit) :
    Decide f (spans.map (Span.cap limit)) := by
  have hstart (span : Span α) (hspan : span ∈ spans) : (span.cap limit).start = span.start :=
    Nat.min_eq_left (hlimit span hspan)
  have hstop (span : Span α) : (span.cap limit).stop = min span.stop limit := rfl
  have hwithin (one : Span α) (hone : one ∈ spans) (other : Span α) (hother : other ∈ spans) :
      (one.cap limit).Within (other.cap limit) ↔ one.Within other := by
    unfold Span.Within
    rw [hstart one hone, hstart other hother, hstop, hstop]
    constructor
    · rintro ⟨hle, hle'⟩
      have := hlimit one hone
      have := (h.inside one hone).2.1
      have := (h.inside other hother).2.1
      rcases h.laminar one hone other hother with hwithin | hwithin | hapart
      · exact hwithin
      · have heq : one.start = other.start := Nat.le_antisymm hwithin.1 hle
        rw [h.eq_of_start hone hother heq]
        exact ⟨Nat.le_refl _, Nat.le_refl _⟩
      · unfold Span.Apart at hapart
        omega
    · rintro ⟨hle, hle'⟩
      omega
  have hspans (span : Span α) (hspan : span ∈ spans.map (Span.cap limit)) :
      ∃ one ∈ spans, one.cap limit = span := List.mem_map.1 hspan
  refine ⟨fun span hspan span' hspan' => ?_, fun span hspan span' hspan' hne => ?_,
    fun span hspan span' hspan' => ?_⟩ <;>
    obtain ⟨one, hone, rfl⟩ := hspans span hspan <;>
    obtain ⟨other, hother, rfl⟩ := hspans span' hspan'
  · rw [hwithin one hone other hother]
    exact h.nested one hone other hother
  · intro heq
    have hstarts := (Prod.mk.inj heq).1
    rw [hstart one hone, hstart other hother] at hstarts
    have hsame := h.eq_of_start hone hother hstarts
    exact hne (by rw [hsame])
  · rw [hwithin one hone other hother, hwithin other hother one hone]
    rcases h.laminar one hone other hother with hnest | hnest | hapart
    · exact .inl hnest
    · exact .inr (.inl hnest)
    · refine .inr (.inr ?_)
      have := hlimit one hone
      have := hlimit other hother
      unfold Span.Apart at hapart ⊢
      rw [hstart one hone, hstart other hother, hstop, hstop]
      omega

/-- A node that was entered after the last tick has the end of another's span. -/
theorem not_decide_cap (h : Numbers f lo hi nodes spans) (hlo : lo ≤ limit) {late : Span α}
    (hlate : late ∈ spans) (hlimit : limit < late.start) :
    ¬ Decide f (spans.map (Span.cap limit)) := by
  intro hdecide
  have hhi : limit < hi := by
    have := h.inside late hlate
    omega
  obtain ⟨span, hspan, htick⟩ := h.covers limit hlo hhi
  have hcap : (span.cap limit).stop = limit := by
    have := (h.inside span hspan).2.1
    show min span.stop limit = limit
    omega
  have hwithin : (late.cap limit).Within (span.cap limit) := by
    refine ⟨?_, ?_⟩
    · show min span.start limit ≤ min late.start limit
      omega
    · rw [hcap]
      exact Nat.min_le_right _ _
  have hbelow := (hdecide.nested _ (List.mem_map_of_mem hlate) _ (List.mem_map_of_mem hspan)).1 hwithin
  rcases htick with hstart | hstop
  · -- both spans are the last tick alone
    have hlateStop := (h.inside late hlate).2.1
    have hsame : (span.cap limit).Within (late.cap limit) := by
      refine ⟨?_, ?_⟩
      · show min late.start limit ≤ min span.start limit
        omega
      · show min span.stop limit ≤ min late.stop limit
        omega
    have hback := (hdecide.nested _ (List.mem_map_of_mem hspan) _ (List.mem_map_of_mem hlate)).1 hsame
    have hstarts := ((h.nested span hspan late hlate).2 hback).1
    omega
  · have hstops := ((h.nested late hlate span hspan).2 hbelow).2
    have := (h.inside late hlate).2.1
    omega

end Numbers

end ParentGraph
