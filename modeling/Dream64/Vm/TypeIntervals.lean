import Dream64.Core
import Dream64.Library.Numbering

/-!
# Type intervals

`build_type_intervals` walks the types from those without a known parent into
their children and gives each type the clock at its entry and at its exit. A
type is below another exactly when its interval is within the other's, as long
as the 32-bit clock does not stop before the last type is entered.
-/

namespace Dream64.Vm

open ParentGraph

/-- The parents of some types, in the order of their paths. -/
structure ParentCatalog where
  entries : List (TypePath × Option TypePath)
  sorted : (entries.map (·.1.path)).Pairwise (· < ·)

namespace ParentCatalog

def get (parents : ParentCatalog) (path : TypePath) : Option (Option TypePath) :=
  (parents.entries.find? fun entry => entry.1 = path).map (·.2)

def containsKey (parents : ParentCatalog) (path : TypePath) : Bool := (parents.get path).isSome

def keys (parents : ParentCatalog) : List TypePath := parents.entries.map (·.1)

/-- The parent of a type, also one that is missing from the catalog. -/
def parent (parents : ParentCatalog) (path : TypePath) : Option TypePath := (parents.get path).join

/-- A parent that is in the catalog. -/
def known (parents : ParentCatalog) (parent : Option TypePath) : Option TypePath :=
  parent.filter parents.containsKey

def childrenOf (parents : ParentCatalog) (node : TypePath) : List TypePath :=
  (parents.entries.filter fun entry => parents.known entry.2 = some node).map (·.1)

def roots (parents : ParentCatalog) : List TypePath :=
  (parents.entries.filter fun entry => parents.known entry.2 = none).map (·.1)

end ParentCatalog

def clockLimit : Nat := 4294967295

/-- `u32::saturating_add(1)`. -/
def tick (clock : Nat) : Nat := min (clock + 1) clockLimit

structure IntervalWalk where
  seen : List TypePath
  intervals : TypePath → Option (Nat × Nat)
  clock : Nat

def visit (parents : ParentCatalog) : Nat → TypePath → IntervalWalk → Option IntervalWalk
  | 0, _, _ => none
  | fuel + 1, node, walk =>
    if node ∈ walk.seen then some walk
    else do
      let start := walk.clock
      let entered := { walk with seen := node :: walk.seen, clock := tick walk.clock }
      let walk ← (parents.childrenOf node).foldlM
        (fun walk child => visit parents fuel child walk) entered
      let stop := walk.clock
      some { walk with
        clock := tick walk.clock
        intervals := Function.update walk.intervals node (some (start, stop)) }

/-- The walk is at most one deeper than there are types. -/
def ParentCatalog.fuel (parents : ParentCatalog) : Nat := parents.entries.length + 1

def buildTypeIntervals (parents : ParentCatalog) : Option (TypePath → Option (Nat × Nat)) := do
  let visitAll (walk : IntervalWalk) (nodes : List TypePath) :=
    nodes.foldlM (fun walk node => visit parents parents.fuel node walk) walk
  let walk ← visitAll ⟨[], fun _ => none, 0⟩ parents.roots
  let walk ← visitAll walk parents.keys
  some walk.intervals

/-! ## The parents in the catalog -/

namespace ParentCatalog

variable {parents : ParentCatalog} {path a b : TypePath}

def knownParent (parents : ParentCatalog) (path : TypePath) : Option TypePath :=
  parents.known (parents.parent path)

theorem keys_nodup (parents : ParentCatalog) : parents.keys.Nodup := by
  have hpaths : (parents.keys.map (·.path)).Nodup := by
    rw [keys, List.map_map]
    exact parents.sorted.imp fun hlt => ne_of_lt hlt
  exact List.Nodup.of_map _ hpaths

theorem get_of_mem {entry : TypePath × Option TypePath} (h : entry ∈ parents.entries) :
    parents.get entry.1 = some entry.2 := by
  unfold get
  cases hfind : parents.entries.find? fun other => other.1 = entry.1 with
  | none =>
    have hnot := List.find?_eq_none.1 hfind entry h
    simp at hnot
  | some other =>
    have hother := List.mem_of_find?_eq_some hfind
    have hkey : other.1 = entry.1 := by simpa using List.find?_some hfind
    have hsame := List.inj_on_of_nodup_map parents.keys_nodup hother h hkey
    rw [hsame]
    rfl

theorem containsKey_iff : parents.containsKey path = true ↔ path ∈ parents.keys := by
  constructor
  · intro h
    obtain ⟨parent, hparent⟩ := Option.isSome_iff_exists.1 h
    obtain ⟨entry, hfind, -⟩ := Option.map_eq_some_iff.1 hparent
    have hkey : entry.1 = path := by simpa using List.find?_some hfind
    exact List.mem_map.2 ⟨entry, List.mem_of_find?_eq_some hfind, hkey⟩
  · intro h
    obtain ⟨entry, hentry, rfl⟩ := List.mem_map.1 h
    rw [containsKey, get_of_mem hentry]
    rfl

theorem mem_of_parent (h : parents.parent a = some b) : a ∈ parents.keys := by
  rw [← containsKey_iff, containsKey]
  cases hget : parents.get a with
  | none =>
    rw [parent, hget] at h
    cases h
  | some _ => rfl

theorem parent_of_mem {entry : TypePath × Option TypePath} (h : entry ∈ parents.entries) :
    parents.parent entry.1 = entry.2 := by
  rw [parent, get_of_mem h]
  rfl

theorem knownParent_eq_some :
    parents.knownParent a = some b ↔ parents.parent a = some b ∧ b ∈ parents.keys := by
  rw [knownParent, known, Option.filter_eq_some_iff, containsKey_iff]

theorem mem_childrenOf : a ∈ parents.childrenOf b ↔ parents.knownParent a = some b := by
  unfold childrenOf
  rw [List.mem_map]
  constructor
  · rintro ⟨entry, hentry, rfl⟩
    obtain ⟨hmem, hparent⟩ := List.mem_filter.1 hentry
    rw [knownParent, parent_of_mem hmem]
    exact of_decide_eq_true hparent
  · intro h
    obtain ⟨entry, hentry, rfl⟩ := List.mem_map.1 (mem_of_parent (knownParent_eq_some.1 h).1)
    refine ⟨entry, List.mem_filter.2 ⟨hentry, decide_eq_true ?_⟩, rfl⟩
    rw [← h, knownParent, parent_of_mem hentry]

theorem mem_roots : a ∈ parents.roots ↔ a ∈ parents.keys ∧ parents.knownParent a = none := by
  unfold roots
  rw [List.mem_map]
  constructor
  · rintro ⟨entry, hentry, rfl⟩
    obtain ⟨hmem, hparent⟩ := List.mem_filter.1 hentry
    rw [knownParent, parent_of_mem hmem]
    exact ⟨List.mem_map_of_mem hmem, of_decide_eq_true hparent⟩
  · rintro ⟨hmem, hparent⟩
    obtain ⟨entry, hentry, rfl⟩ := List.mem_map.1 hmem
    refine ⟨entry, List.mem_filter.2 ⟨hentry, decide_eq_true ?_⟩, rfl⟩
    rw [← hparent, knownParent, parent_of_mem hentry]

/-- Up to a type of the catalog every parent is in it. -/
theorem climb_knownParent (hb : b ∈ parents.keys) {k : Nat} :
    climb parents.knownParent k a = some b ↔ climb parents.parent k a = some b := by
  induction k generalizing a with
  | zero => rfl
  | succ k ih =>
    rw [climb_succ, climb_succ, Option.bind_eq_some_iff, Option.bind_eq_some_iff]
    refine exists_congr fun c => ?_
    rw [knownParent_eq_some, ih, and_assoc]
    refine and_congr_right fun _ => and_iff_right_of_imp fun hclimb => ?_
    cases k with
    | zero =>
      rw [Option.some.inj hclimb]
      exact hb
    | succ k =>
      obtain ⟨d, hd, -⟩ := Option.bind_eq_some_iff.1 hclimb
      exact mem_of_parent hd

theorem reaches_knownParent (hb : b ∈ parents.keys) :
    ParentGraph.Reaches parents.knownParent a b ↔ ParentGraph.Reaches parents.parent a b :=
  exists_congr fun _ => climb_knownParent hb

theorem not_onCycle (hacyclic : ∀ a, ¬ OnCycle parents.parent a) (a : TypePath) :
    ¬ OnCycle parents.knownParent a := by
  rintro ⟨k, hk⟩
  obtain ⟨c, hc, -⟩ := Option.bind_eq_some_iff.1 hk
  have ha := mem_of_parent (knownParent_eq_some.1 hc).1
  exact hacyclic a ⟨k, (climb_knownParent ha).1 hk⟩

end ParentCatalog

/-! ## The walk -/

/-- The types on the branch from the last of some siblings into the last child of each. -/
def ParentCatalog.lastBranch (parents : ParentCatalog) : Nat → List TypePath → List TypePath
  | 0, _ => []
  | fuel + 1, siblings =>
    match siblings.getLast? with
    | none => []
    | some last => last :: parents.lastBranch fuel (parents.childrenOf last)

section

variable {parents : ParentCatalog} {before between after : IntervalWalk} {fuel lo mid hi : Nat}
  {nodes others : Set TypePath} {spans more : List (Span TypePath)}

/-- What a walk through some types does: it sees them and gives them the spans of an unbounded
clock, as far as the clock shows them. -/
structure Visited (parents : ParentCatalog) (before after : IntervalWalk) (lo hi : Nat)
    (nodes : Set TypePath) (spans : List (Span TypePath)) : Prop where
  numbers : Numbers parents.knownParent lo hi nodes spans
  seen : ∀ a, a ∈ after.seen ↔ a ∈ before.seen ∨ a ∈ nodes
  recorded : ∀ span ∈ spans, after.intervals span.node =
    some ((span.cap clockLimit).start, (span.cap clockLimit).stop)
  others : ∀ a, a ∉ nodes → after.intervals a = before.intervals a
  clock : after.clock = min hi clockLimit

theorem tick_min (clock : Nat) : tick (min clock clockLimit) = min (clock + 1) clockLimit := by
  unfold tick
  omega

theorem Visited.nil (h : before.clock = min lo clockLimit) :
    Visited parents before before lo lo ∅ [] where
  numbers := Numbers.nil _ lo
  seen _ := (or_iff_left (Set.notMem_empty _)).symm
  recorded _ hspan := absurd hspan List.not_mem_nil
  others _ _ := rfl
  clock := h

theorem Visited.append (h : Visited parents before between lo mid nodes spans)
    (h' : Visited parents between after mid hi others more)
    (hunrelated : ∀ a ∈ nodes, ∀ b ∈ others, Unrelated parents.knownParent a b) :
    Visited parents before after lo hi (nodes ∪ others) (spans ++ more) := by
  refine ⟨h.numbers.append h'.numbers hunrelated, fun a => ?_, fun span hspan => ?_,
    fun a ha => ?_, h'.clock⟩
  · rw [h'.seen, h.seen, Set.mem_union, or_assoc]
  · rcases List.mem_append.1 hspan with hspan | hspan
    · have hnode := h.numbers.mem_nodes hspan
      have hnot : span.node ∉ others := fun hother =>
        (hunrelated _ hnode _ hother).1 (ParentGraph.Reaches.refl _)
      rw [h'.others _ hnot]
      exact h.recorded span hspan
    · exact h'.recorded span hspan
  · rw [Set.mem_union, not_or] at ha
    rw [h'.others a ha.2, h.others a ha.1]

theorem Visited.congr (h : Visited parents before after lo hi nodes spans)
    (hnodes : ∀ a, a ∈ nodes ↔ a ∈ others) : Visited parents before after lo hi others spans := by
  refine ⟨h.numbers.congr hnodes, fun a => ?_, h.recorded, fun a ha => ?_, h.clock⟩
  · rw [h.seen, hnodes]
  · exact h.others a fun hmem => ha ((hnodes a).1 hmem)

/-- A type around those below it. -/
theorem Visited.wrap (hacyclic : ∀ a, ¬ OnCycle parents.knownParent a) {node : TypePath}
    (hclock : before.clock = min lo clockLimit)
    (h : Visited parents
      { before with seen := node :: before.seen, clock := tick before.clock } after (lo + 1) hi
      nodes spans)
    (hnodes : ∀ a, a ∈ nodes ↔ ParentGraph.Reaches parents.knownParent a node ∧ a ≠ node) :
    Visited parents before
      { after with
        clock := tick after.clock
        intervals := Function.update after.intervals node (some (before.clock, after.clock)) }
      lo (hi + 1) (below parents.knownParent node) (spans ++ [⟨node, lo, hi⟩]) := by
  have hmem (a : TypePath) : a ∈ below parents.knownParent node ↔ a = node ∨ a ∈ nodes := by
    rw [hnodes]
    constructor
    · intro ha
      by_cases heq : a = node
      · exact .inl heq
      · exact .inr ⟨ha, heq⟩
    · rintro (rfl | ⟨ha, -⟩)
      · exact ParentGraph.Reaches.refl a
      · exact ha
  refine ⟨h.numbers.wrap hacyclic hnodes, fun a => ?_, fun span hspan => ?_, fun a ha => ?_, ?_⟩
  · rw [h.seen, hmem, List.mem_cons]
    tauto
  · rcases List.mem_append.1 hspan with hspan | hspan
    · have hne := ((hnodes _).1 (h.numbers.mem_nodes hspan)).2
      show Function.update after.intervals node _ span.node = _
      rw [Function.update_of_ne hne]
      exact h.recorded span hspan
    · rw [List.mem_singleton] at hspan
      rw [hspan]
      show Function.update after.intervals node _ node = _
      rw [Function.update_self, hclock, h.clock]
      rfl
  · rw [hmem, not_or] at ha
    show Function.update after.intervals node _ a = _
    rw [Function.update_of_ne ha.1]
    exact h.others a ha.2
  · show tick after.clock = _
    rw [h.clock, tick_min]

/-- The types of some siblings and all below them. -/
def belowAny (parents : ParentCatalog) (siblings : List TypePath) : Set TypePath :=
  {a | ∃ node ∈ siblings, ParentGraph.Reaches parents.knownParent a node}

/-- What `visit` does at a type of which nothing was seen. -/
def VisitsBelow (parents : ParentCatalog) (fuel : Nat) (node : TypePath) : Prop :=
  ∀ before lo, before.clock = min lo clockLimit →
    (∀ a ∈ below parents.knownParent node, a ∉ before.seen) →
    ∃ after hi spans, visit parents fuel node before = some after ∧
      Visited parents before after lo hi (below parents.knownParent node) spans ∧
      LastStart hi (parents.lastBranch fuel [node]).length spans

/-- Siblings one after the other. -/
theorem visit_siblings {siblings : List TypePath}
    (hvisits : ∀ node ∈ siblings, VisitsBelow parents fuel node)
    (hunrelated : siblings.Pairwise (Unrelated parents.knownParent)) (before : IntervalWalk)
    (hclock : before.clock = min lo clockLimit)
    (hunseen : ∀ a ∈ belowAny parents siblings, a ∉ before.seen) :
    ∃ after hi spans,
      siblings.foldlM (fun walk child => visit parents fuel child walk) before = some after ∧
      Visited parents before after lo hi (belowAny parents siblings) spans ∧
      LastStart hi (parents.lastBranch fuel siblings).length spans := by
  induction siblings generalizing before lo with
  | nil =>
    refine ⟨before, lo, [], rfl, (Visited.nil hclock).congr fun a => ?_, ?_⟩
    · exact iff_of_false (Set.notMem_empty a) fun ⟨_, hnode, _⟩ => List.not_mem_nil hnode
    · have hbranch : parents.lastBranch fuel [] = [] := by
        cases fuel <;> rfl
      rw [hbranch]
      exact LastStart.nil lo
  | cons first rest ih =>
    obtain ⟨hfirst, hrest⟩ := List.pairwise_cons.1 hunrelated
    have hbelow (a : TypePath) : a ∈ belowAny parents (first :: rest) ↔
        a ∈ below parents.knownParent first ∪ belowAny parents rest := by
      simp only [belowAny, below, Set.mem_union, Set.mem_ofPred_eq, List.mem_cons, or_and_right,
        exists_or, exists_eq_left]
    obtain ⟨between, mid, spans, hvisit, hvisited, hlast⟩ :=
      hvisits first List.mem_cons_self before lo hclock fun a ha =>
        hunseen a ((hbelow a).2 (.inl ha))
    have hapart (a : TypePath) (ha : a ∈ below parents.knownParent first) (b : TypePath)
        (hb : b ∈ belowAny parents rest) : Unrelated parents.knownParent a b := by
      obtain ⟨node, hnode, hreaches⟩ := hb
      exact (hfirst node hnode).below ha hreaches
    obtain ⟨after, hi, more, hvisitRest, hvisitedRest, hlastRest⟩ :=
      ih (fun node hnode => hvisits node (List.mem_cons_of_mem _ hnode)) hrest between
        hvisited.clock fun a ha hseen => by
          rcases (hvisited.seen a).1 hseen with hseen | hseen
          · exact hunseen a ((hbelow a).2 (.inr ha)) hseen
          · exact (hapart a hseen a ha).1 (ParentGraph.Reaches.refl a)
    refine ⟨after, hi, spans ++ more, ?_, (hvisited.append hvisitedRest hapart).congr
      fun a => (hbelow a).symm, ?_⟩
    · rw [List.foldlM_cons, hvisit]
      exact hvisitRest
    · cases rest with
      | nil =>
        have hempty : more = [] := by
          rw [List.eq_nil_iff_forall_not_mem]
          intro span hspan
          obtain ⟨node, hnode, -⟩ := hvisitedRest.numbers.mem_nodes hspan
          exact List.not_mem_nil hnode
        have hhi := hvisitedRest.numbers.ticks
        rw [hempty, List.length_nil] at hhi
        rw [hempty, List.append_nil, hhi]
        exact hlast
      | cons next rest =>
        have hnonempty : more ≠ [] := by
          obtain ⟨span, hspan, -⟩ := (hvisitedRest.numbers.nodes next).1
            ⟨next, List.mem_cons_self, ParentGraph.Reaches.refl next⟩
          exact List.ne_nil_of_mem hspan
        have hbranch : parents.lastBranch fuel (first :: next :: rest) =
            parents.lastBranch fuel (next :: rest) := by
          cases fuel with
          | zero => rfl
          | succ fuel => rw [ParentCatalog.lastBranch, List.getLast?_cons_cons, ParentCatalog.lastBranch]
        rw [hbranch]
        obtain ⟨span, hspan, hreached⟩ := hlastRest.reached hnonempty
        have hstart := (hvisitedRest.numbers.inside span hspan).1
        exact hlast.append (by omega) hlastRest hnonempty

theorem children_pairwise (hacyclic : ∀ a, ¬ OnCycle parents.knownParent a) (node : TypePath) :
    (parents.childrenOf node).Pairwise (Unrelated parents.knownParent) := by
  have hnodup : (parents.childrenOf node).Nodup :=
    parents.keys_nodup.sublist (List.filter_sublist.map _)
  refine hnodup.imp_of_mem fun ha hb hne => ?_
  rw [ParentCatalog.mem_childrenOf] at ha hb
  exact unrelated_of_parent hacyclic hne ha hb

theorem roots_pairwise (parents : ParentCatalog) :
    parents.roots.Pairwise (Unrelated parents.knownParent) := by
  have hnodup : parents.roots.Nodup := parents.keys_nodup.sublist (List.filter_sublist.map _)
  refine hnodup.imp_of_mem fun ha hb hne => ?_
  rw [ParentCatalog.mem_roots] at ha hb
  exact unrelated_of_root hne ha.2 hb.2

theorem mem_belowAny_children (hacyclic : ∀ a, ¬ OnCycle parents.knownParent a)
    (node a : TypePath) : a ∈ belowAny parents (parents.childrenOf node) ↔
      ParentGraph.Reaches parents.knownParent a node ∧ a ≠ node := by
  constructor
  · rintro ⟨child, hchild, hreaches⟩
    have hparent := ParentGraph.Reaches.parent (ParentCatalog.mem_childrenOf.1 hchild)
    refine ⟨hreaches.trans hparent, fun heq => ?_⟩
    rw [heq] at hreaches
    have hsame := hreaches.antisymm hacyclic hparent
    have hloop := ParentCatalog.mem_childrenOf.1 hchild
    rw [hsame] at hloop
    exact hacyclic child ⟨0, by rw [climb_one, hloop]⟩
  · rintro ⟨⟨k, hk⟩, hne⟩
    cases k with
    | zero => exact absurd (Option.some.inj hk) hne
    | succ k =>
      rw [climb_add, Option.bind_eq_some_iff] at hk
      obtain ⟨child, hchild, hparent⟩ := hk
      rw [climb_one] at hparent
      exact ⟨child, ParentCatalog.mem_childrenOf.2 hparent, k, hchild⟩

/-- With fuel for the types below it a type is visited with all of them. -/
theorem visits_below (hacyclic : ∀ a, ¬ OnCycle parents.knownParent a) {node : TypePath}
    (hheight : ∀ a, climb parents.knownParent fuel a ≠ some node) :
    VisitsBelow parents fuel node := by
  induction fuel generalizing node with
  | zero => exact absurd rfl (hheight node)
  | succ fuel ih =>
    intro before lo hclock hunseen
    have hnot : node ∉ before.seen := hunseen node (ParentGraph.Reaches.refl node)
    have hchildren : ∀ child ∈ parents.childrenOf node, VisitsBelow parents fuel child := by
      intro child hchild
      refine ih fun a hclimb => hheight a ?_
      rw [climb_add, hclimb]
      exact (climb_one).trans (ParentCatalog.mem_childrenOf.1 hchild)
    obtain ⟨after, hi, spans, hvisit, hvisited, hlast⟩ := visit_siblings hchildren
      (children_pairwise hacyclic node)
      { before with seen := node :: before.seen, clock := tick before.clock }
      (show tick before.clock = min (lo + 1) clockLimit by rw [hclock, tick_min]) fun a ha hseen => by
        obtain ⟨hreaches, hne⟩ := (mem_belowAny_children hacyclic node a).1 ha
        rcases List.mem_cons.1 hseen with heq | hseen
        · exact hne heq
        · exact hunseen a hreaches hseen
    refine ⟨_, hi + 1, spans ++ [⟨node, lo, hi⟩], ?_,
      hvisited.wrap hacyclic hclock (mem_belowAny_children hacyclic node), ?_⟩
    · rw [visit, if_neg hnot]
      simp only [Option.bind_eq_bind]
      rw [hvisit]
      rfl
    · have hticks := hvisited.numbers.ticks
      refine hlast.wrap node (by omega) (fun span hspan => ?_) fun hnil => ?_
      · have := (hvisited.numbers.inside span hspan).1
        omega
      · rw [hnil, List.length_nil] at hticks
        omega

/-! ## The whole catalog -/

/-- Every type of the catalog is below a root. -/
theorem mem_belowAny_roots (hacyclic : ∀ a, ¬ OnCycle parents.knownParent a) (a : TypePath) :
    a ∈ belowAny parents parents.roots ↔ a ∈ parents.keys := by
  have hkeys : ∀ a ∈ parents.keys.toFinset, ∀ b, parents.knownParent a = some b →
      b ∈ parents.keys.toFinset := fun a _ b hb =>
    List.mem_toFinset.2 (ParentCatalog.knownParent_eq_some.1 hb).2
  constructor
  · rintro ⟨root, hroot, hreaches⟩
    rcases reaches_iff.1 hreaches with rfl | ⟨b, hb, -⟩
    · exact (ParentCatalog.mem_roots.1 hroot).1
    · exact ParentCatalog.mem_of_parent (ParentCatalog.knownParent_eq_some.1 hb).1
  · intro ha
    have hends : ParentGraph.Ends parents.knownParent a := by
      refine (ends_or_onCycle hkeys (List.mem_toFinset.2 ha)).resolve_right ?_
      rintro ⟨-, c, -, hc⟩
      exact hacyclic c hc
    obtain ⟨k, hk⟩ := hends
    induction k generalizing a with
    | zero => cases hk
    | succ k ih =>
      rw [climb_succ] at hk
      cases hparent : parents.knownParent a with
      | none => exact ⟨a, ParentCatalog.mem_roots.2 ⟨ha, hparent⟩, ParentGraph.Reaches.refl a⟩
      | some b =>
        rw [hparent] at hk
        obtain ⟨root, hroot, hreaches⟩ := ih b (ParentCatalog.knownParent_eq_some.1 hparent).2 hk
        exact ⟨root, hroot, (ParentGraph.Reaches.parent hparent).trans hreaches⟩

theorem climb_fuel (hacyclic : ∀ a, ¬ OnCycle parents.knownParent a) (a b : TypePath) :
    climb parents.knownParent parents.fuel a ≠ some b := by
  have hkeys : ∀ a ∈ parents.keys.toFinset, ∀ b, parents.knownParent a = some b →
      b ∈ parents.keys.toFinset := fun a _ b hb =>
    List.mem_toFinset.2 (ParentCatalog.knownParent_eq_some.1 hb).2
  intro hclimb
  obtain ⟨c, hc, hrest⟩ := Option.bind_eq_some_iff.1 hclimb
  have hmem : c ∈ parents.keys.toFinset :=
    List.mem_toFinset.2 (ParentCatalog.knownParent_eq_some.1 hc).2
  have hcard : parents.keys.toFinset.card = parents.entries.length := by
    rw [List.toFinset_card_of_nodup parents.keys_nodup, ParentCatalog.keys, List.length_map]
  rw [← hcard] at hrest
  obtain ⟨j, d, -, hd⟩ := exists_onCycle hkeys hmem hrest
  exact hacyclic d hd

theorem visit_seen {walk : IntervalWalk} {fuel : Nat} {siblings : List TypePath}
    (h : ∀ a ∈ siblings, a ∈ walk.seen) :
    siblings.foldlM (fun walk child => visit parents (fuel + 1) child walk) walk = some walk := by
  induction siblings with
  | nil => rfl
  | cons first rest ih =>
    rw [List.foldlM_cons, visit, if_pos (h first List.mem_cons_self)]
    exact ih fun a ha => h a (List.mem_cons_of_mem _ ha)

end

/-- The test of `is_subtype` for two intervals. -/
def Nested (one other : Nat × Nat) : Prop := other.1 ≤ one.1 ∧ one.2 ≤ other.2

/-- The intervals have no tick in common. -/
def Separate (one other : Nat × Nat) : Prop := one.2 < other.1 ∨ other.2 < one.1

/-- The intervals of the types say which are reached from which by following parents. -/
structure DecideSubtyping (parents : ParentCatalog) (intervals : TypePath → Option (Nat × Nat)) :
    Prop where
  total : ∀ a ∈ parents.keys, (intervals a).isSome
  nested : ∀ a ∈ parents.keys, ∀ b ∈ parents.keys, ∀ one ∈ intervals a, ∀ other ∈ intervals b,
    Nested one other ↔ ParentGraph.Reaches parents.parent a b
  distinct : ∀ a ∈ parents.keys, ∀ b ∈ parents.keys, ∀ one ∈ intervals a, ∀ other ∈ intervals b,
    a ≠ b → one ≠ other
  laminar : ∀ a ∈ parents.keys, ∀ b ∈ parents.keys, ∀ one ∈ intervals a, ∀ other ∈ intervals b,
    Nested one other ∨ Nested other one ∨ Separate one other

section

variable {parents : ParentCatalog} {before after : IntervalWalk} {lo hi : Nat}
  {nodes : Set TypePath} {spans : List (Span TypePath)}

theorem Visited.decide_iff (h : Visited parents before after lo hi nodes spans)
    (hnodes : ∀ a, a ∈ nodes ↔ a ∈ parents.keys) :
    DecideSubtyping parents after.intervals ↔
      Decide parents.knownParent (spans.map (Span.cap clockLimit)) := by
  have hspan (span : Span TypePath) (hspan : span ∈ spans) : span.node ∈ parents.keys :=
    (hnodes _).1 (h.numbers.mem_nodes hspan)
  have hkey (a : TypePath) (ha : a ∈ parents.keys) : ∃ span ∈ spans, span.node = a :=
    (h.numbers.nodes a).1 ((hnodes a).2 ha)
  constructor
  · intro hdecide
    refine ⟨fun one hone other hother => ?_, fun one hone other hother hne => ?_,
      fun one hone other hother => ?_⟩ <;>
      obtain ⟨x, hx, rfl⟩ := List.mem_map.1 hone <;>
      obtain ⟨y, hy, rfl⟩ := List.mem_map.1 hother
    · have hnested := hdecide.nested _ (hspan x hx) _ (hspan y hy) _ (h.recorded x hx) _
        (h.recorded y hy)
      exact hnested.trans (ParentCatalog.reaches_knownParent (hspan y hy)).symm
    · exact hdecide.distinct _ (hspan x hx) _ (hspan y hy) _ (h.recorded x hx) _
        (h.recorded y hy) hne
    · exact hdecide.laminar _ (hspan x hx) _ (hspan y hy) _ (h.recorded x hx) _
        (h.recorded y hy)
  · intro hdecide
    have hinterval (x : Span TypePath) (hx : x ∈ spans) (one : Nat × Nat)
        (hone : one ∈ after.intervals x.node) :
        one = ((x.cap clockLimit).start, (x.cap clockLimit).stop) := by
      rw [Option.mem_def, h.recorded x hx] at hone
      exact (Option.some.inj hone).symm
    refine ⟨fun a ha => ?_, fun a ha b hb one hone other hother => ?_,
      fun a ha b hb one hone other hother hne => ?_, fun a ha b hb one hone other hother => ?_⟩
    · obtain ⟨x, hx, rfl⟩ := hkey a ha
      rw [h.recorded x hx]
      rfl
    all_goals
      obtain ⟨x, hx, rfl⟩ := hkey a ha
      obtain ⟨y, hy, rfl⟩ := hkey b hb
      rw [hinterval x hx one hone, hinterval y hy other hother]
    · rw [← ParentCatalog.reaches_knownParent hb]
      exact hdecide.nested _ (List.mem_map_of_mem hx) _ (List.mem_map_of_mem hy)
    · exact hdecide.distinct _ (List.mem_map_of_mem hx) _ (List.mem_map_of_mem hy) hne
    · exact hdecide.laminar _ (List.mem_map_of_mem hx) _ (List.mem_map_of_mem hy)

end

/-- The last branch of the whole catalog, from its last root. -/
def ParentCatalog.deepestLast (parents : ParentCatalog) : List TypePath :=
  parents.lastBranch parents.fuel parents.roots

/-- The walk through the catalog, without the second pass. -/
theorem visit_roots {parents : ParentCatalog} (hacyclic : ∀ a, ¬ OnCycle parents.knownParent a) :
    ∃ after hi spans, buildTypeIntervals parents = some after.intervals ∧
      Visited parents ⟨[], fun _ => none, 0⟩ after 0 hi (belowAny parents parents.roots) spans ∧
      LastStart hi parents.deepestLast.length spans := by
  obtain ⟨after, hi, spans, hvisit, hvisited, hlast⟩ := visit_siblings
    (fun root _ => visits_below hacyclic fun a => climb_fuel hacyclic a root)
    (roots_pairwise parents) ⟨[], fun _ => none, 0⟩ (show 0 = min 0 clockLimit from rfl)
    fun a _ => List.not_mem_nil
  refine ⟨after, hi, spans, ?_, hvisited, hlast⟩
  have hseen : ∀ a ∈ parents.keys, a ∈ after.seen := fun a ha =>
    (hvisited.seen a).2 (.inr ((mem_belowAny_roots hacyclic a).2 ha))
  simp only [buildTypeIntervals, Option.bind_eq_bind]
  rw [hvisit, Option.bind_some, ParentCatalog.fuel, visit_seen hseen]
  rfl

/-- What the walk leaves decides subtyping when the last type is entered before the clock stops. -/
theorem walk_decides_iff {parents : ParentCatalog} {before after : IntervalWalk} {hi : Nat}
    {spans : List (Span TypePath)} (hacyclic : ∀ a, ¬ OnCycle parents.knownParent a)
    (hvisited : Visited parents before after 0 hi (belowAny parents parents.roots) spans)
    (hlast : LastStart hi parents.deepestLast.length spans) :
    DecideSubtyping parents after.intervals ↔
      2 * parents.entries.length ≤ 2 ^ 32 + parents.deepestLast.length := by
  have hlength : spans.length = parents.entries.length := by
    rw [hvisited.numbers.length_eq parents.keys_nodup (mem_belowAny_roots hacyclic),
      ParentCatalog.keys, List.length_map]
  have hhi : hi = 2 * parents.entries.length := by
    have := hvisited.numbers.ticks
    omega
  rw [hvisited.decide_iff (mem_belowAny_roots hacyclic), ← hhi]
  constructor
  · intro h
    by_contra hlate
    have hne : spans ≠ [] := by
      intro hnil
      rw [hnil, List.length_nil] at hlength
      omega
    obtain ⟨late, hmem, hreached⟩ := hlast.reached hne
    have hlimit : clockLimit < late.start := by
      unfold clockLimit
      omega
    exact hvisited.numbers.not_decide_cap (Nat.zero_le _) hmem hlimit h
  · intro hfits
    refine hvisited.numbers.decide_cap fun span hspan => ?_
    have := hlast.within span hspan
    unfold clockLimit
    omega

/-- The intervals decide subtyping exactly when the last type is entered before the clock
stops. -/
theorem typeIntervals_decide_iff (parents : ParentCatalog)
    (hacyclic : ∀ path, ¬ OnCycle parents.parent path) :
    (∃ intervals, buildTypeIntervals parents = some intervals ∧
      DecideSubtyping parents intervals) ↔
    2 * parents.entries.length ≤ 2 ^ 32 + parents.deepestLast.length := by
  have hknown := ParentCatalog.not_onCycle hacyclic
  obtain ⟨after, hi, spans, hbuild, hvisited, hlast⟩ := visit_roots hknown
  rw [← walk_decides_iff hknown hvisited hlast]
  constructor
  · rintro ⟨intervals, hintervals, h⟩
    rw [hbuild, Option.some.injEq] at hintervals
    rwa [hintervals]
  · exact fun h => ⟨_, hbuild, h⟩

/-! ## Two catalogs -/

/-- Parents with shorter paths have no cycle. -/
theorem ParentCatalog.not_onCycle_of_shorter {parents : ParentCatalog}
    (h : ∀ entry ∈ parents.entries, ∀ up ∈ entry.2, up.path.length < entry.1.path.length) :
    ∀ path, ¬ OnCycle parents.parent path :=
  not_onCycle_of_lt fun a b hab => by
    obtain ⟨entry, hentry, rfl⟩ := List.mem_map.1 (ParentCatalog.mem_of_parent hab)
    rw [ParentCatalog.parent_of_mem hentry] at hab
    exact h entry hentry b hab

def mobPath : TypePath := ⟨"/mob", by decide⟩
def mobHumanPath : TypePath := ⟨"/mob/human", by decide⟩
def turfGrassPath : TypePath := ⟨"/turf/grass", by decide⟩

/-- A type, one below it, and one with a parent that is missing. -/
def threeTypes : ParentCatalog where
  entries := [(mobPath, none), (mobHumanPath, some mobPath),
    (turfGrassPath, some ⟨"/turf", by decide⟩)]
  sorted := by decide

theorem threeTypes_decide : ∃ intervals, buildTypeIntervals threeTypes = some intervals ∧
    DecideSubtyping threeTypes intervals := by
  refine (typeIntervals_decide_iff threeTypes ?_).2 ?_
  · exact ParentCatalog.not_onCycle_of_shorter (by decide)
  · exact Nat.le_trans (by decide : 2 * threeTypes.entries.length ≤ 2 ^ 32) (Nat.le_add_right _ _)

instance : LinearOrder TypePath :=
  LinearOrder.lift' TypePath.path fun a b h => by
    cases a
    cases b
    cases h
    rfl

theorem splitSlash_of_notMem {word : List Char} (h : '/' ∉ word) : splitSlash word = [word] := by
  induction word with
  | nil => rfl
  | cons c rest ih =>
    rw [List.mem_cons, not_or] at h
    rw [splitSlash, ih h.2]
    exact fun heq => h.1 heq.symm

/-- A path of 32 letters, each of which is one of two. -/
def wordPath (word : Fin 32 → Bool) : TypePath where
  path := String.ofList ('/' :: List.ofFn fun i => if word i then 'b' else 'a')
  valid := by
    have hslash : '/' ∉ List.ofFn fun i => if word i then 'b' else 'a' := by
      rw [List.mem_ofFn]
      rintro ⟨i, hi⟩
      split at hi <;> exact absurd hi (by decide)
    rw [isTypePath, String.toList_ofList]
    show (splitSlash _).all _ = true
    rw [splitSlash_of_notMem hslash]
    simp

theorem wordPath_injective : Function.Injective wordPath := by
  intro word word' h
  have hlist := congrArg (fun path : TypePath => path.path.toList) h
  simp only [wordPath, String.toList_ofList, List.cons.injEq, true_and, List.ofFn_inj] at hlist
  funext i
  have hletter := congrFun hlist i
  cases hword : word i <;> cases hword' : word' i <;> simp_all

/-- Types without parents. -/
def rootTypes (paths : Finset TypePath) : ParentCatalog where
  entries := (paths.sort (· ≤ ·)).map fun path => (path, none)
  sorted := by
    rw [List.map_map]
    exact List.pairwise_map.2 (Finset.sortedLT_sort paths).pairwise

section

variable (paths : Finset TypePath)

theorem length_rootTypes : (rootTypes paths).entries.length = paths.card := by
  rw [rootTypes, List.length_map, Finset.length_sort]

theorem rootTypes_parent (path : TypePath) : (rootTypes paths).parent path = none := by
  rw [Option.eq_none_iff_forall_ne_some]
  intro up hup
  have hmem := ParentCatalog.mem_of_parent hup
  obtain ⟨entry, hentry, rfl⟩ := List.mem_map.1 hmem
  obtain ⟨path, -, rfl⟩ := List.mem_map.1 hentry
  rw [ParentCatalog.parent_of_mem hentry] at hup
  cases hup

theorem rootTypes_not_onCycle (path : TypePath) : ¬ OnCycle (rootTypes paths).parent path := by
  rintro ⟨k, hk⟩
  rw [climb_succ, rootTypes_parent] at hk
  cases hk

theorem length_deepestLast_rootTypes : (rootTypes paths).deepestLast.length ≤ 1 := by
  have hchildren (node : TypePath) : (rootTypes paths).childrenOf node = [] := by
    rw [List.eq_nil_iff_forall_not_mem]
    intro child hchild
    have hup := (ParentCatalog.knownParent_eq_some.1 (ParentCatalog.mem_childrenOf.1 hchild)).1
    rw [rootTypes_parent] at hup
    cases hup
  have hbranch (fuel : Nat) : (rootTypes paths).lastBranch fuel [] = [] := by
    cases fuel <;> rfl
  rw [ParentCatalog.deepestLast, ParentCatalog.fuel, ParentCatalog.lastBranch]
  split
  · exact Nat.zero_le _
  · rw [hchildren, hbranch]
    exact Nat.le_refl _

end

def wordPaths : Finset TypePath := Finset.univ.image wordPath

theorem card_wordPaths : wordPaths.card = 2 ^ 32 := by
  rw [wordPaths, Finset.card_image_of_injective _ wordPath_injective, Finset.card_univ,
    Fintype.card_fun, Fintype.card_bool, Fintype.card_fin]

/-- The clock stops halfway through the types. -/
theorem words_not_decided : (∀ path, ¬ OnCycle (rootTypes wordPaths).parent path) ∧
    ¬ ∃ intervals, buildTypeIntervals (rootTypes wordPaths) = some intervals ∧
      DecideSubtyping (rootTypes wordPaths) intervals := by
  refine ⟨rootTypes_not_onCycle wordPaths, ?_⟩
  rintro ⟨intervals, hintervals, hdecide⟩
  have hknown := ParentCatalog.not_onCycle (rootTypes_not_onCycle wordPaths)
  obtain ⟨after, hi, spans, hbuild, hvisited, hlast⟩ := visit_roots hknown
  rw [hbuild, Option.some.injEq] at hintervals
  rw [← hintervals, walk_decides_iff hknown hvisited hlast, length_rootTypes,
    card_wordPaths] at hdecide
  have := length_deepestLast_rootTypes wordPaths
  omega

end Dream64.Vm
