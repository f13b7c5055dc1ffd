import Dream64.Library.ParentGraph
import Dream64.ObjectTree.Tree

/-!
# The search for cycles

`inheritance_cycle_nodes` marks the nodes along chains of parents. A chain
ends at a node without a parent, at a chain that is done, or at one of its own
nodes, and only in the last case does it find a cycle. The search finds
exactly the nodes on cycles, as every cycle has a type on it.
-/

namespace Dream64.ObjectTree

open ParentGraph

variable {nodes : List CodeNode}

/-- No chain is under way: what is done is closed under parents, and the cycles
in it are found. -/
structure Searched (nodes : List CodeNode) (state : NodeId → Visit) (found : List NodeId) :
    Prop where
  inactive : ∀ node, state node ≠ .active
  closed : ∀ node, state node = .done → ∀ parent, parentOf nodes node = some parent →
    state parent = .done
  found_iff : ∀ node, node ∈ found ↔ state node = .done ∧ OnCycle (parentOf nodes) node

variable {found : List NodeId}

theorem Searched.done_of_climb {state : NodeId → Visit} {k : Nat} {a b : NodeId}
    (h : Searched nodes state found) (ha : state a = .done)
    (hb : climb (parentOf nodes) k a = some b) : state b = .done := by
  induction k generalizing a with
  | zero => cases hb; exact ha
  | succ k ih =>
    rw [climb_succ] at hb
    obtain ⟨c, hc, hb⟩ := Option.bind_eq_some_iff.1 hb
    exact ih (h.closed a ha c hc) hb

/-- The chain under way, over the marks before it: each node's parent is the next one. -/
structure Chained (nodes : List CodeNode) (before state : NodeId → Visit) (chain : List NodeId)
    (current : Option NodeId) : Prop where
  state_eq : ∀ node, state node = if node ∈ chain then .active else before node
  unvisited : ∀ node ∈ chain, before node = .unvisited
  nodup : chain.Nodup
  next : ∀ i node, chain[i]? = some node →
    parentOf nodes node = (chain ++ current.toList)[i + 1]?

variable {before state : NodeId → Visit} {chain : List NodeId} {current : Option NodeId}

variable {node : NodeId}

theorem Chained.climb_eq (h : Chained nodes before state chain current) {i k : Nat}
    (hnode : chain[i]? = some node) (hle : i + k ≤ chain.length) :
    climb (parentOf nodes) k node = (chain ++ current.toList)[i + k]? := by
  induction k generalizing i node with
  | zero =>
    have hlt : i < chain.length := (List.getElem?_eq_some_iff.1 hnode).1
    rw [climb_zero, Nat.add_zero, List.getElem?_append_left hlt, hnode]
  | succ k ih =>
    rw [climb_succ, h.next i node hnode]
    have hlt : i < chain.length := (List.getElem?_eq_some_iff.1 hnode).1
    cases k with
    | zero =>
      cases (chain ++ current.toList)[i + 1]? <;> rfl
    | succ k =>
      have hlt' : i + 1 < chain.length := by omega
      rw [List.getElem?_append_left hlt', List.getElem?_eq_getElem hlt', Option.bind_some,
        ih (List.getElem?_eq_getElem hlt') (by omega)]
      rw [show i + 1 + (k + 1) = i + (k + 1 + 1) by omega]

/-- Every node of a chain climbs to what comes after the chain. -/
theorem Chained.climb_current (h : Chained nodes before state chain current) {i : Nat}
    (hnode : chain[i]? = some node) : climb (parentOf nodes) (chain.length - i) node = current := by
  have hlt : i < chain.length := (List.getElem?_eq_some_iff.1 hnode).1
  rw [h.climb_eq hnode (by omega), show i + (chain.length - i) = chain.length by omega,
    List.getElem?_append_right (Nat.le_refl _), Nat.sub_self]
  cases current <;> rfl

theorem Chained.extend (h : Chained nodes before state chain (some node))
    (hnode : state node = .unvisited) :
    Chained nodes before (Function.update state node .active) (chain ++ [node])
      (parentOf nodes node) := by
  have hmem : node ∉ chain := by
    intro hmem
    have hstate := h.state_eq node
    rw [if_pos hmem, hnode] at hstate
    cases hstate
  refine ⟨fun n => ?_, ?_, ?_, ?_⟩
  · by_cases heq : n = node
    · subst heq
      simp
    · rw [Function.update_of_ne heq, h.state_eq n]
      simp [heq]
  · intro n hn
    rcases List.mem_append.1 hn with hn | hn
    · exact h.unvisited n hn
    · obtain rfl := List.mem_singleton.1 hn
      have hstate := h.state_eq n
      rw [if_neg hmem, hnode] at hstate
      exact hstate.symm
  · exact List.nodup_append.2 ⟨h.nodup, List.nodup_singleton _, by
      rintro a ha b hb rfl
      exact hmem (List.mem_singleton.1 hb ▸ ha)⟩
  · intro i n hn
    rcases Nat.lt_or_ge i chain.length with hlt | hge
    · rw [List.getElem?_append_left hlt] at hn
      have hlt' : i + 1 < (chain ++ [node]).length := by
        rw [List.length_append, List.length_singleton]
        omega
      rw [h.next i n hn, List.getElem?_append_left hlt']
      rfl
    · rw [List.getElem?_append_right hge] at hn
      obtain ⟨hi, rfl⟩ : i - chain.length = 0 ∧ node = n := by
        rcases hsub : i - chain.length with _ | m
        · rw [hsub] at hn
          exact ⟨rfl, by simpa using hn⟩
        · rw [hsub] at hn
          cases hn
      rw [List.getElem?_append_right (by simp; omega)]
      simp only [List.length_append, List.length_singleton]
      rw [show i + 1 - (chain.length + 1) = 0 by omega]
      cases parentOf nodes node <;> rfl

/-- A chain that has come to its end, and the cycle it has found. -/
structure Followed (nodes : List CodeNode) (before : NodeId → Visit)
    (result : (NodeId → Visit) × List NodeId × List NodeId) : Prop where
  state_eq : ∀ node, result.1 node = if node ∈ result.2.1 then .active else before node
  unvisited : ∀ node ∈ result.2.1, before node = .unvisited
  closed : ∀ node ∈ result.2.1, ∀ parent, parentOf nodes node = some parent →
    parent ∈ result.2.1 ∨ before parent = .done
  found_iff : ∀ node, node ∈ result.2.2 ↔ node ∈ result.2.1 ∧ OnCycle (parentOf nodes) node

theorem Chained.closed (h : Chained nodes before state chain current)
    (hcurrent : ∀ node, current = some node → node ∈ chain ∨ before node = .done) :
    ∀ node ∈ chain, ∀ parent, parentOf nodes node = some parent →
      parent ∈ chain ∨ before parent = .done := by
  intro node hnode parent hparent
  obtain ⟨i, hi⟩ := List.mem_iff_getElem?.1 hnode
  rw [h.next i node hi] at hparent
  rcases List.mem_append.1 (List.mem_of_getElem? hparent) with hmem | hmem
  · exact .inl hmem
  · exact hcurrent parent (Option.mem_toList.1 hmem)

theorem Chained.end_none (h : Chained nodes before state chain none) :
    Followed nodes before (state, chain, []) where
  state_eq := h.state_eq
  unvisited := h.unvisited
  closed := h.closed nofun
  found_iff node := by
    refine ⟨nofun, fun ⟨hmem, hcycle⟩ => ?_⟩
    obtain ⟨i, hi⟩ := List.mem_iff_getElem?.1 hmem
    exact absurd ⟨_, h.climb_current hi⟩ hcycle.not_ends

theorem Chained.end_done (hbefore : Searched nodes before found)
    (h : Chained nodes before state chain (some node)) (hnode : state node = .done) :
    Followed nodes before (state, chain, []) := by
  have hdone : before node = .done := by
    rw [h.state_eq node] at hnode
    split at hnode
    · cases hnode
    · exact hnode
  refine ⟨h.state_eq, h.unvisited, h.closed ?_, fun n => ⟨nofun, fun ⟨hmem, hcycle⟩ => ?_⟩⟩
  · rintro _ ⟨⟩
    exact .inr hdone
  · -- a node on a cycle would be reached again from what was done before
    obtain ⟨i, hi⟩ := List.mem_iff_getElem?.1 hmem
    obtain ⟨m, hm⟩ := hcycle.back (h.climb_current hi)
    have hn := hbefore.done_of_climb hdone hm
    rw [h.unvisited n hmem] at hn
    cases hn

theorem Chained.end_active (hbefore : Searched nodes before found)
    (h : Chained nodes before state chain (some node)) (hnode : state node = .active) :
    Followed nodes before (state, chain, chain.drop (chain.idxOf node)) := by
  have hmem : node ∈ chain := by
    rw [h.state_eq node] at hnode
    by_contra hnot
    rw [if_neg hnot] at hnode
    exact hbefore.inactive node hnode
  have hlt : chain.idxOf node < chain.length := List.idxOf_lt_length_of_mem hmem
  have hindex : chain[chain.idxOf node]? = some node := by
    rw [List.getElem?_eq_getElem hlt, List.getElem_idxOf hlt]
  have hcycle : OnCycle (parentOf nodes) node := by
    refine ⟨chain.length - chain.idxOf node - 1, ?_⟩
    rw [show chain.length - chain.idxOf node - 1 + 1 = chain.length - chain.idxOf node by omega]
    exact h.climb_current hindex
  refine ⟨h.state_eq, h.unvisited, h.closed ?_, fun n => ⟨fun hn => ?_, fun ⟨hn, hon⟩ => ?_⟩⟩
  · rintro _ ⟨⟩
    exact .inl hmem
  · obtain ⟨q, hq⟩ := List.mem_iff_getElem?.1 hn
    rw [List.getElem?_drop] at hq
    have hlt' := (List.getElem?_eq_some_iff.1 hq).1
    refine ⟨List.mem_of_mem_drop hn, hcycle.above (j := q) ?_⟩
    rw [h.climb_eq hindex (by omega), List.getElem?_append_left hlt', hq]
  · -- the climbs from the entry of the cycle never leave the rest of the chain
    have hstay : ∀ {j : Nat} {m : NodeId}, climb (parentOf nodes) j node = some m →
        m ∈ chain.drop (chain.idxOf node) := by
      intro j
      induction j with
      | zero =>
        intro m hm
        cases hm
        exact List.mem_iff_getElem?.2 ⟨0, by rw [List.getElem?_drop]; exact hindex⟩
      | succ j ih =>
        intro m hm
        obtain ⟨c, hc, hstep⟩ := climb_cut hm
        rw [climb_one] at hstep
        obtain ⟨q, hq⟩ := List.mem_iff_getElem?.1 (ih hc)
        rw [List.getElem?_drop] at hq
        rw [h.next _ c hq] at hstep
        rcases Nat.lt_or_ge (chain.idxOf node + q + 1) chain.length with hlt' | hge
        · rw [List.getElem?_append_left hlt'] at hstep
          exact List.mem_iff_getElem?.2 ⟨q + 1, by rw [List.getElem?_drop]; exact hstep⟩
        · rw [List.getElem?_append_right hge] at hstep
          have hm' := List.mem_of_getElem? hstep
          obtain rfl : m = node := by simpa using hm'
          exact List.mem_iff_getElem?.2 ⟨0, by rw [List.getElem?_drop]; exact hindex⟩
    obtain ⟨i, hi⟩ := List.mem_iff_getElem?.1 hn
    obtain ⟨m, hm⟩ := hon.back (h.climb_current hi)
    exact hstay hm

variable {fuel : Nat}

theorem followChain_followed (hbefore : Searched nodes before found)
    {result : (NodeId → Visit) × List NodeId × List NodeId}
    (hchain : Chained nodes before state chain current)
    (h : followChain nodes fuel state chain current = some result) :
    Followed nodes before result := by
  induction fuel generalizing state chain current with
  | zero => cases h
  | succ fuel ih =>
    cases current with
    | none => cases h; exact hchain.end_none
    | some node =>
      rw [followChain] at h
      cases hstate : state node with
      | unvisited =>
        rw [hstate] at h
        exact ih (hchain.extend hstate) h
      | active =>
        rw [hstate] at h
        cases h
        exact hchain.end_active hbefore hstate
      | done =>
        rw [hstate] at h
        cases h
        exact hchain.end_done hbefore hstate

theorem followChain_subset {result : (NodeId → Visit) × List NodeId × List NodeId}
    (h : followChain nodes fuel state chain current = some result) : chain ⊆ result.2.1 := by
  induction fuel generalizing state chain current with
  | zero => cases h
  | succ fuel ih =>
    cases current with
    | none => cases h; exact List.Subset.refl _
    | some node =>
      rw [followChain] at h
      cases hstate : state node with
      | unvisited =>
        rw [hstate] at h
        exact List.Subset.trans (List.subset_append_left _ _) (ih h)
      | active => rw [hstate] at h; cases h; exact List.Subset.refl _
      | done => rw [hstate] at h; cases h; exact List.Subset.refl _

/-- The parents are nodes. -/
def ParentsInRange (nodes : List CodeNode) : Prop :=
  ∀ node parent, parentOf nodes node = some parent → parent < nodes.length

theorem nodup_length_le {n : Nat} (hnodup : chain.Nodup) (hlt : ∀ node ∈ chain, node < n) :
    chain.length ≤ n := by
  have hsub : chain ⊆ List.range n := fun node hnode => List.mem_range.2 (hlt node hnode)
  simpa using (hnodup.subperm hsub).length_le

/-- A chain has no more nodes than the tree, so the loop ends. -/
theorem followChain_isSome (hrange : ParentsInRange nodes)
    (hchain : Chained nodes before state chain current) (hlt : ∀ node ∈ chain, node < nodes.length)
    (hcurrent : ∀ node, current = some node → node < nodes.length)
    (hfuel : nodes.length + 2 ≤ fuel + chain.length) :
    (followChain nodes fuel state chain current).isSome := by
  induction fuel generalizing state chain current with
  | zero =>
    have hle := nodup_length_le hchain.nodup hlt
    omega
  | succ fuel ih =>
    cases current with
    | none => rfl
    | some node =>
      rw [followChain]
      cases hstate : state node with
      | unvisited =>
        refine ih (hchain.extend hstate) ?_ (fun parent hparent => hrange node parent hparent) ?_
        · intro n hn
          rcases List.mem_append.1 hn with hn | hn
          · exact hlt n hn
          · rw [List.mem_singleton.1 hn]
            exact hcurrent node rfl
        · simp only [List.length_append, List.length_singleton]
          omega
      | active => rfl
      | done => rfl

variable {acc : (NodeId → Visit) × List NodeId}

/-- One start of the search keeps what is done and finishes the chain from it. -/
theorem Searched.searchFrom {acc' : (NodeId → Visit) × List NodeId} {start : NodeId}
    (h : Searched nodes acc.1 acc.2) (hstep : searchFrom nodes fuel acc start = some acc') :
    Searched nodes acc'.1 acc'.2 ∧ (∀ node, acc.1 node = .done → acc'.1 node = .done) ∧
      (nodes[start]?.any (·.kind = .type) → acc'.1 start = .done) := by
  rw [ObjectTree.searchFrom] at hstep
  by_cases hstart : nodes[start]?.any (·.kind = .type) ∧ acc.1 start = .unvisited
  · rw [if_pos hstart] at hstep
    obtain ⟨⟨state, chain, cycle⟩, hfollow, hacc⟩ := Option.bind_eq_some_iff.1 hstep
    cases hacc
    have hchained : Chained nodes acc.1 acc.1 [] (some start) :=
      ⟨by simp, by simp, List.nodup_nil, by simp⟩
    have hfollowed := followChain_followed h hchained hfollow
    have hmark : ∀ node, (if node ∈ chain then Visit.done else state node) =
        if node ∈ chain then .done else acc.1 node := by
      intro node
      by_cases hmem : node ∈ chain
      · rw [if_pos hmem, if_pos hmem]
      · have hstate : state node = if node ∈ chain then Visit.active else acc.1 node :=
          hfollowed.state_eq node
        rw [if_neg hmem] at hstate
        rw [if_neg hmem, if_neg hmem, hstate]
    have hkeep : ∀ node, acc.1 node = .done →
        (if node ∈ chain then Visit.done else state node) = .done := by
      intro node hnode
      rw [hmark]
      split
      · rfl
      · exact hnode
    refine ⟨⟨fun node => ?_, fun node hnode parent hparent => ?_, fun node => ?_⟩, hkeep, ?_⟩
    · simp only [hmark]
      split
      · simp
      · exact h.inactive node
    · simp only [hmark] at hnode ⊢
      by_cases hmem : node ∈ chain
      · rcases hfollowed.closed node hmem parent hparent with hparent | hparent
        · rw [if_pos hparent]
        · split
          · rfl
          · exact hparent
      · rw [if_neg hmem] at hnode
        split
        · rfl
        · exact h.closed node hnode parent hparent
    · simp only [hmark, List.mem_append]
      rw [h.found_iff node, hfollowed.found_iff node]
      by_cases hmem : node ∈ chain
      · have hunvisited : acc.1 node = .unvisited := hfollowed.unvisited node hmem
        simp [hmem, hunvisited]
      · simp [hmem]
    · intro _
      -- the first node of the chain is the start
      have hmem : start ∈ chain := by
        cases fuel with
        | zero => cases hfollow
        | succ fuel =>
          rw [followChain, hstart.2] at hfollow
          exact followChain_subset hfollow List.mem_cons_self
      exact if_pos hmem
  · rw [if_neg hstart] at hstep
    cases hstep
    refine ⟨h, fun _ h => h, fun htype => ?_⟩
    rcases hstate : acc.1 start with _ | _ | _
    · exact absurd ⟨htype, hstate⟩ hstart
    · exact absurd hstate (h.inactive start)
    · rfl

theorem searchFrom_isSome (hrange : ParentsInRange nodes) {start : NodeId}
    (hfuel : nodes.length + 2 ≤ fuel) (hstart : start < nodes.length) :
    (searchFrom nodes fuel acc start).isSome := by
  rw [searchFrom]
  split
  · have hchained : Chained nodes acc.1 acc.1 [] (some start) :=
      ⟨by simp, by simp, List.nodup_nil, by simp⟩
    have hsome : (followChain nodes fuel acc.1 [] (some start)).isSome :=
      followChain_isSome hrange hchained (by simp) (by rintro _ ⟨⟩; exact hstart)
        (by simpa using hfuel)
    obtain ⟨result, hresult⟩ := Option.isSome_iff_exists.1 hsome
    rw [hresult]
    rfl
  · rfl

theorem foldlM_searchFrom {starts : List NodeId} {acc' : (NodeId → Visit) × List NodeId}
    (h : Searched nodes acc.1 acc.2) (hfold : starts.foldlM (searchFrom nodes fuel) acc = some acc')
    : Searched nodes acc'.1 acc'.2 ∧ (∀ node, acc.1 node = .done → acc'.1 node = .done) ∧
      ∀ start ∈ starts, nodes[start]?.any (·.kind = .type) → acc'.1 start = .done := by
  induction starts generalizing acc with
  | nil => cases hfold; exact ⟨h, fun _ h => h, nofun⟩
  | cons start starts ih =>
    rw [List.foldlM_cons] at hfold
    obtain ⟨acc₁, hstep, hfold⟩ := Option.bind_eq_some_iff.1 hfold
    obtain ⟨h₁, hkeep₁, hdone₁⟩ := h.searchFrom hstep
    obtain ⟨h', hkeep, hdone⟩ := ih h₁ hfold
    refine ⟨h', fun node hnode => hkeep node (hkeep₁ node hnode), ?_⟩
    intro node hnode htype
    rcases List.mem_cons.1 hnode with rfl | hnode
    · exact hkeep _ (hdone₁ htype)
    · exact hdone node hnode htype

theorem foldlM_isSome {starts : List NodeId} (hrange : ParentsInRange nodes)
    (hfuel : nodes.length + 2 ≤ fuel) (hstarts : ∀ start ∈ starts, start < nodes.length)
    (acc : (NodeId → Visit) × List NodeId) :
    (starts.foldlM (searchFrom nodes fuel) acc).isSome := by
  induction starts generalizing acc with
  | nil => rfl
  | cons start starts ih =>
    obtain ⟨hstart, hstarts⟩ := List.forall_mem_cons.1 hstarts
    have hsome : (searchFrom nodes fuel acc start).isSome := searchFrom_isSome hrange hfuel hstart
    obtain ⟨acc₁, hacc₁⟩ := Option.isSome_iff_exists.1 hsome
    rw [List.foldlM_cons, hacc₁]
    exact ih hstarts acc₁

/-- The search finds exactly the nodes on cycles, if every cycle has a type on it. -/
theorem inheritanceCycleNodes_spec (htype : ∀ node, OnCycle (parentOf nodes) node → ∃ k start,
      climb (parentOf nodes) k node = some start ∧ nodes[start]?.any (·.kind = .type))
    (h : inheritanceCycleNodes fuel nodes = some found) (node : NodeId) :
    node ∈ found ↔ OnCycle (parentOf nodes) node := by
  obtain ⟨acc, hacc, rfl⟩ := Option.map_eq_some_iff.1 h
  have hinit : Searched nodes ((fun _ => .unvisited, []) : (NodeId → Visit) × List NodeId).1 [] :=
    ⟨nofun, nofun, by simp⟩
  obtain ⟨hsearched, -, hdone⟩ := foldlM_searchFrom hinit hacc
  rw [hsearched.found_iff node]
  refine ⟨fun h => h.2, fun hcycle => ⟨?_, hcycle⟩⟩
  obtain ⟨k, start, hclimb, hkind⟩ := htype node hcycle
  have hstart : start ∈ List.range nodes.length := by
    rw [List.mem_range]
    by_contra hge
    rw [List.getElem?_eq_none (by omega)] at hkind
    cases hkind
  obtain ⟨m, hm⟩ := hcycle.back hclimb
  exact hsearched.done_of_climb (hdone start hstart hkind) hm

theorem inheritanceCycleNodes_isSome (hrange : ParentsInRange nodes)
    (hfuel : nodes.length + 2 ≤ fuel) : (inheritanceCycleNodes fuel nodes).isSome := by
  rw [inheritanceCycleNodes, Option.isSome_map]
  exact foldlM_isSome hrange hfuel (fun _ h => List.mem_range.1 h) _

end Dream64.ObjectTree
