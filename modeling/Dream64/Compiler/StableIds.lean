import Dream64.Compiler.Persistent
import Dream64.Compiler.DatabaseCodec

/-!
# The identities of a build

A name that the database before has keeps its identity; the names that are new
in a namespace take the identities behind the highest one, as long as there is
room for them.
-/

namespace Dream64.Compiler

open Codec ObjectTree

variable {prior : List StableIdEntry} {next : String → Nat} {nodes : List CodeNode}

/-- The namespace and the name of an entry. -/
def StableIdEntry.key (entry : StableIdEntry) : String × String := (entry.nameSpace, entry.name)

def StableIdEntry.number (entry : StableIdEntry) : String × Nat := (entry.nameSpace, entry.id)

/-- The nodes of a namespace whose name the entries do not have. -/
def fresh (prior : List StableIdEntry) (nodes : List CodeNode) (nameSpace : String) :
    List CodeNode :=
  nodes.filter fun node => nameSpaceOf node.kind = nameSpace ∧ priorId prior (nodeKey node) = none

/-! ## Lookup -/

variable {id : Nat}

theorem priorId_eq_some {key : String × String} (h : priorId prior key = some id) :
    ∃ entry ∈ prior, entry.key = key ∧ entry.id = id := by
  obtain ⟨entry, hfind, hid⟩ := Option.map_eq_some_iff.1 h
  have hmem := List.mem_reverse.1 (List.mem_of_find?_eq_some hfind)
  have hkey := List.find?_some hfind
  exact ⟨entry, hmem, beq_iff_eq.1 hkey, hid⟩

theorem priorId_eq_none {key : String × String} :
    priorId prior key = none ↔ ∀ entry ∈ prior, entry.key ≠ key := by
  simp only [priorId, Option.map_eq_none_iff, List.find?_eq_none, List.mem_reverse, beq_iff_eq]
  rfl

variable {entry : StableIdEntry}

theorem priorId_of_mem (hkeys : (prior.map StableIdEntry.key).Nodup) (h : entry ∈ prior) :
    priorId prior entry.key = some entry.id := by
  cases hprior : priorId prior entry.key with
  | none => exact absurd rfl (priorId_eq_none.1 hprior entry h)
  | some id =>
    obtain ⟨other, hother, hkey, rfl⟩ := priorId_eq_some hprior
    rw [List.inj_on_of_nodup_map hkeys hother h hkey]

variable {entries : List StableIdEntry} {nameSpace : String}

theorem foldl_nextIds_le {start : String → Nat} {bound : Nat} :
    entries.foldl (fun next entry => Function.update next entry.nameSpace
        (max (next entry.nameSpace) (saturatingSucc entry.id))) start nameSpace ≤ bound ↔
      start nameSpace ≤ bound ∧
        ∀ entry ∈ entries, entry.nameSpace = nameSpace → saturatingSucc entry.id ≤ bound := by
  induction entries generalizing start with
  | nil => simp
  | cons first entries ih =>
    rw [List.foldl_cons, ih, List.forall_mem_cons, ← and_assoc]
    refine and_congr_left fun _ => ?_
    by_cases hname : first.nameSpace = nameSpace
    · subst hname
      simp
    · rw [Function.update_of_ne (Ne.symm hname)]
      simp [hname]

/-- The next free identity is the least one above those of the namespace. -/
theorem nextIds_le {bound : Nat} : nextIds entries nameSpace ≤ bound ↔
      ∀ entry ∈ entries, entry.nameSpace = nameSpace → saturatingSucc entry.id ≤ bound := by
  rw [nextIds, foldl_nextIds_le]
  exact and_iff_right (Nat.zero_le _)

theorem lt_nextIds (h : entry ∈ entries) (hroom : entry.id < maxU64) :
    entry.id < nextIds entries entry.nameSpace := by
  have hle := nextIds_le.1 (Nat.le_refl (nextIds entries entry.nameSpace)) entry h rfl
  rw [saturatingSucc, Nat.min_eq_left hroom] at hle
  exact hle

/-! ## Assigning -/

theorem assignIds_keys (prior : List StableIdEntry) (next : String → Nat) (nodes : List CodeNode) :
    (assignIds prior next nodes).map StableIdEntry.key = nodes.map nodeKey := by
  induction nodes generalizing next with
  | nil => rfl
  | cons node nodes ih =>
    rw [assignIds]
    cases priorId prior (nodeKey node) with
    | some id => exact congrArg (nodeKey node :: ·) (ih _)
    | none => exact congrArg (nodeKey node :: ·) (ih _)

/-- A name that the entries have keeps its identity. -/
theorem assignIds_kept (h : entry ∈ assignIds prior next nodes)
    (hprior : priorId prior entry.key = some id) : entry.id = id := by
  induction nodes generalizing next with
  | nil => cases h
  | cons node nodes ih =>
    rw [assignIds] at h
    cases hnode : priorId prior (nodeKey node) with
    | some first =>
      rw [hnode] at h
      rcases List.mem_cons.1 h with rfl | hmem
      · exact Option.some.inj (hnode.symm.trans hprior)
      · exact ih hmem
    | none =>
      rw [hnode] at h
      rcases List.mem_cons.1 h with rfl | hmem
      · exact absurd (hnode.symm.trans hprior) (by simp)
      · exact ih hmem

variable {node : CodeNode}

theorem fresh_cons_some (h : priorId prior (nodeKey node) = some id) (nameSpace : String) :
    fresh prior (node :: nodes) nameSpace = fresh prior nodes nameSpace := by
  rw [fresh, List.filter_cons_of_neg (by simp [h])]
  rfl

theorem fresh_cons_none (h : priorId prior (nodeKey node) = none) :
    fresh prior (node :: nodes) (nameSpaceOf node.kind) =
      node :: fresh prior nodes (nameSpaceOf node.kind) := by
  rw [fresh, List.filter_cons_of_pos (by simp [h])]
  rfl

theorem fresh_cons_of_ne (h : nameSpaceOf node.kind ≠ nameSpace) :
    fresh prior (node :: nodes) nameSpace = fresh prior nodes nameSpace := by
  rw [fresh, List.filter_cons_of_neg (by simp [h])]
  rfl

/-- There is room behind the next free identities for the nodes that are new. -/
def HasRoom (prior : List StableIdEntry) (next : String → Nat) (nodes : List CodeNode) : Prop :=
  ∀ nameSpace, fresh prior nodes nameSpace ≠ [] →
    next nameSpace + (fresh prior nodes nameSpace).length ≤ maxU64 + 1

theorem HasRoom.of_some (h : HasRoom prior next (node :: nodes))
    (hprior : priorId prior (nodeKey node) = some id) : HasRoom prior next nodes := by
  intro nameSpace
  rw [← fresh_cons_some hprior]
  exact h nameSpace

/-- What is left for the nodes behind one that takes the next identity. -/
theorem HasRoom.of_none (h : HasRoom prior next (node :: nodes))
    (hprior : priorId prior (nodeKey node) = none) :
    HasRoom prior (Function.update next (nameSpaceOf node.kind)
      (saturatingSucc (next (nameSpaceOf node.kind)))) nodes := by
  intro nameSpace hnil
  by_cases hname : nameSpaceOf node.kind = nameSpace
  · subst hname
    have hroom := h (nameSpaceOf node.kind)
    rw [fresh_cons_none hprior] at hroom
    have hlength := hroom (List.cons_ne_nil _ _)
    rw [List.length_cons] at hlength
    rw [Function.update_self, saturatingSucc]
    omega
  · have hroom := h nameSpace
    rw [fresh_cons_of_ne hname] at hroom
    rw [Function.update_of_ne (Ne.symm hname)]
    exact hroom hnil

/-- An entry has the identity from before, or one of the next. -/
theorem mem_assignIds (hroom : HasRoom prior next nodes) (h : entry ∈ assignIds prior next nodes) :
    priorId prior entry.key = some entry.id ∨
      priorId prior entry.key = none ∧ fresh prior nodes entry.nameSpace ≠ [] ∧
        next entry.nameSpace ≤ entry.id ∧
        entry.id < next entry.nameSpace + (fresh prior nodes entry.nameSpace).length := by
  induction nodes generalizing next with
  | nil => cases h
  | cons node nodes ih =>
    rw [assignIds] at h
    cases hprior : priorId prior (nodeKey node) with
    | some id =>
      rw [hprior] at h
      rcases List.mem_cons.1 h with rfl | hmem
      · exact Or.inl hprior
      · rw [fresh_cons_some hprior]
        exact ih (hroom.of_some hprior) hmem
    | none =>
      rw [hprior] at h
      have hlength := hroom (nameSpaceOf node.kind)
      rw [fresh_cons_none hprior] at hlength
      have hlength := hlength (List.cons_ne_nil _ _)
      rw [List.length_cons] at hlength
      rcases List.mem_cons.1 h with rfl | hmem
      · refine Or.inr ⟨hprior, ?_, Nat.le_refl _, ?_⟩
        · show fresh prior (node :: nodes) (nameSpaceOf node.kind) ≠ []
          rw [fresh_cons_none hprior]
          exact List.cons_ne_nil _ _
        · show next (nameSpaceOf node.kind) < next (nameSpaceOf node.kind) +
            (fresh prior (node :: nodes) (nameSpaceOf node.kind)).length
          rw [fresh_cons_none hprior, List.length_cons]
          omega
      · rcases ih (hroom.of_none hprior) hmem with hsome | ⟨hnone, hnil, hle, hlt⟩
        · exact Or.inl hsome
        · refine Or.inr ⟨hnone, ?_⟩
          by_cases hname : nameSpaceOf node.kind = entry.nameSpace
          · rw [← hname] at hnil hle hlt ⊢
            rw [fresh_cons_none hprior, List.length_cons]
            rw [Function.update_self, saturatingSucc] at hle hlt
            have hpos := List.length_pos_iff.2 hnil
            exact ⟨List.cons_ne_nil _ _, by omega, by omega⟩
          · rw [Function.update_of_ne (Ne.symm hname)] at hle hlt
            rw [fresh_cons_of_ne hname]
            exact ⟨hnil, hle, hlt⟩

/-- The entries before have identities below the next free ones, wherever one is taken. -/
def Below (prior : List StableIdEntry) (next : String → Nat) (nodes : List CodeNode) : Prop :=
  ∀ entry ∈ prior, fresh prior nodes entry.nameSpace ≠ [] → entry.id < next entry.nameSpace

theorem Below.of_some (h : Below prior next (node :: nodes))
    (hprior : priorId prior (nodeKey node) = some id) : Below prior next nodes := by
  intro entry hmem
  rw [← fresh_cons_some hprior]
  exact h entry hmem

/-- The next free identity after one that is taken does not stop at the largest. -/
theorem HasRoom.update (h : HasRoom prior next (node :: nodes))
    (hprior : priorId prior (nodeKey node) = none)
    (hnil : fresh prior nodes (nameSpaceOf node.kind) ≠ []) :
    saturatingSucc (next (nameSpaceOf node.kind)) = next (nameSpaceOf node.kind) + 1 := by
  have hroom := h (nameSpaceOf node.kind)
  rw [fresh_cons_none hprior] at hroom
  have hlength := hroom (List.cons_ne_nil _ _)
  have hpos := List.length_pos_iff.2 hnil
  rw [List.length_cons] at hlength
  rw [saturatingSucc]
  omega

theorem Below.of_none (h : Below prior next (node :: nodes))
    (hroom : HasRoom prior next (node :: nodes)) (hprior : priorId prior (nodeKey node) = none) :
    Below prior (Function.update next (nameSpaceOf node.kind)
      (saturatingSucc (next (nameSpaceOf node.kind)))) nodes := by
  intro entry hmem hnil
  by_cases hname : nameSpaceOf node.kind = entry.nameSpace
  · have hlt := h entry hmem
    rw [← hname] at hnil hlt ⊢
    rw [fresh_cons_none hprior] at hlt
    have hlt := hlt (List.cons_ne_nil _ _)
    rw [Function.update_self, hroom.update hprior hnil]
    omega
  · have hlt := h entry hmem
    rw [fresh_cons_of_ne hname] at hlt
    rw [Function.update_of_ne (Ne.symm hname)]
    exact hlt hnil

theorem eq_of_number (h : (entries.map StableIdEntry.number).Nodup) {a b : StableIdEntry}
    (ha : a ∈ entries) (hb : b ∈ entries) (hnameSpace : a.nameSpace = b.nameSpace)
    (hid : a.id = b.id) : a = b :=
  List.inj_on_of_nodup_map h ha hb (Prod.ext hnameSpace hid)

/-- No identity of a namespace is given twice. -/
theorem assignIds_numbers (hkeys : (nodes.map nodeKey).Nodup)
    (hnumbers : (prior.map StableIdEntry.number).Nodup) (hroom : HasRoom prior next nodes)
    (hbelow : Below prior next nodes) :
    ((assignIds prior next nodes).map StableIdEntry.number).Nodup := by
  induction nodes generalizing next with
  | nil => exact List.nodup_nil
  | cons node nodes ih =>
    rw [List.map_cons, List.nodup_cons] at hkeys
    rw [assignIds]
    cases hprior : priorId prior (nodeKey node) with
    | some id =>
      have hrest := hroom.of_some hprior
      have hlower := hbelow.of_some hprior
      refine List.nodup_cons.2 ⟨fun hmem => ?_, ih hkeys.2 hrest hlower⟩
      obtain ⟨entry, hentry, hnumber⟩ := List.mem_map.1 hmem
      obtain ⟨hnameSpace, hid⟩ := Prod.mk.inj hnumber
      obtain ⟨first, hfirst, hkey, rfl⟩ := priorId_eq_some hprior
      have hfirstName : first.nameSpace = nameSpaceOf node.kind := congrArg Prod.fst hkey
      rcases mem_assignIds hrest hentry with hsome | ⟨-, hnil, hle, -⟩
      · -- two names of one identity
        obtain ⟨second, hsecond, hsecondKey, hsecondId⟩ := priorId_eq_some hsome
        have hsecondName : second.nameSpace = entry.nameSpace := congrArg Prod.fst hsecondKey
        have heq : first = second := eq_of_number hnumbers hfirst hsecond
          (by rw [hfirstName, hsecondName, hnameSpace]) (by rw [hsecondId, hid])
        apply hkeys.1
        rw [← hkey, heq, hsecondKey, ← assignIds_keys prior next nodes]
        exact List.mem_map_of_mem hentry
      · -- a new identity is above the one from before
        rw [hnameSpace, ← hfirstName] at hnil hle
        exact absurd (hlower first hfirst hnil) (Nat.not_lt.2 (hid ▸ hle))
    | none =>
      have hrest := hroom.of_none hprior
      refine List.nodup_cons.2 ⟨fun hmem => ?_,
        ih hkeys.2 hrest (hbelow.of_none hroom hprior)⟩
      obtain ⟨entry, hentry, hnumber⟩ := List.mem_map.1 hmem
      obtain ⟨hnameSpace, hid⟩ := Prod.mk.inj hnumber
      rcases mem_assignIds hrest hentry with hsome | ⟨-, hnil, hle, -⟩
      · obtain ⟨second, hsecond, hsecondKey, hsecondId⟩ := priorId_eq_some hsome
        have hsecondName : second.nameSpace = nameSpaceOf node.kind :=
          (congrArg Prod.fst hsecondKey).trans hnameSpace
        have hlt := hbelow second hsecond
        rw [hsecondName, fresh_cons_none hprior] at hlt
        have hlt := hlt (List.cons_ne_nil _ _)
        rw [hsecondId, hid] at hlt
        exact Nat.lt_irrefl _ hlt
      · rw [hnameSpace] at hnil hle
        rw [Function.update_self, hroom.update hprior hnil, hid] at hle
        exact Nat.not_succ_le_self _ hle

end Dream64.Compiler

/-!
# The registry accepts

`build_with_stable_ids` accepts the identities of a database whose procedures
have different identities of 32 bits.
-/

namespace Dream64.Compiler

open ObjectTree

variable {stableIds : Std.TreeMap String Nat} {nodes : List CodeNode}

/-- Procedures with different identities that fit. -/
theorem checkStableIds_ok {assigned : List Nat}
    (hids : ∀ node ∈ nodes, ∃ id, stableIds[pathText node.path]? = some id ∧ id < 2 ^ 32 ∧
      id ∉ assigned)
    (hdistinct : nodes.Pairwise fun a b =>
      stableIds[pathText a.path]? ≠ stableIds[pathText b.path]?) :
    checkStableIds stableIds assigned nodes = .ok () := by
  induction nodes generalizing assigned with
  | nil => rfl
  | cons node nodes ih =>
    rw [List.pairwise_cons] at hdistinct
    obtain ⟨id, hid, hlt, hnew⟩ := hids node List.mem_cons_self
    simp only [checkStableIds, hid]
    rw [if_neg (Nat.not_le.2 hlt), if_neg hnew]
    refine ih (fun other hother => ?_) hdistinct.2
    obtain ⟨otherId, hotherId, hotherLt, hotherNew⟩ := hids other (List.mem_cons_of_mem _ hother)
    refine ⟨otherId, hotherId, hotherLt, fun hmem => ?_⟩
    rcases List.mem_cons.1 hmem with rfl | hmem
    · exact hdistinct.1 other hother (hid.trans hotherId.symm)
    · exact hotherNew hmem

variable {tree : CodeTree}

theorem mem_procedureNodes {node : CodeNode} :
    node ∈ procedureNodes tree ↔ node ∈ tree.nodes ∧ nameSpaceOf node.kind = "procedure" := by
  rw [procedureNodes, List.mem_filter, decide_eq_true_eq]
  refine and_congr_right fun _ => ?_
  cases node.kind <;> decide

/-- What the map of a namespace is built from. -/
def namespaceIds (entries : List StableIdEntry) (nameSpace : String) : List (String × Nat) :=
  (entries.filter fun entry => entry.nameSpace == nameSpace).map fun entry => (entry.name, entry.id)

theorem namespaceIds_distinct {entries : List StableIdEntry} {nameSpace : String}
    (hnames : (entries.map StableIdEntry.key).Nodup) :
    (namespaceIds entries nameSpace).Pairwise fun a b => ¬ compare a.1 b.1 = .eq := by
  rw [namespaceIds, List.pairwise_map]
  have hfiltered := List.pairwise_map.1 (hnames.sublist (List.filter_sublist
    (p := fun entry => entry.nameSpace == nameSpace) |>.map _))
  refine hfiltered.imp_of_mem fun {a b} ha hb hne hcompare => ?_
  have hkey : a.key = b.key := by
    refine Prod.ext ?_ (Std.LawfulEqCmp.eq_of_compare hcompare)
    exact (beq_iff_eq.1 (List.mem_filter.1 ha).2).trans (beq_iff_eq.1 (List.mem_filter.1 hb).2).symm
  exact hne hkey

variable {db : PersistentCompilerDatabase}

theorem stableIds_lookup {entry : StableIdEntry}
    (hnames : (db.stableIds.map StableIdEntry.key).Nodup) (h : entry ∈ db.stableIds) :
    (stableIdsForNamespace db entry.nameSpace)[entry.name]? = some entry.id := by
  refine Std.TreeMap.getElem?_ofList_of_mem (k := entry.name) Std.ReflCmp.compare_self
    (namespaceIds_distinct hnames) ?_
  refine List.mem_map.2 ⟨entry, ?_, rfl⟩
  rw [List.mem_filter]
  exact ⟨h, beq_self_eq_true _⟩

theorem stableIds_size (hkeys : db.stableIds.map StableIdEntry.key = tree.nodes.map nodeKey)
    (hnames : (db.stableIds.map StableIdEntry.key).Nodup) :
    (stableIdsForNamespace db "procedure").size = (procedureNodes tree).length := by
  have hcount := congrArg (List.countP fun key => key.1 == "procedure") hkeys
  rw [List.countP_map, List.countP_map] at hcount
  have hprocedures : (procedureNodes tree).length =
      tree.nodes.countP ((fun key => key.1 == "procedure") ∘ nodeKey) := by
    rw [procedureNodes, ← List.countP_eq_length_filter]
    refine List.countP_congr fun node _ => ?_
    show decide (node.kind = .procedure ∨ node.kind = .verb) = true ↔
      (nameSpaceOf node.kind == "procedure") = true
    cases node.kind <;> decide
  rw [hprocedures, ← hcount]
  refine (Std.TreeMap.size_ofList (namespaceIds_distinct hnames)).trans ?_
  rw [namespaceIds, List.length_map, ← List.countP_eq_length_filter]
  rfl

/-- The entries of the database are those of its tree. -/
theorem buildWithStableIds_ok (hkeys : db.stableIds.map StableIdEntry.key = tree.nodes.map nodeKey)
    (hnames : (tree.nodes.map nodeKey).Nodup)
    (hnumbers : (db.stableIds.map StableIdEntry.number).Nodup)
    (hlt : ∀ entry ∈ db.stableIds, entry.nameSpace = "procedure" → entry.id < 2 ^ 32) :
    ∃ order, buildWithStableIds tree (stableIdsForNamespace db "procedure") = .ok order := by
  have hentries : (db.stableIds.map StableIdEntry.key).Nodup := hkeys ▸ hnames
  have hentry (node : CodeNode) (hnode : node ∈ procedureNodes tree) :
      ∃ entry ∈ db.stableIds, entry.key = nodeKey node ∧ entry.nameSpace = "procedure" ∧
        (stableIdsForNamespace db "procedure")[pathText node.path]? = some entry.id := by
    obtain ⟨hmem, hprocedure⟩ := mem_procedureNodes.1 hnode
    have hkey : nodeKey node ∈ db.stableIds.map StableIdEntry.key := by
      rw [hkeys]
      exact List.mem_map_of_mem hmem
    obtain ⟨entry, hentry, heq⟩ := List.mem_map.1 hkey
    have hnameSpace : entry.nameSpace = "procedure" := (congrArg Prod.fst heq).trans hprocedure
    have hname : entry.name = pathText node.path := congrArg Prod.snd heq
    have hlookup := stableIds_lookup hentries hentry
    rw [hnameSpace, hname] at hlookup
    exact ⟨entry, hentry, heq, hnameSpace, hlookup⟩
  rw [buildWithStableIds]
  split
  · exact ⟨_, rfl⟩
  · rw [checkStableIds_ok]
    · simp only [stableIds_size hkeys hentries, ne_eq, not_true_eq_false, if_false]
      exact ⟨_, rfl⟩
    · intro node hnode
      obtain ⟨entry, hmem, -, hnameSpace, hlookup⟩ := hentry node hnode
      exact ⟨entry.id, hlookup, hlt entry hmem hnameSpace, List.not_mem_nil⟩
    · have hpairs := List.pairwise_map.1 (hnames.sublist (List.filter_sublist
        (p := fun node : CodeNode => node.kind = .procedure ∨ node.kind = .verb) |>.map _))
      refine List.Pairwise.imp_of_mem (fun {a b} ha hb hne hlookup => ?_) hpairs
      obtain ⟨first, hfirst, hfirstKey, hfirstName, hfirstId⟩ := hentry a ha
      obtain ⟨second, hsecond, hsecondKey, hsecondName, hsecondId⟩ := hentry b hb
      rw [hfirstId, hsecondId, Option.some.injEq] at hlookup
      have heq := eq_of_number hnumbers hfirst hsecond (hfirstName.trans hsecondName.symm) hlookup
      exact hne (by rw [← hfirstKey, heq, hsecondKey])

end Dream64.Compiler
