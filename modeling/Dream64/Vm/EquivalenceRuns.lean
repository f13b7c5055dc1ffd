import Dream64.Value.ArenaRuns
import Dream64.Vm.ValuesEquivalent

/-!
# Where the comparison returns

What is inside a value is what its list has as an entry or as the value of a
key, and so on. Two values from which no list is reached that is inside itself
are compared to an end, in either order to the same answer. A value is found
equal to itself exactly if no list in it is inside itself and everything else in
it is equal to itself (`valuesEquivalent_iff`).
-/

namespace Dream64.Vm

open Relation Descent

variable {hash : SemanticKey → Nat} {heap : ValueHeap} {left right value : Value} {list : DmList}
  {entries : List Entry}

/-! ## What is inside -/

/-- A canonical value that a list of the heap has as an entry or for one. -/
def Inside (hash : SemanticKey → Nat) (heap : ValueHeap) (inner outer : Value) : Prop :=
  ∃ id list index key, outer = .list id ∧ heap.list id = some list ∧
    list.get index = some (.ok key) ∧ (inner = heap.canonicalizeValue key ∨
      inner = heap.canonicalizeValue (associatedOrNull hash list key))

/-- What is reached from a value through entries and the values of keys. -/
def Reached (hash : SemanticKey → Nat) (heap : ValueHeap) (part value : Value) : Prop :=
  ReflTransGen (Inside hash heap) part (heap.canonicalizeValue value)

/-- A matrix has its six components. -/
def Complete (heap : ValueHeap) : Value → Prop
  | .datum id => isMatrixDatum id heap = true → ∃ components, matrixComponents id heap = .ok components
  | _ => True

/-- A value that is no list is equal to itself: no number that is not one, also not in a matrix. -/
def EqualsItself (heap : ValueHeap) : Value → Prop
  | .list _ => True
  | .datum id => isMatrixDatum id heap = true →
    ∃ components, matrixComponents id heap = .ok components ∧ componentsEq components components = true
  | value => value.semanticEq value = true

/-- No list is reached that is inside itself. -/
def Bounded (hash : SemanticKey → Nat) (heap : ValueHeap) (value : Value) : Prop :=
  Acyclic (Inside hash heap) (heap.canonicalizeValue value)

@[simp] theorem canonicalize_canonicalize (value : Value) :
    heap.canonicalizeValue (heap.canonicalizeValue value) = heap.canonicalizeValue value := by
  cases value with
  | datum _ | list _ =>
    rw [ValueHeap.canonicalizeValue]
    split
    · rename_i hlive
      rw [ValueHeap.canonicalizeValue, if_pos hlive]
    · rfl
  | _ => rfl

theorem valuesEquivalent_canonical (fuel : Nat) (left right : Value) :
    valuesEquivalent hash heap fuel (heap.canonicalizeValue left) (heap.canonicalizeValue right) =
      valuesEquivalent hash heap fuel left right := by
  cases fuel with
  | zero => rfl
  | succ fuel => rw [valuesEquivalent, valuesEquivalent, canonicalize_canonicalize,
      canonicalize_canonicalize]

/-! ## Answers -/

/-- The comparison comes to an answer, and to the same one with its operands exchanged. -/
def Agree (hash : SemanticKey → Nat) (heap : ValueHeap) (left right : Value) : Prop :=
  ∃ answer, Fuelled.Settles (fun fuel => valuesEquivalent hash heap fuel left right) (.ok answer) ∧
    Fuelled.Settles (fun fuel => valuesEquivalent hash heap fuel right left) (.ok answer)

theorem Agree.symm (h : Agree hash heap left right) : Agree hash heap right left := by
  obtain ⟨answer, hleft, hright⟩ := h
  exact ⟨answer, hright, hleft⟩

variable {first : Nat → Comparison}

theorem settles_andThen {next : Nat → Comparison} {answer : Except EquivalenceError Bool}
    (hfirst : Fuelled.Settles first (.ok true)) (hnext : Fuelled.Settles next answer) :
    Fuelled.Settles (fun fuel => (first fuel).andThen (next fuel)) answer := by
  obtain ⟨n, hn⟩ := hfirst
  obtain ⟨k, hk⟩ := hnext
  refine ⟨max n k, fun m hm => ?_⟩
  simp only [Comparison.andThen, hn m (le_trans (le_max_left n k) hm), Fallible.value_bind]
  exact hk m (le_trans (le_max_right n k) hm)

theorem settles_andThen_false (next : Nat → Comparison) (hfirst : Fuelled.Settles first (.ok false))
    : Fuelled.Settles (fun fuel => (first fuel).andThen (next fuel)) (.ok false) := by
  obtain ⟨n, hn⟩ := hfirst
  refine ⟨n, fun m hm => ?_⟩
  simp only [Comparison.andThen, hn m hm, Fallible.value_bind]

/-- Two comparisons one after the other, in either order of their operands. -/
theorem agree_andThen {first' next next' : Nat → Comparison}
    (hfirst : ∃ answer, Fuelled.Settles first (.ok answer) ∧ Fuelled.Settles first' (.ok answer))
    (hnext : ∃ answer, Fuelled.Settles next (.ok answer) ∧ Fuelled.Settles next' (.ok answer)) :
    ∃ answer, Fuelled.Settles (fun fuel => (first fuel).andThen (next fuel)) (.ok answer) ∧
      Fuelled.Settles (fun fuel => (first' fuel).andThen (next' fuel)) (.ok answer) := by
  obtain ⟨answer, hone, hother⟩ := hfirst
  cases answer with
  | true =>
    obtain ⟨last, hlast, hlast'⟩ := hnext
    exact ⟨last, settles_andThen hone hlast, settles_andThen hother hlast'⟩
  | false => exact ⟨false, settles_andThen_false next hone, settles_andThen_false next' hother⟩

/-- An entry of both lists that is compared to an end. -/
def EntriesAgree (hash : SemanticKey → Nat) (heap : ValueHeap) (left right : DmList)
    (index : Nat) : Prop :=
  ∃ leftKey rightKey, left.get index = some (.ok leftKey) ∧ right.get index = some (.ok rightKey) ∧
    Agree hash heap leftKey rightKey ∧
    Agree hash heap (associatedOrNull hash left leftKey) (associatedOrNull hash right rightKey)

variable {equivalent : Value → Value → Comparison} {index : Nat}

theorem compareEntries_cons {left right : DmList} {leftKey rightKey : Value}
    (hleft : left.get index = some (.ok leftKey)) (hright : right.get index = some (.ok rightKey))
    (rest : List Nat) : compareEntries hash equivalent left right (index :: rest) =
      (equivalent leftKey rightKey).andThen
        ((equivalent (associatedOrNull hash left leftKey)
          (associatedOrNull hash right rightKey)).andThen
            (compareEntries hash equivalent left right rest)) := by
  rw [compareEntries, withEntry, hleft]
  simp only
  rw [withEntry, hright]

variable {indices : List Nat}

theorem compareEntries_agree {left right : DmList}
    (h : ∀ index ∈ indices, EntriesAgree hash heap left right index) :
    ∃ answer, Fuelled.Settles (fun fuel =>
        compareEntries hash (valuesEquivalent hash heap fuel) left right indices) (.ok answer) ∧
      Fuelled.Settles (fun fuel =>
        compareEntries hash (valuesEquivalent hash heap fuel) right left indices) (.ok answer) := by
  induction indices with
  | nil => exact ⟨true, Fuelled.settles_value _, Fuelled.settles_value _⟩
  | cons index rest ih =>
    obtain ⟨leftKey, rightKey, hleft, hright, hkeys, hvalues⟩ := h index List.mem_cons_self
    simp only [compareEntries_cons hleft hright, compareEntries_cons hright hleft]
    refine agree_andThen hkeys (agree_andThen hvalues (ih fun later hlater => ?_))
    exact h later (List.mem_cons_of_mem _ hlater)

/-! ## Values that are no lists -/

theorem componentsEq_symm {left right : List DmNumberBits} (h : componentsEq left right = true) :
    componentsEq right left = true := by
  induction left generalizing right with
  | nil =>
    cases right <;> rfl
  | cons first rest ih =>
    cases right with
    | nil => rfl
    | cons other others =>
      rw [componentsEq, List.zip_cons_cons, List.all_cons, Bool.and_eq_true] at h ⊢
      exact ⟨DmNumberBits.numericEq_symm h.1, ih h.2⟩

theorem componentsEq_comm (left right : List DmNumberBits) :
    componentsEq left right = componentsEq right left :=
  Bool.eq_iff_iff.2 ⟨componentsEq_symm, componentsEq_symm⟩

theorem semanticEq_commutes (a b : Value) : a.semanticEq b = b.semanticEq a :=
  Bool.eq_iff_iff.2 ⟨Value.semanticEq_symm a b, Value.semanticEq_symm b a⟩

def IsList : Value → Prop
  | .list _ => True
  | _ => False

/-- Two values that are not both lists are compared at once. -/
theorem compareCanonical_agree (hnot : ¬ (IsList left ∧ IsList right)) (hleft : Complete heap left)
    (hright : Complete heap right) : ∃ answer, ∀ equivalent,
      compareCanonical hash heap equivalent left right = .value (.ok answer) ∧
      compareCanonical hash heap equivalent right left = .value (.ok answer) := by
  have hplain (h : ∀ equivalent,
      compareCanonical hash heap equivalent left right = .value (.ok (left.semanticEq right)) ∧
      compareCanonical hash heap equivalent right left = .value (.ok (right.semanticEq left))) :
      ∃ answer, ∀ equivalent,
        compareCanonical hash heap equivalent left right = .value (.ok answer) ∧
        compareCanonical hash heap equivalent right left = .value (.ok answer) := by
    refine ⟨left.semanticEq right, fun equivalent => ⟨(h equivalent).1, ?_⟩⟩
    rw [(h equivalent).2, semanticEq_commutes]
  cases left with
  | datum one =>
    cases right with
    | datum other =>
      by_cases hmatrix : isMatrixDatum one heap && isMatrixDatum other heap
      · obtain ⟨hone, hother⟩ := Bool.and_eq_true_iff.1 hmatrix
        obtain ⟨components, hcomponents⟩ := hleft hone
        obtain ⟨components', hcomponents'⟩ := hright hother
        refine ⟨componentsEq components components', fun equivalent => ⟨?_, ?_⟩⟩
        · rw [compareCanonical, if_pos hmatrix, matricesEq, hcomponents, hcomponents']
        · rw [compareCanonical, hone, hother, Bool.and_self, if_pos rfl, matricesEq, hcomponents,
            hcomponents', componentsEq_comm]
      · refine hplain fun equivalent => ⟨?_, ?_⟩
        · rw [compareCanonical, if_neg hmatrix]
        · rw [compareCanonical, Bool.and_comm, if_neg hmatrix]
    | _ => exact hplain fun _ => ⟨rfl, rfl⟩
  | list one =>
    cases right with
    | list other => exact absurd ⟨trivial, trivial⟩ hnot
    | _ => exact hplain fun _ => ⟨rfl, rfl⟩
  | _ => cases right <;> exact hplain fun _ => ⟨rfl, rfl⟩

/-! ## Heaps of a run -/

/-- The lists of a heap were made by list operations, and its arena of lists by operations of
arenas. -/
structure BuiltHeap (hash : SemanticKey → Nat) (heap : ValueHeap) : Prop where
  reached : ∃ ops history,
    runArena Arena.empty ArenaHistory.empty ops = some (heap.lists, history)
  built : ∀ id list, heap.list id = some list → ∃ ops results,
    StaysBelow (2 ^ 31) [] ops ∧ RunHasRoom hash DmList.empty ops ∧
    runList hash DmList.empty ops = some (list, results)

theorem get_spec (h : Represents hash list entries) {place : Nat} {entry : Entry}
    (hentry : entries[place]? = some entry) : list.get (place + 1) = some (.ok entry.key) := by
  have hplace := (List.getElem?_eq_some_iff.1 hentry).1
  have hread := congrArg (fun reads : List (Option Entry) => reads[place]?) h.reads
  simp only [List.getElem?_map, List.getElem?_drop, hentry, Option.map_some] at hread
  obtain ⟨slot, hslot, hlookup⟩ := Option.map_eq_some_iff.1 hread
  rw [DmList.get, h.len_eq, checkedIndex_succ hplace]
  simp only
  rw [Nat.add_comm place, hslot, Option.bind_eq_bind, Option.bind_some, keyAt_eq, hlookup]
  rfl

variable {id : ListId}

/-- An index of a list is that of an entry. -/
theorem BuiltHeap.get (h : BuiltHeap hash heap) (hlist : heap.list id = some list)
    (hindex : index ∈ List.range' 1 list.len) : ∃ key, list.get index = some (.ok key) := by
  obtain ⟨ops, results, hbelow, hroom, hrun⟩ := h.built id list hlist
  have hrepresents := empty_represents.reaches hbelow hroom hrun
  rw [hrepresents.len_eq, List.mem_range'_1] at hindex
  have hlt : index - 1 < (specList [] ops).1.length := by omega
  have hget := get_spec hrepresents (List.getElem?_eq_getElem hlt)
  rw [show index - 1 + 1 = index by omega] at hget
  exact ⟨_, hget⟩

variable {key : Value}

theorem mem_range_of_get (h : list.get index = some (.ok key)) :
    index ∈ List.range' 1 list.len := by
  rw [DmList.get] at h
  split at h
  · cases h
  · rename_i place hplace
    obtain ⟨hlt, rfl⟩ := checkedIndex_ok hplace
    rw [List.mem_range'_1]
    omega

theorem BuiltHeap.finite (h : BuiltHeap hash heap) (value : Value) :
    (Inner (Inside hash heap) value).Finite := by
  obtain ⟨ops, history, hrun⟩ := h.reached
  have hinv := arenaInv_empty.run hrun
  have hslots : {place : Nat | place < heap.lists.slots.length}.Finite :=
    Set.finite_lt_nat heap.lists.slots.length
  -- The generation of a live list is the one of its slot.
  let handleOf (place : Nat) : Value :=
    .list ⟨place, ((heap.lists.slots[place]?).map ArenaSlot.generation).getD 0⟩
  refine (hslots.image handleOf).subset ?_
  rintro part ⟨-, inner, id, list, index, key, rfl, hlist, -⟩
  rw [ValueHeap.list, hinv.valid.get_eq, Arena.resolve, Option.bind_eq_some_iff] at hlist
  obtain ⟨slot, hslot, hgeneration⟩ := hlist
  refine ⟨id.index, (List.getElem?_eq_some_iff.1 hslot).1, ?_⟩
  split at hgeneration
  · rename_i heq
    show Value.list ⟨id.index, _⟩ = .list id
    rw [hslot, Option.map_some, Option.getD_some, heq]
  · cases hgeneration

theorem Bounded.acc (h : Bounded hash heap value) (hheap : BuiltHeap hash heap) :
    Acc (Inside hash heap) (heap.canonicalizeValue value) :=
  Acyclic.acc h (hheap.finite _)

/-! ## Comparing to an end -/

/-- Every matrix that is reached is complete. -/
def AllComplete (hash : SemanticKey → Nat) (heap : ValueHeap) (value : Value) : Prop :=
  ∀ part, Reached hash heap part value → Complete heap part

theorem canonical_list (h : heap.canonicalizeValue value = .list id) :
    ∃ list, heap.list id = some list := by
  cases value with
  | list other =>
    rw [ValueHeap.canonicalizeValue] at h
    split at h
    · rename_i hlive
      rw [Value.list.injEq] at h
      rw [← h]
      exact Option.isSome_iff_exists.1 hlive
    · cases h
  | datum other =>
    rw [ValueHeap.canonicalizeValue] at h
    split at h <;> cases h
  | _ => cases h

theorem inside_key (hcanonical : heap.canonicalizeValue value = .list id)
    (hlist : heap.list id = some list) (hget : list.get index = some (.ok key)) :
    Inside hash heap (heap.canonicalizeValue key) (heap.canonicalizeValue value) ∧
      Inside hash heap (heap.canonicalizeValue (associatedOrNull hash list key))
        (heap.canonicalizeValue value) :=
  ⟨⟨id, list, index, key, hcanonical, hlist, hget, Or.inl rfl⟩,
    ⟨id, list, index, key, hcanonical, hlist, hget, Or.inr rfl⟩⟩

theorem AllComplete.inside {inner : Value} (h : AllComplete hash heap value)
    (hinner : Inside hash heap (heap.canonicalizeValue inner) (heap.canonicalizeValue value)) :
    AllComplete hash heap inner := fun part hpart => h part (hpart.tail hinner)

/-- It is enough that one of the two values is bounded. -/
theorem agree_of_acc (hheap : BuiltHeap hash heap) {u : Value} (hacc : Acc (Inside hash heap) u)
    (hleft : heap.canonicalizeValue left = u) (hcomplete : AllComplete hash heap left)
    (hright : AllComplete hash heap right) : Agree hash heap left right := by
  induction hacc generalizing left right with
  | intro u _ ih =>
    by_cases hlists : IsList (heap.canonicalizeValue left) ∧ IsList (heap.canonicalizeValue right)
    · obtain ⟨hleftList, hrightList⟩ := hlists
      cases hone : heap.canonicalizeValue left with
      | list one =>
        cases hother : heap.canonicalizeValue right with
        | list other =>
          obtain ⟨list, hlist⟩ := canonical_list hone
          obtain ⟨list', hlist'⟩ := canonical_list hother
          have hstep (answer : Bool)
              (h : Fuelled.Settles (fun fuel => compareCanonical hash heap
                (valuesEquivalent hash heap fuel) (.list one) (.list other)) (.ok answer))
              (h' : Fuelled.Settles (fun fuel => compareCanonical hash heap
                (valuesEquivalent hash heap fuel) (.list other) (.list one)) (.ok answer)) :
              Agree hash heap left right := by
            refine ⟨answer, Fuelled.settles_succ.1 ?_, Fuelled.settles_succ.1 ?_⟩
            · simpa only [valuesEquivalent, hone, hother] using h
            · simpa only [valuesEquivalent, hone, hother] using h'
          by_cases hlen : list.len = list'.len
          · have hentries (index : Nat) (hindex : index ∈ List.range' 1 list.len) :
                EntriesAgree hash heap list list' index := by
              obtain ⟨key, hkey⟩ := hheap.get hlist hindex
              obtain ⟨key', hkey'⟩ := hheap.get hlist' (hlen ▸ hindex)
              obtain ⟨hin, hinValue⟩ := inside_key hone hlist hkey
              obtain ⟨hin', hinValue'⟩ := inside_key hother hlist' hkey'
              refine ⟨key, key', hkey, hkey', ?_, ?_⟩
              · exact ih _ (hleft ▸ hin) rfl (hcomplete.inside hin) (hright.inside hin')
              · exact ih _ (hleft ▸ hinValue) rfl (hcomplete.inside hinValue)
                  (hright.inside hinValue')
            obtain ⟨answer, h, h'⟩ := compareEntries_agree hentries
            refine hstep answer ?_ ?_
            · simpa only [compareCanonical, compareLists, hlist, hlist', ne_eq, hlen,
                not_true_eq_false, if_false] using h
            · simpa only [compareCanonical, compareLists, hlist, hlist', ne_eq, hlen,
                not_true_eq_false, if_false] using h'
          · refine hstep false ?_ ?_
            · simp only [compareCanonical, compareLists, hlist, hlist', ne_eq, hlen,
                not_false_eq_true, if_true]
              exact Fuelled.settles_value _
            · simp only [compareCanonical, compareLists, hlist, hlist', ne_eq, Ne.symm hlen,
                not_false_eq_true, if_true]
              exact Fuelled.settles_value _
        | _ =>
          rw [hother] at hrightList
          exact hrightList.elim
      | _ =>
        rw [hone] at hleftList
        exact hleftList.elim
    · obtain ⟨answer, hanswer⟩ := compareCanonical_agree hlists
        (hcomplete _ ReflTransGen.refl) (hright _ ReflTransGen.refl)
      refine ⟨answer, Fuelled.settles_succ.1 ?_, Fuelled.settles_succ.1 ?_⟩
      · exact ⟨0, fun fuel _ => (hanswer _).1⟩
      · exact ⟨0, fun fuel _ => (hanswer _).2⟩

/-! ## A value and itself -/

theorem andThen_eq_true {first next : Comparison} :
    first.andThen next = .value (.ok true) ↔
      first = .value (.ok true) ∧ next = .value (.ok true) := by
  rw [Comparison.andThen, Fallible.bind_eq_value]
  constructor
  · rintro ⟨answer, hanswer, hnext⟩
    cases answer with
    | error error => cases hnext
    | ok answer =>
      cases answer with
      | true => exact ⟨hanswer, hnext⟩
      | false => cases hnext
  · rintro ⟨hfirst, hnext⟩
    exact ⟨.ok true, hfirst, hnext⟩

/-- Entries that are all compared to `true`. -/
theorem compareEntries_eq_true
    (h : compareEntries hash equivalent list list indices = .value (.ok true))
    (hindex : index ∈ indices) (hget : list.get index = some (.ok key)) :
    equivalent key key = .value (.ok true) ∧
      equivalent (associatedOrNull hash list key) (associatedOrNull hash list key) =
        .value (.ok true) := by
  induction indices with
  | nil => cases hindex
  | cons first rest ih =>
    have hfirst : ∃ other, list.get first = some (.ok other) := by
      rw [compareEntries, withEntry] at h
      split at h
      · cases h
      · cases h
      · rename_i other hother
        exact ⟨other, hother⟩
    obtain ⟨other, hother⟩ := hfirst
    rw [compareEntries_cons hother hother, andThen_eq_true, andThen_eq_true] at h
    rcases List.mem_cons.1 hindex with rfl | hrest
    · rw [hget, Option.some.injEq, Except.ok.injEq] at hother
      rw [hother]
      exact ⟨h.1, h.2.1⟩
    · exact ih h.2.2 hrest

theorem compareLists_self (hlist : heap.list id = some list) :
    compareCanonical hash heap equivalent (.list id) (.list id) =
      compareEntries hash equivalent list list (List.range' 1 list.len) := by
  simp only [compareCanonical, compareLists, hlist, ne_eq, not_true_eq_false, if_false]

variable {fuel : Nat} {inner : Value}

/-- What is inside a value that was found equal to itself was found so with less fuel. -/
theorem equal_inside (h : valuesEquivalent hash heap fuel value value = .value (.ok true))
    (hinner : Inside hash heap inner (heap.canonicalizeValue value)) :
    ∃ less < fuel, valuesEquivalent hash heap less inner inner = .value (.ok true) := by
  cases fuel with
  | zero => cases h
  | succ fuel =>
    obtain ⟨id, list, index, key, hcanonical, hlist, hget, hpart⟩ := hinner
    rw [valuesEquivalent, hcanonical, compareLists_self hlist] at h
    obtain ⟨hkey, hvalue⟩ := compareEntries_eq_true h (mem_range_of_get hget) hget
    refine ⟨fuel, Nat.lt_succ_self fuel, ?_⟩
    rcases hpart with rfl | rfl
    · rw [valuesEquivalent_canonical]
      exact hkey
    · rw [valuesEquivalent_canonical]
      exact hvalue

variable {outer : Value}

theorem inside_canonical (h : Inside hash heap inner outer) :
    heap.canonicalizeValue inner = inner := by
  obtain ⟨-, -, -, -, -, -, -, rfl | rfl⟩ := h <;> exact canonicalize_canonicalize _

variable {part : Value}

theorem reached_canonical (h : Reached hash heap part value) :
    heap.canonicalizeValue part = part := by
  rcases ReflTransGen.cases_head h with heq | ⟨outer, houter, -⟩
  · rw [heq, canonicalize_canonicalize]
  · exact inside_canonical houter

theorem equal_reached (h : valuesEquivalent hash heap fuel value value = .value (.ok true))
    (hpart : Reached hash heap part value) :
    ∃ less, valuesEquivalent hash heap less part part = .value (.ok true) := by
  induction hpart using ReflTransGen.head_induction_on with
  | refl => exact ⟨fuel, by rw [valuesEquivalent_canonical, h]⟩
  | head hinner hrest ih =>
    obtain ⟨middle, hmiddle⟩ := ih
    have hcanonical := reached_canonical hrest
    obtain ⟨less, -, hless⟩ := equal_inside hmiddle (by rwa [hcanonical])
    exact ⟨less, hless⟩

theorem equal_below (hpath : TransGen (Inside hash heap) part outer)
    (hcanonical : heap.canonicalizeValue outer = outer)
    (h : valuesEquivalent hash heap fuel outer outer = .value (.ok true)) :
    ∃ less < fuel, valuesEquivalent hash heap less part part = .value (.ok true) := by
  induction hpath generalizing fuel with
  | single hinner => exact equal_inside h (by rwa [hcanonical])
  | tail _ hinner ih =>
    obtain ⟨middle, hmiddle, hfound⟩ := equal_inside h (by rwa [hcanonical])
    obtain ⟨less, hless, hpart⟩ := ih (inside_canonical hinner) hfound
    exact ⟨less, hless.trans hmiddle, hpart⟩

/-- A value that is inside itself is never found equal to itself: it would be so with less and less
fuel. -/
theorem not_equal_of_cycle (hcycle : TransGen (Inside hash heap) part part)
    (hcanonical : heap.canonicalizeValue part = part) (fuel : Nat) :
    valuesEquivalent hash heap fuel part part ≠ .value (.ok true) := by
  induction fuel using Nat.strong_induction_on with
  | h fuel ih =>
    intro h
    obtain ⟨less, hless, hfound⟩ := equal_below hcycle hcanonical h
    exact ih less hless hfound

theorem equalsItself_of_equal (hcanonical : heap.canonicalizeValue part = part)
    (h : valuesEquivalent hash heap fuel part part = .value (.ok true)) :
    EqualsItself heap part := by
  cases fuel with
  | zero => cases h
  | succ fuel =>
    rw [valuesEquivalent, hcanonical] at h
    cases part with
    | list id => trivial
    | datum id =>
      intro hmatrix
      rw [compareCanonical, hmatrix, Bool.and_self, if_pos rfl, matricesEq] at h
      cases hcomponents : matrixComponents id heap with
      | error error =>
        rw [hcomponents] at h
        cases h
      | ok components =>
        rw [hcomponents] at h
        exact ⟨components, rfl, Except.ok.inj (Fallible.value.inj h)⟩
    | _ => exact Except.ok.inj (Fallible.value.inj h)

/-- Everything that is reached is equal to itself. -/
def AllEqual (hash : SemanticKey → Nat) (heap : ValueHeap) (value : Value) : Prop :=
  ∀ part, Reached hash heap part value → EqualsItself heap part

theorem compareEntries_self (h : ∀ index ∈ indices, ∃ key, list.get index = some (.ok key) ∧
      Fuelled.Settles (fun fuel => valuesEquivalent hash heap fuel key key) (.ok true) ∧
      Fuelled.Settles (fun fuel => valuesEquivalent hash heap fuel
        (associatedOrNull hash list key) (associatedOrNull hash list key)) (.ok true)) :
    Fuelled.Settles (fun fuel =>
      compareEntries hash (valuesEquivalent hash heap fuel) list list indices) (.ok true) := by
  induction indices with
  | nil => exact Fuelled.settles_value _
  | cons index rest ih =>
    obtain ⟨key, hget, hkey, hvalue⟩ := h index List.mem_cons_self
    simp only [compareEntries_cons hget hget]
    exact settles_andThen hkey (settles_andThen hvalue (ih fun later hlater =>
      h later (List.mem_cons_of_mem _ hlater)))

theorem equal_of_acc (hheap : BuiltHeap hash heap) {u : Value} (hacc : Acc (Inside hash heap) u)
    (hvalue : heap.canonicalizeValue value = u) (hequal : AllEqual hash heap value) :
    Fuelled.Settles (fun fuel => valuesEquivalent hash heap fuel value value) (.ok true) := by
  induction hacc generalizing value with
  | intro u _ ih =>
    refine Fuelled.settles_succ.1 ?_
    have hself := hequal _ ReflTransGen.refl
    simp only [valuesEquivalent]
    cases hcanonical : heap.canonicalizeValue value with
    | list id =>
      obtain ⟨list, hlist⟩ := canonical_list hcanonical
      simp only [compareLists_self hlist]
      refine compareEntries_self fun index hindex => ?_
      obtain ⟨key, hget⟩ := hheap.get hlist hindex
      obtain ⟨hin, hinValue⟩ := inside_key hcanonical hlist hget
      refine ⟨key, hget, ih _ (hvalue ▸ hin) rfl fun part hpart => ?_,
        ih _ (hvalue ▸ hinValue) rfl fun part hpart => ?_⟩
      · exact hequal part (hpart.tail hin)
      · exact hequal part (hpart.tail hinValue)
    | datum id =>
      rw [hcanonical] at hself
      by_cases hmatrix : isMatrixDatum id heap
      · obtain ⟨components, hcomponents, heq⟩ := hself hmatrix
        simp only [compareCanonical, hmatrix, Bool.and_self, if_true, matricesEq, hcomponents, heq]
        exact Fuelled.settles_value _
      · simp only [compareCanonical, hmatrix, Bool.and_self, Bool.false_eq_true, if_false,
          Value.semanticEq, decide_true]
        exact Fuelled.settles_value _
    | _ =>
      rw [hcanonical] at hself
      simp only [compareCanonical]
      exact ⟨0, fun _ _ =>
        congrArg (fun answer => (Fallible.value (Except.ok answer) : Comparison)) hself⟩

/-- The comparison of the value with itself comes to `true`. -/
def FoundEqual (hash : SemanticKey → Nat) (heap : ValueHeap) (value : Value) : Prop :=
  Fuelled.Settles (fun fuel => valuesEquivalent hash heap fuel value value) (.ok true)

/-- A value is equal to itself exactly if it is bounded and everything in it is equal to itself. -/
theorem equal_self_iff (hheap : BuiltHeap hash heap) (value : Value) :
    FoundEqual hash heap value ↔ Bounded hash heap value ∧ AllEqual hash heap value := by
  constructor
  · rintro ⟨fuel, hfuel⟩
    have hequal := hfuel fuel (Nat.le_refl _)
    refine ⟨fun part hpart hcycle => ?_, fun part hpart => ?_⟩
    · obtain ⟨less, hless⟩ := equal_reached hequal hpart
      exact not_equal_of_cycle hcycle (reached_canonical hpart) less hless
    · obtain ⟨less, hless⟩ := equal_reached hequal hpart
      exact equalsItself_of_equal (reached_canonical hpart) hless
  · rintro ⟨hbounded, hequal⟩
    exact equal_of_acc hheap (hbounded.acc hheap) rfl hequal

theorem AllEqual.allComplete (h : AllEqual hash heap value) : AllComplete hash heap value := by
  intro part hpart
  have hself := h part hpart
  cases part with
  | datum id => exact fun hmatrix => (hself hmatrix).imp fun _ => And.left
  | _ => trivial

/-- The comparison returns the same answer in both orders if no list that is reached from one of the
values is inside itself. -/
theorem valuesEquivalent_agree (hheap : BuiltHeap hash heap)
    (hbounded : Bounded hash heap left ∨ Bounded hash heap right)
    (hleft : AllComplete hash heap left) (hright : AllComplete hash heap right) :
    Agree hash heap left right := by
  rcases hbounded with h | h
  · exact agree_of_acc hheap (h.acc hheap) rfl hleft hright
  · exact (agree_of_acc hheap (h.acc hheap) rfl hright hleft).symm

/-- Two values are compared to the same answer in both orders, and each of them is found equal to
itself, exactly if no list that is reached from them is inside itself and everything that is reached
is equal to itself. For an answer it is enough that one of them reaches no such list. -/
theorem valuesEquivalent_iff (hheap : BuiltHeap hash heap) (left right : Value) :
    (Agree hash heap left right ∧ FoundEqual hash heap left ∧ FoundEqual hash heap right ↔
      (Bounded hash heap left ∧ AllEqual hash heap left) ∧
        Bounded hash heap right ∧ AllEqual hash heap right) ∧
      (Bounded hash heap left ∨ Bounded hash heap right → AllComplete hash heap left →
        AllComplete hash heap right → Agree hash heap left right) := by
  refine ⟨?_, valuesEquivalent_agree hheap⟩
  rw [equal_self_iff hheap, equal_self_iff hheap]
  refine and_iff_right_of_imp fun ⟨⟨hbounded, hleft⟩, _, hright⟩ => ?_
  exact valuesEquivalent_agree hheap (.inl hbounded) hleft.allComplete hright.allComplete

/-! ## A list in a list -/

/-- `list(null)` -/
def innerList : DmList := ⟨[.null], [], [⟨0⟩], none, none, 0⟩

/-- `list(inner, null = inner)` -/
def outerList : DmList :=
  ⟨[.list ⟨0, 0⟩], [(.null, .list ⟨0, 0⟩)], [⟨0⟩, ⟨2147483648⟩], none, none, 0⟩

def nestedHeap : ValueHeap :=
  ⟨Arena.empty, ⟨[ [⟨0, some innerList⟩, ⟨0, some outerList⟩] ], 2, [], 2⟩⟩

theorem nestedHeap_list (h : nestedHeap.list id = some list) :
    id = ⟨0, 0⟩ ∧ list = innerList ∨ id = ⟨1, 0⟩ ∧ list = outerList := by
  obtain ⟨index, generation⟩ := id
  have hrun : runArena Arena.empty ArenaHistory.empty [.allocate innerList, .allocate outerList] =
    some (nestedHeap.lists, ((ArenaHistory.empty.allocate (0, 0) innerList).allocate (1, 0)
      outerList)) := rfl
  have hinv := arenaInv_empty.run hrun
  rw [ValueHeap.list, hinv.valid.get_eq, hinv.ids.resolves] at h
  change Function.update (Function.update (fun _ => none) (0, 0) (some innerList)) (1, 0)
    (some outerList) (index, generation) = some list at h
  by_cases houter : (index, generation) = (1, 0)
  · cases houter
    exact .inr ⟨rfl, (Option.some.inj h).symm⟩
  · rw [Function.update_of_ne houter] at h
    by_cases hinner : (index, generation) = (0, 0)
    · cases hinner
      exact .inl ⟨rfl, (Option.some.inj h).symm⟩
    · rw [Function.update_of_ne hinner] at h
      cases h

theorem nestedHeap_built : BuiltHeap (fun _ => 0) nestedHeap where
  reached := ⟨[.allocate innerList, .allocate outerList], _, rfl⟩
  built id list hlist := by
    have hsmall : 2 < 2 ^ 31 := by decide
    rcases nestedHeap_list hlist with ⟨-, rfl⟩ | ⟨-, rfl⟩
    · refine ⟨[.add .null], [.len 1], ?_, ?_, rfl⟩
      · exact ⟨Nat.two_pow_pos 31, Nat.one_lt_two_pow (by decide)⟩
      · exact ⟨Nat.one_le_two_pow, fun _ _ _ => trivial⟩
    · refine ⟨[.add (.list ⟨0, 0⟩), .setKey .null (.list ⟨0, 0⟩)], _, ?_, ?_, rfl⟩
      · exact ⟨Nat.two_pow_pos 31, Nat.one_lt_two_pow (by decide), hsmall⟩
      · refine ⟨Nat.one_le_two_pow, fun next result hnext => ?_⟩
        cases hnext
        exact ⟨trivial, fun _ _ _ => trivial⟩

/-- How deep lists are in the value. -/
def nestedDepth : Value → Nat
  | .list id => id.index + 1
  | _ => 0

theorem nestedHeap_inside (h : Inside (fun _ => 0) nestedHeap inner outer) :
    (inner = .null ∨ inner = .list ⟨0, 0⟩) ∧ nestedDepth inner < nestedDepth outer := by
  obtain ⟨id, list, index, key, rfl, hlist, hget, hinner⟩ := h
  have hindex := List.mem_range'_1.1 (mem_range_of_get hget)
  rcases nestedHeap_list hlist with ⟨rfl, rfl⟩ | ⟨rfl, rfl⟩
  · have hone : index = 1 := Nat.le_antisymm (Nat.lt_succ_iff.1 hindex.2) hindex.1
    subst hone
    cases hget
    rcases hinner with rfl | rfl <;> exact ⟨.inl rfl, Nat.one_pos⟩
  · have htwo : index = 1 ∨ index = 2 := by
      have hlt : index < 1 + 2 := hindex.2
      omega
    rcases htwo with rfl | rfl
    · cases hget
      rcases hinner with rfl | rfl
      · exact ⟨.inr rfl, Nat.one_lt_two⟩
      · exact ⟨.inl rfl, Nat.two_pos⟩
    · cases hget
      rcases hinner with rfl | rfl
      · exact ⟨.inl rfl, Nat.two_pos⟩
      · exact ⟨.inr rfl, Nat.one_lt_two⟩

/-- The comparison of a list of lists with itself and with the list in it. -/
theorem nestedLists_compared :
    Agree (fun _ => 0) nestedHeap (.list ⟨1, 0⟩) (.list ⟨0, 0⟩) ∧
      FoundEqual (fun _ => 0) nestedHeap (.list ⟨1, 0⟩) ∧
      FoundEqual (fun _ => 0) nestedHeap (.list ⟨0, 0⟩) := by
  have hdeeper {part outer : Value} (h : Relation.TransGen (Inside (fun _ => 0) nestedHeap) part
      outer) : nestedDepth part < nestedDepth outer := by
    induction h with
    | single h => exact (nestedHeap_inside h).2
    | tail _ h ih => exact ih.trans (nestedHeap_inside h).2
  have hbounded (value : Value) : Bounded (fun _ => 0) nestedHeap value :=
    fun part _ hcycle => Nat.lt_irrefl _ (hdeeper hcycle)
  have hequal (id : ListId) : AllEqual (fun _ => 0) nestedHeap (.list id) := by
    intro part hpart
    rcases ReflTransGen.cases_head hpart with rfl | ⟨outer, hinside, -⟩
    · rw [ValueHeap.canonicalizeValue]
      split
      · trivial
      · rfl
    · rcases (nestedHeap_inside hinside).1 with rfl | rfl
      · rfl
      · trivial
  exact (valuesEquivalent_iff nestedHeap_built _ _).1.2
    ⟨⟨hbounded _, hequal _⟩, hbounded _, hequal _⟩

/-! ## A list in itself -/

/-- The list whose only entry is the list of the first handle. -/
def selfList : DmList := ⟨[.list ⟨0, 0⟩], [], [⟨0⟩], none, none, 0⟩

def selfHeap : ValueHeap := ⟨Arena.empty, loneArena selfList⟩

theorem selfHeap_built : BuiltHeap (fun _ => 0) selfHeap where
  reached := ⟨_, _, loneArena_reached selfList⟩
  built id list hlist := by
    rw [← loneArena_get hlist]
    refine ⟨[.add (.list ⟨0, 0⟩)], [.len 1], ?_, ?_, rfl⟩
    · exact ⟨Nat.two_pow_pos 31, Nat.one_lt_two_pow (by decide)⟩
    · exact ⟨Nat.one_le_two_pow, fun _ _ _ => trivial⟩

/-- The comparison of the list that is in itself with itself never returns. -/
theorem selfList_not_compared : ¬ ∀ (hash : SemanticKey → Nat) (heap : ValueHeap),
    BuiltHeap hash heap → ∀ left right, ∃ answer,
      Fuelled.Settles (fun fuel => valuesEquivalent hash heap fuel left right) answer := by
  intro hall
  obtain ⟨answer, fuel, hfuel⟩ :=
    hall (fun _ => 0) selfHeap selfHeap_built (.list ⟨0, 0⟩) (.list ⟨0, 0⟩)
  have hout (fuel : Nat) : valuesEquivalent (fun _ => 0) selfHeap fuel (.list ⟨0, 0⟩)
      (.list ⟨0, 0⟩) = .error .outOfFuel := by
    induction fuel with
    | zero => rfl
    | succ fuel ih =>
      show Comparison.andThen (valuesEquivalent (fun _ => 0) selfHeap fuel (.list ⟨0, 0⟩)
        (.list ⟨0, 0⟩)) _ = _
      rw [ih]
      rfl
  cases (hout fuel).symm.trans (hfuel fuel (Nat.le_refl _))

end Dream64.Vm
