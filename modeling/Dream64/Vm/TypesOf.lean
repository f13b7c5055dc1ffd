import Dream64.Value.Datum
import Dream64.Library.Numbering

/-!
# The types below a type

`typesof` takes the types of the catalog from the selector on, in the order of
their paths, up to the first that is not below it. A sibling whose name goes on
with a character before the slash sorts between a type and the types below it,
and hides them. `is_subtype` compares intervals or climbs at most 512 parents.
-/

namespace Dream64.Vm.Typesof

open ParentGraph

/-- The declared types, in the order of their paths. -/
structure TypeCatalog where
  paths : List TypePath
  sorted : (paths.map (·.path.toList)).Pairwise (· < ·)

/-- What the selectors are read in. -/
structure Host where
  catalog : TypeCatalog
  /-- The procedures of the module, in source order. -/
  procedureTypes : List TypePath
  typeOf : DatumId → Except String TypePath
  display : Value → String
  typeParents : TypePath → Option (Option TypePath)
  subtypeInterval : TypePath → Option (Nat × Nat)

/-- A path is that of the selector, or continues it behind a slash. -/
def kept (selector path : TypePath) : Bool :=
  path = selector || (selector.path.toList ++ ['/']).isPrefixOf path.path.toList

/-- `BTreeSet::range(selector..)`. -/
def TypeCatalog.range (catalog : TypeCatalog) (selector : TypePath) : List TypePath :=
  catalog.paths.filter fun path => selector.path.toList ≤ path.path.toList

def TypeCatalog.select (catalog : TypeCatalog) (selector : TypePath) : List TypePath :=
  let paths := (catalog.range selector).takeWhile (kept selector)
  if selector ∈ catalog.paths then paths else selector :: paths

/-- The type that a selector stands for; none for null and unknown texts. -/
def selectedType (host : Host) : Value → Except String (Option TypePath)
  | .null => .ok none
  | .typePath path => .ok (some path)
  | .text text =>
    match TypePath.parse text with
    | .error _ => .ok none
    | .ok path => .ok (if path ∈ host.catalog.paths then some path else none)
  | .datum id => (host.typeOf id).map some
  | value => .error s!"typesof requires a type path or datum, received {host.display value}"

def typesofBuiltin (host : Host) (value : Value) : Except String (List TypePath) := do
  match ← selectedType host value with
  | none => return []
  | some selector => return host.catalog.select selector

/-- The family of procedures that a selector names. -/
def procedureRoot : Value → Option TypePath
  | .typePath root =>
    if root.path = "/proc" || "/proc".toList.isSuffixOf root.path.toList then some root else none
  | _ => none

def selectorPaths (host : Host) (selector : Value) : Except String (List TypePath) :=
  match procedureRoot selector with
  | some root => .ok (host.procedureTypes.filter (kept root))
  | none => typesofBuiltin host selector

/-- Adds the paths that are not in the list yet. -/
def addUnseen (list paths : List TypePath) : List TypePath :=
  paths.foldl (fun list path => if path ∈ list then list else list ++ [path]) list

/-- `Instruction::TypesOf`. -/
def typesOf (host : Host) (selectors : List Value) : Except String (List TypePath) :=
  if selectors = [] then .error "invalid typesof builtin stack"
  else selectors.foldlM (fun list selector => (selectorPaths host selector).map (addUnseen list)) []

/-- The path in front of the last slash. -/
def ownerText (path : TypePath) : List Char :=
  ((path.path.toList.reverse.dropWhile (· ≠ '/')).drop 1).reverse

def fallbackParent (path : TypePath) : Option TypePath :=
  if path.path = "/obj" || path.path = "/mob" then (TypePath.parse "/atom/movable").toOption
  else if path.path = "/area" || path.path = "/turf" || path.path = "/atom/movable" then
    (TypePath.parse "/atom").toOption
  else if path.path = "/atom" then (TypePath.parse "/datum").toOption
  else if ownerText path ≠ [] then (TypePath.parse (String.ofList (ownerText path))).toOption
  else (TypePath.parse "/datum").toOption

def nextParent (host : Host) (path : TypePath) : Option TypePath :=
  (host.typeParents path).getD (fallbackParent path)

def climbParents (host : Host) (target : TypePath) : Nat → TypePath → Bool
  | 0, _ => false
  | steps + 1, current =>
    match nextParent host current with
    | none => false
    | some parent =>
      if parent = target then true
      else if parent = current then false
      else climbParents host target steps parent

def isSubtype (host : Host) (candidate target : TypePath) : Bool :=
  if candidate = target then true
  else
    match host.subtypeInterval candidate, host.subtypeInterval target with
    | some inner, some outer => outer.1 ≤ inner.1 && inner.2 ≤ outer.2
    | _, _ => climbParents host target 512 candidate

/-! ## What the selectors name -/

/-- Strictly below in the hierarchy of the paths. -/
def Below (ancestor path : TypePath) : Prop :=
  ∃ rest, path.path.toList = ancestor.path.toList ++ '/' :: rest

instance (ancestor path : TypePath) : Decidable (Below ancestor path) :=
  decidable_of_iff ((ancestor.path.toList ++ ['/']) <+: path.path.toList) <| by
    constructor
    · rintro ⟨rest, hrest⟩
      exact ⟨rest, by rw [← hrest, List.append_assoc, List.singleton_append]⟩
    · rintro ⟨rest, hrest⟩
      exact ⟨rest, by rw [hrest, List.append_assoc, List.singleton_append]⟩

/-- The selected type and all below it; of a family the procedures that are declared in it. -/
def exactPaths (host : Host) (selector : Value) : Except String (List TypePath) :=
  match procedureRoot selector with
  | some root => .ok (host.procedureTypes.filter fun path => path = root ∨ Below root path)
  | none => (selectedType host selector).map fun selected =>
    selected.elim [] fun root => root :: host.catalog.paths.filter (Below root)

/-- The paths of all selectors, each at its first place. -/
def ExactTypesOf (host : Host) (selectors : List Value) : Prop :=
  typesOf host selectors =
    (selectors.mapM (exactPaths host)).map fun paths => paths.flatten.eraseDups

/-- A sibling sorts between a type and a type below it. -/
def Hides (sibling ancestor path : TypePath) : Prop :=
  (∃ c rest, sibling.path.toList = ancestor.path.toList ++ c :: rest ∧ c < '/') ∧
    Below ancestor path

/-- How many names a path has beyond those of another. -/
def distance (ancestor path : TypePath) : Nat :=
  path.path.toList.count '/' - ancestor.path.toList.count '/'

def parentOf (host : Host) (path : TypePath) : Option TypePath :=
  (nextParent host path).filter (· ≠ path)

/--
The parents are those of the paths wherever these have one, no type is above itself, and the
intervals that exist say what the parents say.
-/
structure PathAncestry (host : Host) : Prop where
  parent : ∀ owner path, Below owner path → distance owner path = 1 →
    parentOf host path = some owner
  acyclic : ∀ path, ¬ OnCycle (parentOf host) path
  intervals : ∀ candidate target inner outer, host.subtypeInterval candidate = some inner →
    host.subtypeInterval target = some outer →
    (outer.1 ≤ inner.1 ∧ inner.2 ≤ outer.2 ↔ ParentGraph.Reaches (parentOf host) candidate target)

/-- Under one path, where the paths decide which of two types is above the other. -/
def Related (one other : TypePath) : Prop :=
  ∃ root, (root = one ∨ Below root one) ∧ (root = other ∨ Below root other)

variable {host : Host} {root path sibling ancestor a b c : TypePath}

/-! ## The order of the paths -/

@[simp] theorem kept_iff : kept root path = true ↔ path = root ∨ Below root path := by
  rw [kept, Bool.or_eq_true, decide_eq_true_iff, List.isPrefixOf_iff_prefix]
  refine or_congr_right ⟨?_, ?_⟩ <;> rintro ⟨rest, hrest⟩
  · exact ⟨rest, by rw [← hrest, List.append_assoc, List.singleton_append]⟩
  · exact ⟨rest, by rw [hrest, List.append_assoc, List.singleton_append]⟩

theorem lt_append (text : List Char) (d : Char) (rest : List Char) : text < text ++ d :: rest := by
  induction text with
  | nil => exact List.nil_lt_cons _ _
  | cons c text ih => exact List.cons_lt_cons_iff.2 (.inr ⟨rfl, ih⟩)

/-- A text between two of which one continues the other continues it too. -/
theorem continues_of_between {text x rest : List Char} {d : Char} (hlow : text < x)
    (hhigh : x < text ++ d :: rest) : ∃ c tail, x = text ++ c :: tail ∧ c ≤ d := by
  induction text generalizing x with
  | nil =>
    cases x with
    | nil => exact absurd hlow (List.lt_irrefl _)
    | cons c tail =>
      rcases List.cons_lt_cons_iff.1 hhigh with hlt | ⟨heq, -⟩
      · exact ⟨c, tail, rfl, le_of_lt hlt⟩
      · exact ⟨c, tail, rfl, le_of_eq heq⟩
  | cons e text ih =>
    cases x with
    | nil => exact absurd hlow (List.not_lt_nil _)
    | cons c tail =>
      have hhigh : c < e ∨ c = e ∧ tail < text ++ d :: rest := List.cons_lt_cons_iff.1 hhigh
      rcases List.cons_lt_cons_iff.1 hlow with hlt | ⟨rfl, htail⟩
      · rcases hhigh with hgt | ⟨rfl, -⟩
        · exact absurd hgt (lt_asymm hlt)
        · exact absurd hlt (lt_irrefl _)
      · rcases hhigh with hgt | ⟨-, hhigh⟩
        · exact absurd hgt (lt_irrefl _)
        · obtain ⟨first, more, rfl, hle⟩ := ih htail hhigh
          exact ⟨first, more, rfl, hle⟩

theorem Below.lt (h : Below root path) : root.path.toList < path.path.toList := by
  obtain ⟨rest, hrest⟩ := h
  rw [hrest]
  exact lt_append _ _ _

theorem TypePath.toList_inj (h : a.path.toList = b.path.toList) : a = b := by
  obtain ⟨a, _⟩ := a
  obtain ⟨b, _⟩ := b
  obtain rfl : a = b := String.toList_inj.1 h
  rfl

theorem Below.ne (h : Below root path) : path ≠ root := by
  rintro rfl
  exact lt_irrefl _ h.lt

/-- What is between a type and one below it is below it as well, or hides that one. -/
theorem hides_iff (hlow : root.path.toList < sibling.path.toList)
    (hhigh : sibling.path.toList < path.path.toList) (hpath : Below root path) :
    Hides sibling root path ↔ ¬ Below root sibling := by
  constructor
  · rintro ⟨⟨c, rest, hsibling, hc⟩, -⟩ ⟨tail, htail⟩
    rw [hsibling] at htail
    obtain ⟨rfl, -⟩ := List.cons.inj (List.append_cancel_left htail)
    exact absurd hc (lt_irrefl _)
  · intro hnot
    obtain ⟨rest, hrest⟩ := hpath
    rw [hrest] at hhigh
    obtain ⟨c, tail, hsibling, hle⟩ := continues_of_between hlow hhigh
    refine ⟨⟨c, tail, hsibling, lt_of_le_of_ne hle ?_⟩, rest, hrest⟩
    rintro rfl
    exact hnot ⟨tail, hsibling⟩

theorem Hides.lt (h : Hides sibling root path) : sibling.path.toList < path.path.toList := by
  obtain ⟨⟨c, rest, hsibling, hc⟩, tail, htail⟩ := h
  rw [hsibling, htail]
  generalize root.path.toList = text
  induction text with
  | nil => exact List.cons_lt_cons_iff.2 (.inl hc)
  | cons d text ih => exact List.cons_lt_cons_iff.2 (.inr ⟨rfl, ih⟩)

/-! ## The first that is not below -/

/-- The elements up to the first bad one are all good ones if none is behind a bad one. -/
theorem takeWhile_eq_filter_iff {α : Type} {good : α → Bool} {l : List α} :
    l.takeWhile good = l.filter good ↔ l.Pairwise fun x y => good y = true → good x = true := by
  induction l with
  | nil => simp
  | cons x l ih =>
    rw [List.pairwise_cons]
    cases hx : good x with
    | true =>
      rw [List.takeWhile_cons_of_pos hx, List.filter_cons_of_pos hx, List.cons_inj_right, ih]
      simp
    | false =>
      have hnot : ¬ good x = true := by rw [hx]; exact Bool.false_ne_true
      rw [List.takeWhile_cons_of_neg hnot, List.filter_cons_of_neg hnot, eq_comm,
        List.filter_eq_nil_iff]
      refine ⟨fun h => ⟨fun y hy hgood => absurd hgood (h y hy), ?_⟩,
        fun h y hy hgood => absurd (h.1 y hy hgood) Bool.false_ne_true⟩
      exact List.pairwise_of_forall_mem_list fun y _ z hz hgood => absurd hgood (h z hz)

namespace TypeCatalog

/-- The declared types behind the selector. -/
def above (catalog : TypeCatalog) (root : TypePath) : List TypePath :=
  catalog.paths.filter fun path => root.path.toList < path.path.toList

variable {catalog : TypeCatalog}

theorem sorted_paths (catalog : TypeCatalog) :
    catalog.paths.Pairwise fun a b => a.path.toList < b.path.toList :=
  List.pairwise_map.1 catalog.sorted

theorem sorted_above : (catalog.above root).Pairwise fun a b => a.path.toList < b.path.toList :=
  catalog.sorted_paths.filter _

theorem mem_above : path ∈ catalog.above root ↔
    path ∈ catalog.paths ∧ root.path.toList < path.path.toList := by
  rw [above, List.mem_filter, decide_eq_true_iff]

theorem kept_above (h : path ∈ catalog.above root) : kept root path = true ↔ Below root path := by
  rw [kept_iff, or_iff_right]
  rintro rfl
  exact absurd (mem_above.1 h).2 (lt_irrefl _)

theorem range_of_mem (h : root ∈ catalog.paths) : catalog.range root = root :: catalog.above root := by
  obtain ⟨before, after, hpaths⟩ := List.append_of_mem h
  have hsorted := catalog.sorted_paths
  rw [hpaths, List.pairwise_append, List.pairwise_cons] at hsorted
  obtain ⟨-, ⟨hafter, -⟩, hbefore⟩ := hsorted
  have hlt : ∀ path ∈ before, path.path.toList < root.path.toList :=
    fun path hpath => hbefore path hpath root (List.mem_cons_self ..)
  have hlow : before.filter (fun path => root.path.toList ≤ path.path.toList) = [] :=
    List.filter_eq_nil_iff.2 fun path hpath => by simpa using hlt path hpath
  have hbelow : before.filter (fun path => root.path.toList < path.path.toList) = [] :=
    List.filter_eq_nil_iff.2 fun path hpath => by simpa using le_of_lt (hlt path hpath)
  rw [range, above, hpaths, List.filter_append, List.filter_append, hlow, hbelow,
    List.filter_cons_of_pos (by simp), List.filter_cons_of_neg (by simp), List.nil_append,
    List.nil_append]
  refine congrArg (root :: ·) (List.filter_congr fun path hpath => ?_)
  have hpath := hafter path hpath
  rw [decide_eq_true (le_of_lt hpath), decide_eq_true hpath]

theorem range_of_notMem (h : root ∉ catalog.paths) : catalog.range root = catalog.above root := by
  refine List.filter_congr fun path hpath => decide_eq_decide.2 ?_
  refine ⟨fun hle => lt_of_le_of_ne hle fun heq => h ?_, le_of_lt⟩
  rwa [TypePath.toList_inj heq]

/-- The selector, then what follows it up to the first that is not below it. -/
theorem select_eq (catalog : TypeCatalog) (root : TypePath) :
    catalog.select root = root :: (catalog.above root).takeWhile (kept root) := by
  by_cases h : root ∈ catalog.paths
  · rw [select, if_pos h, range_of_mem h, List.takeWhile_cons_of_pos (kept_iff.2 (.inl rfl))]
  · rw [select, if_neg h, range_of_notMem h]

theorem filter_below : catalog.paths.filter (Below root) = (catalog.above root).filter (kept root) := by
  rw [above, List.filter_filter]
  refine List.filter_congr fun path _ => ?_
  rw [Bool.eq_iff_iff, Bool.and_eq_true, decide_eq_true_iff, kept_iff, decide_eq_true_iff]
  refine ⟨fun h => ⟨.inr h, h.lt⟩, ?_⟩
  rintro ⟨rfl | h, hlt⟩
  · exact absurd hlt (lt_irrefl _)
  · exact h

/-- A selection is exact if no declared type hides another. -/
theorem select_exact_iff :
    catalog.select root = root :: catalog.paths.filter (Below root) ↔
      ∀ sibling ∈ catalog.paths, ∀ path ∈ catalog.paths, ¬ Hides sibling root path := by
  rw [select_eq, filter_below, List.cons_inj_right, takeWhile_eq_filter_iff]
  constructor
  · intro h sibling hsibling path hpath hhides
    have hlow : root.path.toList < sibling.path.toList := by
      obtain ⟨c, rest, heq, -⟩ := hhides.1
      rw [heq]
      exact lt_append _ _ _
    have hs := mem_above.2 ⟨hsibling, hlow⟩
    have hp := mem_above.2 ⟨hpath, hhides.2.lt⟩
    have hkept : sibling.path.toList < path.path.toList → kept root path = true →
        kept root sibling = true :=
      (h.imp fun {x y} hxy (_ : x.path.toList < y.path.toList) => hxy).forall_of_forall_of_flip
        (fun x _ _ hk => hk) (sorted_above.imp fun hlt hgt => absurd hgt (lt_asymm hlt)) hs hp
    have hbelow := (kept_above hs).1 (hkept hhides.lt ((kept_above hp).2 hhides.2))
    exact (hides_iff hlow hhides.lt hhides.2).1 hhides hbelow
  · intro h
    refine sorted_above.imp_of_mem fun {x y} hx hy hlt hkept => ?_
    by_contra hnot
    rw [kept_above hx] at hnot
    obtain ⟨hx, hlow⟩ := mem_above.1 hx
    have hbelow := (kept_above hy).1 hkept
    exact h x hx y (mem_above.1 hy).1 ((hides_iff hlow hlt hbelow).2 hnot)

end TypeCatalog

/-! ## A whole call -/

theorem addUnseen_eq (list paths : List TypePath) :
    addUnseen list paths = list ++ (paths.removeAll list).eraseDups := by
  induction paths generalizing list with
  | nil => exact (List.append_nil _).symm
  | cons path paths ih =>
    rw [addUnseen, List.foldl_cons, List.cons_removeAll]
    by_cases h : path ∈ list
    · rw [if_pos h, if_neg (by simpa using h)]
      exact ih list
    · rw [if_neg h, if_pos (by simpa using h), List.eraseDups_cons]
      refine (ih _).trans ?_
      have hremoved : paths.removeAll (list ++ [path]) =
          (paths.removeAll list).filter fun other => !other == path := by
        rw [List.removeAll, List.removeAll, List.filter_filter]
        refine List.filter_congr fun other _ => ?_
        rw [List.elem_eq_mem, List.elem_eq_mem, ← Bool.not_or]
        simp [Bool.or_comm, beq_eq_decide]
      rw [hremoved, List.append_assoc, List.singleton_append]

theorem addUnseen_nil (paths : List TypePath) : addUnseen [] paths = paths.eraseDups := by
  rw [addUnseen_eq, List.nil_append, List.removeAll_nil]

theorem eraseDups_of_nodup {paths : List TypePath} (h : paths.Nodup) : paths.eraseDups = paths := by
  induction paths with
  | nil => rfl
  | cons path paths ih =>
    obtain ⟨hnot, hnodup⟩ := List.nodup_cons.1 h
    have hfilter : paths.filter (fun other => !other == path) = paths :=
      List.filter_eq_self.2 fun other hother => by
        have hne : other ≠ path := by
          rintro rfl
          exact hnot hother
        simpa using hne
    rw [List.eraseDups_cons, hfilter, ih hnodup]

theorem foldlM_addUnseen (f : Value → Except String (List TypePath)) (selectors : List Value)
    (list : List TypePath) :
    selectors.foldlM (fun list selector => (f selector).map (addUnseen list)) list =
      (selectors.mapM f).map fun paths => addUnseen list paths.flatten := by
  induction selectors generalizing list with
  | nil => rfl
  | cons selector selectors ih =>
    rw [List.foldlM_cons, List.mapM_cons]
    cases f selector with
    | error message => rfl
    | ok paths =>
      refine (ih (addUnseen list paths)).trans ?_
      cases hrest : selectors.mapM f with
      | error message => rfl
      | ok rest =>
        simp only [bind, Except.bind, Except.map, pure, Except.pure, List.flatten_cons]
        rw [addUnseen, addUnseen, addUnseen, List.foldl_append]

theorem typesOf_eq {selectors : List Value} (h : selectors ≠ []) :
    typesOf host selectors =
      (selectors.mapM (selectorPaths host)).map fun paths => paths.flatten.eraseDups := by
  rw [typesOf, if_neg h, foldlM_addUnseen]
  simp only [addUnseen_nil]

/-- A type that some selector which names no family of procedures stands for. -/
def Selects (host : Host) (selector : Value) (root : TypePath) : Prop :=
  procedureRoot selector = none ∧ selectedType host selector = .ok (some root)

theorem selectorPaths_of_selects {selector : Value} (h : Selects host selector root) :
    selectorPaths host selector = .ok (host.catalog.select root) := by
  rw [selectorPaths, h.1]
  show typesofBuiltin host selector = _
  rw [typesofBuiltin, h.2]
  rfl

theorem exactPaths_of_selects {selector : Value} (h : Selects host selector root) :
    exactPaths host selector = .ok (root :: host.catalog.paths.filter (Below root)) := by
  rw [exactPaths, h.1]
  show (selectedType host selector).map _ = _
  rw [h.2]
  rfl

theorem typesOf_of_selects {selector : Value} (h : Selects host selector root) :
    typesOf host [selector] = .ok (host.catalog.select root) := by
  have hnodup : (host.catalog.select root).Nodup := by
    rw [TypeCatalog.select_eq, List.nodup_cons]
    have htaken := (host.catalog.above root).takeWhile_sublist (kept root)
    have hsorted := @TypeCatalog.sorted_above root host.catalog
    refine ⟨fun hmem => ?_, (hsorted.imp fun hlt heq => ?_).sublist htaken⟩
    · exact absurd (TypeCatalog.mem_above.1 (htaken.subset hmem)).2 (lt_irrefl _)
    · exact absurd (heq ▸ hlt) (lt_irrefl _)
  rw [typesOf_eq (List.cons_ne_nil _ _), List.mapM_cons, selectorPaths_of_selects h]
  show Except.ok (([host.catalog.select root].flatten).eraseDups) = _
  rw [List.flatten_singleton, eraseDups_of_nodup hnodup]

/-- What a selector gives is exact if no declared type hides one below the selected. -/
theorem selectorPaths_eq_exactPaths {selector : Value}
    (h : ∀ root, Selects host selector root →
      host.catalog.select root = root :: host.catalog.paths.filter (Below root)) :
    selectorPaths host selector = exactPaths host selector := by
  cases hroot : procedureRoot selector with
  | some root =>
    rw [selectorPaths, exactPaths, hroot]
    show Except.ok _ = Except.ok _
    rw [Except.ok.injEq]
    refine List.filter_congr fun path _ => ?_
    rw [Bool.eq_iff_iff, kept_iff, decide_eq_true_iff]
  | none =>
    cases hselected : selectedType host selector with
    | error message => rw [selectorPaths, exactPaths, hroot, typesofBuiltin, hselected]; rfl
    | ok selected =>
      cases selected with
      | none => rw [selectorPaths, exactPaths, hroot, typesofBuiltin, hselected]; rfl
      | some root =>
        have hselects : Selects host selector root := ⟨hroot, hselected⟩
        rw [selectorPaths_of_selects hselects, exactPaths_of_selects hselects, h root hselects]

theorem exactTypesOf_iff :
    (∀ selectors, selectors ≠ [] → ExactTypesOf host selectors) ↔
      ∀ selector root, Selects host selector root →
        ∀ sibling ∈ host.catalog.paths, ∀ path ∈ host.catalog.paths, ¬ Hides sibling root path := by
  constructor
  · intro h selector root hselects
    have hexact := h [selector] (List.cons_ne_nil _ _)
    rw [ExactTypesOf, typesOf_of_selects hselects, List.mapM_cons,
      exactPaths_of_selects hselects] at hexact
    have hlists : host.catalog.select root =
        ([root :: host.catalog.paths.filter (Below root)].flatten).eraseDups :=
      Except.ok.inj hexact
    have hnodup : (root :: host.catalog.paths.filter (Below root)).Nodup := by
      refine List.nodup_cons.2 ⟨fun hmem => ?_, ?_⟩
      · exact (of_decide_eq_true (List.mem_filter.1 hmem).2 : Below root root).ne rfl
      · exact (host.catalog.sorted_paths.imp fun hlt heq => absurd (heq ▸ hlt) (lt_irrefl _)).filter _
    rw [List.flatten_singleton, eraseDups_of_nodup hnodup] at hlists
    exact TypeCatalog.select_exact_iff.1 hlists
  · intro h selectors hne
    have hsame : selectorPaths host = exactPaths host := funext fun selector =>
      selectorPaths_eq_exactPaths fun root hselects =>
        TypeCatalog.select_exact_iff.2 (h selector root hselects)
    rw [ExactTypesOf, typesOf_eq hne, hsame]

/-! ## Climbing the parents -/

theorem splitSlash_ne_nil (x : List Char) : splitSlash x ≠ [] := by
  cases x with
  | nil => exact List.cons_ne_nil _ _
  | cons c x =>
    unfold splitSlash
    split
    case h_3 => split <;> exact List.cons_ne_nil _ _
    all_goals exact List.cons_ne_nil _ _

theorem splitSlash_append (x y : List Char) :
    splitSlash (x ++ '/' :: y) = splitSlash x ++ splitSlash y := by
  induction x with
  | nil => rfl
  | cons c x ih =>
    by_cases hc : c = '/'
    · subst hc
      exact congrArg ([] :: ·) ih
    · rw [List.cons_append, splitSlash, splitSlash, ih]
      · cases hx : splitSlash x with
        | nil => exact absurd hx (splitSlash_ne_nil x)
        | cons segment segments => rfl
      · exact hc
      · exact hc

/-- The part of a path in front of a slash is a path. -/
theorem exists_owner {x y : List Char}
    (h : path.path.toList = root.path.toList ++ '/' :: x ++ '/' :: y) :
    ∃ owner : TypePath, owner.path.toList = root.path.toList ++ '/' :: x := by
  have hvalid := path.valid
  have hroot := root.valid
  rw [isTypePath, h] at hvalid
  rw [isTypePath] at hroot
  cases htext : root.path.toList with
  | nil =>
    rw [htext] at hroot
    cases hroot
  | cons c text =>
    by_cases hc : c = '/'
    · subst hc
      rw [htext] at hvalid
      have hall : ((splitSlash (text ++ '/' :: x ++ '/' :: y)).all fun s => !s.isEmpty) = true :=
        hvalid
      rw [splitSlash_append, List.all_append, Bool.and_eq_true] at hall
      refine ⟨⟨String.ofList ('/' :: (text ++ '/' :: x)), ?_⟩, String.toList_ofList⟩
      rw [isTypePath, String.toList_ofList]
      exact hall.1
    · rw [htext] at hroot
      split at hroot
      next heq => exact absurd (List.cons.inj heq).1 hc
      next => cases hroot

theorem distance_eq {rest : List Char} (h : path.path.toList = root.path.toList ++ '/' :: rest) :
    distance root path = rest.count '/' + 1 := by
  rw [distance, h, List.count_append, List.count_cons_self]
  omega

theorem exists_last_slash {rest : List Char} (h : '/' ∈ rest) :
    ∃ front last, rest = front ++ '/' :: last ∧ '/' ∉ last := by
  obtain ⟨front, last, hrest, hnot⟩ := List.eq_append_cons_of_mem (List.mem_reverse.2 h)
  refine ⟨last.reverse, front.reverse, ?_, fun hmem => hnot (List.mem_reverse.1 hmem)⟩
  rw [← List.reverse_reverse rest, hrest]
  simp

/-- From a type to one above it in the hierarchy of the paths, and through nothing else. -/
theorem climb_below (h : PathAncestry host) (n : Nat) (hbelow : Below root path)
    (hdistance : distance root path = n + 1) :
    climb (parentOf host) (n + 1) path = some root ∧
      ∀ k ≤ n, ∃ c, climb (parentOf host) k path = some c ∧ (c = path ∨ Below c path) := by
  induction n generalizing path with
  | zero =>
    refine ⟨by rw [climb_one, h.parent root path hbelow hdistance], fun k hk => ?_⟩
    obtain rfl : k = 0 := by omega
    exact ⟨path, rfl, .inl rfl⟩
  | succ n ih =>
    obtain ⟨rest, hrest⟩ := hbelow
    rw [distance_eq hrest] at hdistance
    have hslash : 0 < rest.count '/' := by omega
    obtain ⟨front, last, rfl, hlast⟩ := exists_last_slash (List.count_pos_iff.1 hslash)
    rw [← List.cons_append, ← List.append_assoc] at hrest
    obtain ⟨owner, howner⟩ := exists_owner hrest
    rw [List.count_append, List.count_cons_self, List.count_eq_zero.2 hlast] at hdistance
    have hup : Below root owner := ⟨front, howner⟩
    rw [← howner] at hrest
    have hparent : parentOf host path = some owner := by
      refine h.parent owner path ⟨last, hrest⟩ ?_
      rw [distance_eq hrest, List.count_eq_zero.2 hlast]
    obtain ⟨hroot, hbetween⟩ := ih hup (by rw [distance_eq howner]; omega)
    refine ⟨by rw [climb_succ, hparent]; exact hroot, fun k hk => ?_⟩
    cases k with
    | zero => exact ⟨path, rfl, .inl rfl⟩
    | succ k =>
      obtain ⟨c, hc, hcase⟩ := hbetween k (by omega)
      refine ⟨c, by rw [climb_succ, hparent]; exact hc, .inr ?_⟩
      rcases hcase with rfl | ⟨more, hmore⟩
      · exact ⟨last, hrest⟩
      · exact ⟨more ++ '/' :: last, by rw [hrest, hmore, List.append_assoc, List.cons_append]⟩

theorem Below.distance_pos (h : Below root path) : 0 < distance root path := by
  obtain ⟨rest, hrest⟩ := h
  rw [distance_eq hrest]
  exact Nat.succ_pos _

theorem Below.climb (h : PathAncestry host) (hbelow : Below root path) :
    climb (parentOf host) (distance root path) path = some root := by
  obtain ⟨n, hn⟩ := Nat.exists_eq_add_of_lt hbelow.distance_pos
  rw [Nat.zero_add] at hn
  rw [hn]
  exact (climb_below h n hbelow hn).1

/-- Of two types under one path the paths say whether the parents lead from one to the other. -/
theorem reaches_iff_below (h : PathAncestry host) (hrelated : Related ancestor path) :
    ParentGraph.Reaches (parentOf host) path ancestor ↔ ancestor = path ∨ Below ancestor path := by
  constructor
  · rintro ⟨k, hk⟩
    obtain ⟨root, hancestor, hpath⟩ := hrelated
    have hreach : ParentGraph.Reaches (parentOf host) ancestor root := by
      rcases hancestor with rfl | hbelow
      · exact .refl _
      · exact ⟨_, hbelow.climb h⟩
    obtain ⟨j, hj⟩ := hreach
    rcases hpath with rfl | hbelow
    · cases k with
      | zero => exact .inl (Option.some.inj hk).symm
      | succ k => exact absurd ⟨k + j, by rw [Nat.add_right_comm]; exact climb_trans hk hj⟩ (h.acyclic root)
    · obtain ⟨n, hn⟩ := Nat.exists_eq_add_of_lt hbelow.distance_pos
      rw [Nat.zero_add] at hn
      obtain ⟨hroot, hbetween⟩ := climb_below h n hbelow hn
      by_cases hle : k ≤ n
      · obtain ⟨c, hc, hcase⟩ := hbetween k hle
        obtain rfl := Option.some.inj (hk.symm.trans hc)
        exact hcase
      · obtain ⟨m, rfl⟩ := Nat.exists_eq_add_of_le (Nat.lt_of_not_le hle)
        rw [Nat.succ_eq_add_one, climb_add, hroot] at hk
        have hback : climb (parentOf host) (m + j) root = some root := climb_trans hk hj
        cases m with
        | zero =>
          obtain rfl := Option.some.inj hk
          exact .inr hbelow
        | succ m => exact absurd ⟨m + j, by rw [Nat.add_right_comm]; exact hback⟩ (h.acyclic root)
  · rintro (rfl | hbelow)
    · exact .refl _
    · exact ⟨_, hbelow.climb h⟩

theorem climbParents_iff {target current : TypePath} (hne : current ≠ target) (steps : Nat) :
    climbParents host target steps current = true ↔
      ∃ k ≤ steps, climb (parentOf host) k current = some target := by
  induction steps generalizing current with
  | zero =>
    refine ⟨fun h => absurd h Bool.false_ne_true, ?_⟩
    rintro ⟨k, hk, hclimb⟩
    obtain rfl : k = 0 := by omega
    exact absurd (Option.some.inj hclimb) hne
  | succ steps ih =>
    have hstep : (∃ k ≤ steps + 1, climb (parentOf host) k current = some target) ↔
        ∃ k ≤ steps, (parentOf host current).bind (climb (parentOf host) k) = some target := by
      constructor
      · rintro ⟨k, hk, hclimb⟩
        cases k with
        | zero => exact absurd (Option.some.inj hclimb) hne
        | succ k => exact ⟨k, by omega, hclimb⟩
      · rintro ⟨k, hk, hclimb⟩
        exact ⟨k + 1, by omega, hclimb⟩
    rw [hstep, climbParents, parentOf]
    cases nextParent host current with
    | none => simp
    | some parent =>
      dsimp only
      by_cases htarget : parent = target
      · rw [if_pos htarget, htarget, Option.filter_some_pos (by simpa using hne.symm)]
        exact iff_of_true rfl ⟨0, Nat.zero_le _, rfl⟩
      · rw [if_neg htarget]
        by_cases hself : parent = current
        · rw [if_pos hself, hself, Option.filter_some_neg (by simp)]
          simp
        · rw [if_neg hself, ih htarget, Option.filter_some_pos (by simpa using hself)]
          rfl

/-- The parents lead to a type in one number of steps only. -/
theorem climb_inj (h : PathAncestry host) {j k : Nat} (hj : climb (parentOf host) j a = some b)
    (hk : climb (parentOf host) k a = some b) : j = k := by
  have hle : ∀ {j k : Nat}, climb (parentOf host) j a = some b →
      climb (parentOf host) k a = some b → k ≤ j := by
    intro j k hj hk
    by_contra hlt
    obtain ⟨m, rfl⟩ := Nat.exists_eq_add_of_lt (Nat.lt_of_not_le hlt)
    rw [Nat.add_assoc, climb_add, hj] at hk
    exact h.acyclic b ⟨m, hk⟩
  exact Nat.le_antisymm (hle hk hj) (hle hj hk)

/-- Types that are compared by their intervals, or few enough parents apart. -/
def Compared (host : Host) (ancestor path : TypePath) : Prop :=
  ((host.subtypeInterval path).isSome ∧ (host.subtypeInterval ancestor).isSome) ∨
    distance ancestor path ≤ 512

theorem isSubtype_iff (h : PathAncestry host) (hrelated : Related ancestor path) :
    isSubtype host path ancestor = true ↔
      ancestor = path ∨ Below ancestor path ∧ Compared host ancestor path := by
  rw [isSubtype]
  by_cases heq : path = ancestor
  · rw [if_pos heq]
    exact iff_of_true rfl (.inl heq.symm)
  · rw [if_neg heq, or_iff_right (Ne.symm heq), Compared]
    have hreaches := reaches_iff_below h hrelated
    rw [or_iff_right (Ne.symm heq)] at hreaches
    have hwalk : climbParents host ancestor 512 path = true ↔
        Below ancestor path ∧ distance ancestor path ≤ 512 := by
      rw [climbParents_iff heq]
      constructor
      · rintro ⟨k, hk, hclimb⟩
        have hbelow := hreaches.1 ⟨k, hclimb⟩
        exact ⟨hbelow, climb_inj h hclimb (hbelow.climb h) ▸ hk⟩
      · rintro ⟨hbelow, hle⟩
        exact ⟨_, hle, hbelow.climb h⟩
    cases hinner : host.subtypeInterval path with
    | none => simpa using hwalk
    | some inner =>
      cases houter : host.subtypeInterval ancestor with
      | none => simpa using hwalk
      | some outer =>
        have hnested := h.intervals path ancestor inner outer hinner houter
        simpa [hreaches] using hnested

/--
A call of `typesof` is exact, and agrees with `istype`, exactly if no sibling of a type sorts
before the types below that, and types without intervals are at most 512 names apart.
-/
theorem typesOf_exact_iff (host : Host) (h : PathAncestry host) :
    ((∀ selectors, selectors ≠ [] → ExactTypesOf host selectors) ∧
      ∀ selector root, Selects host selector root → ∀ path ∈ host.catalog.paths,
        Related root path → ((∃ paths, typesOf host [selector] = .ok paths ∧ path ∈ paths) ↔
          isSubtype host path root = true)) ↔
    ∀ selector root, Selects host selector root → ∀ path ∈ host.catalog.paths,
      (∀ sibling ∈ host.catalog.paths, ¬ Hides sibling root path) ∧
        (Below root path → Compared host root path) := by
  have hagree : (∀ selector root, Selects host selector root →
        ∀ sibling ∈ host.catalog.paths, ∀ path ∈ host.catalog.paths, ¬ Hides sibling root path) →
      ∀ selector root, Selects host selector root → ∀ path ∈ host.catalog.paths,
        ((∃ paths, typesOf host [selector] = .ok paths ∧ path ∈ paths) ↔
          root = path ∨ Below root path) := by
    intro hnot selector root hselects path hpath
    rw [typesOf_of_selects hselects, TypeCatalog.select_exact_iff.2 (hnot selector root hselects)]
    simp [hpath, eq_comm]
  rw [exactTypesOf_iff]
  constructor
  · rintro ⟨hnot, hsame⟩ selector root hselects path hpath
    refine ⟨fun sibling hsibling => hnot selector root hselects sibling hsibling path hpath, ?_⟩
    intro hbelow
    have hrelated : Related root path := ⟨root, .inl rfl, .inr hbelow⟩
    have hmem := (hagree hnot selector root hselects path hpath).2 (.inr hbelow)
    have hsubtype := (hsame selector root hselects path hpath hrelated).1 hmem
    rcases (isSubtype_iff h hrelated).1 hsubtype with heq | hcompared
    · exact absurd heq.symm hbelow.ne
    · exact hcompared.2
  · intro hgood
    have hnot : ∀ selector root, Selects host selector root →
        ∀ sibling ∈ host.catalog.paths, ∀ path ∈ host.catalog.paths, ¬ Hides sibling root path :=
      fun selector root hselects sibling hsibling path hpath =>
        (hgood selector root hselects path hpath).1 sibling hsibling
    refine ⟨hnot, fun selector root hselects path hpath hrelated => ?_⟩
    rw [hagree hnot selector root hselects path hpath, isSubtype_iff h hrelated]
    refine or_congr_right ⟨fun hbelow => ⟨hbelow, ?_⟩, fun hbelow => hbelow.1⟩
    exact (hgood selector root hselects path hpath).2 hbelow

/-! ## Siblings that hide a type -/

/-- The owner of a path in the hierarchy of the paths. -/
def pathOwner (path : TypePath) : Option TypePath :=
  (TypePath.parse (String.ofList (ownerText path))).toOption

theorem ownerText_eq {owner : TypePath} {name : List Char} (hname : '/' ∉ name)
    (h : path.path.toList = owner.path.toList ++ '/' :: name) : ownerText path = owner.path.toList := by
  have hpass : ∀ c ∈ name.reverse, decide (c ≠ '/') = true := by
    intro c hc
    refine decide_eq_true ?_
    rintro rfl
    exact hname (List.mem_reverse.1 hc)
  rw [ownerText, h, List.reverse_append, List.reverse_cons, List.append_assoc,
    List.dropWhile_append_of_pos hpass, List.singleton_append,
    List.dropWhile_cons_of_neg (by decide), List.drop_one, List.tail_cons, List.reverse_reverse]

theorem length_lt_of_pathOwner (h : pathOwner a = some b) :
    b.path.toList.length < a.path.toList.length := by
  have htext : b.path.toList = ownerText a := by
    rw [pathOwner, TypePath.parse] at h
    split at h
    · cases h
      exact String.toList_ofList
    · cases h
  have hne : a.path.toList ≠ [] := by
    intro hnil
    have hvalid := a.valid
    rw [isTypePath, hnil] at hvalid
    cases hvalid
  have hle := (List.dropWhile_sublist (· ≠ '/') : List.Sublist _ a.path.toList.reverse).length_le
  have hpos := List.length_pos_iff.2 hne
  rw [List.length_reverse] at hle
  rw [htext, ownerText, List.length_reverse, List.length_drop]
  omega

/-- A state that has recorded the owners as the parents and no intervals. -/
def pathHost (catalog : TypeCatalog) : Host where
  catalog := catalog
  procedureTypes := []
  typeOf := fun _ => .error "stale datum"
  display := fun _ => ""
  typeParents := fun path => some (pathOwner path)
  subtypeInterval := fun _ => none

theorem parentOf_pathHost (catalog : TypeCatalog) (path : TypePath) :
    parentOf (pathHost catalog) path = (pathOwner path).filter (· ≠ path) := by
  simp only [parentOf, nextParent, pathHost, Option.getD_some]

theorem pathHost_ancestry (catalog : TypeCatalog) : PathAncestry (pathHost catalog) where
  parent owner path hbelow hdistance := by
    obtain ⟨name, hname⟩ := hbelow
    rw [distance_eq hname] at hdistance
    have howner : pathOwner path = some owner := by
      rw [pathOwner, ownerText_eq (List.count_eq_zero.1 (by omega)) hname, String.ofList_toList,
        TypePath.parse, dif_pos owner.valid]
      rfl
    have hne : owner ≠ path := fun heq => Below.ne ⟨name, hname⟩ heq.symm
    rw [parentOf_pathHost, howner, Option.filter_some_pos (by simpa using hne)]
  acyclic := by
    refine @not_onCycle_of_lt _ _ (fun path : TypePath => path.path.toList.length) fun a b hab => ?_
    rw [parentOf_pathHost] at hab
    obtain ⟨howner, -⟩ := Option.filter_eq_some_iff.1 hab
    exact length_lt_of_pathOwner howner
  intervals _ _ _ _ h := by cases h

def machinePath : TypePath := ⟨"/obj/machine", by decide⟩
def machineTwoPath : TypePath := ⟨"/obj/machine-2", by decide⟩
def machinePumpPath : TypePath := ⟨"/obj/machine/pump", by decide⟩

def machines : TypeCatalog where
  paths := [machinePath, machinePumpPath]
  sorted := by decide

theorem machines_exact :
    (∀ selectors, selectors ≠ [] → ExactTypesOf (pathHost machines) selectors) ∧
      ∀ selector root, Selects (pathHost machines) selector root →
        ∀ path ∈ (pathHost machines).catalog.paths, Related root path →
          ((∃ paths, typesOf (pathHost machines) [selector] = .ok paths ∧ path ∈ paths) ↔
            isSubtype (pathHost machines) path root = true) := by
  refine (typesOf_exact_iff _ (pathHost_ancestry machines)).2 fun _ root _ path hpath => ⟨?_, ?_⟩
  · intro sibling hsibling hhides
    have hlt := hhides.lt
    have hpump : sibling = machinePath ∧ path = machinePumpPath := by
      rcases List.mem_pair.1 hsibling with rfl | rfl <;>
        rcases List.mem_pair.1 hpath with rfl | rfl
      · exact absurd hlt (lt_irrefl _)
      · exact ⟨rfl, rfl⟩
      · exact absurd hlt (by decide)
      · exact absurd hlt (lt_irrefl _)
    obtain ⟨rfl, rfl⟩ := hpump
    -- The longer path goes on behind the selector as the shorter one does.
    obtain ⟨⟨c, rest, hsibling, hc⟩, tail, hpath⟩ := hhides
    have htext : machinePumpPath.path.toList = machinePath.path.toList ++ "/pump".toList := by decide
    rw [hpath, hsibling, List.append_assoc] at htext
    obtain ⟨rfl, -⟩ := List.cons.inj (List.append_cancel_left htext)
    exact absurd hc (lt_irrefl _)
  · intro _
    refine .inr (Nat.le_trans (Nat.sub_le _ _) ?_)
    rcases List.mem_pair.1 hpath with rfl | rfl <;> decide

/-- The sibling sorts between the two others. -/
def hiddenMachines : TypeCatalog where
  paths := [machinePath, machineTwoPath, machinePumpPath]
  sorted := by decide

theorem hiddenMachines_not_exact : PathAncestry (pathHost hiddenMachines) ∧
    ¬ ExactTypesOf (pathHost hiddenMachines) [.typePath machinePath] := by
  refine ⟨pathHost_ancestry _, fun h => ?_⟩
  have hcode : typesOf (pathHost hiddenMachines) [.typePath machinePath] = .ok [machinePath] := by
    rfl
  have hexact : [machinePath] = [machinePath, machinePumpPath] := Except.ok.inj (hcode.symm.trans h)
  cases hexact

end Dream64.Vm.Typesof
