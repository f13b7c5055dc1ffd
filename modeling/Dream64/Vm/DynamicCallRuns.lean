import Dream64.Library.Answers
import Dream64.Vm.DynamicCalls

/-!
# Runs of dynamic calls

Modules are linked with a new identity each; a module keeps the identity when
an initializer is appended to it, so several modules may have one. They agree
on the procedures that a dynamic call can find, and the cache of receivers has
what the resolution gives (`CachesSound`). The cache of a call site has what
its selector gave, so it serves the next call at the site as long as that one
has the same selector. If every call at a site has the selector of the calls
before it (`Consistent`), the answers of a run are those without caches
(`run_eq_uncached`).
-/

namespace Dream64.Vm

open Preprocess (Text)
open Stepwise

/-! ## Calls without caches -/

section

variable (texts : MessageTexts) (fuel : Nat) (m : LinkedModule) (s : DispatchState)

def uncachedTargetNamed (receiver : Value) (selector : Text) (callerContext : ExecutionContext)
    (nullReceiverIsGlobal : Bool) : Option Target :=
  match receiverBase texts s receiver callerContext nullReceiverIsGlobal with
  | .error message => some (.error message)
  | .ok (base, context) =>
    (uncachedTarget m s.typeParents fuel base selector).map (answer texts base selector context)

def uncachedCallTarget (receiver selector : Value) (callerContext : ExecutionContext)
    (nullReceiverIsGlobal : Bool) : Option Target :=
  match dynamicSelectorText texts selector with
  | .error message => some (.error message)
  | .ok text =>
    uncachedTargetNamed texts fuel m s receiver text callerContext nullReceiverIsGlobal

end

/-! ## Systems -/

/-- Modules, and a state of dispatch, with caches or without. -/
structure DispatchSystem (σ : Type) where
  modules : List LinkedModule
  nextIdentity : Nat
  state : σ

inductive DispatchAction where
  | link (linked : Bytecode.Module)
  /-- A copy of a module with one more initializer. -/
  | append (index : Nat) (program : Bytecode.Program)
  | setTypeParents (parents : TypeParents)
  /-- What the program does to its objects between two calls. -/
  | setObjects (datums : DatumId → Option SharedTypePath) (lists : ListId → Bool)
  | call (index : Nat) (receiver selector : Value) (callerContext : ExecutionContext)
      (nullReceiverIsGlobal : Bool)
  | callNamed (index : Nat) (receiver : Value) (selector : Text)
      (callerContext : ExecutionContext) (nullReceiverIsGlobal : Bool) (site : Option CallSite)

namespace DispatchSystem

def addModule {σ : Type} (s : DispatchSystem σ) (linked : Bytecode.Module) : DispatchSystem σ :=
  { s with
    modules := s.modules ++ [⟨linked, s.nextIdentity⟩]
    nextIdentity := s.nextIdentity + 1 }

def addCopy {σ : Type} (s : DispatchSystem σ) (index : Nat) (program : Bytecode.Program) :
    DispatchSystem σ :=
  match s.modules[index]? with
  | none => s
  | some m =>
    match m.appendInitializer program with
    | .ok copy => { s with modules := s.modules ++ [copy] }
    | .error _ => s

def view (s : DispatchSystem CachedDispatch) : DispatchSystem DispatchState :=
  ⟨s.modules, s.nextIdentity, s.state.toDispatchState⟩

variable (texts : MessageTexts) (fuel : Nat)

/-- A call with a module, if there is such a module. -/
def callWith {σ : Type} (s : DispatchSystem σ) (index : Nat)
    (call : LinkedModule → σ → Option (Target × σ)) :
    Option (Option Target × DispatchSystem σ) :=
  match s.modules[index]? with
  | none => some (none, s)
  | some m => (call m s.state).map fun r => (some r.1, { s with state := r.2 })

def step (s : DispatchSystem CachedDispatch) :
    DispatchAction → Option (Option Target × DispatchSystem CachedDispatch)
  | .link linked => some (none, s.addModule linked)
  | .append index program => some (none, s.addCopy index program)
  | .setTypeParents parents => some (none, { s with state := s.state.setTypeParents parents })
  | .setObjects datums lists =>
    some (none, { s with state := { s.state with datums := datums, lists := lists } })
  | .call index receiver selector context null =>
    s.callWith index fun m state =>
      CachedDispatch.dynamicCallTarget texts fuel m state receiver selector context null
  | .callNamed index receiver selector context null site =>
    s.callWith index fun m state =>
      dynamicCallTargetNamedAtCallsite texts fuel m state receiver selector context null site

/-- The same without caches. -/
def uncachedStep (s : DispatchSystem DispatchState) :
    DispatchAction → Option (Option Target × DispatchSystem DispatchState)
  | .link linked => some (none, s.addModule linked)
  | .append index program => some (none, s.addCopy index program)
  | .setTypeParents parents => some (none, { s with state := { s.state with typeParents := parents } })
  | .setObjects datums lists =>
    some (none, { s with state := { s.state with datums := datums, lists := lists } })
  | .call index receiver selector context null =>
    s.callWith index fun m state =>
      (uncachedCallTarget texts fuel m state receiver selector context null).map (·, state)
  | .callNamed index receiver selector context null _ =>
    s.callWith index fun m state =>
      (uncachedTargetNamed texts fuel m state receiver selector context null).map (·, state)

def run (actions : List DispatchAction) (s : DispatchSystem CachedDispatch) :
    Option (List (Option Target) × DispatchSystem CachedDispatch) :=
  runAll (fun action s => s.step texts fuel action) actions s

def uncachedRun (actions : List DispatchAction) (s : DispatchSystem DispatchState) :
    Option (List (Option Target) × DispatchSystem DispatchState) :=
  runAll (fun action s => s.uncachedStep texts fuel action) actions s

end DispatchSystem

/-! ## Call sites -/

/-- A call at a site of a module, for a type of receivers. -/
structure AskedSite where
  identity : Nat
  site : CallSite
  type : TypePath
  selector : Text

def AskedSite.SamePlace (first second : AskedSite) : Prop :=
  first.identity = second.identity ∧ first.site = second.site ∧ first.type = second.type

namespace DispatchSystem

def asks (s : DispatchSystem DispatchState) : DispatchAction → Option AskedSite
  | .callNamed index (.datum id) selector _ _ (some site) =>
    (s.modules[index]?).bind fun m => (s.state.datums id).map fun type =>
      ⟨m.identity, site, type.path, selector⟩
  | _ => none

/-- The calls at sites since the parents were set. -/
def askedAfter (asked : List AskedSite) (s : DispatchSystem DispatchState)
    (action : DispatchAction) : List AskedSite :=
  match action with
  | .setTypeParents _ => []
  | _ => (s.asks action).toList ++ asked

/-- A call at a site has the selector of the calls there before it. -/
def Agrees (asked : List AskedSite) (s : DispatchSystem DispatchState)
    (action : DispatchAction) : Prop :=
  ∀ now, s.asks action = some now → ∀ earlier ∈ asked, earlier.SamePlace now →
    earlier.selector = now.selector

def Consistent (texts : MessageTexts) (fuel : Nat) :
    List AskedSite → DispatchSystem DispatchState → List DispatchAction → Prop
  | _, _, [] => True
  | asked, s, action :: rest =>
    s.Agrees asked action ∧ ∀ result next, s.uncachedStep texts fuel action = some (result, next) →
      Consistent texts fuel (s.askedAfter asked action) next rest

end DispatchSystem

/-! ## The paths that are looked up -/

theorem isPrefix_beforeLast {pattern text before : Text} (h : beforeLast pattern text = some before) :
    before <+: text := by
  induction text generalizing before with
  | nil => cases h
  | cons c rest ih =>
    rw [beforeLast] at h
    cases hrest : beforeLast pattern rest with
    | some inner =>
      rw [hrest] at h
      cases h
      exact List.cons_prefix_cons.2 ⟨rfl, ih hrest⟩
    | none =>
      rw [hrest] at h
      simp only [Option.ite_none_right_eq_some] at h
      obtain ⟨-, hnil⟩ := h
      cases hnil
      exact List.nil_prefix

/-- A path from the root. -/
def FromRoot (text : Text) : Prop := ∃ rest, text = '/' :: rest

theorem fromRoot_pathChars (path : TypePath) : FromRoot (pathChars path) := by
  have hvalid := path.valid
  rw [isTypePath] at hvalid
  split at hvalid
  · rename_i rest heq
    exact ⟨rest, heq⟩
  · cases hvalid

theorem FromRoot.member {owner : Text} (h : FromRoot owner ∨ owner = []) (kind path : Text) :
    FromRoot (member owner kind path) := by
  rcases h with ⟨rest, rfl⟩ | rfl
  · exact ⟨rest ++ '/' :: kind ++ '/' :: path, rfl⟩
  · exact ⟨kind ++ '/' :: path, rfl⟩

theorem FromRoot.of_prefix {text part : Text} (h : FromRoot text) (hpart : part <+: text) :
    FromRoot part ∨ part = [] := by
  obtain ⟨rest, rfl⟩ := h
  rcases List.prefix_cons_iff.1 hpart with rfl | ⟨rest', rfl, -⟩
  · exact .inr rfl
  · exact .inl ⟨rest', rfl⟩

theorem fromRoot_nextCandidate {path candidate next : Text} (h : FromRoot candidate)
    (hnext : nextCandidate path candidate = some next) : FromRoot next := by
  obtain ⟨owner, howner, hnext⟩ := Option.bind_eq_some_iff.1 hnext
  rw [Option.ite_none_left_eq_some] at hnext
  obtain ⟨hne, hnext⟩ := hnext
  obtain ⟨parent, hparent, rfl⟩ := Option.map_eq_some_iff.1 hnext
  rw [not_or] at hne
  have hroot := (h.of_prefix (isPrefix_beforeLast howner)).resolve_right hne.2
  exact .member (hroot.of_prefix (isPrefix_beforeLast hparent)) _ _

theorem fromRoot_requestedPath (base : Option TypePath) (selector : Text) :
    FromRoot (requestedPath base selector) := by
  rw [requestedPath]
  split
  · rename_i habsolute
    obtain ⟨rest, hrest⟩ := List.head?_eq_some_iff.1 (beq_iff_eq.1 habsolute)
    exact ⟨rest, hrest⟩
  · cases base with
    | none => exact .member (.inr rfl) _ _
    | some path => exact .member (.inl (fromRoot_pathChars path)) _ _

/-! ## Modules of one identity -/

/-- Two modules have the same procedures at paths from the root. -/
def SameCatalog (m m' : LinkedModule) : Prop :=
  ∀ candidate, FromRoot candidate → m.findCandidate candidate = m'.findCandidate candidate

theorem SameCatalog.appendInitializer {m m' : LinkedModule} {program : Bytecode.Program}
    (h : m.appendInitializer program = .ok m') : m'.identity = m.identity ∧ SameCatalog m' m := by
  rw [LinkedModule.appendInitializer] at h
  split at h
  · cases h
    refine ⟨rfl, fun candidate hcandidate => ?_⟩
    obtain ⟨rest, rfl⟩ := hcandidate
    refine Function.update_of_ne (fun heq => ?_) _ _
    have hlist := congrArg String.toList heq
    rw [String.toList_ofList] at hlist
    cases hlist
  · cases h

theorem absoluteTarget_congr {m m' : LinkedModule} (h : SameCatalog m m') (path : Text)
    (fuel : Nat) {candidate : Text} (hcandidate : FromRoot candidate) :
    absoluteTarget m path fuel candidate = absoluteTarget m' path fuel candidate := by
  induction fuel generalizing candidate with
  | zero => rfl
  | succ fuel ih =>
    rw [absoluteTarget, absoluteTarget, h candidate hcandidate]
    cases m'.findCandidate candidate with
    | some procedure => rfl
    | none =>
      cases hnext : nextCandidate path candidate with
      | none => rfl
      | some next => exact ih (fromRoot_nextCandidate hcandidate hnext)

theorem uncachedTarget_congr {m m' : LinkedModule} (h : SameCatalog m m') (parents : TypeParents)
    (fuel : Nat) (base : Option TypePath) (selector : Text) :
    uncachedTarget m parents fuel base selector = uncachedTarget m' parents fuel base selector := by
  have habsolute := absoluteTarget_congr h (Selector.parse selector).path fuel
    (fromRoot_requestedPath base selector)
  cases base with
  | none => exact habsolute
  | some path =>
    rw [uncachedTarget, uncachedTarget]
    split
    · exact habsolute
    · rw [memberTarget, memberTarget]
      have hfind : ∀ kind owner, m.findCandidate (member (pathChars owner) kind
          (Selector.parse selector).path) = m'.findCandidate (member (pathChars owner) kind
            (Selector.parse selector).path) :=
        fun kind owner => h _ (.member (.inl (fromRoot_pathChars owner)) _ _)
      simp only [hfind]

/-! ## Keys -/

/-- A relative selector is the key that it has in the cache of receivers. -/
theorem cacheKey_parse {selector : Text} (h : isAbsolute selector = false) :
    (Selector.parse selector).cacheKey = selector := by
  have htrim : trimSlashes selector = selector := by
    cases selector with
    | nil => rfl
    | cons c rest =>
      rw [trimSlashes, List.dropWhile_cons_of_neg]
      rw [isAbsolute, List.head?_cons] at h
      simpa using h
  have hkey : ∀ kind path, Preprocess.dropLeading kind selector = some path →
      kind.toList ++ path = selector := by
    intro kind path hdrop
    rw [Preprocess.dropLeading, Option.ite_none_right_eq_some] at hdrop
    obtain ⟨hinitial, hpath⟩ := hdrop
    cases hpath
    obtain ⟨rest, hrest⟩ := List.isPrefixOf_iff_prefix.1 hinitial
    rw [← hrest, ← String.length_toList, List.drop_left]
  rw [Selector.parse, htrim]
  cases hproc : Preprocess.dropLeading "proc/" selector with
  | some path => exact hkey "proc/" path hproc
  | none =>
    cases hverb : Preprocess.dropLeading "verb/" selector with
    | some path => exact hkey "verb/" path hverb
    | none => rfl

/-! ## What the caches hold -/

structure ModulesSound (modules : List LinkedModule) (nextIdentity : Nat) : Prop where
  fresh : ∀ m ∈ modules, m.identity < nextIdentity
  agree : ∀ m ∈ modules, ∀ m' ∈ modules, m.identity = m'.identity → SameCatalog m m'

/-- Entries are what the resolution gives, at call sites for the selector that was asked there. -/
structure CachesSound (fuel : Nat) (modules : List LinkedModule) (asked : List AskedSite)
    (s : CachedDispatch) : Prop where
  receivers : ∀ identity path key resolved,
    s.dynamicReceiverTargets (identity, path) key = some resolved →
      isAbsolute key = false ∧ ∃ m ∈ modules, m.identity = identity ∧
        uncachedTarget m s.typeParents fuel (some path) key = some resolved
  sites : ∀ identity site storage path procedure,
    s.dynamicCallsiteTargets ⟨identity, site, storage⟩ = some (path, procedure) →
      ∃ m ∈ modules, m.identity = identity ∧ ∃ selector,
        (⟨identity, site, path, selector⟩ : AskedSite) ∈ asked ∧
          uncachedTarget m s.typeParents fuel (some path) selector = some (some procedure)

section

variable {texts : MessageTexts} {fuel nextIdentity : Nat} {modules modules' : List LinkedModule}
  {asked asked' : List AskedSite} {s : CachedDispatch} {m : LinkedModule}

theorem CachesSound.mono (h : CachesSound fuel modules asked s)
    (hmodules : ∀ m ∈ modules, m ∈ modules') (hasked : ∀ entry ∈ asked, entry ∈ asked') :
    CachesSound fuel modules' asked' s where
  receivers identity path key resolved hentry := by
    obtain ⟨hkey, m, hm, hidentity, htarget⟩ := h.receivers identity path key resolved hentry
    exact ⟨hkey, m, hmodules m hm, hidentity, htarget⟩
  sites identity site storage path procedure hentry := by
    obtain ⟨m, hm, hidentity, selector, hselector, htarget⟩ :=
      h.sites identity site storage path procedure hentry
    exact ⟨m, hmodules m hm, hidentity, selector, hasked _ hselector, htarget⟩

/-- The entries are for modules of the identity, so for each of them. -/
theorem ModulesSound.target_eq (hmodules : ModulesSound modules nextIdentity) {m' : LinkedModule}
    (hm : m ∈ modules) (hm' : m' ∈ modules) (hidentity : m'.identity = m.identity)
    (parents : TypeParents) (base : Option TypePath) (selector : Text) :
    uncachedTarget m' parents fuel base selector = uncachedTarget m parents fuel base selector :=
  uncachedTarget_congr (hmodules.agree m' hm' m hm hidentity) parents fuel base selector

theorem CachesSound.cachedTarget (h : CachesSound fuel modules asked s)
    (hmodules : ModulesSound modules nextIdentity) (hm : m ∈ modules) {base : Option TypePath}
    {selector : Text} {resolved : Option Bytecode.ProcedureId}
    (hcached : s.cachedTarget m base selector = some resolved) :
    uncachedTarget m s.typeParents fuel base selector = some resolved := by
  rw [CachedDispatch.cachedTarget, Option.ite_none_left_eq_some] at hcached
  obtain ⟨habsolute, hcached⟩ := hcached
  rw [Bool.not_eq_true] at habsolute
  obtain ⟨path, rfl, hentry⟩ := Option.bind_eq_some_iff.1 hcached
  rw [cacheKey_parse habsolute] at hentry
  obtain ⟨-, m', hm', hidentity, htarget⟩ := h.receivers m.identity path selector resolved hentry
  rw [← hmodules.target_eq hm hm' hidentity]
  exact htarget

theorem CachesSound.remember (h : CachesSound fuel modules asked s) (hm : m ∈ modules)
    {base : Option TypePath} {selector : Text} {resolved : Option Bytecode.ProcedureId}
    (hresolved : uncachedTarget m s.typeParents fuel base selector = some resolved) :
    CachesSound fuel modules asked (s.remember m base selector resolved) ∧
      (s.remember m base selector resolved).toDispatchState = s.toDispatchState := by
  cases base with
  | none => exact ⟨h, rfl⟩
  | some path =>
    rw [CachedDispatch.remember]
    split
    · exact ⟨h, rfl⟩
    · rename_i habsolute
      rw [Bool.not_eq_true] at habsolute
      refine ⟨⟨fun identity path' key resolved' hentry => ?_, h.sites⟩, rfl⟩
      simp only [cacheKey_parse habsolute] at hentry
      by_cases hplace : (identity, path') = (m.identity, path)
      · cases hplace
        rw [Function.update_self] at hentry
        by_cases hkey : key = selector
        · subst hkey
          rw [Function.update_self, Option.some_inj] at hentry
          subst hentry
          exact ⟨habsolute, m, hm, rfl, hresolved⟩
        · rw [Function.update_of_ne hkey] at hentry
          exact h.receivers _ _ _ _ hentry
      · rw [Function.update_of_ne hplace] at hentry
        exact h.receivers _ _ _ _ hentry

theorem CachesSound.rememberSite (h : CachesSound fuel modules asked s) (hm : m ∈ modules)
    {site : CallSite} {storage : Nat} {path : TypePath} {selector : Text}
    {procedure : Bytecode.ProcedureId}
    (hasked : (⟨m.identity, site, path, selector⟩ : AskedSite) ∈ asked)
    (htarget : uncachedTarget m s.typeParents fuel (some path) selector = some (some procedure)) :
    CachesSound fuel modules asked
      (s.rememberSite ⟨m.identity, site, storage⟩ path procedure) := by
  refine ⟨h.receivers, fun identity site' storage' path' procedure' hentry => ?_⟩
  simp only [CachedDispatch.rememberSite] at hentry
  by_cases hkey : (⟨identity, site', storage'⟩ : CallSiteKey) = ⟨m.identity, site, storage⟩
  · cases hkey
    rw [Function.update_self, Option.some_inj] at hentry
    cases hentry
    exact ⟨m, hm, rfl, selector, hasked, htarget⟩
  · rw [Function.update_of_ne hkey] at hentry
    exact h.sites _ _ _ _ _ hentry

theorem CachesSound.setTypeParents (s : CachedDispatch) (parents : TypeParents) :
    CachesSound fuel modules [] (s.setTypeParents parents) where
  receivers _ _ _ _ hentry := by cases hentry
  sites _ _ _ _ _ hentry := by cases hentry

/-! ## One call -/

theorem answers_named (texts : MessageTexts) (h : CachesSound fuel modules asked s)
    (hmodules : ModulesSound modules nextIdentity) (hm : m ∈ modules) (receiver : Value)
    (selector : Text) (context : ExecutionContext) (null : Bool) :
    Answers CachedDispatch.toDispatchState (CachesSound fuel modules asked)
      (dynamicCallTargetNamed texts fuel m s receiver selector context null)
      ((uncachedTargetNamed texts fuel m s.toDispatchState receiver selector context null).map
        (·, s.toDispatchState)) := by
  rw [dynamicCallTargetNamed, uncachedTargetNamed]
  cases hbase : receiverBase texts s.toDispatchState receiver context null with
  | error message => exact .some _ h
  | ok found =>
    obtain ⟨base, callContext⟩ := found
    simp only
    cases hcached : s.cachedTarget m base selector with
    | some resolved =>
      rw [h.cachedTarget hmodules hm hcached]
      exact .some _ h
    | none =>
      cases hresolved : uncachedTarget m s.typeParents fuel base selector with
      | none => exact .none
      | some resolved =>
        obtain ⟨hsound, hview⟩ := h.remember hm hresolved
        exact .hidden _ hsound hview

theorem answers_callTarget (h : CachesSound fuel modules asked s)
    (hmodules : ModulesSound modules nextIdentity) (hm : m ∈ modules) (receiver selector : Value)
    (context : ExecutionContext) (null : Bool) :
    Answers CachedDispatch.toDispatchState (CachesSound fuel modules asked)
      (CachedDispatch.dynamicCallTarget texts fuel m s receiver selector context null)
      ((uncachedCallTarget texts fuel m s.toDispatchState receiver selector context null).map
        (·, s.toDispatchState)) := by
  rw [CachedDispatch.dynamicCallTarget, uncachedCallTarget]
  cases dynamicSelectorText texts selector with
  | error message => exact .some _ h
  | ok text => exact answers_named texts h hmodules hm receiver text context null

/-- The resolution of a call to a datum. -/
theorem uncachedTargetNamed_datum {id : DatumId} {type : SharedTypePath}
    (htype : s.datums id = some type) (selector : Text) (context : ExecutionContext)
    (null : Bool) :
    uncachedTargetNamed texts fuel m s.toDispatchState (.datum id) selector context null =
      (uncachedTarget m s.typeParents fuel (some type.path) selector).map
        (answer texts (some type.path) selector ⟨.datum id, context.usr⟩) := by
  rw [uncachedTargetNamed, receiverBase, htype]

theorem answers_resolveAtSite (texts : MessageTexts) (h : CachesSound fuel modules asked s)
    (hmodules : ModulesSound modules nextIdentity) (hm : m ∈ modules) {id : DatumId}
    {type : SharedTypePath} (htype : s.datums id = some type) {site : CallSite}
    {selector : Text}
    (hasked : (⟨m.identity, site, type.path, selector⟩ : AskedSite) ∈ asked)
    (context : ExecutionContext) (null : Bool) :
    Answers CachedDispatch.toDispatchState (CachesSound fuel modules asked)
      (resolveAtSite texts fuel m s ⟨m.identity, site, type.storage⟩ type.path (.datum id)
        selector context null)
      ((uncachedTargetNamed texts fuel m s.toDispatchState (.datum id) selector context null).map
        (·, s.toDispatchState)) := by
  have hnamed := answers_named texts h hmodules hm (.datum id) selector context null
  rw [resolveAtSite]
  cases hcall : dynamicCallTargetNamed texts fuel m s (.datum id) selector context null with
  | none =>
    rw [← hnamed.view_eq, hcall]
    exact .none
  | some called =>
    obtain ⟨result, s'⟩ := called
    have hsound := hnamed.invariant result s' hcall
    have hview := hnamed.view_eq
    rw [hcall] at hview
    cases result with
    | error message => exact hview ▸ .some _ hsound
    | ok target =>
      obtain ⟨expected, htarget, heq⟩ := Option.map_eq_some_iff.1 hview.symm
      obtain ⟨rfl, hstate⟩ := Prod.mk.inj heq
      rw [uncachedTargetNamed_datum htype] at htarget
      obtain ⟨resolved, hresolved, hanswer⟩ := Option.map_eq_some_iff.1 htarget
      cases resolved with
      | none => cases hanswer
      | some procedure =>
        cases hanswer
        have hparents : s'.typeParents = s.typeParents :=
          congrArg DispatchState.typeParents hstate.symm
        rw [← hparents] at hresolved
        exact hview ▸ .some _ (hsound.rememberSite hm hasked hresolved)

/-- A call at a site with the selector that the site was asked with before. -/
theorem answers_atCallsite (h : CachesSound fuel modules asked s)
    (hmodules : ModulesSound modules nextIdentity) (hm : m ∈ modules) (receiver : Value)
    (selector : Text) (context : ExecutionContext) (null : Bool) (site : Option CallSite)
    (hagrees : ∀ id type place, receiver = .datum id → s.datums id = some type →
      site = some place →
        (⟨m.identity, place, type.path, selector⟩ : AskedSite) ∈ asked ∧
        ∀ earlier ∈ asked, earlier.SamePlace ⟨m.identity, place, type.path, selector⟩ →
          earlier.selector = selector) :
    Answers CachedDispatch.toDispatchState (CachesSound fuel modules asked)
      (dynamicCallTargetNamedAtCallsite texts fuel m s receiver selector context null site)
      ((uncachedTargetNamed texts fuel m s.toDispatchState receiver selector context null).map
        (·, s.toDispatchState)) := by
  unfold dynamicCallTargetNamedAtCallsite
  split
  · rename_i place id
    cases htype : s.datums id with
    | none =>
      rw [uncachedTargetNamed, receiverBase, htype]
      exact .some _ h
    | some type =>
      obtain ⟨hasked, hsame⟩ := hagrees id type place rfl htype rfl
      have hslow := answers_resolveAtSite texts h hmodules hm htype hasked context null
      cases hcached : s.dynamicCallsiteTargets ⟨m.identity, place, type.storage⟩ with
      | none =>
        simp only [hcached]
        exact hslow
      | some cached =>
        obtain ⟨path, procedure⟩ := cached
        simp only [hcached]
        split
        · rename_i hpath
          subst hpath
          obtain ⟨m', hm', hidentity, earlier, hearlier, htarget⟩ := h.sites _ _ _ _ _ hcached
          have hselector : earlier = selector := hsame _ hearlier ⟨rfl, rfl, rfl⟩
          rw [hselector, hmodules.target_eq hm hm' hidentity] at htarget
          rw [uncachedTargetNamed_datum htype, htarget]
          exact .some _ h
        · exact hslow
  · exact answers_named texts h hmodules hm receiver selector context null

end

/-! ## Runs -/

theorem ModulesSound.addModule {modules : List LinkedModule} {nextIdentity : Nat}
    (h : ModulesSound modules nextIdentity) (linked : Bytecode.Module) :
    ModulesSound (modules ++ [⟨linked, nextIdentity⟩]) (nextIdentity + 1) where
  fresh m hm := by
    rcases List.mem_append.1 hm with hm | hm
    · exact Nat.lt_succ_of_lt (h.fresh m hm)
    · rw [List.mem_singleton.1 hm]
      exact Nat.lt_succ_self _
  agree m hm m' hm' hidentity := by
    rcases List.mem_append.1 hm with hm | hm <;> rcases List.mem_append.1 hm' with hm' | hm'
    · exact h.agree m hm m' hm' hidentity
    · rw [List.mem_singleton.1 hm'] at hidentity
      exact absurd hidentity (Nat.ne_of_lt (h.fresh m hm))
    · rw [List.mem_singleton.1 hm] at hidentity
      exact absurd hidentity.symm (Nat.ne_of_lt (h.fresh m' hm'))
    · rw [List.mem_singleton.1 hm, List.mem_singleton.1 hm']
      exact fun _ _ => rfl

theorem ModulesSound.addCopy {modules : List LinkedModule} {nextIdentity : Nat}
    (h : ModulesSound modules nextIdentity) {m copy : LinkedModule} (hm : m ∈ modules)
    {program : Bytecode.Program} (hcopy : m.appendInitializer program = .ok copy) :
    ModulesSound (modules ++ [copy]) nextIdentity := by
  obtain ⟨hidentity, hsame⟩ := SameCatalog.appendInitializer hcopy
  have hself : ∀ m' ∈ modules ++ [copy], ∃ m'' ∈ modules,
      m''.identity = m'.identity ∧ SameCatalog m' m'' := by
    intro m' hm'
    rcases List.mem_append.1 hm' with hm' | hm'
    · exact ⟨m', hm', rfl, fun _ _ => rfl⟩
    · rw [List.mem_singleton.1 hm']
      exact ⟨m, hm, hidentity.symm, hsame⟩
  refine ⟨fun m' hm' => ?_, fun m' hm' m'' hm'' heq candidate hroot => ?_⟩
  · obtain ⟨base, hbase, hid, -⟩ := hself m' hm'
    exact hid ▸ h.fresh base hbase
  · obtain ⟨base', hbase', hid', hsame'⟩ := hself m' hm'
    obtain ⟨base'', hbase'', hid'', hsame''⟩ := hself m'' hm''
    rw [hsame' candidate hroot, hsame'' candidate hroot]
    exact h.agree base' hbase' base'' hbase'' (hid'.trans (heq.trans hid''.symm)) candidate hroot

namespace DispatchSystem

structure Sound (fuel : Nat) (asked : List AskedSite) (s : DispatchSystem CachedDispatch) :
    Prop where
  modules : ModulesSound s.modules s.nextIdentity
  caches : CachesSound fuel s.modules asked s.state

variable {texts : MessageTexts} {fuel : Nat} {asked : List AskedSite}
  {s : DispatchSystem CachedDispatch}

/-- A call with one of the modules, seen without caches. -/
theorem answers_callWith (h : s.Sound fuel asked) (index : Nat)
    (call : LinkedModule → CachedDispatch → Option (Target × CachedDispatch))
    (uncached : LinkedModule → DispatchState → Option Target)
    (hcall : ∀ m, s.modules[index]? = some m →
      Answers CachedDispatch.toDispatchState (CachesSound fuel s.modules asked) (call m s.state)
        ((uncached m s.state.toDispatchState).map (·, s.state.toDispatchState))) :
    Answers view (Sound fuel asked) (s.callWith index call)
      (s.view.callWith index fun m state => (uncached m state).map (·, state)) := by
  rw [callWith, callWith]
  have hmodules : s.view.modules = s.modules := rfl
  rw [hmodules]
  cases hm : s.modules[index]? with
  | none => exact .some _ h
  | some m =>
    have hanswers := hcall m hm
    simp only
    cases hresult : call m s.state with
    | none =>
      have hview := hanswers.view_eq
      rw [hresult] at hview
      rw [show s.view.state = s.state.toDispatchState from rfl, ← hview]
      exact .none
    | some called =>
      obtain ⟨result, state⟩ := called
      have hview := hanswers.view_eq
      rw [hresult] at hview
      rw [show s.view.state = s.state.toDispatchState from rfl, ← hview]
      exact .some (v := view) _ ⟨h.modules, hanswers.invariant result state hresult⟩

theorem answers_addCopy (h : s.Sound fuel asked) (index : Nat) (program : Bytecode.Program) :
    Answers view (Sound fuel asked) (some ((none : Option Target), s.addCopy index program))
      (some (none, s.view.addCopy index program)) := by
  rw [addCopy, addCopy]
  have hmodules : s.view.modules = s.modules := rfl
  rw [hmodules]
  cases hm : s.modules[index]? with
  | none => exact .some _ h
  | some m =>
    cases hcopy : m.appendInitializer program with
    | error message =>
      simp only [hcopy]
      exact .some _ h
    | ok copy =>
      simp only [hcopy]
      refine .some (v := view) (s := { s with modules := s.modules ++ [copy] }) _ ⟨?_, ?_⟩
      · exact h.modules.addCopy (List.mem_of_getElem? hm) hcopy
      · exact h.caches.mono (fun m hm => List.mem_append_left _ hm) fun entry hentry => hentry

theorem answers_callNamed (h : s.Sound fuel asked) (index : Nat) (receiver : Value)
    (selector : Text) (context : ExecutionContext) (null : Bool) (site : Option CallSite)
    (hagrees : s.view.Agrees asked (.callNamed index receiver selector context null site)) :
    Answers view
      (Sound fuel (s.view.askedAfter asked (.callNamed index receiver selector context null site)))
      (s.step texts fuel (.callNamed index receiver selector context null site))
      (s.view.uncachedStep texts fuel (.callNamed index receiver selector context null site)) := by
  have hsound : s.Sound fuel
      (s.view.askedAfter asked (.callNamed index receiver selector context null site)) :=
    ⟨h.modules, h.caches.mono (fun m hm => hm) fun entry hentry => List.mem_append_right _ hentry⟩
  refine answers_callWith hsound index
    (fun m state =>
      dynamicCallTargetNamedAtCallsite texts fuel m state receiver selector context null site)
    (fun m state => uncachedTargetNamed texts fuel m state receiver selector context null)
    fun m hm => ?_
  refine answers_atCallsite hsound.caches h.modules (List.mem_of_getElem? hm) receiver selector
    context null site fun id type place hreceiver htype hsite => ?_
  have hasks : s.view.asks (.callNamed index receiver selector context null site) =
      some ⟨m.identity, place, type.path, selector⟩ := by
    subst hreceiver hsite
    have hm' : s.view.modules[index]? = some m := hm
    have htype' : s.view.state.datums id = some type := htype
    rw [asks, hm', Option.bind_some, htype', Option.map_some]
  have hafter : s.view.askedAfter asked (.callNamed index receiver selector context null site) =
      ⟨m.identity, place, type.path, selector⟩ :: asked := by
    rw [askedAfter, hasks]
    · rfl
    · intro parents heq
      cases heq
  rw [hafter]
  refine ⟨List.mem_cons_self, fun earlier hearlier hplace => ?_⟩
  rcases List.mem_cons.1 hearlier with rfl | hearlier
  · rfl
  · exact hagrees _ hasks earlier hearlier hplace

theorem answers_step (texts : MessageTexts) (h : s.Sound fuel asked) (action : DispatchAction)
    (hagrees : s.view.Agrees asked action) :
    Answers view (Sound fuel (s.view.askedAfter asked action)) (s.step texts fuel action)
      (s.view.uncachedStep texts fuel action) := by
  cases action with
  | link linked =>
    refine .some (v := view) (s := s.addModule linked) _ ⟨h.modules.addModule linked, ?_⟩
    exact h.caches.mono (fun m hm => List.mem_append_left _ hm) fun entry hentry => hentry
  | append index program => exact answers_addCopy h index program
  | setTypeParents parents =>
    exact .some (v := view) (s := { s with state := s.state.setTypeParents parents }) _
      ⟨h.modules, .setTypeParents _ _⟩
  | setObjects datums lists =>
    refine .some (v := view)
      (s := { s with state := { s.state with datums := datums, lists := lists } }) _ ⟨h.modules, ?_⟩
    exact ⟨h.caches.receivers, h.caches.sites⟩
  | call index receiver selector context null =>
    exact answers_callWith h index
      (fun m state => CachedDispatch.dynamicCallTarget texts fuel m state receiver selector context null)
      (fun m state => uncachedCallTarget texts fuel m state receiver selector context null)
      fun m hm => answers_callTarget h.caches h.modules (List.mem_of_getElem? hm) receiver selector
        context null
  | callNamed index receiver selector context null site =>
    exact answers_callNamed h index receiver selector context null site hagrees

/-- The answers of a run agree step by step. -/
theorem run_eq (actions : List DispatchAction) (h : s.Sound fuel asked)
    (hconsistent : Consistent texts fuel asked s.view actions) :
    (s.run texts fuel actions).map (Prod.map id view) = s.view.uncachedRun texts fuel actions := by
  induction actions generalizing s asked with
  | nil => rfl
  | cons action rest ih =>
    obtain ⟨hagrees, hrest⟩ := hconsistent
    have hstep := answers_step texts h action hagrees
    rw [run, uncachedRun, runAll, runAll, ← hstep.view_eq]
    cases hresult : s.step texts fuel action with
    | none => rfl
    | some r =>
      obtain ⟨result, next⟩ := r
      have hview := hstep.view_eq
      rw [hresult] at hview
      have hnext := ih (hstep.invariant result next hresult) (hrest result next.view hview.symm)
      rw [run, uncachedRun] at hnext
      simp only [Option.map_some, Option.bind_some, Prod.map_apply, id_eq, ← hnext]
      cases runAll (fun action s => s.step texts fuel action) rest next <;> rfl

end DispatchSystem

/-- A system without modules and without entries in its caches. -/
def DispatchSystem.start (state : DispatchState) : DispatchSystem CachedDispatch :=
  ⟨[], 0, { state with
    dynamicReceiverTargets := fun _ _ => none, dynamicCallsiteTargets := fun _ => none }⟩

/-- The selector of a call at a site. -/
def DispatchAction.siteSelector : DispatchAction → Option Text
  | .callNamed _ _ selector _ _ (some _) => some selector
  | _ => none

/-- Calls that all have one selector at their sites are consistent. -/
theorem DispatchSystem.consistent_of_selector (texts : MessageTexts) (fuel : Nat)
    (selector : Text) {actions : List DispatchAction}
    (hactions : ∀ action ∈ actions, ∀ other, action.siteSelector = some other → other = selector)
    {asked : List AskedSite} (hasked : ∀ entry ∈ asked, entry.selector = selector)
    (s : DispatchSystem DispatchState) : Consistent texts fuel asked s actions := by
  induction actions generalizing asked s with
  | nil => trivial
  | cons action rest ih =>
    have hnow : ∀ now, s.asks action = some now → now.selector = selector := by
      intro now hnow
      unfold asks at hnow
      split at hnow
      · obtain ⟨m, -, hnow⟩ := Option.bind_eq_some_iff.1 hnow
        obtain ⟨type, -, rfl⟩ := Option.map_eq_some_iff.1 hnow
        exact hactions _ List.mem_cons_self _ rfl
      · cases hnow
    refine ⟨fun now h earlier hearlier _ => ?_, fun result next _ => ?_⟩
    · rw [hasked earlier hearlier, hnow now h]
    · refine ih (fun other hother => hactions other (List.mem_cons_of_mem _ hother)) ?_ next
      intro entry hentry
      unfold askedAfter at hentry
      split at hentry
      · cases hentry
      · rcases List.mem_append.1 hentry with hentry | hentry
        · exact hnow entry (Option.mem_toList.1 hentry)
        · exact hasked entry hentry

/-- With one selector for each call site the caches cannot be told from no caches. -/
theorem run_eq_uncached (texts : MessageTexts) (fuel : Nat) (state : DispatchState)
    (actions : List DispatchAction)
    (hconsistent : DispatchSystem.Consistent texts fuel [] ⟨[], 0, state⟩ actions) :
    ((DispatchSystem.start state).run texts fuel actions).map (Prod.map id DispatchSystem.view) =
      DispatchSystem.uncachedRun texts fuel actions ⟨[], 0, state⟩ := by
  refine DispatchSystem.run_eq actions (s := .start state) ⟨⟨?_, ?_⟩, ⟨?_, ?_⟩⟩ hconsistent
  · exact fun m hm => absurd hm List.not_mem_nil
  · exact fun m hm => absurd hm List.not_mem_nil
  · intro identity path key resolved hentry
    cases hentry
  · intro identity site storage path procedure hentry
    cases hentry

/-! ## Two copies of a module -/

/-- An initializer that calls a procedure by its name. -/
def callingProgram (selector : String) : Bytecode.Program where
  waitFor := true
  parameterCount := 0
  parameterNames := []
  verbParameterTypes := []
  verbName := none
  localCount := 0
  instructions := [.callDynamic (some selector) 0 [] false]
  sourceSpans := []

/-- A module with two procedures of a type. -/
def twoProcedures : Bytecode.Module where
  procedures := [callingProgram "bar", callingProgram "foo"]
  paths := ["/datum/a/proc/foo", "/datum/a/proc/bar"]
  names := Bytecode.NameIndex.empty
  dynamicNames :=
    (Bytecode.NameIndex.empty.insert "/datum/a/proc/foo" 0).insert "/datum/a/proc/bar" 1
  deferred := []
  procedureTypes := []
  initializerCallNames := none

theorem isTypePath_datumA : isTypePath "/datum/a" = true := by decide

def oneDatum : DatumId → Option SharedTypePath :=
  fun _ => some ⟨⟨"/datum/a", isTypePath_datumA⟩, 0⟩

def plainTexts : MessageTexts := ⟨fun _ => "", id⟩

/-- Two copies of the module with an initializer each, and a call in each of them. -/
def copiesCall (first second : String) : List DispatchAction :=
  [.link twoProcedures, .append 0 (callingProgram first), .append 0 (callingProgram second),
    .setObjects oneDatum fun _ => false,
    .callNamed 1 (.datum ⟨0, 0⟩) first.toList ⟨.null, .null⟩ false (some ⟨2, 0⟩),
    .callNamed 2 (.datum ⟨0, 0⟩) second.toList ⟨.null, .null⟩ false (some ⟨2, 0⟩)]

def noObjects : DispatchState := ⟨fun _ => none, fun _ => false, fun _ => none⟩

theorem run_eq_uncached_foo :
    ((DispatchSystem.start noObjects).run plainTexts 4
        (copiesCall "foo" "foo")).map (Prod.map id DispatchSystem.view) =
      DispatchSystem.uncachedRun plainTexts 4 (copiesCall "foo" "foo")
        ⟨[], 0, noObjects⟩ := by
  refine run_eq_uncached plainTexts 4 noObjects _
    (DispatchSystem.consistent_of_selector plainTexts 4 "foo".toList ?_ ?_ _)
  · intro action haction other hother
    simp only [copiesCall, List.mem_cons, List.not_mem_nil, or_false] at haction
    rcases haction with rfl | rfl | rfl | rfl | rfl | rfl
    all_goals cases hother
    all_goals rfl
  · exact fun entry hentry => absurd hentry List.not_mem_nil

/-- The procedures that the calls of a run found. -/
def foundProcedures {σ : Type} (run : Option (List (Option Target) × σ)) :
    Option (List (Option Bytecode.ProcedureId)) :=
  run.map fun r => r.1.map fun output => output.bind fun target => target.toOption.map (·.1)

/-- The call in the second copy finds what was asked for in the first. -/
theorem copies_share_sites :
    ¬ ∀ (texts : MessageTexts) (fuel : Nat) (state : DispatchState)
      (actions : List DispatchAction),
      ((DispatchSystem.start state).run texts fuel actions).map
          (Prod.map id DispatchSystem.view) =
        DispatchSystem.uncachedRun texts fuel actions ⟨[], 0, state⟩ := by
  intro h
  have hrun := congrArg foundProcedures
    (h plainTexts 4 noObjects (copiesCall "foo" "bar"))
  have hcached : foundProcedures (((DispatchSystem.start noObjects).run plainTexts 4
      (copiesCall "foo" "bar")).map (Prod.map id DispatchSystem.view)) =
      some [none, none, none, none, some 0, some 0] := by decide +kernel
  have huncached : foundProcedures (DispatchSystem.uncachedRun plainTexts 4
      (copiesCall "foo" "bar") ⟨[], 0, noObjects⟩) =
      some [none, none, none, none, some 0, some 1] := by decide +kernel
  rw [hcached, huncached] at hrun
  exact absurd hrun (by decide)

end Dream64.Vm
