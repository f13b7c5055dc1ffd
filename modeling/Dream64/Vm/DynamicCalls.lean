import Dream64.Bytecode.Module
import Dream64.Preprocess.Scan
import Dream64.Value.Datum

/-!
# Dynamic calls

How a receiver and a selector become a procedure. A member call looks through
the owners of the receiver's type, procedures before verbs; an absolute or a
global one through the lexical owners of its path. Two caches stand in front
of that: one from types and selectors to procedures, misses included, and one
at each call site. Both are emptied with the parents of the types. The search
along an absolute path takes fuel: it does not end for a procedure of a type
that is not found (`/obj/proc/missing`).
-/

namespace Dream64.Vm

open Preprocess (Text dropLeading)

/-! ## Modules -/

/-- A module with the number that its entries in caches go by. -/
structure LinkedModule extends Bytecode.Module where
  identity : Nat

namespace LinkedModule

def findCandidate (m : LinkedModule) (candidate : Text) : Option Bytecode.ProcedureId :=
  m.dynamicNames (String.ofList candidate)

/-- `append_initializer_program`; the identity is kept. -/
def appendInitializer (m : LinkedModule) (program : Bytecode.Program) :
    Except String LinkedModule :=
  if m.procedures.length < 2 ^ 32 then
    .ok { m with
      procedures := m.procedures ++ [program]
      paths := m.paths ++ ["<initializer>"]
      dynamicNames :=
        m.dynamicNames.insert "<initializer>" (UInt32.ofNat m.procedures.length) }
  else .error "module has more than u32::MAX procedures"

end LinkedModule

/-! ## Receivers -/

structure ExecutionContext where
  src : Value
  usr : Value

/-- A type path with the place where its text is stored. -/
structure SharedTypePath where
  path : TypePath
  storage : Nat
deriving DecidableEq

abbrev TypeParents := TypePath → Option (Option TypePath)

/-- What a dynamic call reads of the state. -/
structure DispatchState where
  datums : DatumId → Option SharedTypePath
  lists : ListId → Bool
  typeParents : TypeParents

/-- The texts of values and of quoted strings in messages. -/
structure MessageTexts where
  value : Value → String
  quoted : String → String

def nullCallError : String := "cannot call a procedure on null"

/-- The type whose members a receiver has, if it has one, and the context of the call. -/
def receiverBase (texts : MessageTexts) (s : DispatchState) (receiver : Value)
    (callerContext : ExecutionContext) (nullReceiverIsGlobal : Bool) :
    Except String (Option TypePath × ExecutionContext) :=
  match receiver with
  | .null => if nullReceiverIsGlobal then .ok (none, callerContext) else .error nullCallError
  | .datum id =>
    match s.datums id with
    | none => .error nullCallError
    | some type => .ok (some type.path, ⟨.datum id, callerContext.usr⟩)
  | .list id =>
    if s.lists id then
      .error ("call receiver must be a datum, type path, or null, received " ++
        texts.value receiver)
    else .error nullCallError
  | .typePath path => .ok (some path, callerContext)
  | _ =>
    .error ("call receiver must be a datum, type path, or null, received " ++
      texts.value receiver)

/-! ## Selectors -/

structure Selector where
  /-- `proc` or `verb`, where the selector says so. -/
  kind : Option Text
  path : Text
deriving DecidableEq

def trimSlashes (text : Text) : Text := text.dropWhile (· == '/')

def Selector.parse (selector : Text) : Selector :=
  let relative := trimSlashes selector
  match dropLeading "proc/" relative with
  | some path => ⟨some "proc".toList, path⟩
  | none =>
    match dropLeading "verb/" relative with
    | some path => ⟨some "verb".toList, path⟩
    | none => ⟨none, relative⟩

def Selector.cacheKey (selector : Selector) : Text :=
  match selector.kind with
  | none => selector.path
  | some kind => kind ++ '/' :: selector.path

def isAbsolute (selector : Text) : Bool := selector.head? == some '/'

def member (owner kind path : Text) : Text := owner ++ '/' :: kind ++ '/' :: path

def pathChars (path : TypePath) : Text := path.path.toList

/-! ## Resolution -/

/-- The text in front of the last occurrence of a pattern. -/
def beforeLast (pattern : Text) : Text → Option Text
  | [] => none
  | c :: rest =>
    match beforeLast pattern rest with
    | some before => some (c :: before)
    | none => if pattern.isPrefixOf (c :: rest) then some [] else none

/-- The path one level up. -/
def lexicalParent (path : TypePath) : Option TypePath :=
  (beforeLast ['/'] (pathChars path)).bind fun parent =>
    if parent.isEmpty then none else (TypePath.parse (String.ofList parent)).toOption

def parentType (parents : TypeParents) (path : TypePath) : Option TypePath :=
  (parents path).join.or (lexicalParent path)

/-- A type and its ancestors, up to the first that comes again. -/
def ownersFrom (parents : TypeParents) : Nat → List TypePath → Option TypePath →
    Option (List TypePath)
  | _, _, none => some []
  | 0, _, some _ => none
  | fuel + 1, visited, some owner =>
    if owner ∈ visited then some []
    else
      (ownersFrom parents fuel (owner :: visited) (parentType parents owner)).map (owner :: ·)

def selectorKinds (selector : Selector) : List Text :=
  match selector.kind with
  | some kind => [kind]
  | none => ["proc".toList, "verb".toList]

/-- The procedure of a member call: by kind, then by owner. -/
def memberTarget (m : LinkedModule) (parents : TypeParents) (fuel : Nat) (base : TypePath)
    (selector : Selector) : Option (Option Bytecode.ProcedureId) :=
  (ownersFrom parents fuel [] (some base)).map fun owners =>
    (selectorKinds selector).findSome? fun kind =>
      owners.findSome? fun owner =>
        m.findCandidate (member (pathChars owner) kind selector.path)

/-- The path that is tried after a candidate. -/
def nextCandidate (path candidate : Text) : Option Text :=
  (beforeLast "/proc/".toList candidate).bind fun owner =>
    if owner = "/proc".toList ∨ owner = [] then none
    else (beforeLast ['/'] owner).map fun parent => member parent "proc".toList path

/-- The procedure of an absolute path, or of one above it. -/
def absoluteTarget (m : LinkedModule) (path : Text) : Nat → Text →
    Option (Option Bytecode.ProcedureId)
  | 0, _ => none
  | fuel + 1, candidate =>
    match m.findCandidate candidate with
    | some procedure => some (some procedure)
    | none =>
      match nextCandidate path candidate with
      | none => some none
      | some candidate => absoluteTarget m path fuel candidate

def requestedPath (base : Option TypePath) (selector : Text) : Text :=
  if isAbsolute selector then selector
  else
    member ((base.map pathChars).getD []) "proc".toList (Selector.parse selector).path

def uncachedTarget (m : LinkedModule) (parents : TypeParents) (fuel : Nat)
    (base : Option TypePath) (selector : Text) : Option (Option Bytecode.ProcedureId) :=
  match base with
  | some path =>
    if isAbsolute selector then
      absoluteTarget m (Selector.parse selector).path fuel (requestedPath base selector)
    else memberTarget m parents fuel path (Selector.parse selector)
  | none => absoluteTarget m (Selector.parse selector).path fuel (requestedPath none selector)

abbrev Target := Except String (Bytecode.ProcedureId × ExecutionContext)

def answer (texts : MessageTexts) (base : Option TypePath) (selector : Text)
    (context : ExecutionContext) (resolved : Option Bytecode.ProcedureId) : Target :=
  match resolved with
  | some procedure => .ok (procedure, context)
  | none =>
    .error ("dynamic call could not resolve procedure " ++
      texts.quoted (String.ofList (requestedPath base selector)))

/-! ## Caches -/

structure CallSite where
  caller : Bytecode.ProcedureId
  instruction : Nat
deriving DecidableEq

structure CallSiteKey where
  identity : Nat
  site : CallSite
  /-- Where the type path of the receiver is stored. -/
  storage : Nat
deriving DecidableEq

structure CachedDispatch extends DispatchState where
  dynamicReceiverTargets : Nat × TypePath → Text → Option (Option Bytecode.ProcedureId)
  dynamicCallsiteTargets : CallSiteKey → Option (TypePath × Bytecode.ProcedureId)

namespace CachedDispatch

def cachedTarget (s : CachedDispatch) (m : LinkedModule) (base : Option TypePath)
    (selector : Text) : Option (Option Bytecode.ProcedureId) :=
  if isAbsolute selector then none
  else base.bind fun path =>
    s.dynamicReceiverTargets (m.identity, path) (Selector.parse selector).cacheKey

def remember (s : CachedDispatch) (m : LinkedModule) (base : Option TypePath) (selector : Text)
    (resolved : Option Bytecode.ProcedureId) : CachedDispatch :=
  match base with
  | some path =>
    if isAbsolute selector then s
    else
      { s with
        dynamicReceiverTargets :=
          Function.update s.dynamicReceiverTargets (m.identity, path)
            (Function.update (s.dynamicReceiverTargets (m.identity, path))
              (Selector.parse selector).cacheKey (some resolved)) }
  | none => s

def rememberSite (s : CachedDispatch) (key : CallSiteKey) (type : TypePath)
    (procedure : Bytecode.ProcedureId) : CachedDispatch :=
  { s with
    dynamicCallsiteTargets :=
      Function.update s.dynamicCallsiteTargets key (some (type, procedure)) }

/-- `set_type_parents` -/
def setTypeParents (s : CachedDispatch) (parents : TypeParents) : CachedDispatch :=
  { s with
    typeParents := parents
    dynamicReceiverTargets := fun _ _ => none
    dynamicCallsiteTargets := fun _ => none }

end CachedDispatch

section

variable (texts : MessageTexts) (fuel : Nat) (m : LinkedModule)

/-- A call by the name of a procedure. -/
def dynamicCallTargetNamed (s : CachedDispatch) (receiver : Value) (selector : Text)
    (callerContext : ExecutionContext) (nullReceiverIsGlobal : Bool) :
    Option (Target × CachedDispatch) :=
  match receiverBase texts s.toDispatchState receiver callerContext nullReceiverIsGlobal with
  | .error message => some (.error message, s)
  | .ok (base, context) =>
    match s.cachedTarget m base selector with
    | some cached => some (answer texts base selector context cached, s)
    | none =>
      (uncachedTarget m s.typeParents fuel base selector).map fun resolved =>
        (answer texts base selector context resolved, s.remember m base selector resolved)

/-- The text of a selector value. -/
def dynamicSelectorText (selector : Value) : Except String Text :=
  match selector with
  | .text text => .ok text.toList
  | .typePath path => .ok (pathChars path)
  | _ =>
    .error ("call procedure selector must be text or a type path, received " ++
      texts.value selector)

def CachedDispatch.dynamicCallTarget (s : CachedDispatch) (receiver selector : Value)
    (callerContext : ExecutionContext) (nullReceiverIsGlobal : Bool) :
    Option (Target × CachedDispatch) :=
  match dynamicSelectorText texts selector with
  | .error message => some (.error message, s)
  | .ok text =>
    dynamicCallTargetNamed texts fuel m s receiver text callerContext nullReceiverIsGlobal

/-- A call that goes past the cache of its site, and is kept there if it succeeds. -/
def resolveAtSite (s : CachedDispatch) (key : CallSiteKey) (type : TypePath) (receiver : Value)
    (selector : Text) (callerContext : ExecutionContext) (nullReceiverIsGlobal : Bool) :
    Option (Target × CachedDispatch) :=
  (dynamicCallTargetNamed texts fuel m s receiver selector callerContext
    nullReceiverIsGlobal).map fun r =>
      match r.1 with
      | .ok target => (.ok target, r.2.rememberSite key type target.1)
      | .error message => (.error message, r.2)

def dynamicCallTargetNamedAtCallsite (s : CachedDispatch) (receiver : Value) (selector : Text)
    (callerContext : ExecutionContext) (nullReceiverIsGlobal : Bool) (site : Option CallSite) :
    Option (Target × CachedDispatch) :=
  match site, receiver with
  | some site, .datum id =>
    match s.datums id with
    | none => some (.error nullCallError, s)
    | some type =>
      match s.dynamicCallsiteTargets ⟨m.identity, site, type.storage⟩ with
      | some cached =>
        if cached.1 = type.path then
          some (.ok (cached.2, ⟨.datum id, callerContext.usr⟩), s)
        else
          resolveAtSite texts fuel m s ⟨m.identity, site, type.storage⟩ type.path receiver
            selector callerContext nullReceiverIsGlobal
      | none =>
        resolveAtSite texts fuel m s ⟨m.identity, site, type.storage⟩ type.path receiver selector
          callerContext nullReceiverIsGlobal
  | _, _ =>
    dynamicCallTargetNamed texts fuel m s receiver selector callerContext nullReceiverIsGlobal

end

end Dream64.Vm
