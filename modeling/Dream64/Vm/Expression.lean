import Dream64.Vm.Bytecode

/-!
# Expressions and the local table

The expression tree the parser builds and the emitter lowers, with the table
that resolves the bare names in it: procedure locals first, then fields of
`src`, then globals.
-/

namespace Dream64.Vm

mutual

inductive Expression where
  | null
  | number (bits : DmNumberBits)
  | text (text : String)
  | file (path : String)
  | typePath (path : TypePath)
  | modifiedTypePath (base : TypePath) (overrides : List (FieldName × Expression))
  | new (typePath : Option Expression) (arguments : List Expression)
      (overrides : List (FieldName × Expression))
  | regex (arguments : List Expression)
  | mutableAppearance (arguments : List Expression)
  | matrix (arguments : List Expression)
  | vector (arguments : List Expression)
  | replaceText (arguments : List Expression) (exact characterIndices : Bool)
  | copyText (arguments : List Expression) (characterIndices : Bool)
  | standardBuiltin (name : String) (arguments : List Expression)
  | nativeSrcMethod (name : String) (arguments : List Expression)
  | externalCall (library function : Expression) (arguments : List Expression)
  | animate (arguments : List (Option String × Expression))
  | filter (arguments : List (Option String × Expression))
  | crash (message : Expression)
  | sleep (delay : Expression)
  | initial (reference : Expression)
  | block (arguments : List Expression)
  | rand (arguments : List Expression)
  | roll (arguments : List Expression)
  | pick (entries : List (Option Expression × Expression))
  | prob (chance : Expression)
  | round (arguments : List Expression)
  | length (value : Expression)
  | ref (value : Expression)
  | getStep (source direction : Expression)
  | getStepTowards (source target : Expression)
  | range (arguments : List Expression)
  | typesOf (arguments : List Expression)
  | hasCall (receiver selector : Expression)
  | typePredicate (kind : TypePredicateKind) (arguments : List Expression)
  | local (name : String)
  | src
  | usr
  | caller
  | world
  | globalNamespace
  | field (receiver : Expression) (name : FieldName)
  | safeField (receiver : Expression) (name : FieldName)
  | globalField (name : FieldName)
  | result
  | call (procedure : String) (arguments : List Expression)
  | namedArgument (name : String) (value : Expression)
  /-- A list expansion, used only in an enclosing argument list. -/
  | argList (values : Expression)
  | locate (arguments : List Expression)
  | locateIn (arguments : List Expression) (container : Expression)
  | currentCall (arguments : Option (List Expression))
  | parentCall (arguments : Option (List Expression))
  | dynamicCall (target procedure : Expression) (arguments : List Expression)
      (nullReceiverIsGlobal : Bool)
  | safeDynamicCall (target procedure : Expression) (arguments : List Expression)
  | list (entries : List ListExpressionEntry)
  | associativeList (entries : List ListExpressionEntry)
  | index (list index : Expression)
  | safeIndex (list index : Expression)
  | unary (operator : String) (operand : Expression)
  | mutation (target : Expression) (delta : Int) (isPrefix : Bool)
  | binary (operator : String) (left right : Expression)
  | conditional (condition whenTrue whenFalse : Expression)
  | logicalOrAssignment (target value : Expression)
  | assignment (target : Expression) (operator : String) (value : Expression)

inductive ListExpressionEntry where
  | positional (value : Expression)
  | associative (key value : Expression)

end

/-- The lexical scope of one procedure, with the fields of `src` and the
globals that its bare names may also resolve to. -/
structure LocalTable where
  names : List (String × Nat) := []
  types : List (String × TypePath) := []
  srcFields : List (String × FieldName) := []
  globalFields : List (String × FieldName) := []
  globalTypes : List (String × TypePath) := []
  slotCount : Nat := 0

namespace LocalTable

variable (L : LocalTable)

def get (name : String) : Option Nat := L.names.lookup name

def localType (name : String) : Option TypePath := L.types.lookup name

def srcField (name : String) : Option FieldName := L.srcFields.lookup name

def globalField (name : String) : Option FieldName := L.globalFields.lookup name

def globalType (name : String) : Option TypePath := L.globalTypes.lookup name

/-- The key under which the shared slot of `receiver.name` is registered. -/
def receiverStaticKey (receiver : Expression) (name : FieldName) : Option String :=
  match receiver with
  | .src => some ("src." ++ name.name)
  | .local receiver => some (receiver ++ "." ++ name.name)
  | .globalField receiver => some (receiver.name ++ "." ++ name.name)
  | .typePath path => some (path.path ++ "::" ++ name.name)
  | _ => none

def receiverStatic (receiver : Expression) (name : FieldName) : Option FieldName :=
  (receiverStaticKey receiver name).bind L.globalField

/-- The shared slot a field expression reads: the slot of its receiver, and
for `src.name` also the global registered under the bare name. -/
def fieldStorage (receiver : Expression) (name : FieldName) : Option FieldName :=
  match L.receiverStatic receiver name, receiver with
  | some storage, _ => some storage
  | none, .src => L.globalField name.name
  | none, _ => none

end LocalTable

def expressionStaticType (L : LocalTable) : Expression → Option TypePath
  | .local name => (L.localType name).or (L.globalType name)
  | .globalField name => L.globalType name.name
  | .new (some (.typePath path)) _ _ => some path
  | _ => none

/-- `procedures`: the implementations the bare call names resolve to. -/
abbrev Procedures := String → Option ProcedureId

abbrev CompileError := String

end Dream64.Vm
