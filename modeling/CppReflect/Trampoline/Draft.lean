import CppReflect.Trampoline.Source
import CppReflect.Model.Sugar

/-!
# Drafting trampolines

What a trampoline calls is read off the model first: the canonical types of the parameters and the
result, and how the function is named from outside. The blocks are then drafted from that alone.
Symbols and auxiliary typedefs draw their numbers from one counter, which all trampolines of a
session share, so that no two of them have the same name.
-/

namespace CppReflect

namespace Trampoline

/-- What a call needs to know about a function. -/
structure Target where
  name : String
  /-- The class or namespace around the function; empty in the global scope. -/
  scope : String
  params : List TypeId
  returnType : TypeId
  variadic : Bool
  isMember : Bool
  /-- For functions with an implicit object, whether that object is constant. -/
  constObject : Option Bool
  constructor : Bool
deriving DecidableEq, Inhabited, Repr

/-- A computation that draws numbers. -/
abbrev Numbered := StateM UInt64

/-- Draws a number. -/
def draw : Numbered UInt64 := modifyGet fun n => (n, n + 1)

/-- A name that ends in a number no other name ends in. -/
def freshName (stem : String) : Numbered String := do
  return stem ++ toString (← draw).toNat

/-! ## What is called -/

/-- What a scope contributes to the name of a function in it: unnamed namespaces and unscoped
enumerations need not be named. -/
def scopePart? (m : Model) (scope : DeclId) : Option String :=
  match (m.decl scope).kind with
  | .namespaceDecl _ => if (m.decl scope).name.isEmpty then none else some (m.completeName scope)
  | .enum info => if info.isScoped then some (m.completeName scope) else none
  | _ => some (m.completeName scope)

/-- The spelling of the class or namespace around a function; empty in the global scope. -/
def scopeSpelling (func : DeclId) : ModelM String := do
  let m ← get
  match m.semanticParent? func with
  | none => return ""
  | some parent =>
    if (m.decl parent).isRecord then
      let t ← Model.internKind (.record parent)
      return (← get).typeText t
    else
      let scopes := (parent :: m.ancestors parent).takeWhile fun s => !m.isTranslationUnit s
      return Text.joined "::" (scopes.filterMap (scopePart? m)).reverse

/-- What a trampoline has to know about a function. -/
def target (func : DeclId) (info : FunctionInfo) : ModelM Target := do
  let params ← (info.params.map ParamInfo.type).mapM Model.canonical
  let name := (← get).completeName func
  let scope ← scopeSpelling func
  let returnType ← Model.canonical info.returnType
  return {
    name, scope, params, returnType
    variadic := info.variadic
    isMember := info.method.isSome
    constObject := (info.method.filter fun m => !m.isStatic).map MethodInfo.isConst
    constructor := info.isConstructor }

/-! ## Operands -/

/-- Names a type by a typedef. -/
def named (stem : String) (type : TypeId) (indirection : Indirection) :
    Numbered (Operand × List AuxTypedef) := do
  let name ← freshName stem
  return (⟨name, indirection⟩, [{ name, type }])

/-- What is taken off a type before it is spelled, and what is left of it. -/
def peel (m : Model) (t : TypeId) : Indirection × TypeId :=
  match m.kindOf t with
  | .pointer p => (.pointer, p)
  | .rvalueReference p => (.rvalueReference, p)
  | .lvalueReference p => (.lvalueReference, p)
  | _ => (.none, t)

/-- Spells a canonical type. Pointers to functions, member pointers and arrays get a typedef; a
pointer or reference to any other type is spelled without it. -/
def operand (m : Model) (isArgument : Bool) (t : TypeId) : Numbered (Operand × List AuxTypedef) :=
  if isArgument && m.isRecord t then return (⟨m.typeText t, .none⟩, [])
  else if m.isFunctionPointer t then named "FP" t .none
  else if m.isMemberPointer t then named "MP" t .none
  else
    let (indirection, rest) := peel m t
    if m.isArray rest then named "AR" rest indirection
    else return (⟨m.typeText rest, indirection⟩, [])

/-- The cells of the arguments from a place on, and the typedefs that their types need. -/
def cellsFrom (m : Model) : Nat → List TypeId → Numbered (List Cell × List AuxTypedef)
  | _, [] => return ([], [])
  | index, t :: rest => do
    let (operand, typedefs) ← operand m true t
    let (cells, moreTypedefs) ← cellsFrom m (index + 1) rest
    return ({ index, operand } :: cells, typedefs ++ moreTypedefs)

/-- The cells of the first `n` arguments, and the typedefs that their types need. -/
def cells (m : Model) (params : List TypeId) (n : Nat) :
    Numbered (List Cell × List AuxTypedef) :=
  cellsFrom m 0 (params.take n)

/-! ## Calls -/

/-- The result type as it is spelled in a cast. -/
def Operand.castName (o : Operand) : String :=
  match o.indirection with
  | .none => o.name
  | .pointer => o.name ++ "*"
  | .lvalueReference | .rvalueReference => o.name ++ "&"

/-- The function as it is named in a call: behind the object or the scope. -/
def Target.path (t : Target) : String :=
  match t.constObject with
  | some true => "((const " ++ t.scope ++ "*)obj)->" ++ t.name
  | some false => "((" ++ t.scope ++ "*)obj)->" ++ t.name
  | none => if t.scope.isEmpty then t.name else t.scope ++ "::" ++ t.name

/-- A free function that gets all its arguments is called through a cast to its exact type, so that
no other overload is picked. -/
def Target.isCast (t : Target) (n : Nat) : Bool := !t.isMember && n == t.params.length

/-- The call of a function with the first `n` arguments, and the typedefs it needs. -/
def call (m : Model) (t : Target) (ret : String) (n : Nat) :
    Numbered (Call × List AuxTypedef) := do
  let (args, typedefs) ← cells m t.params n
  let cast := if t.isCast n then some ⟨ret, t.params.map m.typeText, t.variadic⟩ else none
  return ({ cast, path := t.path, args }, typedefs)

/-- The new-expression with the first `n` arguments, and the typedefs it needs. -/
def construction (m : Model) (t : Target) (placement : String) (n : Nat) :
    Numbered (Call × List AuxTypedef) := do
  let (args, typedefs) ← cells m t.params n
  return ({ cast := none, path := "new " ++ placement ++ t.scope, args }, typedefs)

/-! ## Blocks -/

/-- The last line of every block. -/
def leave : Nat × String := (0, "return;")

/-- Calls a function without a result. -/
def voidBlock (m : Model) (t : Target) (n : Nat) : Numbered Block := do
  let (call, typedefs) ← call m t "void" n
  return { typedefs, before := "", call, after := ";", tail := [leave] }

/-- How a result is put into the storage for it: a reference is stored as an address. -/
def Operand.storing (o : Operand) : String :=
  match o.indirection with
  | .none => "new (ret) (" ++ o.name ++ ") ("
  | .pointer => "new (ret) (" ++ o.name ++ "*) ("
  | .lvalueReference | .rvalueReference => "new (ret) (" ++ o.name ++ "*) (&"

/-- Calls a function and stores its result. -/
def storingBlock (m : Model) (t : Target) (n : Nat) : Numbered Block := do
  let (result, resultTypedefs) ← operand m false t.returnType
  let (call, typedefs) ← call m t result.castName n
  return {
    typedefs := resultTypedefs ++ typedefs
    before := result.storing, call, after := ");", tail := [leave] }

/-- Calls a function and drops its result. The result type is needed for the cast alone. -/
def droppingBlock (m : Model) (t : Target) (n : Nat) : Numbered Block := do
  let (ret, resultTypedefs) ←
    if t.isMember then pure ("", [])
    else do
      let (result, typedefs) ← operand m false t.returnType
      pure (result.castName, typedefs)
  let (call, typedefs) ← call m t ret n
  return {
    typedefs := resultTypedefs ++ typedefs
    before := "(void)(", call, after := ");", tail := [leave] }

/-- Constructs an object at a given place, and stores the place if asked to. -/
def placingBlock (m : Model) (t : Target) (n : Nat) : Numbered Block := do
  let (call, typedefs) ← construction m t "(obj) " n
  return {
    typedefs, before := "", call, after := ";"
    tail := [
      (0, "if (ret) \x7b"),
      (1, "(*(" ++ t.scope ++ "**)ret) = (" ++ t.scope ++ "*)obj;"),
      (0, "\x7d"),
      leave] }

/-- Constructs an object on the heap, with some text in front of the new-expression. -/
def heapBlock (m : Model) (t : Target) (before : String) (n : Nat) : Numbered Block := do
  let (call, typedefs) ← construction m t "" n
  return { typedefs, before, call, after := ";", tail := [leave] }

/-- What a clause for `n` arguments runs. -/
def body (m : Model) (t : Target) (n : Nat) : Numbered Body :=
  if t.constructor then do
    let placing ← placingBlock m t n
    let storing ← heapBlock m t ("(*(" ++ t.scope ++ "**)ret) = ") n
    let dropping ← heapBlock m t "" n
    return .guarded [("if (obj)", placing), ("if (ret)", storing), ("else", dropping)]
  else if m.isVoid t.returnType then do
    return .plain (← voidBlock m t n)
  else do
    let storing ← storingBlock m t n
    let dropping ← droppingBlock m t n
    return .guarded [("if (ret)", storing), ("else", dropping)]

/-! ## Trampolines -/

/-- The clauses for the argument counts from `required` to the number of parameters. A single clause
needs no condition. -/
def clauses (m : Model) (t : Target) (required : Nat) : Numbered (List Clause) :=
  let all := t.params.length
  if required = all then do
    return [{ count := none, body := ← body m t all }]
  else
    (List.range' required (all + 1 - required)).mapM fun n => do
      return { count := some n, body := ← body m t n }

/-- Drafts the trampoline of a function whose target is known. -/
def wrapperOf (m : Model) (t : Target) (required : Nat) : Numbered Wrapper := do
  let symbol ← freshName "__cf_"
  return { symbol, clauses := ← clauses m t required }

/-- The call trampoline of a function, with the counter behind it. -/
def wrapper? (func : DeclId) (serial : UInt64) : ModelM (Option (Wrapper × UInt64)) := do
  match (← get).function? func with
  | none => return none
  | some info =>
    let t ← target func info
    return some ((wrapperOf (← get) t info.minRequiredArgs).run serial)

/-- The class that a destructor trampoline is for, as it is spelled there. A class without a name
can be spelled by a typedef only. -/
def classSpelling? (d : DeclId) : ModelM (Option String) := do
  let m ← get
  match (m.decl d).kind with
  | .record _ =>
    let t ← Model.internKind (.record d)
    return some ((← get).typeText t)
  | .typedef _ =>
    let record ← Model.askAlong (·.wayFromDecl d) (·.recordOfDecl? d)
    return record.map fun _ => m.qualifiedName d
  | _ => return none

/-- The destructor trampoline of a class, with the counter behind it. -/
def destroyer? (d : DeclId) (serial : UInt64) : ModelM (Option (Destroyer × UInt64)) := do
  match ← classSpelling? d with
  | none => return none
  | some className =>
    return some <| (do
      let symbol ← freshName "__dtor_"
      return { symbol, className } : Numbered Destroyer).run serial

end Trampoline

end CppReflect
