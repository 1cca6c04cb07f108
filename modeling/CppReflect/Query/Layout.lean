import CppReflect.Interpreter.Service
import CppReflect.Query.Function

/-!
# Sizes, offsets and addresses

What only an interpreter can tell of a declaration. Each question fails if the interpreter has no
answer.
-/

namespace CppReflect.Query

/-- The declaration that a handle names. -/
def declAt (h : Handle) : ServiceM DeclId := do
  Service.orElse .invalidDecl ((← Service.model).declOfHandle? h)

/-- The size of a complete class. -/
def sizeOfScope (scope : Handle) : ServiceM UInt64 := do
  match recordAt? (← Service.model) scope with
  | some (d, info) =>
    if info.complete then Service.sizeOfType (← (Model.internKind (.record d) : ModelM TypeId))
    else throw .invalidDecl
  | none => throw .invalidDecl

/-- The size of a type. -/
def sizeOfType (ty : Handle) : ServiceM UInt64 := do
  Service.sizeOfType (← Service.orElse .invalidDecl ((← Service.model).typeOfHandle? ty))

/-- The offset of a base class in a class. -/
def baseClassOffset (derived base : Handle) : ServiceM Int64 := do
  let m ← Service.model
  match recordAt? m derived, recordAt? m base with
  | some (d, _), some (b, _) => Service.baseOffset d b
  | _, _ => throw .invalidDecl

/-- The sum of two offsets, if it fits in 64 bits. -/
def sumOffsets (a b : Int64) : ServiceM Int64 :=
  let sum := a.toInt + b.toInt
  if -0x8000000000000000 ≤ sum ∧ sum < 0x8000000000000000 then return a + b
  else throw .excessive

/-- The offset of a field in its class, or in the class that `parent` names if that is another one;
for any other variable the address of its symbol. -/
def variableOffset (var parent : Handle) : ServiceM Int64 := do
  let m ← Service.model
  let d ← declAt var
  let info ← Service.orElse .invalidDecl (m.decl d).var?
  if info.isField then
    let owner ← Service.orElse .invalidDecl (m.decl d).parent
    let offset ← Service.fieldOffset d
    match (m.declOfHandle? parent).filter (· != owner) with
    | some derived => sumOffsets offset (← Service.baseOffset derived owner)
    | none => return offset
  else
    let address ← Service.symbolAddress (info.mangledName.getD (m.decl d).name)
    return address.toInt64

/-- The address of the code of a function. -/
def functionAddress (func : Handle) : ServiceM UInt64 := do
  match functionAt? (← Service.model) func with
  | some (d, _) => Service.functionAddress d
  | none => throw .invalidDecl

/-- The address of the code of a member function. -/
def methodAddress (method : Handle) : ServiceM UInt64 := do
  if isMethod (← Service.model) method then functionAddress method else throw .invalidDecl

end CppReflect.Query
