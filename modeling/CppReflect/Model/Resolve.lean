import CppReflect.Model.Lookup
import CppReflect.Spelling.Reader

/-!
# Types from spellings

A type spelling becomes a type once its names are looked up in a context. A name that means nothing
stays as it is spelled, and so does a text that is no type spelling at all.
-/

namespace CppReflect.Model

/-- The type that a name means in a context. -/
def resolveName (name : QualifiedName) (context : DeclId) : ModelM TypeId := do
  let m ← get
  match m.resolveTypeName? name.text (if name.global then root else context) with
  | some d =>
    match (m.decl d).kind with
    | .record _ => internKind (.record d)
    | .enum _ => internKind (.enum d)
    | _ => internKind (.typedef d)
  | none =>
    if name.text = "std::nullptr_t" ∨ name.text = "nullptr_t" then builtin .nullPtr
    else internKind (.named name.text)

/-- The type that the base of a spelling means. -/
def resolveBase (base : Spelling.Base) (context : DeclId) : ModelM TypeId :=
  match base with
  | .void => void
  | .builtin b => builtin b
  | .complex b => do internKind (.complex (← builtin b))
  | .name n => resolveName n context

mutual

/-- The type that a spelling means in a context. -/
def resolve (context : DeclId) : Spelling → ModelM TypeId
  | .mk base quals ops => do
    let t ← resolveBase base context
    let t ← withQuals t quals
    resolveOps context t ops

/-- The type that declarator operators make of a type. -/
def resolveOps (context : DeclId) (t : TypeId) : List DeclaratorOp → ModelM TypeId
  | [] => pure t
  | op :: ops => do
    let t ← resolveOp context t op
    resolveOps context t ops

/-- The type that a declarator operator makes of a type. -/
def resolveOp (context : DeclId) (t : TypeId) : DeclaratorOp → ModelM TypeId
  | .pointer quals => do
    let p ← pointer t
    withQuals p quals
  | .lvalueReference => lvalueReference t
  | .rvalueReference => rvalueReference t
  | .memberPointer klass quals => do
    let c ← resolveName klass context
    let p ← internKind (.memberPointer t c)
    withQuals p quals
  | .array (some n) => internKind (.constantArray t n)
  | .array none => internKind (.incompleteArray t)
  | .function params variadic quals ref => do
    let params ← resolveAll context params
    internKind (.function { ret := t, params, variadic, quals, ref })

/-- The types that a list of spellings means, from left to right. -/
def resolveAll (context : DeclId) : List Spelling → ModelM (List TypeId)
  | [] => pure []
  | s :: rest => do
    let t ← resolve context s
    let ts ← resolveAll context rest
    return t :: ts

end

/-- The type that a text spells in a context. -/
def parseType (text : String) (context : DeclId) : ModelM TypeId :=
  match Spelling.read text with
  | .ok s => resolve context s
  | .error _ => internKind (.named (Text.trimmed text))

end CppReflect.Model
