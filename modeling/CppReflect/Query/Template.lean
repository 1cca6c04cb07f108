import CppReflect.Interpreter.Service
import CppReflect.Query.Scope

/-!
# Instantiating templates

Template arguments come as type handles with optional texts of values. An argument whose handle names
no type spoils the whole list.
-/

namespace CppReflect.Query

/-- A template argument as it is asked for. -/
structure ArgRequest where
  type : Handle
  value : Option String := none
deriving DecidableEq, Inhabited, Repr

/-- The template argument, if the handle names a type. -/
def ArgRequest.resolve? (m : Model) (a : ArgRequest) : Option TemplateArg :=
  (m.typeOfHandle? a.type).map fun t => a.value.elim (.ofType t) (.ofValue t)

/-- The template arguments, if all handles name types. -/
def templateArgs? (m : Model) (args : List ArgRequest) : Option (List TemplateArg) :=
  args.mapM (ArgRequest.resolve? m)

/-- The class or function that a template is made into, with the bodies of members if asked for. -/
def instantiate (template : Handle) (args : List ArgRequest) (withBody : Bool) :
    ServiceM DeclId := do
  let m ← Service.model
  let d ← Service.orElse .invalidDecl (m.declOfHandle? template)
  let args ← Service.orElse .invalidDecl (templateArgs? m args)
  match (m.decl d).kind with
  | .classTemplate _ => Service.instantiateClass d args withBody
  | .functionTemplate _ => Service.instantiateFunction d args
  | _ => throw .invalidDecl

/-- The arguments that a class was made with. -/
def instantiationArgs (m : Model) (klass : Handle) : List TemplateArg :=
  match recordAt? m klass with
  | some (_, info) => info.specialization.elim [] Specialization.args
  | none => []

end CppReflect.Query
