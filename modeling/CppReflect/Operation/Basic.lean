import CppReflect.Query.Overload
import CppReflect.Query.Type
import CppReflect.Query.Variable
import CppReflect.Session.ObjectText

/-!
# Operations

An operation has a name, takes named arguments and gives a reply. What it works on is told by its
action: some read the model of the active interpreter, some may put types into its table, be it only
by looking through typedefs, some ask the interpreter to do something, and some concern the session
as a whole. An operation that needs an interpreter has a reply of its own for a session without one,
and so has one that fails.
-/

namespace CppReflect

/-- What an operation answers. -/
inductive Reply where
  | nothing
  | truth (b : Bool)
  | number (n : Int)
  | numbers (ns : List Int)
  | text (s : String)
  | texts (ss : List String)
  | decl (h : Handle)
  | decls (ds : List DeclId)
  | type (h : Handle)
  | interpreter (number : Option Nat)
  | valueKind (k : Query.ValueKind)
  | operator (op : Operator)
  | arity (a : Arity)
  | templateArgs (args : List TemplateArg)
  | object (address : Option Address)
  | address (a : UInt64)
  | callable (c : Trampoline.Callable)
  /-- The value of an expression, and whether there was an error. -/
  | evaluation (value : Int64) (failed : Bool)
deriving Inhabited

/-- The arguments of an operation by their names. An argument that is missing reads as null, empty,
zero or false. -/
structure Arguments where
  decl : String → Handle
  decls : String → List Handle
  type : String → Handle
  text : String → String
  texts : String → List String
  flag : String → Bool
  count : String → Nat
  quals : String → Quals
  operator : String → Operator
  arity : String → Arity
  interpreter : String → Option Nat
  templateArgs : String → List Query.ArgRequest
  object : String → Option Object
  arena : String → Option Address

/-- The kinds of operations. -/
inductive Group where
  | system
  | scopes
  | types
  | functions
  | variables
  | overloads
  | templates
  | objects
deriving DecidableEq, Inhabited, Repr

/-- What an operation does with its arguments. -/
inductive Action where
  /-- Reads the model; without an interpreter the reply is `absent`. -/
  | read (absent : Reply) (f : Model → Reply)
  /-- Reads the model, looking through the types on a way. -/
  | explore (absent : Reply) (way : Model → List TypeId) (f : Model → Reply)
  /-- Reads the model, into whose table it may put types. -/
  | intern (absent : Reply) (f : ModelM Reply)
  /-- Has the interpreter do something. -/
  | ask (absent : Reply) (f : StateM Workbench Reply)
  /-- Concerns the session as a whole. -/
  | manage (f : SessionM Reply)

/-- An operation. -/
structure Operation where
  name : String
  group : Group
  action : Arguments → Action

namespace Action

/-- Carries out an action. -/
def run : Action → SessionM Reply
  | .read absent f => return ((← get).model?.map f).getD absent
  | .explore absent way f => return (← Session.withModel (Model.askAlong way f)).getD absent
  | .intern absent f => return (← Session.withModel f).getD absent
  | .ask absent f => return (← Session.withBench f).getD absent
  | .manage f => f

end Action

/-- Carries out an operation. -/
def Operation.run (op : Operation) (args : Arguments) : SessionM Reply := (op.action args).run

end CppReflect
