import CppReflect.Number.Text
import CppReflect.Query.Scope

/-!
# Questions about functions

Methods of classes, the parameters of functions, how a member function is declared, function
templates, and operators.
-/

namespace CppReflect.Query

/-- What is known of the function that a handle names. -/
def functionAt? (m : Model) (h : Handle) : Option (DeclId × FunctionInfo) := do
  let d ← m.declOfHandle? h
  let info ← m.function? d
  return (d, info)

/-- The handle names a function that passes the test. -/
def functionIs (m : Model) (h : Handle) (p : FunctionInfo → Bool) : Bool :=
  (functionAt? m h).any fun f => p f.2

/-- The handle names a member function that is declared so that it passes the test. -/
def methodIs (m : Model) (h : Handle) (p : MethodInfo → Bool) : Bool :=
  functionIs m h fun info => info.method.any p

/-- The declaration is a function template. -/
def isFunctionTemplate (m : Model) (d : DeclId) : Bool :=
  match (m.decl d).kind with
  | .functionTemplate _ => true
  | _ => false

/-! ## Functions of a class -/

/-- The methods of a class, those that the compiler declares included. -/
def classMethods (m : Model) (klass : Handle) : List DeclId :=
  (recordBehind? m klass).elim [] m.methods

/-- The function templates that are members of a class. -/
def templatedMethods (m : Model) (klass : Handle) : List DeclId :=
  (recordBehind? m klass).elim [] fun d => (m.decl d).members.filter (isFunctionTemplate m)

/-- The constructor of a class that can be called without arguments. -/
def defaultConstructor? (m : Model) (scope : Handle) : Option DeclId := do
  let (d, _) ← recordAt? m scope
  m.defaultConstructor? d

def hasDefaultConstructor (m : Model) (scope : Handle) : Bool :=
  (defaultConstructor? m scope).isSome

/-- The destructor of a class. -/
def destructor? (m : Model) (scope : Handle) : Option DeclId := do
  let (d, _) ← recordAt? m scope
  m.destructor? d

/-- The functions that a name means in a scope, those of bases included. -/
def functionsNamed (m : Model) (scope : Handle) (name : String) : List DeclId :=
  if name.isEmpty || scope == 0 then []
  else
    (scopeFor? m scope).elim [] fun d =>
      (m.lookupIn d name).filter fun f => (m.function? f).isSome

/-! ## Parameters -/

/-- The type of the result. -/
def returnType (m : Model) (func : Handle) : Handle :=
  typeHandleOf ((functionAt? m func).map fun f => f.2.returnType)

/-- The number of parameters. -/
def parameterCount (m : Model) (func : Handle) : Nat :=
  (functionAt? m func).elim 0 fun f => f.2.params.length

/-- The number of arguments that a call has to pass. -/
def requiredCount (m : Model) (func : Handle) : Nat :=
  (functionAt? m func).elim 0 fun f => f.2.minRequiredArgs

/-- The parameter at a place. -/
def parameter? (m : Model) (func : Handle) (place : Nat) : Option ParamInfo :=
  (functionAt? m func).bind fun f => f.2.params[place]?

/-- The type of the parameter at a place. -/
def parameterType (m : Model) (func : Handle) (place : Nat) : Handle :=
  typeHandleOf ((parameter? m func place).map ParamInfo.type)

/-- The name of the parameter at a place. -/
def parameterName (m : Model) (func : Handle) (place : Nat) : String :=
  (parameter? m func place).elim "" ParamInfo.name

/-- The text of a number without the letters that say its type. -/
def withoutNumberSuffix (text : String) : String :=
  String.ofList (text.toList.reverse.dropWhile (['f', 'F', 'l', 'L'].contains ·)).reverse

/-- A floating-point default argument as it is shown: with six digits, unless the text ends with a
point or is no number. -/
def floatingDefaultText (text : String) : String :=
  if Text.endsWith "." text then text
  else (Number.read64? (withoutNumberSuffix text)).elim text Number.streamText

/-- The default argument of the parameter at a place. -/
def parameterDefault (m : Model) (func : Handle) (place : Nat) : String :=
  match parameter? m func place with
  | none => ""
  | some p =>
    match p.default?, m.kindOf p.type with
    | none, _ => ""
    | some text, .builtin b => if b.isFloating then floatingDefaultText text else text
    | some text, _ => text

/-- The way of `parameterDefault`, which is of no type if there is no default argument. -/
def wayToDefault (m : Model) (func : Handle) (place : Nat) : List TypeId :=
  ((parameter? m func place).filter fun p => p.default?.isSome).elim [] fun p => [p.type]

/-- The declaration of a function with its parameters. -/
def signature (m : Model) (func : Handle) : String :=
  ((m.declOfHandle? func).bind m.functionSignature?).getD "<unknown>"

/-! ## Kinds -/

def isDeleted (m : Model) (func : Handle) : Bool := functionIs m func FunctionInfo.deleted

def isMethod (m : Model) (func : Handle) : Bool := functionIs m func fun info => info.method.isSome

/-- A member function with an access. -/
def isMethodWith (access : Access) (m : Model) (func : Handle) : Bool :=
  isMethod m func && declIs m func fun d => d.access = access

def isConstructor (m : Model) (func : Handle) : Bool := functionIs m func FunctionInfo.isConstructor

def isDestructor (m : Model) (func : Handle) : Bool := functionIs m func FunctionInfo.isDestructor

def isStaticMethod (m : Model) (func : Handle) : Bool := methodIs m func MethodInfo.isStatic

def isVirtualMethod (m : Model) (func : Handle) : Bool := methodIs m func MethodInfo.isVirtual

def isConstMethod (m : Model) (func : Handle) : Bool := methodIs m func MethodInfo.isConst

/-! ## Templates -/

/-- A function template, or a function that is a template or was made from one of its own. -/
def isTemplated (m : Model) (d : DeclId) : Bool :=
  match (m.decl d).kind with
  | .functionTemplate _ => true
  | .function info =>
    match info.templated with
    | .functionTemplate | .functionTemplateSpecialization
    | .dependentFunctionTemplateSpecialization => true
    | .nonTemplate | .memberSpecialization => false
  | _ => false

def isTemplatedFunction (m : Model) (func : Handle) : Bool :=
  (m.declOfHandle? func).any (isTemplated m)

/-- The scope that a handle names; the translation unit for the null handle. -/
def plainScope? (m : Model) (parent : Handle) : Option DeclId :=
  if parent = 0 then some Model.root else m.declOfHandle? parent

/-- The name means a templated function in a scope, or several declarations. -/
def existsFunctionTemplate (m : Model) (name : String) (parent : Handle) : Bool :=
  match (plainScope? m parent).map (m.lookupNamed name) with
  | some (.found d) => isTemplated m d
  | some .ambiguous => true
  | some .notFound | none => false

/-- The function templates that a name means in a scope, those of bases included. -/
def functionTemplatesNamed (m : Model) (name : String) (parent : Handle) : List DeclId :=
  (plainScope? m parent).elim [] fun scope => (m.lookupIn scope name).filter (isFunctionTemplate m)

/-! ## Operators -/

/-- The declaration declares the operator with an operand count that meets `arity`. -/
def declaresOperator (m : Model) (op : Operator) (arity : Arity) (d : DeclId) : Bool :=
  (m.function? d).any (fun f => f.special = .operator op) &&
    (m.operatorArity? d).any fun found => found.accepts arity

/-- The operators of a scope and, for a class, of its bases to the depth `fuel`. -/
def operatorsFrom (m : Model) (op : Operator) (arity : Arity) : Nat → DeclId → List DeclId
  | 0, _ => []
  | fuel + 1, scope =>
    (m.decl scope).members.filter (declaresOperator m op arity) ++
      (m.baseRecords scope).flatMap (operatorsFrom m op arity fuel)

/-- The declarations of an operator in a scope and, for a class, in its bases. -/
def operators (m : Model) (scope : Handle) (op : Operator) (arity : Arity) : List DeclId :=
  match op with
  | .none => []
  | _ => (m.declOfHandle? scope).elim [] (operatorsFrom m op arity m.declFuel)

/-- The operand count of a declared operator; any will do for another declaration. -/
def operatorArity (m : Model) (func : Handle) : Arity :=
  ((m.declOfHandle? func).bind m.operatorArity?).getD .both

end CppReflect.Query
