import CppReflect.Operator
import CppReflect.Types

/-!
# Declarations

What is known of a C++ declaration: its name, its scope and access, the declarations inside it, and
what belongs to its kind.
-/

namespace CppReflect

/-- The access of a class member; `none` outside classes. -/
inductive Access where
  | none
  | pub
  | prot
  | priv
deriving DecidableEq, Inhabited, Repr

/-- The access that a keyword grants; `none` for any other word. -/
def Access.ofSpelling (word : String) : Access :=
  if word = "public" then .pub
  else if word = "protected" then .prot
  else if word = "private" then .priv
  else .none

/-- The keyword a class is declared with. -/
inductive TagKind where
  | struct
  | klass
  | union
deriving DecidableEq, Inhabited, Repr

/-- The access of members that are declared before any access specifier. -/
def TagKind.defaultAccess : TagKind → Access
  | .klass => .priv
  | .struct | .union => .pub

/-- A base class as it is named in a class. -/
structure BaseSpecifier where
  type : TypeId
  access : Access
  isVirtual : Bool
deriving DecidableEq, Inhabited, Repr

/-- A template argument: a type, with the text of the value if it is not a type argument. -/
structure TemplateArg where
  type : TypeId
  value : Option String
deriving DecidableEq, Inhabited, Repr

namespace TemplateArg

/-- A type argument. -/
def ofType (type : TypeId) : TemplateArg := ⟨type, none⟩

/-- An argument with a value, whose text is kept unless there is a zero character in it. -/
def ofValue (type : TypeId) (text : String) : TemplateArg :=
  ⟨type, if text.toList.any (·.toNat == 0) then none else some text⟩

end TemplateArg

/-- The template that a class was made from and the arguments. -/
structure Specialization where
  template : DeclId
  args : List TemplateArg
deriving DecidableEq, Inhabited, Repr

/-- What is known of a class, struct or union. -/
structure RecordInfo where
  tag : TagKind
  complete : Bool := false
  bases : List BaseSpecifier := []
  polymorphic : Bool := false
  isAbstract : Bool := false
  lambda : Bool := false
  aggregate : Bool := false
  pod : Bool := false
  /-- The size in bytes, once a layout is known. -/
  size : Option UInt64 := none
  specialization : Option Specialization := none
deriving DecidableEq, Inhabited, Repr

/-- What is known of an enumeration. -/
structure EnumInfo where
  isScoped : Bool
  integerType : TypeId
  complete : Bool
deriving DecidableEq, Inhabited, Repr

/-- What is known of a variable or field. -/
structure VarInfo where
  type : TypeId
  /-- The variable is a non-static data member. -/
  isField : Bool
  mangledName : Option String := none
  /-- The offset of a field in bytes, once a layout is known. -/
  offset : Option Int64 := none
deriving DecidableEq, Inhabited, Repr

/-- A parameter of a function; the default argument is kept as text. -/
structure ParamInfo where
  name : String
  type : TypeId
  default? : Option String
deriving DecidableEq, Inhabited, Repr

/-- How a member function is declared. -/
structure MethodInfo where
  isConst : Bool := false
  isVolatile : Bool := false
  isStatic : Bool := false
  isVirtual : Bool := false
  isPure : Bool := false
deriving DecidableEq, Inhabited, Repr

/-- The functions that have a role of their own. -/
inductive SpecialMember where
  | none
  | constructor (isDefault copyOrMove : Bool)
  | destructor
  | conversion
  | operator (op : Operator)
deriving DecidableEq, Inhabited, Repr

/-- How a function takes part in templates. -/
inductive TemplatedKind where
  | nonTemplate
  | functionTemplate
  | memberSpecialization
  | functionTemplateSpecialization
  | dependentFunctionTemplateSpecialization
deriving DecidableEq, Inhabited, Repr

/-- How a specialization came about. -/
inductive SpecializationKind where
  | undeclared
  | implicitInstantiation
  | explicitSpecialization
  | explicitInstantiationDeclaration
  | explicitInstantiationDefinition
deriving DecidableEq, Inhabited, Repr

/-- The specialization is an instantiation of its template. -/
def SpecializationKind.isInstantiation : SpecializationKind → Bool
  | .implicitInstantiation | .explicitInstantiationDeclaration
  | .explicitInstantiationDefinition => true
  | .undeclared | .explicitSpecialization => false

/-- What is known of a function. -/
structure FunctionInfo where
  returnType : TypeId
  params : List ParamInfo := []
  variadic : Bool := false
  method : Option MethodInfo := none
  special : SpecialMember := .none
  deleted : Bool := false
  lateParsed : Bool := false
  /-- A body, or a defaulted definition, is available. -/
  defined : Bool := true
  templated : TemplatedKind := .nonTemplate
  specialization : SpecializationKind := .undeclared
  /-- The declaration that this one was instantiated from. -/
  pattern : Option DeclId := none
  templateArgs : List TemplateArg := []
  mangledName : Option String := none
deriving DecidableEq, Inhabited, Repr

namespace FunctionInfo

/-- The number of parameters in front of the first one with a default argument. -/
def minRequiredArgs (f : FunctionInfo) : Nat :=
  (f.params.takeWhile fun p => p.default?.isNone).length

/-- The function is a constructor. -/
def isConstructor (f : FunctionInfo) : Bool :=
  match f.special with
  | .constructor .. => true
  | _ => false

/-- The function is a constructor that can be called without arguments. -/
def isDefaultConstructor (f : FunctionInfo) : Bool :=
  match f.special with
  | .constructor isDefault _ => isDefault
  | _ => false

/-- The function is a destructor. -/
def isDestructor (f : FunctionInfo) : Bool := f.special = .destructor

/-- The function is a member function with an implicit object. -/
def isInstanceMethod (f : FunctionInfo) : Bool :=
  f.method.any fun m => !m.isStatic

end FunctionInfo

/-- What a template parameter stands for. -/
inductive TemplateParamKind where
  | type
  | nonType (ty : TypeId)
  | template
deriving DecidableEq, Inhabited, Repr

/-- A parameter of a template. -/
structure TemplateParam where
  name : String
  kind : TemplateParamKind := .type
  default? : Option String := none
  pack : Bool := false
deriving DecidableEq, Inhabited, Repr

/-- What is known of a template. -/
structure TemplateInfo where
  params : List TemplateParam := []
  /-- The templated declaration. -/
  pattern : Option DeclId := none
  specializations : List DeclId := []
deriving DecidableEq, Inhabited, Repr

/-- What a declaration declares. -/
inductive DeclKind where
  | translationUnit
  | namespaceDecl (isInline : Bool)
  | record (info : RecordInfo)
  | enum (info : EnumInfo)
  | enumConstant (value : Int64) (type : TypeId)
  | variableDecl (info : VarInfo)
  | function (info : FunctionInfo)
  | typedef (underlying : TypeId)
  | classTemplate (info : TemplateInfo)
  | functionTemplate (info : TemplateInfo)
deriving DecidableEq, Inhabited, Repr

/-- A declaration. -/
structure Decl where
  name : String
  kind : DeclKind
  parent : Option DeclId
  access : Access := .none
  /-- The declarations listed in this one, in the order of their appearance. -/
  members : List DeclId := []
  /-- The namespaces that using-directives nominate. -/
  usingDirectives : List DeclId := []
  /-- The compiler declares it and not the program. -/
  implicit : Bool := false
deriving DecidableEq, Inhabited, Repr

namespace Decl

/-- What is known of the function, if the declaration is one. -/
def function? (d : Decl) : Option FunctionInfo :=
  match d.kind with
  | .function info => some info
  | _ => none

/-- What is known of the class, if the declaration is one. -/
def record? (d : Decl) : Option RecordInfo :=
  match d.kind with
  | .record info => some info
  | _ => none

/-- What is known of the enumeration, if the declaration is one. -/
def enum? (d : Decl) : Option EnumInfo :=
  match d.kind with
  | .enum info => some info
  | _ => none

/-- What is known of the variable, if the declaration is one. -/
def var? (d : Decl) : Option VarInfo :=
  match d.kind with
  | .variableDecl info => some info
  | _ => none

/-- What is known of the template, if the declaration is one. -/
def template? (d : Decl) : Option TemplateInfo :=
  match d.kind with
  | .classTemplate info | .functionTemplate info => some info
  | _ => none

/-- What the typedef stands for, if the declaration is one. -/
def underlying? (d : Decl) : Option TypeId :=
  match d.kind with
  | .typedef ty => some ty
  | _ => none

/-- The declaration is a class. -/
def isRecord (d : Decl) : Bool := d.record?.isSome

/-- The declaration is a namespace. -/
def isNamespace (d : Decl) : Bool :=
  match d.kind with
  | .namespaceDecl _ => true
  | _ => false

/-- Its members can be named in the scope around it: an inline or unnamed namespace, or an
enumeration that is not scoped. -/
def isTransparent (d : Decl) : Bool :=
  match d.kind with
  | .namespaceDecl isInline => isInline || d.name.isEmpty
  | .enum info => !info.isScoped
  | _ => false

end Decl

end CppReflect
