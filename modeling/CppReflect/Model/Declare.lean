import CppReflect.Model.Hierarchy

/-!
# Declaring things in a model

A model is filled declaration by declaration: scopes, classes with their bases and fields, types,
templates and functions. A function is drafted first and declared when its draft is complete.
-/

namespace CppReflect

namespace Model

/-- The access of a member that is declared in a scope without an access specifier. -/
def memberAccess (m : Model) (scope : DeclId) : Access :=
  (m.record? scope).elim .none fun info => info.tag.defaultAccess

/-- Opens a namespace in a scope: the one of that name that is there, or a new one. -/
def declareNamespace (parent : DeclId) (name : String) : ModelM DeclId := do
  let m ← get
  match (m.membersNamed parent name).find? fun d => (m.decl d).isNamespace with
  | some d => pure d
  | none => addDecl parent name .none (.namespaceDecl false)

/-- Makes the members of a namespace visible in a scope. -/
def useNamespace (scope nominated : DeclId) : ModelM Unit :=
  modifyDecl scope fun e =>
    if e.usingDirectives.contains nominated then e
    else { e with usingDirectives := e.usingDirectives ++ [nominated] }

/-- Declares a class without members, with its definition or without. -/
def declareRecord (parent : DeclId) (name : String) (tag : TagKind) (complete : Bool) :
    ModelM DeclId := do
  let access := (← get).memberAccess parent
  addDecl parent name access (.record { tag, complete })

/-- Adds a base specifier to a class. The class is polymorphic from then on if the base is or if it
is a virtual base. -/
def addBase (record base : DeclId) (access : Access) (isVirtual : Bool) : ModelM Unit := do
  let type ← internKind (.record base)
  let basePolymorphic := ((← get).record? base).any RecordInfo.polymorphic
  modifyRecord record fun info =>
    { info with
      bases := info.bases ++ [{ type, access, isVirtual }]
      polymorphic := info.polymorphic || basePolymorphic || isVirtual }

/-- Declares a field of a class. -/
def declareField (record : DeclId) (name : String) (type : TypeId) (access : Access) :
    ModelM DeclId :=
  addDecl record name access (.variableDecl { type, isField := true })

/-- Declares a variable in a namespace or a static data member of a class. -/
def declareVariable (parent : DeclId) (name : String) (type : TypeId) : ModelM DeclId := do
  let access := if ((← get).record? parent).isSome then .pub else .none
  addDecl parent name access (.variableDecl { type, isField := false })

/-- Declares a typedef. -/
def declareTypedef (parent : DeclId) (name : String) (underlying : TypeId) : ModelM DeclId := do
  let access := (← get).memberAccess parent
  addDecl parent name access (.typedef underlying)

/-- Declares the enumerators of an enumeration. -/
def declareConstants (enum : DeclId) (type : TypeId) : List (String × Int64) → ModelM Unit
  | [] => pure ()
  | (name, value) :: rest => do
    let _ ← addDecl enum name .none (.enumConstant value type)
    declareConstants enum type rest

/-- Declares an enumeration with the underlying type `int`, and its enumerators. -/
def declareEnum (parent : DeclId) (name : String) (isScoped : Bool)
    (constants : List (String × Int64)) : ModelM DeclId := do
  let integerType ← builtin .int
  let access := (← get).memberAccess parent
  let d ← addDecl parent name access (.enum { isScoped, integerType, complete := true })
  let type ← internKind (.enum d)
  declareConstants d type constants
  return d

/-- The type parameters of a template. -/
def typeParams (names : List String) : List TemplateParam :=
  names.map fun name => { name }

/-- Declares a class template and the class that is its pattern. -/
def declareClassTemplate (parent : DeclId) (name : String) (params : List String) :
    ModelM DeclId := do
  let access := (← get).memberAccess parent
  let d ← addDecl parent name access (.classTemplate { params := typeParams params })
  let pattern ← addDetached parent name access (.record { tag := .klass, complete := true })
  modifyTemplate d fun info => { info with pattern := some pattern }
  return d

/-- Lists a specialization in its class template; any other declaration stays as it is. -/
def listClassSpecialization (template d : DeclId) : ModelM Unit :=
  modifyDecl template fun e =>
    match e.kind with
    | .classTemplate info =>
      { e with kind := .classTemplate { info with specializations := info.specializations ++ [d] } }
    | _ => e

/-- Declares a specialization of a class template, as a class beside the template. -/
def declareSpecialization (template : DeclId) (args : List TemplateArg) : ModelM DeclId := do
  let e := (← get).decl template
  let d ← addDetached (e.parent.getD root) e.name e.access
    (.record { tag := .klass, complete := true, specialization := some { template, args } })
  listClassSpecialization template d
  return d

/-! ## Functions -/

/-- The kind of a constructor with the given parameters: whether it can be called without arguments,
and whether it takes just a reference to its own class. -/
def constructorKind (m : Model) (record : DeclId) (params : List ParamInfo) : SpecialMember :=
  let copyOrMove :=
    match params with
    | [only] =>
      m.isReference only.type && m.recordOfType? (m.nonReference only.type) = some record
    | _ => false
  .constructor ((params.takeWhile fun p => p.default?.isNone).isEmpty) copyOrMove

/-- The way of `constructorKind`. -/
def wayToConstructorKind (m : Model) (params : List ParamInfo) : List TypeId :=
  match params with
  | [only] =>
    only.type :: if m.isReference only.type then m.wayToRecord (m.nonReference only.type) else []
  | _ => []

end Model

/-- What a drafted function will be to a template. -/
inductive TemplateRole where
  | none
  | pattern (template : DeclId)
  | specialization (template : DeclId)
deriving DecidableEq, Inhabited, Repr

/-- A function that is not declared yet. -/
structure FunctionDraft where
  parent : DeclId
  name : String
  access : Access
  info : FunctionInfo
  role : TemplateRole
deriving Inhabited, Repr

namespace FunctionDraft

/-- The draft of a function in a scope: a method if the scope is a class, and an operator if the
name says so. -/
def function (m : Model) (parent : DeclId) (name : String) (returnType : TypeId) :
    FunctionDraft :=
  let isMember := (m.record? parent).isSome
  { parent, name
    access := if isMember then .pub else .none
    info :=
      { returnType
        method := if isMember then some {} else none
        special := (Operator.ofFunctionName? name).elim .none .operator }
    role := .none }

/-- Sets the parameters; those of a constructor decide on its kind. They come one by one, so that
the first of them is for a while the only one. -/
def withParams (f : FunctionDraft) (params : List ParamInfo) : ModelM FunctionDraft := do
  if f.info.isConstructor then
    let special ← Model.askAlong (·.wayToConstructorKind (params.take 1))
      (·.constructorKind f.parent params)
    return { f with info := { f.info with params, special } }
  else return { f with info := { f.info with params } }

/-- Changes how the member function is declared; a function outside classes becomes one. -/
def mapMethod (f : FunctionDraft) (g : MethodInfo → MethodInfo) : FunctionDraft :=
  { f with info := { f.info with method := some (g (f.info.method.getD {})) } }

/-- Applies what a word says of a function; other words say nothing. -/
def withWord (f : FunctionDraft) (word : String) : FunctionDraft :=
  match word with
  | "const" => f.mapMethod fun m => { m with isConst := true }
  | "static" => f.mapMethod fun m => { m with isStatic := true }
  | "virtual" => f.mapMethod fun m => { m with isVirtual := true }
  | "pure" =>
    { f with info := { f.info with defined := false } }.mapMethod fun m =>
      { m with isVirtual := true, isPure := true }
  | "deleted" => { f with info := { f.info with deleted := true } }
  | "undefined" => { f with info := { f.info with defined := false } }
  | "late" => { f with info := { f.info with lateParsed := true } }
  | "variadic" => { f with info := { f.info with variadic := true } }
  | "conversion" => { f with info := { f.info with special := .conversion } }
  | _ => f

/-- Declares the drafted function and makes it known to its template. -/
def declare (f : FunctionDraft) : ModelM DeclId :=
  match f.role with
  | .none => Model.addDecl f.parent f.name f.access (.function f.info)
  | .pattern template => do
    let d ← Model.addDetached f.parent f.name f.access (.function f.info)
    Model.modifyDecl template fun e =>
      match e.kind with
      | .functionTemplate info => { e with kind := .functionTemplate { info with pattern := some d } }
      | _ => e
    return d
  | .specialization template => do
    let d ← Model.addDetached f.parent f.name f.access (.function f.info)
    Model.modifyDecl template fun e =>
      match e.kind with
      | .functionTemplate info =>
        { e with
          kind := .functionTemplate { info with specializations := info.specializations ++ [d] } }
      | _ => e
    return d

end FunctionDraft

namespace Model

/-- Drafts a constructor of a class. -/
def draftConstructor (record : DeclId) : ModelM FunctionDraft := do
  let type ← void
  let m ← get
  let f := FunctionDraft.function m record (m.decl record).name type
  return { f with info := { f.info with special := .constructor true false } }

/-- Drafts the destructor of a class. -/
def draftDestructor (record : DeclId) : ModelM FunctionDraft := do
  let type ← void
  let m ← get
  let f := FunctionDraft.function m record ("~" ++ (m.decl record).name) type
  return { f with info := { f.info with special := .destructor } }

/-- Declares a function template and drafts its pattern. -/
def draftFunctionTemplate (parent : DeclId) (name : String) (params : List String)
    (returnType : TypeId) : ModelM (DeclId × FunctionDraft) := do
  let access := (← get).memberAccess parent
  let d ← addDecl parent name access (.functionTemplate { params := typeParams params })
  let f := FunctionDraft.function (← get) parent name returnType
  return (d, { f with info := { f.info with templated := .functionTemplate }, role := .pattern d })

/-- Drafts an implicit instantiation of a function template. -/
def draftFunctionSpecialization (m : Model) (template : DeclId) (args : List TemplateArg)
    (returnType : TypeId) : FunctionDraft :=
  let e := m.decl template
  let f := FunctionDraft.function m (e.parent.getD root) e.name returnType
  { f with
    info := { f.info with
      templated := .functionTemplateSpecialization
      specialization := .implicitInstantiation
      pattern := e.template?.bind TemplateInfo.pattern
      templateArgs := args }
    role := .specialization template }

/-- Declares a drafted function that the compiler adds by itself. -/
def declareImplicit (f : FunctionDraft) : ModelM Unit := do
  let d ← f.declare
  modifyDecl d fun e => { e with implicit := true }

/-- Completes a class: its properties follow from its members and bases, and the default constructor
and the destructor are declared if no constructor and no destructor is. -/
def finishRecord (record : DeclId) : ModelM Unit := do
  let m ← get
  let methods := (m.methods record).filterMap m.function?
  let hasConstructor := methods.any FunctionInfo.isConstructor
  let hasDestructor := methods.any FunctionInfo.isDestructor
  let hasVirtual := methods.any fun f => f.method.any MethodInfo.isVirtual
  let hasPure := methods.any fun f => f.method.any MethodInfo.isPure
  let fields := m.fields record
  let allPublic := fields.all fun d => (m.decl d).access = .pub
  let fieldTypes := fields.filterMap fun d => (m.decl d).var?.map VarInfo.type
  let plainFields ← askAlong (·.wayOfPods fieldTypes) (fieldTypes.all ·.isPod)
  modifyRecord record fun info =>
    let polymorphic := info.polymorphic || hasVirtual
    let plain := !hasConstructor && !polymorphic && allPublic
    { info with
      polymorphic
      isAbstract := hasPure
      aggregate := plain && info.bases.all fun b => !b.isVirtual
      pod := plain && info.bases.isEmpty && !hasDestructor && plainFields }
  if !hasConstructor then
    declareImplicit (← draftConstructor record)
  if !hasDestructor then
    declareImplicit (← draftDestructor record)

end Model

end CppReflect
