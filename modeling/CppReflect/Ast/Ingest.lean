import CppReflect.Ast.Location
import CppReflect.Ast.Node
import CppReflect.Json.Reader
import CppReflect.Library.Path
import CppReflect.Model.Declare
import CppReflect.Model.Resolve

/-!
# Declarations from an AST dump

A dump of Clang's syntax tree fills a model with the declarations of the main file. Each declaration
is found again under a key made of its scope and its signature, so that a later dump of a grown
source completes the declarations that are there and adds the new ones. The handlers of the
different kinds of nodes take as an argument the visitor of the nodes inside, and the visitor is tied
to them down to the depth of the dump.
-/

namespace CppReflect.Ast

/-- What a dump was made from: the text of the main file, and its path. -/
structure Source where
  text : String
  mainFile : String
deriving Repr

/-- What is known in the middle of a dump. -/
structure Progress where
  model : Model
  /-- The file of the last location. -/
  file : Option String
  /-- The classes by the identity of their nodes, the latest first. -/
  nodes : List (String × DeclId)
  /-- How many unnamed declarations of a sort a scope has had. -/
  unnamed : List ((DeclId × String) × Nat)

/-- A step through a dump. What was declared before a dump is given up stays declared. -/
abbrev IngestM := ExceptT IngestError (StateM Progress)

/-- A step that concerns the model alone. -/
def onModel {α : Type} (x : ModelM α) : IngestM α :=
  modifyGet fun p =>
    let (a, model) := x.run p.model
    (a, { p with model })

instance : MonadLift ModelM IngestM := ⟨onModel⟩

/-- The model so far. -/
def model : IngestM Model := return (← getThe Progress).model

/-- Follows the locations of a node. -/
def observe (node : Json) : IngestM Unit :=
  modifyThe Progress fun p => { p with file := fileAfterNode node p.file }

/-- Follows the locations in the nodes inside a node that is not visited. -/
def passOver (node : Json) : IngestM Unit :=
  modifyThe Progress fun p => { p with file := fileAfterItems (children node) p.file }

/-- The last location is in the main file, whose path or name it gives. -/
def inMainFile (source : Source) (file : Option String) : Bool :=
  match file with
  | none => false
  | some f =>
    f == source.mainFile ||
      (Path.fileName? f).any fun name => Path.fileName? source.mainFile == some name

/-- The type of a spelling, or an unknown one. -/
def typeOf (spelling : Option String) (context : DeclId) : ModelM TypeId :=
  match spelling with
  | some s => Model.parseType s context
  | none => Model.internKind (.named "<unknown>")

/-- The key of something in a scope. -/
def keyIn (scope : DeclId) (what : String) : String := toString scope.index ++ "/" ++ what

/-- The key of the next unnamed declaration of a sort in a scope. -/
def unnamedKey (scope : DeclId) (sort : String) : IngestM String := do
  let n := (((← getThe Progress).unnamed.lookup (scope, sort)).getD 0) + 1
  modifyThe Progress fun p => { p with unnamed := ((scope, sort), n) :: p.unnamed }
  return keyIn scope (sort ++ ":#" ++ toString n)

/-- The declaration under a key, and whether it had to be declared. A detached one is not listed in
its scope. -/
def upsert (key : String) (parent : DeclId) (name : String) (access : Access) (detached : Bool)
    (kind : ModelM DeclKind) : ModelM (DeclId × Bool) := do
  match (← get).keyed? key with
  | some d => return (d, false)
  | none =>
    let kind ← kind
    let d ←
      if detached then Model.addDetached parent name access kind
      else Model.addDecl parent name access kind
    Model.bindKey key d
    return (d, true)

/-- Visits the declarations inside a node, which declares the scope; the access is that of members
in front of any access specifier. -/
abbrev Visitor := Json → DeclId → Access → IngestM Unit

/-! ## Scopes -/

/-- Opens a namespace. -/
def namespaceDecl (visit : Visitor) (node : Json) (parent : DeclId) : IngestM Unit := do
  let name := text node "name"
  let (d, _) ← upsert (keyIn parent ("ns:" ++ name)) parent name .none false
    (pure (.namespaceDecl (flag node "isInline")))
  visit node d .none

/-- Follows a using-directive to the namespace that its name means in the scope or around it. -/
def usingDirective (node : Json) (scope : DeclId) : ModelM Unit := do
  let m ← get
  let name := (node.get? "nominatedNamespace").elim "" fun n => text n "name"
  let nominated := (scope :: m.ancestors scope).findSome? fun s =>
    (m.lookupNamed name s).found?.filter fun d => (m.decl d).isNamespace
  match nominated with
  | some d => Model.useNamespace scope d
  | none => pure ()

/-! ## Classes -/

/-- Declares the default constructor that the compiler will define, if the dump says there is one,
and the destructor, where the class declares no constructor and no destructor. -/
def declareImplicitMembers (record : DeclId) (data : Json) : ModelM Unit := do
  let m ← get
  let name := (m.decl record).name
  let hasConstructor := (m.methods record).any fun d =>
    (m.function? d).any FunctionInfo.isConstructor
  let hasDestructor := (m.destructor? record).isSome
  let wanted := (data.get? "defaultCtor").any fun c => flag c "exists" || flag c "needsImplicit"
  let void ← Model.void
  let declare (name : String) (special : SpecialMember) : ModelM Unit := do
    let (d, created) ← upsert (keyIn record ("fn:" ++ name ++ "()")) record name .pub false
      (pure (.function { returnType := void, method := some {}, special }))
    if created then
      Model.modifyDecl d fun e => { e with implicit := true }
  if !hasConstructor && wanted then
    declare name (.constructor true false)
  if !hasDestructor then
    declare ("~" ++ name) .destructor

/-- The base specifiers of a class. -/
def baseSpecifiers (node : Json) (context : DeclId) : ModelM (List BaseSpecifier) :=
  (((node.get? "bases").bind Json.items?).getD []).mapM fun base => do
    return {
      type := ← typeOf (qualType? base) context
      access := Access.ofSpelling (text base "access")
      isVirtual := flag base "isVirtual" }

/-- The keyword of a class. -/
def tagOf (node : Json) : TagKind :=
  match text node "tagUsed" with
  | "class" => .klass
  | "union" => .union
  | _ => .struct

/-- The key of a pattern or specialization that is not listed in its scope, and what it
specializes. -/
structure Detached where
  key : String
  specialization : Option Specialization

/-- Declares a class, or completes it. -/
def recordDecl (visit : Visitor) (node : Json) (parent : DeclId) (access : Access)
    (detached : Option Detached) : IngestM DeclId := do
  let name := text node "name"
  let tag := tagOf node
  let key ←
    match detached with
    | some d => pure d.key
    | none =>
      if name.isEmpty then unnamedKey parent "rec" else pure (keyIn parent ("rec:" ++ name))
  let (d, _) ← upsert key parent name access detached.isSome
    (pure (.record { tag, specialization := detached.bind Detached.specialization }))
  match (node.get? "id").bind Json.str? with
  | some id => modifyThe Progress fun p => { p with nodes := (id, d) :: p.nodes }
  | none => pure ()
  if flag node "completeDefinition" then
    let bases ← baseSpecifiers node parent
    let data := (node.get? "definitionData").getD .null
    Model.modifyRecord d fun info =>
      { info with
        complete := true
        bases
        aggregate := flag data "isAggregate"
        pod := flag data "isPOD"
        polymorphic := flag data "isPolymorphic"
        isAbstract := flag data "isAbstract"
        lambda := flag data "isLambda" }
    visit node d tag.defaultAccess
    declareImplicitMembers d data
  else
    passOver node
  return d

/-! ## Templates -/

/-- The parameters of a template. -/
def templateParams (node : Json) (context : DeclId) : ModelM (List TemplateParam) := do
  let params ← (children node).mapM fun child => do
    let param (kind : TemplateParamKind) : Option TemplateParam :=
      some { name := text child "name", kind, pack := flag child "isParameterPack" }
    match kind child with
    | "TemplateTypeParmDecl" => return param .type
    | "NonTypeTemplateParmDecl" =>
      return param (.nonType (← Model.parseType ((qualType? child).getD "int") context))
    | "TemplateTemplateParmDecl" => return param .template
    | _ => return none
  return params.filterMap id

/-- The arguments that a template argument stands for, packs opened to the depth `fuel`. -/
def templateArgFrom (context : DeclId) : Nat → Json → ModelM (List TemplateArg)
  | 0, _ => pure []
  | fuel + 1, node =>
    match qualType? node, node.get? "value" with
    | some spelling, some v => do
      return [.ofValue (← Model.parseType spelling context) (valueText v)]
    | some spelling, none => do
      return [.ofType (← Model.parseType spelling context)]
    | none, some v => do
      return [.ofValue (← Model.builtin .int) (valueText v)]
    | none, none =>
      if flag node "isPack" then do
        return (← (children node).mapM (templateArgFrom context fuel)).flatten
      else pure []

/-- The template arguments of a specialization. -/
def templateArgs (node : Json) (context : DeclId) : ModelM (List TemplateArg) := do
  let args := (children node).filter fun c => kind c == "TemplateArgument"
  return (← args.mapM (templateArgFrom context (node.depth + 1))).flatten

/-- The key of a specialization of a template. -/
def specializationKey (m : Model) (template : DeclId) (args : List TemplateArg) : String :=
  keyIn template ("spec:<" ++ m.argsText args ++ ">")

/-- Lists a specialization in its template, once. -/
def listSpecialization (template d : DeclId) : ModelM Unit :=
  Model.modifyTemplate template fun info =>
    if info.specializations.contains d then info
    else { info with specializations := info.specializations ++ [d] }

/-- Declares a specialization of a class template. -/
def specializationDecl (visit : Visitor) (node : Json) (template : DeclId) (access : Access) :
    IngestM Unit := do
  let parent := ((← model).decl template).parent.getD Model.root
  let args ← templateArgs node parent
  let key := specializationKey (← model) template args
  let d ← recordDecl visit node parent access (some ⟨key, some ⟨template, args⟩⟩)
  listSpecialization template d

/-- Declares a class template with its pattern and the specializations that the dump lists in it. -/
def classTemplateDecl (visit : Visitor) (source : Source) (node : Json) (parent : DeclId)
    (access : Access) : IngestM Unit := do
  let name := text node "name"
  let params ← templateParams node parent
  let (template, _) ← upsert (keyIn parent ("tmpl:" ++ name)) parent name access false
    (pure (.classTemplate { params }))
  (children node).forM fun child => do
    observe child
    if has child "loc" then
      if kind child = "CXXRecordDecl" ∧ flag child "isImplicit" = false then
        let pattern ← recordDecl visit child parent access (some ⟨keyIn template "pattern", none⟩)
        Model.modifyTemplate template fun info => { info with pattern := some pattern }
      else if kind child = "ClassTemplateSpecializationDecl" ∧
          inMainFile source (← getThe Progress).file = true then
        specializationDecl visit child template access
      else
        passOver child

/-! ## Functions -/

/-- The class that an out-of-line definition belongs to, or else the scope it stands in. -/
def ownerOf (node : Json) (scope : DeclId) : IngestM DeclId := do
  let nodes := (← getThe Progress).nodes
  let owner := ((node.get? "parentDeclContextId").bind Json.str?).bind fun id => nodes.lookup id
  return owner.getD scope

/-- The member of the pattern of a class template that a member of a specialization comes from: the
first one with the name and the number of parameters. -/
def memberPattern? (m : Model) (owner : DeclId) (name : String) (arity : Nat) : Option DeclId := do
  let spec ← (← m.record? owner).specialization
  let pattern ← (← m.template? spec.template).pattern
  (m.membersNamed pattern name).find? fun d =>
    (m.function? d).any fun f => f.params.length == arity

/-- The parameters after a redeclaration: a later name or default argument replaces an earlier one,
but none takes it away. -/
def mergeParams (old new : List ParamInfo) : List ParamInfo :=
  if old.length ≠ new.length then new
  else
    (old.zip new).map fun (o, n) =>
      { o with
        name := if n.name.isEmpty then o.name else n.name
        default? := n.default?.orElse fun _ => o.default? }

/-- What a node of a function says about it. -/
structure FunctionNode where
  params : List ParamInfo
  defined : Bool
  deleted : Bool
  mangledName : Option String
  memberPattern : Option DeclId

/-- What is known of a function after a further declaration of it. -/
def mergeFunction (created : Bool) (n : FunctionNode) (info : FunctionInfo) : FunctionInfo :=
  let info :=
    { info with
      params := if created then n.params else mergeParams info.params n.params
      defined := if created then n.defined else info.defined || n.defined
      deleted := info.deleted || n.deleted
      mangledName := n.mangledName.orElse fun _ => info.mangledName }
  match n.memberPattern with
  | some pattern =>
    { info with
      templated := .memberSpecialization
      specialization := .implicitInstantiation
      pattern := some pattern }
  | none => info

/-- The function type that the spelling of a type means, if it is one. -/
def protoOf? (m : Model) (t : TypeId) : Option FunctionProto :=
  match (m.node t).kind with
  | .function proto => some proto
  | _ => none

/-- The parameters of a function. -/
def functionParams (source : Source) (node : Json) (context : DeclId) : IngestM (List ParamInfo) :=
  ((children node).filter fun c => kind c == "ParmVarDecl").mapM fun param => do
    let default? ← defaultArgument source.text param
    let type ← typeOf (qualType? param) context
    return { name := text param "name", type, default? }

/-- How a member function is declared. -/
def methodOf (node : Json) (proto : Option FunctionProto) : MethodInfo :=
  { isConst := proto.any fun p => p.quals.contains .const
    isVolatile := proto.any fun p => p.quals.contains .volatile
    isStatic := text node "storageClass" == "static"
    isVirtual := flag node "virtual"
    isPure := flag node "pure" }

/-- The role of a function in its class. -/
def specialOf (node : Json) (owner : DeclId) (params : List ParamInfo) : ModelM SpecialMember :=
  match kind node with
  | "CXXConstructorDecl" =>
    Model.askAlong (·.wayToConstructorKind params) (·.constructorKind owner params)
  | "CXXDestructorDecl" => return .destructor
  | "CXXConversionDecl" => return .conversion
  | _ => return (Operator.ofFunctionName? (text node "name")).elim .none .operator

/-- The key of a function: its scope, name and parameter types, and whether it is a `const`
method. -/
def functionKey (m : Model) (owner : DeclId) (name : String) (params : List ParamInfo)
    (isConst : Bool) : String :=
  let signature := Text.joined "," (params.map fun p => m.typeText p.type)
  keyIn owner ("fn:" ++ name ++ "(" ++ signature ++ ")" ++ if isConst then "const" else "")

/-- What a function returns: nothing if it is a constructor or destructor, and what its type says
otherwise. -/
def returnTypeOf (proto : Option FunctionProto) (special : SpecialMember) : ModelM TypeId :=
  match special, proto with
  | .constructor .., _ | .destructor, _ => Model.void
  | _, some p => pure p.ret
  | _, none => Model.internKind (.named "<unknown>")

/-- Declares a function, or merges a redeclaration into it. A given key places a pattern or
specialization of a template outside the list of its scope. -/
def functionDecl (source : Source) (node : Json) (scope : DeclId) (access : Access)
    (detachedKey : Option String) : IngestM DeclId := do
  let name := text node "name"
  let owner ← ownerOf node scope
  let type ← typeOf (qualType? node) owner
  let proto := protoOf? (← model) type
  let params ← functionParams source node owner
  let m ← model
  let method := if (m.record? owner).isSome then some (methodOf node proto) else none
  let special ← specialOf node owner params
  let hasBody := (children node).any fun c => kind c == "CompoundStmt"
  let key := detachedKey.getD (functionKey m owner name params (method.any MethodInfo.isConst))
  let returnType ← returnTypeOf proto special
  let (d, created) ← upsert key owner name access detachedKey.isSome
    (pure (.function { returnType, variadic := proto.any FunctionProto.variadic, method, special }))
  if created && flag node "isImplicit" then
    Model.modifyDecl d fun e => { e with implicit := true }
  let pattern := memberPattern? (← model) owner name params.length
  Model.modifyFunction d <| mergeFunction created {
    params
    defined := hasBody || has node "explicitlyDefaulted" || flag node "isImplicit"
    deleted := flag node "explicitlyDeleted"
    mangledName := (node.get? "mangledName").bind Json.str?
    memberPattern := pattern }
  passOver node
  return d

/-- Declares a node inside a function template: the first function is the pattern, and those behind
it are specializations. -/
def functionTemplateMember (source : Source) (parent : DeclId) (access : Access)
    (template : DeclId) (pattern : Option DeclId) (child : Json) : IngestM (Option DeclId) := do
  observe child
  if has child "loc" && isFunctionKind (kind child) then
    match pattern with
    | none =>
      let d ← functionDecl source child parent access (some (keyIn template "pattern"))
      Model.modifyFunction d fun info => { info with templated := .functionTemplate }
      return some d
    | some pattern =>
      let args ← templateArgs child parent
      let key := specializationKey (← model) template args
      let d ← functionDecl source child parent access (some key)
      Model.modifyFunction d fun info =>
        { info with
          templated := .functionTemplateSpecialization
          specialization := .implicitInstantiation
          pattern := some pattern
          templateArgs := args }
      listSpecialization template d
      return some pattern
  else
    passOver child
    return pattern

/-- Declares a function template with its pattern and specializations. -/
def functionTemplateDecl (source : Source) (node : Json) (parent : DeclId) (access : Access) :
    IngestM Unit := do
  let name := text node "name"
  let patternType :=
    (((children node).find? fun c => isFunctionKind (kind c)).bind qualType?).getD ""
  let params ← templateParams node parent
  let (template, _) ← upsert (keyIn parent ("ftmpl:" ++ name ++ ":" ++ patternType)) parent name
    access false (pure (.functionTemplate { params }))
  let pattern ← (children node).foldlM (functionTemplateMember source parent access template) none
  Model.modifyTemplate template fun info =>
    { info with pattern := info.pattern.orElse fun _ => pattern }

/-! ## Other declarations -/

/-- Declares a field of a class. -/
def fieldDecl (node : Json) (record : DeclId) (access : Access) : IngestM Unit := do
  let name := text node "name"
  let key ←
    if name.isEmpty then unnamedKey record "field" else pure (keyIn record ("field:" ++ name))
  let _ ← upsert key record name access false do
    return .variableDecl {
      type := ← Model.parseType ((qualType? node).getD "int") record
      isField := true }

/-- Declares a variable or a static data member. -/
def varDecl (node : Json) (scope : DeclId) (access : Access) : IngestM Unit := do
  let name := text node "name"
  let owner ← ownerOf node scope
  let (d, _) ← upsert (keyIn owner ("var:" ++ name)) owner name
    (if owner = scope then access else .pub) false do
      return .variableDecl {
        type := ← Model.parseType ((qualType? node).getD "int") owner
        isField := false }
  match (node.get? "mangledName").bind Json.str? with
  | some mangled =>
    Model.modifyDecl d fun e =>
      match e.kind with
      | .variableDecl info =>
        { e with kind := .variableDecl { info with mangledName := some mangled } }
      | _ => e
  | none => pure ()

/-- The enumerators of an enumeration so far: the value of the next one that has none of its own,
the least and the greatest value, zero included, and whether there is any. -/
structure EnumeratorRange where
  next : Int64 := 0
  least : Int64 := 0
  greatest : Int64 := 0
  any : Bool := false
deriving Repr

/-- The range with a further value. -/
def EnumeratorRange.add (r : EnumeratorRange) (value : Int64) : EnumeratorRange :=
  { next := value + 1
    least := if value < r.least then value else r.least
    greatest := if r.greatest < value then value else r.greatest
    any := true }

/-- The integer type of an enumeration that fixes none: `unsigned int` if the values need it,
`long` if they need more than 32 bits, and `int` otherwise. -/
def EnumeratorRange.integerType (r : EnumeratorRange) : Builtin :=
  if 0 ≤ r.least ∧ 2147483647 < r.greatest ∧ r.greatest ≤ 4294967295 then .uint
  else if 4294967295 < r.greatest ∨ r.least < -2147483648 then .long
  else .int

/-- Declares an enumerator, or gives it a new value. -/
def enumeratorDecl (enum : DeclId) (type : TypeId) (r : EnumeratorRange) (child : Json) :
    IngestM EnumeratorRange := do
  observe child
  if kind child = "EnumConstantDecl" then
    let value := (constantValue? child).getD r.next
    let name := text child "name"
    let (d, _) ← upsert (keyIn enum ("const:" ++ name)) enum name .none false
      (pure (.enumConstant value type))
    Model.modifyDecl d fun e =>
      match e.kind with
      | .enumConstant _ type => { e with kind := .enumConstant value type }
      | _ => e
    passOver child
    return r.add value
  else
    passOver child
    return r

/-- Declares an enumeration with its enumerators, or completes it. -/
def enumDecl (node : Json) (parent : DeclId) (access : Access) : IngestM Unit := do
  let name := text node "name"
  let key ←
    if name.isEmpty then unnamedKey parent "enum" else pure (keyIn parent ("enum:" ++ name))
  let isScoped := has node "scopedEnumTag"
  let (d, _) ← upsert key parent name access false do
    return .enum { isScoped, integerType := ← Model.builtin .int, complete := false }
  let type ← Model.internKind (.enum d)
  let range ← (children node).foldlM (enumeratorDecl d type) {}
  let integerType ←
    match typeUnder? node "fixedUnderlyingType" with
    | some spelling => onModel (Model.parseType spelling parent)
    | none => onModel (Model.builtin range.integerType)
  Model.modifyDecl d fun e =>
    match e.kind with
    | .enum info =>
      { e with kind := .enum { info with
          integerType
          complete := info.complete || range.any || isScoped || has node "fixedUnderlyingType" } }
    | _ => e

/-- Declares a typedef. One that names an unnamed class stands for the class declared just before
it. -/
def typedefDecl (node : Json) (parent : DeclId) (access : Access) (unnamed : Option DeclId) :
    IngestM Unit := do
  let name := text node "name"
  let spelling := (qualType? node).getD ""
  let namesUnnamed := Text.contains "(unnamed" spelling || Text.contains "(anonymous" spelling
  let _ ← upsert (keyIn parent ("typedef:" ++ name)) parent name access false do
    match if namesUnnamed then unnamed else none with
    | some record => return .typedef (← Model.internKind (.record record))
    | none => return .typedef (← Model.parseType spelling parent)

/-! ## Visiting -/

/-- What a visit of members carries from one to the next: the access, and the unnamed class that a
typedef may name. -/
structure MemberState where
  access : Access
  unnamed : Option DeclId

/-- Declares a node in a scope. -/
def declare (visit : Visitor) (source : Source) (scope : DeclId) (s : MemberState) (node : Json) :
    IngestM MemberState := do
  match kind node with
  | "AccessSpecDecl" => return { s with access := Access.ofSpelling (text node "access") }
  | "LinkageSpecDecl" | "ExportDecl" => visit node scope s.access
  | "NamespaceDecl" => namespaceDecl visit node scope
  | "UsingDirectiveDecl" =>
    onModel (usingDirective node scope)
    passOver node
  | "CXXRecordDecl" | "RecordDecl" =>
    if flag node "isImplicit" then
      passOver node
    else
      let d ← recordDecl visit node scope s.access none
      if (text node "name").isEmpty then
        return { s with unnamed := some d }
  | "ClassTemplateDecl" => classTemplateDecl visit source node scope s.access
  | "ClassTemplateSpecializationDecl" =>
    let m ← model
    let template := (m.membersNamed scope (text node "name")).find? fun d =>
      match (m.decl d).kind with
      | .classTemplate _ => true
      | _ => false
    match template with
    | some template => specializationDecl visit node template s.access
    | none => passOver node
  | "FunctionTemplateDecl" => functionTemplateDecl source node scope s.access
  | "EnumDecl" => enumDecl node scope s.access
  | "TypedefDecl" | "TypeAliasDecl" =>
    typedefDecl node scope s.access s.unnamed
    passOver node
  | "FieldDecl" =>
    fieldDecl node scope s.access
    passOver node
  | "VarDecl" =>
    varDecl node scope s.access
    passOver node
  | k =>
    if isFunctionKind k then
      let _ ← functionDecl source node scope s.access none
    else
      passOver node
  return s

/-- Follows the locations of a node, and declares it if it is in the main file. -/
def visitMember (visit : Visitor) (source : Source) (scope : DeclId) (s : MemberState)
    (node : Json) : IngestM MemberState := do
  observe node
  if has node "loc" && inMainFile source (← getThe Progress).file then
    declare visit source scope s node
  else
    passOver node
    return s

/-- Visits the declarations inside a node, down to the depth `fuel`. -/
def visitMembers (source : Source) : Nat → Visitor
  | 0, _, _, _ => pure ()
  | fuel + 1, node, scope, access => do
    let _ ← (children node).foldlM (visitMember (visitMembers source fuel) source scope)
      ⟨access, none⟩

/-- Visits a whole dump. -/
def visitDump (source : Source) (node : Json) : IngestM Unit := do
  observe node
  visitMembers source (node.depth + 1) node Model.root .none

/-- A computation on the model that may give up. -/
abbrev DumpM := ExceptT IngestError ModelM

/-- Ingests a dump that has been read and answers with the number of declarations it added. -/
def ingestNode (source : Source) (node : Json) : DumpM Nat := do
  let before ← get
  let (outcome, after) := (visitDump source node).run.run ⟨before, none, [], []⟩
  set after.model
  match outcome with
  | .ok () => return after.model.decls.size - before.decls.size
  | .error e => throw e

/-- Ingests a dump and answers with the number of declarations it added. -/
def ingest (source : Source) (dump : String) : DumpM Nat :=
  match Json.read? dump with
  | some node => ingestNode source node
  | none => throw .malformed

end CppReflect.Ast
