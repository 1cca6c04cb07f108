import CppReflect.Operation.Basic

/-!
# The table of operations

All operations in the order in which they are listed, each with the names of its arguments.
-/

namespace CppReflect.Operation

/-! ## Shapes of operations -/

/-- Tells whether what an argument names is of some kind. -/
def isKind (group : Group) (name arg : String) (f : Model → Handle → Bool) : Operation where
  name
  group
  action a := .read (.truth false) fun m => .truth (f m (a.decl arg))

/-- The way to a type alone. -/
def alone (_ : Model) (t : TypeId) : List TypeId := [t]

/-- A question on the type that an argument names, with its way. -/
def onType (group : Group) (name arg : String) (absent : Reply)
    (way : Model → TypeId → List TypeId) (f : Model → Handle → Reply) : Operation where
  name
  group
  action a := .explore absent (fun m => Query.wayFrom m (a.type arg) (way m)) (f · (a.type arg))

/-- Tells whether the type that an argument names is of some kind. -/
def isTypeKind (name : String) (way : Model → TypeId → List TypeId)
    (f : Model → TypeId → Bool) : Operation :=
  onType .types name "ty" (.truth false) way fun m t => .truth (Query.typeIs m t (f m))

/-- Tells a text. -/
def tellsText (name : String) (absent : String) (f : Model → Handle → String) : Operation where
  name
  group := .scopes
  action a := .read (.text absent) fun m => .text (f m (a.decl "scope"))

/-- Lists declarations that belong to what an argument names. -/
def lists (group : Group) (name arg : String) (f : Model → Handle → List DeclId) :
    Operation where
  name
  group
  action a := .read (.decls []) fun m => .decls (f m (a.decl arg))

/-- Lists declarations that belong to the class that an argument names, maybe by a typedef. -/
def listsOfClass (name arg : String) (f : Model → Handle → List DeclId) : Operation where
  name
  group := .functions
  action a := .explore (.decls []) (Query.wayBehind · (a.decl arg)) fun m =>
    .decls (f m (a.decl arg))

/-- Finds a declaration that belongs to what an argument names. -/
def finds (group : Group) (name arg : String) (f : Model → Handle → Option DeclId) :
    Operation where
  name
  group
  action a := .read (.decl 0) fun m => .decl (handleOf (f m (a.decl arg)))

/-- Finds a type that belongs to what an argument names. -/
def findsType (group : Group) (name arg : String) (f : Model → Handle → Handle) :
    Operation where
  name
  group
  action a := .read (.type 0) fun m => .type (f m (a.decl arg))

/-- Makes a type out of a type. -/
def makesType (name arg : String) (f : Handle → ModelM Handle) : Operation where
  name
  group := .types
  action a := .intern (.type 0) (.type <$> f (a.type arg))

/-- Tells a number that an interpreter knows, and else `absent`. -/
def measures (group : Group) (name : String) (absent : Int)
    (f : Arguments → ServiceM Int) : Operation where
  name
  group
  action a := .ask (.number absent) (.number <$> Service.orDefault (f a) absent)

/-- Tells an address that an interpreter knows, and else the null address. -/
def locates (name : String) (f : Arguments → ServiceM UInt64) : Operation where
  name
  group := .functions
  action a := .ask (.address 0) (.address <$> Service.orDefault (f a) 0)

/-- Has the interpreter run something, and tells its status. -/
def runsCode (name : String) (f : Arguments → StateM Workbench Int) : Operation where
  name
  group := .system
  action a := .ask (.number 1) (.number <$> f a)

/-- Concerns the session as a whole. -/
def manages (group : Group) (name : String) (f : Arguments → SessionM Reply) :
    Operation where
  name
  group
  action a := .manage (f a)

/-! ## The session and its interpreters -/

/-- The version of the operations. -/
def version : String := "CppInterOp version 0.1.0"

/-- Checks declarations and makes them part of the session, silently if asked to. -/
def declare (code : String) (silent : Bool) : StateM Workbench Int := do
  if silent then
    modify fun w => { w with interpreter := w.interpreter.silence }
    let status ← Service.status (Service.declare code)
    modify fun w => { w with interpreter := w.interpreter.unsilence }
    return status
  else Service.status (Service.declare code)

/-- The value of an expression; all bits are set if there is none. -/
def evaluate (code : String) : StateM Workbench Reply := do
  match ← (Service.evaluate code).run with
  | .ok value => return .evaluation value false
  | .error _ => return .evaluation (-1) true

/-- The program to ask, which has a default name. -/
def program (name standard : String) : String := if name.isEmpty then standard else name

/-- Makes an interpreter active, if a number is given. -/
def activate (number : Option Nat) : SessionM Bool :=
  number.elim (return false) Session.activate

/-- Changes the libraries of the interpreter. -/
def changeLibraries (f : LibraryManager → Machine → LibraryManager) : StateM Workbench Reply :=
  modifyGet fun w =>
    (.nothing, { w with interpreter := { w.interpreter with
      libraries := f w.interpreter.libraries w.host.machine } })

/-- The path of the library that a stem means; empty if there is none. -/
def libraryPath (stem : String) : ServiceM String := do
  match (← Service.libraries).find (← Service.machine) stem with
  | .ok path => return path.getD ""
  | .error _ => return ""

/-- The operations on the session and its interpreters. -/
def systemOperations : List Operation := [
  manages .system "GetVersion" fun _ => return .text version,
  { name := "Demangle", group := .system, action := fun a =>
      let name := a.text "mangled_name"
      .ask (.text name) (.text <$> Service.orDefault (Service.demangle name) name) },
  manages .system "EnableDebugOutput" fun a => do
    modify fun s => { s with debugOutput := a.flag "value" }
    return .nothing,
  manages .system "IsDebugOutputEnabled" fun _ => return .truth (← get).debugOutput,
  manages .system "DumpScope" fun _ => return .nothing,
  manages .system "CreateInterpreter" fun a =>
    return .interpreter (some (← Session.createInterpreter (a.texts "args"))),
  manages .system "DeleteInterpreter" fun a =>
    .truth <$> Session.deleteInterpreter (a.interpreter "interp"),
  manages .system "ActivateInterpreter" fun a => .truth <$> activate (a.interpreter "interp"),
  manages .system "GetInterpreter" fun _ => return .interpreter (← get).registry.active,
  manages .system "UseExternalInterpreter" fun a => do
    let _ ← activate (a.interpreter "interp")
    return .nothing,
  runsCode "Process" fun a => Service.status (Service.process (a.text "code")),
  runsCode "Declare" fun a => declare (a.text "code") (a.flag "silent"),
  { name := "Evaluate", group := .system, action := fun a =>
      .ask (.evaluation (-1) true) (evaluate (a.text "code")) },
  { name := "AddIncludePath", group := .system, action := fun a =>
      .ask .nothing do
        Service.orDefault (Service.addIncludePath (a.text "dir")) ()
        return .nothing },
  { name := "GetIncludePaths", group := .system, action := fun a =>
      .ask (.texts []) (.texts <$>
        Service.orDefault (Service.includePaths (a.flag "with_system") (a.flag "with_flags")) []) },
  { name := "GetResourceDir", group := .system, action := fun _ =>
      .ask (.text "") (.text <$> Service.orDefault Service.resourceDir "") },
  manages .system "DetectResourceDir" fun a =>
    .text <$> Session.onHost (Toolchain.detectResourceDir (program (a.text "clang_binary") "clang")),
  manages .system "DetectSystemCompilerIncludePaths" fun a =>
    .texts <$> Session.onHost (Toolchain.detectIncludePaths (program (a.text "compiler") "c++")),
  { name := "AddSearchPath", group := .system, action := fun a =>
      .ask .nothing (changeLibraries fun l _ =>
        l.addSearchPath (a.text "dir") (a.flag "is_user") (a.flag "prepend")) },
  { name := "LoadLibrary", group := .system, action := fun a =>
      .ask (.truth false) (.truth <$>
        Service.succeeds (Service.loadLibrary (a.text "lib_stem") (a.flag "lookup"))) },
  { name := "LookupLibrary", group := .system, action := fun a =>
      .ask (.text "") (.text <$> Service.orDefault (libraryPath (a.text "lib_name")) "") },
  { name := "UnloadLibrary", group := .system, action := fun a =>
      .ask .nothing (changeLibraries fun l machine =>
        match l.unload machine (a.text "lib_stem") with
        | .ok unloaded => unloaded
        | .error _ => l) },
  manages .system "ObjToString" fun a =>
    .text <$> Session.objectText (a.text "type_name") (a.object "obj")]

/-! ## Scopes -/

/-- The operations on scopes and classes. -/
def scopeOperations : List Operation := [
  isKind .scopes "IsAggregate" "scope" Query.isAggregate,
  isKind .scopes "IsNamespace" "scope" Query.isNamespace,
  isKind .scopes "IsClass" "scope" Query.isClass,
  isKind .scopes "IsFunction" "scope" Query.isFunction,
  isKind .scopes "IsComplete" "scope" Query.isComplete,
  measures .scopes "SizeOf" 0 fun a => return (← Query.sizeOfScope (a.decl "scope")).toNat,
  isKind .scopes "IsTemplate" "scope" Query.isTemplate,
  isKind .scopes "IsTemplateSpecialization" "scope" Query.isTemplateSpecialization,
  isKind .scopes "IsTypedefed" "scope" Query.isTypedef,
  isKind .scopes "IsAbstract" "klass" Query.isAbstract,
  isKind .scopes "IsEnumScope" "scope" Query.isEnum,
  isKind .scopes "IsEnumConstant" "scope" Query.isEnumConstant,
  isKind .scopes "IsVariable" "scope" Query.isVariable,
  onType .scopes "IsLambdaClass" "ty" (.truth false) Model.wayToRecord fun m t =>
    .truth (Query.isLambdaClass m t),
  isKind .scopes "IsClassPolymorphic" "klass" Query.isPolymorphic,
  tellsText "GetName" Query.unnamed Query.name,
  tellsText "GetCompleteName" Query.unnamed Query.completeName,
  tellsText "GetQualifiedName" Query.unnamed Query.qualifiedName,
  tellsText "GetQualifiedCompleteName" Query.unnamed Query.qualifiedCompleteName,
  lists .scopes "GetUsingNamespaces" "scope" Query.usingNamespaces,
  { name := "GetGlobalScope", group := .scopes, action := fun _ =>
      .read (.decl 0) fun _ => .decl Model.root.handle },
  { name := "GetUnderlyingScope", group := .scopes, action := fun a =>
      .explore (.decl (a.decl "scope")) (Query.wayBehind · (a.decl "scope")) fun m =>
        .decl (Query.underlyingScope m (a.decl "scope")) },
  { name := "GetScope", group := .scopes, action := fun a =>
      .explore (.decl 0) (Query.wayToScope · (a.text "name") (a.decl "parent")) fun m =>
        .decl (handleOf (Query.scopeNamed? m (a.text "name") (a.decl "parent"))) },
  { name := "GetScopeFromCompleteName", group := .scopes, action := fun a =>
      .explore (.decl 0) (Query.wayBySegments · 0 (Query.globalSegments (a.text "name"))) fun m =>
        .decl (Query.scopeByCompleteName m (a.text "name")) },
  { name := "GetNamed", group := .scopes, action := fun a =>
      .explore (.decl 0) (Query.wayBehind · (a.decl "parent")) fun m =>
        .decl (handleOf (Query.named? m (a.text "name") (a.decl "parent"))) },
  finds .scopes "GetParentScope" "scope" Query.parentScope?,
  onType .scopes "GetScopeFromType" "ty" (.decl 0) Model.wayToRecord fun m t =>
    .decl (handleOf (Query.scopeOfType? m t)),
  { name := "GetNumBases", group := .scopes, action := fun a =>
      .read (.number 0) fun m => .number (Query.baseCount m (a.decl "klass")) },
  { name := "GetBaseClass", group := .scopes, action := fun a =>
      .explore (.decl 0) (Query.wayToBaseClass · (a.decl "klass") (a.count "ibase")) fun m =>
        .decl (handleOf (Query.baseClass? m (a.decl "klass") (a.count "ibase"))) },
  { name := "IsSubclass", group := .scopes, action := fun a =>
      let derived := a.decl "derived"
      let base := a.decl "base"
      .read (.truth (derived == base && derived != 0)) fun m =>
        .truth (Query.isSubclass m derived base) },
  { name := "GetBaseClassOffset", group := .scopes, action := fun a =>
      let derived := a.decl "derived"
      let base := a.decl "base"
      if derived = base then .manage (return .number 0)
      else .ask (.number (-1)) (.number <$> Service.orDefault
        (do return (← Query.baseClassOffset derived base).toInt) (-1)) },
  { name := "GetAllCppNames", group := .scopes, action := fun a =>
      .read (.texts []) fun m => .texts (Query.allNames m (a.decl "scope")) },
  { name := "GetEnums", group := .scopes, action := fun a =>
      .read (.texts []) fun m => .texts (Query.enumNames m (a.decl "scope")) }]

/-! ## Types -/

/-- The operations on types. -/
def typeOperations : List Operation := [
  isTypeKind "IsBuiltin" alone Model.isBuiltin,
  isTypeKind "IsEnumType" alone Model.isEnum,
  isTypeKind "IsRecordType" alone Model.isRecord,
  isTypeKind "IsPODType" Model.wayToElement Model.isPod,
  isTypeKind "IsPointerType" alone Model.isPointer,
  isTypeKind "IsReferenceType" alone Model.isReference,
  isTypeKind "IsLValueReferenceType" alone Model.isLvalueReference,
  isTypeKind "IsRValueReferenceType" alone Model.isRvalueReference,
  isTypeKind "IsFunctionPointerType" Model.wayToFunction Model.isFunctionPointer,
  { name := "IsSmartPtrType", group := .types, action := fun a =>
      .intern (.truth false) (.truth <$> Query.isSmartPointer (a.type "ty")) },
  onType .types "GetValueKind" "ty" (.valueKind .none) alone fun m t =>
    .valueKind (Query.valueKind m t),
  onType .types "GetPointeeType" "ty" (.type 0) alone fun m t => .type (Query.pointeeType m t),
  makesType "GetPointerType" "ty" (Query.mapType · Model.pointer),
  { name := "GetReferencedType", group := .types, action := fun a =>
      .intern (.type 0) (.type <$> Query.referenceType (a.type "ty") (a.flag "rvalue")) },
  onType .types "GetNonReferenceType" "ty" (.type 0) alone fun m t =>
    .type (Query.nonReferenceType m t),
  { name := "GetTypeAsString", group := .types, action := fun a =>
      .read (.text "") fun m => .text (Query.typeText m (a.type "ty")) },
  makesType "GetCanonicalType" "ty" (Query.mapType · Model.canonical),
  makesType "GetUnderlyingType" "ty" (Query.mapType · Model.underlying),
  { name := "HasTypeQualifier", group := .types, action := fun a =>
      .explore (.truth false) (fun m => Query.wayFrom m (a.type "ty") (alone m)) fun m =>
        .truth (Query.hasQuals m (a.type "ty") (a.quals "qual")) },
  { name := "AddTypeQualifier", group := .types, action := fun a =>
      .intern (.type 0) (.type <$> Query.addQuals (a.type "ty") (a.quals "qual")) },
  { name := "RemoveTypeQualifier", group := .types, action := fun a =>
      .intern (.type 0) (.type <$> Query.removeQuals (a.type "ty") (a.quals "qual")) },
  measures .types "GetSizeOfType" 0 fun a => return (← Query.sizeOfType (a.type "ty")).toNat,
  { name := "GetType", group := .types, action := fun a =>
      .intern (.type 0) (.type <$> Query.typeNamed (a.text "name")) },
  { name := "GetTypeFromScope", group := .types, action := fun a =>
      .intern (.type 0) (.type <$> Query.typeOfScope (a.decl "klass")) },
  makesType "GetComplexType" "element" Query.complexType,
  findsType .types "GetIntegerTypeFromEnumScope" "scope" Query.integerTypeOfScope,
  onType .types "GetIntegerTypeFromEnumType" "ty" (.type 0) alone fun m t =>
    .type (Query.integerTypeOfType m t),
  onType .types "GetDimensions" "ty" (.numbers []) Model.wayToElement fun m t =>
    .numbers (Query.dimensions m t),
  { name := "IsTypeDerivedFrom", group := .types, action := fun a =>
      .explore (.truth false) (Query.wayOfDerivation · (a.type "derived") (a.type "base")) fun m =>
        .truth (Query.isTypeDerivedFrom m (a.type "derived") (a.type "base")) }]

/-! ## Functions -/

/-- Tells a number about a function. -/
def counts (name : String) (f : Model → Handle → Nat) : Operation where
  name
  group := .functions
  action a := .read (.number 0) fun m => .number (f m (a.decl "func"))


/-- The operations on functions. -/
def functionOperations : List Operation := [
  listsOfClass "GetClassMethods" "klass" Query.classMethods,
  listsOfClass "GetFunctionTemplatedDecls" "klass" Query.templatedMethods,
  isKind .functions "HasDefaultConstructor" "scope" Query.hasDefaultConstructor,
  finds .functions "GetDefaultConstructor" "scope" Query.defaultConstructor?,
  finds .functions "GetDestructor" "scope" Query.destructor?,
  { name := "GetFunctionsUsingName", group := .functions, action := fun a =>
      .explore (.decls []) (Query.wayToScope · (a.text "name") (a.decl "scope")) fun m =>
        .decls (Query.functionsNamed m (a.decl "scope") (a.text "name")) },
  findsType .functions "GetFunctionReturnType" "func" Query.returnType,
  counts "GetFunctionNumArgs" Query.parameterCount,
  counts "GetFunctionRequiredArgs" Query.requiredCount,
  { name := "GetFunctionArgType", group := .functions, action := fun a =>
      .read (.type 0) fun m => .type (Query.parameterType m (a.decl "func") (a.count "iarg")) },
  { name := "GetFunctionArgName", group := .functions, action := fun a =>
      .read (.text "") fun m => .text (Query.parameterName m (a.decl "func") (a.count "iarg")) },
  { name := "GetFunctionArgDefault", group := .functions, action := fun a =>
      .explore (.text "") (Query.wayToDefault · (a.decl "func") (a.count "iarg")) fun m =>
        .text (Query.parameterDefault m (a.decl "func") (a.count "iarg")) },
  { name := "GetFunctionSignature", group := .functions, action := fun a =>
      .read (.text "<unknown>") fun m => .text (Query.signature m (a.decl "func")) },
  isKind .functions "IsFunctionDeleted" "func" Query.isDeleted,
  isKind .functions "IsTemplatedFunction" "func" Query.isTemplatedFunction,
  { name := "ExistsFunctionTemplate", group := .functions, action := fun a =>
      .read (.truth false) fun m =>
        .truth (Query.existsFunctionTemplate m (a.text "name") (a.decl "parent")) },
  { name := "GetClassTemplatedMethods", group := .functions, action := fun a =>
      .read (.decls []) fun m =>
        .decls (Query.functionTemplatesNamed m (a.text "name") (a.decl "parent")) },
  isKind .functions "IsMethod" "func" Query.isMethod,
  isKind .functions "IsPublicMethod" "func" (Query.isMethodWith .pub),
  isKind .functions "IsProtectedMethod" "func" (Query.isMethodWith .prot),
  isKind .functions "IsPrivateMethod" "func" (Query.isMethodWith .priv),
  isKind .functions "IsConstructor" "func" Query.isConstructor,
  isKind .functions "IsDestructor" "func" Query.isDestructor,
  isKind .functions "IsStaticMethod" "func" Query.isStaticMethod,
  isKind .functions "IsVirtualMethod" "func" Query.isVirtualMethod,
  isKind .functions "IsConstMethod" "func" Query.isConstMethod,
  locates "GetFunctionAddress" fun a => Query.functionAddress (a.decl "func"),
  locates "GetFunctionAddressFromName" fun a => Service.symbolAddress (a.text "mangled_name"),
  locates "GetFunctionAddressFromMethod" fun a => Query.methodAddress (a.decl "method"),
  { name := "BestOverloadFunctionMatch", group := .overloads, action := fun a =>
      .ask (.decl 0) do
        let d ← Service.orDefault (Overload.best? (a.decls "candidates")
          (a.templateArgs "explicit_types") (a.templateArgs "arg_types")) none
        return .decl (handleOf d) },
  { name := "GetOperator", group := .functions, action := fun a =>
      .read (.decls []) fun m =>
        .decls (Query.operators m (a.decl "scope") (a.operator "operator") (a.arity "arity")) },
  { name := "GetOperatorArity", group := .functions, action := fun a =>
      .read (.arity .both) fun m => .arity (Query.operatorArity m (a.decl "func")) },
  { name := "GetOperatorFromSpelling", group := .functions, action := fun a =>
      .manage (return .operator (Operator.ofSpelling (Text.trimmed (a.text "spelling")))) },
  { name := "GetSpellingFromOperator", group := .functions, action := fun a =>
      .manage (return .text (a.operator "operator").spelling) }]

/-! ## Variables -/

/-- The operations on variables and enumerators. -/
def variableOperations : List Operation := [
  lists .variables "GetDatamembers" "scope" Query.dataMembers,
  lists .variables "GetStaticDatamembers" "scope" Query.staticDataMembers,
  { name := "GetEnumConstantDatamembers", group := .variables, action := fun a =>
      .read (.decls []) fun m =>
        .decls (Query.enumConstantMembers m (a.decl "scope") (a.flag "include_enum_class")) },
  { name := "LookupDatamember", group := .variables, action := fun a =>
      .read (.decl 0) fun m =>
        .decl (handleOf (Query.dataMemberNamed? m (a.text "name") (a.decl "parent"))) },
  findsType .variables "GetVariableType" "var" Query.variableType,
  measures .variables "GetVariableOffset" 0 fun a =>
    return (← Query.variableOffset (a.decl "var") (a.decl "parent")).toInt,
  isKind .variables "IsPublicVariable" "var" (Query.isVariableWith .pub),
  isKind .variables "IsProtectedVariable" "var" (Query.isVariableWith .prot),
  isKind .variables "IsPrivateVariable" "var" (Query.isVariableWith .priv),
  isKind .variables "IsStaticVariable" "var" Query.isStaticVariable,
  { name := "IsConstVariable", group := .variables, action := fun a =>
      .explore (.truth false) (Query.wayToVariableType · (a.decl "var")) fun m =>
        .truth (Query.isConstVariable m (a.decl "var")) },
  lists .variables "GetEnumConstants" "scope" Query.enumConstants,
  findsType .variables "GetEnumConstantType" "scope" Query.enumConstantType,
  { name := "GetEnumConstantValue", group := .variables, action := fun a =>
      .read (.number 0) fun m => .number (Query.enumConstantValue m (a.decl "scope")).toInt }]

/-! ## Templates and objects -/

/-- The operations on templates. -/
def templateOperations : List Operation := [
  { name := "InstantiateTemplate", group := .templates, action := fun a =>
      .ask (.decl 0) do
        let d ← Service.orDefault (some <$> Query.instantiate (a.decl "tmpl")
          (a.templateArgs "args") (a.flag "instantiate_body")) none
        return .decl (handleOf d) },
  { name := "GetClassTemplateInstantiationArgs", group := .templates, action := fun a =>
      .read (.templateArgs []) fun m =>
        .templateArgs (Query.instantiationArgs m (a.decl "klass")) }]

/-- The operations on objects. -/
def objectOperations : List Operation := [
  manages .objects "Allocate" fun a =>
    .object <$> Session.allocate (a.decl "scope") (a.count "count"),
  manages .objects "Deallocate" fun a => do
    Session.deallocate (a.decl "scope") ((a.object "address").map Object.address)
    return .nothing,
  manages .objects "Construct" fun a =>
    .object <$> Session.construct (a.decl "scope") (a.arena "arena") (a.count "count"),
  manages .objects "Destruct" fun a =>
    .truth <$> Session.destruct ((a.object "object").map Object.address) (a.decl "scope")
      (a.flag "with_free") (a.count "count"),
  manages .objects "MakeFunctionCallable" fun a =>
    .callable <$> Session.callable (a.decl "func")]

/-! ## The table -/

/-- All operations. -/
def table : List Operation :=
  systemOperations ++ scopeOperations ++ typeOperations ++ functionOperations ++
    variableOperations ++ templateOperations ++ objectOperations

/-- The names of all operations. -/
def names : List String := table.map Operation.name

/-- The operation of a name. -/
def named? (name : String) : Option Operation := table.find? fun op => op.name == name

/-- The operations without which no interpreter can be had. -/
def critical : List String := ["GetInterpreter", "CreateInterpreter"]

end CppReflect.Operation
