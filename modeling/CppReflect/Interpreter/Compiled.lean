import CppReflect.Interpreter.Basic

/-!
# Compiled interpreters

The operations of an interpreter that drives a compiler. Declarations are checked behind the prelude
before they are added to it, and with a compiler that can dump syntax trees the grown prelude is
ingested into the model. Expressions and statements are wrapped into functions, compiled behind the
prelude into a library, and run.
-/

namespace CppReflect.DriverSession

/-- The session, when the backend is one. -/
def current : ServiceM DriverSession := do
  match (← getThe Workbench).interpreter.backend with
  | .compiled s => return s
  | .rehearsed _ => throw .invalidDecl

/-- Replaces the session. -/
def put (s : DriverSession) : ServiceM Unit := Service.setBackend (.compiled s)

/-- Draws the next number. -/
def nextSerial : ServiceM Nat := do
  let s ← current
  put { s with serial := s.serial + 1 }
  return s.serial + 1

/-- The prelude with code behind it. -/
def withPrelude (s : DriverSession) (code : String) : String := s.prelude ++ "\n" ++ code ++ "\n"

/-- A C function without parameters around some text. -/
def cFunction (result symbol body : String) : String :=
  "extern \"C\" " ++ result ++ " " ++ symbol ++ "() \x7b" ++ body ++ "\x7d"

/-- The function that statements are run in. -/
def statementFunction (symbol code : String) : String :=
  cFunction "void" symbol ("\n" ++ code ++ "\n;")

/-- Checks code behind the prelude. -/
def check (s : DriverSession) (code : String) : ServiceM (Except CompilerError Unit) := do
  let path ← Host.write "check.cpp" (s.withPrelude code)
  tryCatch (do s.toolchain.check path; return .ok ()) fun e => return .error e

/-- Checks whether code consists of declarations or else of statements. -/
def parse (code : String) : ServiceM CodeUnit := do
  let serial ← nextSerial
  let s ← current
  match ← s.check code with
  | .ok () => return { code, kind := .declarations }
  | .error (.compile diagnostics) =>
    match ← s.check (statementFunction ("__cppi_stmt_" ++ toString serial) code) with
    | .ok () => return { code, kind := .statements }
    | .error _ => throw (.compile diagnostics)
  | .error e => throw e

/-- Loads a library that was compiled. -/
def loadArtifact (path : String) (permanent : Bool) : ServiceM String := do
  let files := (← Service.machine).files
  let canonical ← Service.orElse (.library (.notFound path)) (files.existingPath? path)
  Service.load canonical permanent
  return canonical

/-- Compiles and loads the prelude, if it has changed. -/
def ensureLibrary : ServiceM Unit := do
  let s ← current
  if s.dirty then
    let path ← s.toolchain.compileShared "cppi_session" s.prelude []
    let _ ← loadArtifact path true
    put { s with dirty := false }

/-- Compiles code behind the prelude into a library of its own, runs a function of it and unloads
the library. No library of the machine is known to have the function. -/
def runTransient {α : Type} (code symbol : String) : ServiceM α := do
  ensureLibrary
  let s ← current
  let path ← s.toolchain.compileShared "cppi_transient" (s.withPrelude code) []
  let canonical ← loadArtifact path false
  let loaded ← Service.ofLoad ((← Service.libraries).unload (← Service.machine) canonical)
  Service.setLibraries loaded
  throw (.symbolNotFound symbol)

/-- Ingests the prelude into the model, with a compiler that can dump syntax trees. -/
def reingest : ServiceM Unit := do
  let s ← current
  if s.toolchain.isClang then
    let path ← Host.write "input.cpp" s.prelude
    let dump ← s.toolchain.syntaxTree path
    Service.onDump (Ast.ingest { text := s.prelude, mainFile := path } dump)

/-- Makes code part of the session: declarations join the prelude, unless they cannot be ingested,
and statements are run. Declarations whose ingestion is given up in the middle stay. -/
def execute (unit : CodeUnit) : ServiceM Unit := do
  match unit.kind with
  | .declarations =>
    let s ← current
    put { s with prelude := s.prelude ++ "\n" ++ unit.code, dirty := true }
    try reingest
    catch e =>
      if e ≠ .excessive then put { ← current with prelude := s.prelude }
      throw e
  | .statements =>
    let symbol := "__cppi_stmt_" ++ toString (← nextSerial)
    runTransient (statementFunction symbol unit.code) symbol

/-- Checks declarations and adds them to the session. -/
def declare (code : String) : ServiceM Unit := do
  let unit ← parse code
  if unit.kind ≠ .declarations then throw (.unsupported "statements cannot be declared")
  execute unit

/-- The value of an expression. -/
def evaluate (expr : String) : ServiceM Int64 := do
  let symbol := "__cppi_eval_" ++ toString (← nextSerial)
  runTransient (cFunction "long long" symbol (" return (long long)(" ++ expr ++ "); ")) symbol

/-- The address of a symbol. No library of the machine is known to have any. -/
def symbolAddress (symbol : String) : ServiceM UInt64 := do
  ensureLibrary
  throw (.symbolNotFound symbol)

/-- The type of pointers to a function, as it is spelled. -/
def pointerSpelling (m : Model) (info : FunctionInfo) : String :=
  let params := info.params.map fun p => m.typeText p.type
  m.printType info.returnType ("(*)(" ++ Model.paramsText params info.variadic ++ ")")

/-- The address of a function that is no member with an object: that of its symbol, or else the one
that a function compiled for the purpose tells. -/
def functionAddress (func : DeclId) : ServiceM UInt64 := do
  let m ← Service.model
  let info ← Service.orElse .invalidDecl (m.function? func)
  if info.isInstanceMethod || info.isConstructor || info.isDestructor then
    throw (.unsupported "member functions have no plain address")
  let probe : ServiceM UInt64 := do
    let symbol := "__cppi_addr_" ++ toString (← nextSerial)
    let body := " return (void*)static_cast<" ++ pointerSpelling m info ++ ">(&" ++
      m.qualifiedCompleteName func ++ "); "
    runTransient (cFunction "void*" symbol body) symbol
  match info.mangledName with
  | some mangled => tryCatch (symbolAddress mangled) fun _ => probe
  | none => probe

/-- Compiles a function behind the prelude. -/
def compileFunction (request : CompileRequest) : ServiceM MachineCode := do
  ensureLibrary
  let s ← current
  let extra :=
    match request.access with
    | .enforced => []
    | .disabled => ["-fno-access-control"]
  let path ← s.toolchain.compileShared "cppi_wrapper" (s.withPrelude request.code) extra
  let _ ← loadArtifact path true
  throw (.symbolNotFound request.symbol)

/-- Directories behind their flags. -/
def flagged (withFlags : Bool) (flag : String) (dirs : List String) : List String :=
  if withFlags then dirs.flatMap fun d => [flag, d] else dirs

/-- The include directories, with those of the compiler if asked for. -/
def includePaths (withSystem withFlags : Bool) : ServiceM (List String) := do
  let t := (← current).toolchain
  let own := flagged withFlags "-I" t.includePaths
  if withSystem then
    let system ← (Toolchain.detectIncludePaths t.driver : HostM (List String))
    let resources ← (t.resourceDir : HostM String)
    return own ++ flagged withFlags "-isystem" system ++
      flagged withFlags "-resource-dir" (if resources.isEmpty then [] else [resources])
  else return own

/-! ## Templates -/

/-- A template with arguments, as it is spelled. -/
def instanceSpelling (m : Model) (template : DeclId) (args : List TemplateArg) : String :=
  m.qualifiedName template ++ "<" ++ m.argsText args ++ ">"

/-- The specialization of a template that the model has for some arguments. -/
def findSpecialization (template : DeclId) (args : List TemplateArg) :
    ServiceM (Option DeclId) := do
  let m ← Service.model
  return (m.lookupNamed (instanceSpelling m template args) Model.root).found?

/-- The compiler's word is needed to instantiate a template. -/
def needsClang : CompilerError := .unsupported "template instantiation needs a clang driver"

/-- Specializes a class template. A complete specialization in the model is enough unless the bodies
of its members are asked for. -/
def instantiateClass (template : DeclId) (args : List TemplateArg) (withBody : Bool) :
    ServiceM DeclId := do
  let existing ← findSpecialization template args
  let complete (d : DeclId) : ServiceM Bool :=
    return ((← Service.model).record? d).any RecordInfo.complete
  let sufficient ← existing.filterM fun d => return (← complete d) && !withBody
  match sufficient with
  | some d => return d
  | none =>
    if !(← current).toolchain.isClang then Service.orElse needsClang existing
    else
      let m ← Service.model
      match (m.decl template).kind with
      | .classTemplate _ =>
        let spelled := instanceSpelling m template args
        declare <|
          if withBody then "template class " ++ spelled ++ ";"
          else "static_assert(sizeof(" ++ spelled ++ ") != 0, \"\");"
        Service.orElse .invalidDecl (← findSpecialization template args)
      | _ => throw .invalidDecl

/-- Specializes a function template. -/
def instantiateFunction (template : DeclId) (args : List TemplateArg) : ServiceM DeclId := do
  match ← findSpecialization template args with
  | some d => return d
  | none =>
    if !(← current).toolchain.isClang then throw needsClang
    let m ← Service.model
    match (m.decl template).kind with
    | .functionTemplate _ =>
      let name := "__cppi_inst_" ++ toString (← nextSerial)
      declare ("__attribute__((unused)) static auto " ++ name ++ " = &" ++
        instanceSpelling m template args ++ ";")
      Service.orElse .invalidDecl (← findSpecialization template args)
    | _ => throw .invalidDecl

/-- Defines a function whose pattern is defined. -/
def instantiateDefinition (func : DeclId) : ServiceM Unit := do
  let m ← Service.model
  let info ← Service.orElse .invalidDecl (m.function? func)
  if !info.defined then
    if (info.pattern.bind m.function?).any FunctionInfo.defined then
      Model.modifyFunction func fun f => { f with defined := true }
    else
      throw (.unsupported
        ("\x60" ++ m.qualifiedCompleteName func ++ "\x60 has no definition to instantiate"))

/-! ## Layout -/

/-- The size of a type: the one that the model knows, or else the one the compiler tells, which a
class is then known to have. -/
def sizeOfType (t : TypeId) : ServiceM UInt64 := do
  match ← (Model.askAlong (·.wayToSize t) (·.staticSizeOf t) : ModelM StaticSize) with
  | .known size => return size
  | .excessive => throw .excessive
  | .unknown =>
    let canonical ← Model.canonical t
    let m ← Service.model
    let size ← evaluate ("sizeof(" ++ m.typeText t ++ ")")
    if size < 0 then throw .invalidDecl
    match m.recordNamed? canonical with
    | some d => Model.modifyRecord d fun info => { info with size := some size.toUInt64 }
    | none => pure ()
    return size.toUInt64

/-- The offset of a field: the one that the model knows, or else the one the compiler tells. -/
def fieldOffset (field : DeclId) : ServiceM Int64 := do
  let m ← Service.model
  let info ← Service.orElse .invalidDecl (m.decl field).var?
  match info.offset with
  | some offset => return offset
  | none =>
    if !info.isField then throw .invalidDecl
    let parent ← Service.orElse .invalidDecl (m.decl field).parent
    let offset ← evaluate ("__builtin_offsetof(" ++ m.qualifiedCompleteName parent ++ ", " ++
      (m.decl field).name ++ ")")
    Model.modifyDecl field fun e => { e with kind := .variableDecl { info with offset := some offset } }
    return offset

/-- A step of a way to a base class goes through a virtual base. -/
def isVirtualStep (m : Model) (step : DeclId × Nat) : Bool :=
  ((m.record? step.1).bind fun info => info.bases[step.2]?).any BaseSpecifier.isVirtual

/-- The offset of a base class, which the compiler tells. -/
def baseOffset (derived base : DeclId) : ServiceM Int64 := do
  if derived = base then return 0
  let m ← Service.model
  let path ← Service.orElse .invalidDecl (m.basePath? derived base)
  if path.any (isVirtualStep m) then
    throw (.unsupported "offsets of virtual bases depend on the object")
  let derivedType ← Model.internKind (.record derived)
  let baseType ← Model.internKind (.record base)
  let m ← Service.model
  evaluate ("(char*)static_cast<" ++ m.typeText baseType ++ " *>(reinterpret_cast<" ++
    m.typeText derivedType ++ " *>(4096)) - (char*)4096")

end CppReflect.DriverSession
