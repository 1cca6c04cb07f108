import CppReflect.Interpreter.Basic

/-!
# Rehearsed interpreters

The operations of an interpreter that notes what it is asked for and answers from tables.
-/

namespace CppReflect.Rehearsal

/-- Every code consists of declarations, unless it asks for an error. -/
def parse (code : String) : ServiceM CodeUnit :=
  if Text.contains "#error" code then throw (.compile ("error: " ++ code))
  else return { code, kind := .declarations }

/-- Notes code that is made part of the session. -/
def execute (r : Rehearsal) (unit : CodeUnit) : ServiceM Unit :=
  Service.setBackend (.rehearsed { r with processed := r.processed ++ [unit.code] })

/-- The value of an expression in the table. -/
def evaluate (r : Rehearsal) (expr : String) : ServiceM Int64 :=
  Service.orElse (.compile ("cannot evaluate \x60" ++ expr ++ "\x60")) (r.evaluations.lookup expr)

/-- The address of a symbol in the table. -/
def symbolAddress (r : Rehearsal) (symbol : String) : ServiceM UInt64 :=
  Service.orElse (.symbolNotFound symbol) (r.symbols.lookup symbol)

/-- The address of the symbol that a function is compiled to. -/
def functionAddress (r : Rehearsal) (func : DeclId) : ServiceM UInt64 := do
  let mangled := ((← Service.model).function? func).bind FunctionInfo.mangledName
  r.symbolAddress (← Service.orElse .invalidDecl mangled)

/-- Notes a request to compile and yields what compilations yield. -/
def compileFunction (r : Rehearsal) (request : CompileRequest) : ServiceM MachineCode := do
  Service.setBackend (.rehearsed { r with compiled := r.compiled ++ [request] })
  Service.orElse (.compile ("error: cannot compile \x60" ++ request.symbol ++ "\x60")) r.target

/-- Adds an include directory, unless it is there. -/
def addIncludePath (r : Rehearsal) (dir : String) : Rehearsal :=
  if r.includePaths.contains dir then r else { r with includePaths := r.includePaths ++ [dir] }

/-- The specialization of a template that the model has for some arguments. -/
def instantiate (template : DeclId) (args : List TemplateArg) : ServiceM DeclId := do
  let m ← Service.model
  let name := m.qualifiedName template ++ "<" ++ m.argsText args ++ ">"
  Service.orElse (.unsupported "no such specialization in the model")
    (m.lookupNamed name Model.root).found?

/-- Defines a function whose pattern is defined. -/
def instantiateDefinition (func : DeclId) : ServiceM Unit := do
  let m ← Service.model
  let info ← Service.orElse .invalidDecl (m.function? func)
  if (info.pattern.bind m.function?).any FunctionInfo.defined then
    Model.modifyFunction func fun f => { f with defined := true }

/-- The size of a type as far as the model knows it. -/
def sizeOfType (t : TypeId) : ServiceM UInt64 := do
  match ← (Model.askAlong (·.wayToSize t) (·.staticSizeOf t) : ModelM StaticSize) with
  | .known size => return size
  | .unknown => throw (.unsupported "layout unknown")
  | .excessive => throw .excessive

/-- The offset of a field as far as the model knows it. -/
def fieldOffset (field : DeclId) : ServiceM Int64 := do
  Service.orElse .invalidDecl (((← Service.model).decl field).var?.bind VarInfo.offset)

/-- The offset of a base class in the table; a class is its own base at offset zero. -/
def baseOffset (r : Rehearsal) (derived base : DeclId) : ServiceM Int64 :=
  if derived = base then return 0
  else Service.orElse .invalidDecl (r.baseOffsets.lookup (derived, base))

end CppReflect.Rehearsal
