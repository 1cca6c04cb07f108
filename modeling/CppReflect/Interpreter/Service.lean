import CppReflect.Interpreter.Compiled
import CppReflect.Interpreter.Rehearsed

/-!
# The compiler service

The operations that every interpreter offers, whatever turns its C++ text into code.
-/

namespace CppReflect.Service

/-- What turns C++ text into code. -/
def backend : ServiceM Backend := return (← getThe Workbench).interpreter.backend

/-- Checks code without making it part of the session. -/
def parse (code : String) : ServiceM CodeUnit := do
  match ← backend with
  | .rehearsed _ => Rehearsal.parse code
  | .compiled _ => DriverSession.parse code

/-- Makes code part of the session. -/
def execute (unit : CodeUnit) : ServiceM Unit := do
  match ← backend with
  | .rehearsed r => r.execute unit
  | .compiled _ => DriverSession.execute unit

/-- Checks code and makes it part of the session. -/
def process (code : String) : ServiceM Unit := do execute (← parse code)

/-- Checks declarations and makes them part of the session. -/
def declare (code : String) : ServiceM Unit := do
  let unit ← parse code
  if unit.kind ≠ .declarations then throw (.unsupported "statements cannot be declared")
  execute unit

/-- The value of an expression. -/
def evaluate (expr : String) : ServiceM Int64 := do
  match ← backend with
  | .rehearsed r => r.evaluate expr
  | .compiled _ => DriverSession.evaluate expr

/-- The address of a symbol. -/
def symbolAddress (symbol : String) : ServiceM UInt64 := do
  match ← backend with
  | .rehearsed r => r.symbolAddress symbol
  | .compiled _ => DriverSession.symbolAddress symbol

/-- The address of the code of a function. -/
def functionAddress (func : DeclId) : ServiceM UInt64 := do
  match ← backend with
  | .rehearsed r => r.functionAddress func
  | .compiled _ => DriverSession.functionAddress func

/-- Compiles a function and tells what its code does. -/
def compileFunction (request : CompileRequest) : ServiceM MachineCode := do
  match ← backend with
  | .rehearsed r => r.compileFunction request
  | .compiled _ => DriverSession.compileFunction request

/-- Adds an include directory. -/
def addIncludePath (dir : String) : ServiceM Unit := do
  match ← backend with
  | .rehearsed r => setBackend (.rehearsed (r.addIncludePath dir))
  | .compiled s => setBackend (.compiled { s with toolchain := s.toolchain.addIncludePath dir })

/-- The include directories. -/
def includePaths (withSystem withFlags : Bool) : ServiceM (List String) := do
  match ← backend with
  | .rehearsed r => return DriverSession.flagged withFlags "-I" r.includePaths
  | .compiled _ => DriverSession.includePaths withSystem withFlags

/-- The resource directory of the compiler. -/
def resourceDir : ServiceM String := do
  match ← backend with
  | .rehearsed _ => return ""
  | .compiled s => (s.toolchain.resourceDir : HostM String)

/-- The name behind a mangled one. -/
def demangle (mangled : String) : ServiceM String := do
  match ← backend with
  | .rehearsed _ => return mangled
  | .compiled s => (s.toolchain.demangle mangled : HostM String)

/-- Loads a library that a path or, with `lookup`, a stem means. -/
def loadLibrary (path : String) (lookup : Bool) : ServiceM Unit := do
  match ← backend with
  | .rehearsed _ => load path true
  | .compiled _ =>
    if lookup then
      let found ← ofLoad ((← libraries).find (← machine) path)
      load (← orElse (.library (.notFound path)) found) false
    else load path false

/-- Specializes a class template, with the bodies of its members if asked for. -/
def instantiateClass (template : DeclId) (args : List TemplateArg) (withBody : Bool) :
    ServiceM DeclId := do
  match ← backend with
  | .rehearsed _ => Rehearsal.instantiate template args
  | .compiled _ => DriverSession.instantiateClass template args withBody

/-- Specializes a function template. -/
def instantiateFunction (template : DeclId) (args : List TemplateArg) : ServiceM DeclId := do
  match ← backend with
  | .rehearsed _ => Rehearsal.instantiate template args
  | .compiled _ => DriverSession.instantiateFunction template args

/-- Defines a function that is instantiated from a defined pattern. -/
def instantiateDefinition (func : DeclId) : ServiceM Unit := do
  match ← backend with
  | .rehearsed _ => Rehearsal.instantiateDefinition func
  | .compiled _ => DriverSession.instantiateDefinition func

/-- The size of a type. -/
def sizeOfType (t : TypeId) : ServiceM UInt64 := do
  match ← backend with
  | .rehearsed _ => Rehearsal.sizeOfType t
  | .compiled _ => DriverSession.sizeOfType t

/-- The offset of a field. -/
def fieldOffset (field : DeclId) : ServiceM Int64 := do
  match ← backend with
  | .rehearsed _ => Rehearsal.fieldOffset field
  | .compiled _ => DriverSession.fieldOffset field

/-- The offset of a base class. -/
def baseOffset (derived base : DeclId) : ServiceM Int64 := do
  match ← backend with
  | .rehearsed r => r.baseOffset derived base
  | .compiled _ => DriverSession.baseOffset derived base

end CppReflect.Service
