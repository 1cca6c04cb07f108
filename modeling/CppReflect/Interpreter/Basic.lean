import CppReflect.Ast.Ingest
import CppReflect.Interpreter.Toolchain
import CppReflect.Model.Size

/-!
# Interpreters

An interpreter owns a model and something that turns C++ text into code. A compiled interpreter
drives a compiler: the declarations of a session pile up in a prelude, and everything that is run is
compiled behind it. A rehearsed interpreter compiles nothing: it notes what it is asked for and
answers from tables.
-/

namespace CppReflect

/-- Whether compiled code may reach private members. -/
inductive AccessControl where
  | enforced
  | disabled
deriving DecidableEq, Inhabited, Repr

/-- What a piece of code consists of. -/
inductive UnitKind where
  | declarations
  /-- Statements that are run once. -/
  | statements
deriving DecidableEq, Inhabited, Repr

/-- Code that was checked and is not part of the session yet. -/
structure CodeUnit where
  code : String
  kind : UnitKind
deriving DecidableEq, Inhabited, Repr

/-- What the code at an address does. -/
inductive MachineCode where
  /-- There is no code: the address is null. -/
  | none
  /-- A call trampoline that notes each call. -/
  | call
  /-- A destructor trampoline that notes each call. -/
  | destructor
deriving DecidableEq, Inhabited, Repr

/-- A request to compile a function. -/
structure CompileRequest where
  symbol : String
  code : String
  access : AccessControl
deriving DecidableEq, Inhabited, Repr

/-- The tables of a rehearsed interpreter, and what it has noted. The latest entry of a table comes
first. -/
structure Rehearsal where
  symbols : List (String × UInt64) := []
  evaluations : List (String × Int64) := []
  baseOffsets : List ((DeclId × DeclId) × Int64) := []
  /-- What compilations yield; they fail if there is nothing. -/
  target : Option MachineCode := none
  compiled : List CompileRequest := []
  processed : List String := []
  includePaths : List String := []
deriving Inhabited, Repr

/-- A session with a compiler driver. -/
structure DriverSession where
  toolchain : Toolchain
  /-- The declarations so far. -/
  prelude : String := ""
  /-- The prelude has changed since it was last compiled. -/
  dirty : Bool := false
  /-- The last number that was given to something generated. -/
  serial : Nat := 0
deriving Inhabited, Repr

/-- What turns C++ text into code. -/
inductive Backend where
  | rehearsed (r : Rehearsal)
  | compiled (s : DriverSession)
deriving Inhabited, Repr

/-- A model, the libraries that are loaded for it, and what turns C++ text into code. -/
structure Interpreter where
  model : Model
  libraries : LibraryManager := {}
  backend : Backend
  /-- How many requests to keep quiet about diagnostics stand. -/
  silencers : Nat := 0
deriving Inhabited

/-- An interpreter at work on a host. -/
structure Workbench where
  interpreter : Interpreter
  host : Host
deriving Inhabited

/-- A computation of an interpreter that may fail. What was changed before it fails stays changed. -/
abbrev ServiceM := ExceptT CompilerError (StateM Workbench)

namespace Interpreter

/-- An interpreter that answers from tables. -/
def rehearsed (model : Model) : Interpreter := { model, backend := .rehearsed {} }

/-- An interpreter that drives a compiler, started with some arguments. -/
def start (config : ToolchainConfig) (args : List String) : StateM Host Interpreter := do
  let toolchain ← Toolchain.start config args
  let libraries : LibraryManager := ({} : LibraryManager).addSearchPath "." true false
  return { model := .empty, libraries, backend := .compiled { toolchain } }

/-- Diagnostics are kept quiet about. -/
def isSilenced (i : Interpreter) : Bool := i.silencers != 0

/-- Asks to keep quiet about diagnostics. -/
def silence (i : Interpreter) : Interpreter := { i with silencers := i.silencers + 1 }

/-- Takes such a request back. -/
def unsilence (i : Interpreter) : Interpreter := { i with silencers := i.silencers - 1 }

end Interpreter

/-- Runs a computation on the model. -/
def Workbench.onModel {α : Type} (x : ModelM α) : StateM Workbench α :=
  modifyGet fun w =>
    let (a, model) := x w.interpreter.model
    (a, { w with interpreter := { w.interpreter with model } })

namespace Service

/-- Runs a computation on the model. -/
def onModel {α : Type} (x : ModelM α) : ServiceM α := ExceptT.lift (Workbench.onModel x)

/-- Runs a computation that may fail, and answers with something else if it does. -/
def orDefault {α : Type} (x : ServiceM α) (standard : α) : StateM Workbench α := do
  match ← x.run with
  | .ok a => return a
  | .error _ => return standard

/-- The status of a computation: zero if it succeeds, and one otherwise. One that is given up because
of a number that is too great counts as a success. -/
def status (x : ServiceM Unit) : StateM Workbench Int := do
  match ← x.run with
  | .ok () | .error .excessive => return 0
  | .error _ => return 1

/-- Whether a computation succeeds. -/
def succeeds (x : ServiceM Unit) : StateM Workbench Bool :=
  orDefault (do x; return true) false

/-- Runs a computation on the host. -/
def onHost {α : Type} (x : HostM α) : ServiceM α := do
  let (result, host) := (x.run).run (← get).host
  modify fun w => { w with host }
  match result with
  | .ok a => return a
  | .error e => throw e

/-- Ingests a dump into the model. -/
def onDump (x : Ast.DumpM Nat) : ServiceM Unit := do
  match ← onModel x.run with
  | .ok _ => return ()
  | .error e => throw (.ofIngest e)

instance : MonadLift ModelM ServiceM := ⟨onModel⟩

instance : MonadLift HostM ServiceM := ⟨onHost⟩

/-- The model. -/
def model : ServiceM Model := return (← getThe Workbench).interpreter.model

/-- The machine. -/
def machine : ServiceM Machine := return (← getThe Workbench).host.machine

/-- The libraries. -/
def libraries : ServiceM LibraryManager := return (← getThe Workbench).interpreter.libraries

/-- Replaces what turns C++ text into code. -/
def setBackend (backend : Backend) : ServiceM Unit :=
  modifyThe Workbench fun w => { w with interpreter := { w.interpreter with backend } }

/-- Replaces the libraries. -/
def setLibraries (libraries : LibraryManager) : ServiceM Unit :=
  modifyThe Workbench fun w => { w with interpreter := { w.interpreter with libraries } }

/-- The answer of a step that concerns libraries. -/
def ofLoad {α : Type} : Except LoadError α → ServiceM α
  | .ok a => return a
  | .error e => throw (.library e)

/-- What an option holds, or the error. -/
def orElse {α : Type} (e : CompilerError) : Option α → ServiceM α
  | some a => return a
  | none => throw e

/-- Loads the library that a stem means. -/
def load (stem : String) (permanent : Bool) : ServiceM Unit := do
  let (_, loaded) ← ofLoad ((← libraries).load (← machine) stem permanent)
  setLibraries loaded

end Service

end CppReflect
