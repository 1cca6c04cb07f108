import CppReflect.Trampoline.Cache
import CppReflect.Trampoline.Callable
import CppReflect.Trampoline.Draft
import CppReflect.Trampoline.Eligibility
import CppReflect.Trampoline.Stats

/-!
# Making trampolines

The engine drafts and compiles trampolines, keeps what was compiled, and counts what came of each
request. It serves all interpreters of a session: what it keeps goes by the number of the
interpreter.
-/

namespace CppReflect

namespace Trampoline

/-- What a trampoline does. -/
inductive Role where
  | call
  | destruction
deriving DecidableEq, Inhabited, Repr

/-- The trampolines that were compiled, and what names and statistics need. -/
structure Engine (α : Type) where
  calls : Cache α := .empty
  destructions : Cache α := .empty
  /-- The number that the next name ends in. -/
  serial : UInt64 := 0
  stats : Stats := .start
deriving Inhabited, Repr

namespace Engine

variable {α : Type}

/-- The trampolines of a role. -/
def cache (e : Engine α) : Role → Cache α
  | .call => e.calls
  | .destruction => e.destructions

/-- Keeps a trampoline of a role, unless one is kept, and tells which one is kept. -/
def keep (e : Engine α) (role : Role) (key : CacheKey) (code : α) : α × Engine α :=
  let (kept, cache) := (e.cache role).insert key code
  match role with
  | .call => (kept, { e with calls := cache })
  | .destruction => (kept, { e with destructions := cache })

/-- Drops the trampolines of an interpreter. -/
def forget (e : Engine α) (service : Nat) : Engine α :=
  { e with calls := e.calls.forget service, destructions := e.destructions.forget service }

end Engine

/-- The engine at work for the interpreter with a number. -/
structure Workshop (α : Type) where
  engine : Engine α
  service : Nat
  bench : Workbench
deriving Inhabited

/-- A computation of an engine that may fail, whatever its trampolines are compiled to. -/
abbrev EngineT (α : Type) := ExceptT SynthesisError (StateM (Workshop α))

/-- A computation of the engine of a session. -/
abbrev EngineM := EngineT MachineCode

/-- What compiles trampolines: it tells an address, unless that is null. -/
abbrev Compiler (α : Type) := CompileRequest → ServiceM (Option α)

variable {α β : Type}

/-- Runs a computation of the interpreter. -/
def Workshop.onBench (x : StateM Workbench β) : StateM (Workshop α) β :=
  modifyGet fun w =>
    let (b, bench) := x.run w.bench
    (b, { w with bench })

/-- Changes the engine. -/
def modifyEngine (f : Engine α → Engine α) : EngineT α Unit :=
  modify fun w => { w with engine := f w.engine }

/-- Runs a computation of the interpreter that may fail. -/
def onBench (x : SynthesisM β) : EngineT α β := ExceptT.mk (Workshop.onBench x.run)

/-- The outcome of a computation of the engine. -/
def outcome (x : EngineT α β) : EngineT α (Except SynthesisError β) := ExceptT.lift x.run

/-- The model of the interpreter. -/
def modelAtWork : EngineT α Model := return (← get).bench.interpreter.model

/-- Drafts a trampoline with names that no other one has. -/
def drafted (e : SynthesisError) (draft : UInt64 → ModelM (Option (β × UInt64))) :
    EngineT α β := do
  let serial := (← get).engine.serial
  match ← onBench (ExceptT.lift (Workbench.onModel (draft serial))) with
  | some (b, serial) =>
    modifyEngine fun e => { e with serial }
    return b
  | none => throw e

/-- Compiles a trampoline. An address that is null will not do. -/
def compile (compiler : Compiler α) (request : CompileRequest) : EngineT α α := do
  match ← onBench (attempt (compiler request)) with
  | .ok (some code) => return code
  | .ok none => throw (.nullAddress request.symbol)
  | .error cause => throw (.compile request.symbol cause)

/-- Drafts and compiles the call trampoline of a function. That of a default constructor may reach
private members. -/
def synthesizeCall (compiler : Compiler α) (func : DeclId) : EngineT α α := do
  onBench (prepare func)
  let wrapper ← drafted .notAFunction (wrapper? func)
  let m ← modelAtWork
  let access :=
    if (m.function? func).any FunctionInfo.isDefaultConstructor then .disabled else .enforced
  compile compiler { symbol := wrapper.symbol, code := wrapper.render m, access }

/-- Drafts and compiles the destructor trampoline of a class. -/
def synthesizeDestruction (compiler : Compiler α) (record : DeclId) : EngineT α α := do
  let destroyer ← drafted .notAClass (destroyer? record)
  compile compiler { symbol := destroyer.symbol, code := destroyer.render, access := .disabled }

/-- Makes the trampoline of a role for a declaration. -/
def synthesize (compiler : Compiler α) : Role → DeclId → EngineT α α
  | .call, func => synthesizeCall compiler func
  | .destruction, record => synthesizeDestruction compiler record

/-- Answers a request for a trampoline: with the one that is kept, or else with a new one, which is
kept from then on. The host keeps no time, so a compilation counts as taking none. -/
def serve (compiler : Compiler α) (role : Role) (d : DeclId) : EngineT α α := do
  let w ← get
  let key : CacheKey := ⟨w.service, d⟩
  match (w.engine.cache role).get? key with
  | some code =>
    modifyEngine fun e => { e with stats := e.stats.recordHit }
    return code
  | none =>
    match ← outcome (synthesize compiler role d) with
    | .ok code =>
      modifyEngine fun e => { e with stats := e.stats.recordCompilation 0 }
      let (kept, engine) := (← get).engine.keep role key code
      modifyEngine fun _ => engine
      return kept
    | .error e =>
      modifyEngine fun engine => { engine with stats := engine.stats.recordFailure }
      throw e

/-- The compiler of the interpreter. -/
def serviceCompiler : Compiler MachineCode := fun request => do
  match ← Service.compileFunction request with
  | .none => return none
  | code => return some code

/-- Answers a request for a trampoline with what the interpreter compiles. -/
def obtain (role : Role) (d : DeclId) : EngineM MachineCode := serve serviceCompiler role d

/-- What a callable knows of a function. -/
def shapeOf (m : Model) (info : FunctionInfo) : Shape where
  required := info.minRequiredArgs
  num := info.params.length
  isConstructor := info.isConstructor
  isMethod := info.isInstanceMethod
  returnsVoid := m.isVoid info.returnType

/-- A callable for a function: the destructor trampoline of its class for a destructor, and else a
call trampoline. If there is none to be had the callable is invalid. -/
def callable (func : DeclId) : StateM (Workshop MachineCode) Callable := do
  let m := (← get).bench.interpreter.model
  match m.function? func with
  | none => return .invalid
  | some info =>
    if info.isDestructor then
      match (m.decl func).parent with
      | none => return .invalid
      | some record =>
        match ← (obtain .destruction record).run with
        | .ok code => return .destructor code func.handle
        | .error _ => return .invalid
    else
      Workshop.onBench (Workbench.onModel (Model.lookThrough [info.returnType]))
      match ← (obtain .call func).run with
      | .ok code => return .generic code func.handle (shapeOf m info)
      | .error _ => return .invalid

end Trampoline

end CppReflect
