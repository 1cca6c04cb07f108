import CppReflect.Session.Registry
import CppReflect.Trampoline.Engine

/-!
# Sessions

A session has interpreters, of which one is active, an engine that makes trampolines for all of
them, and memory for objects. Trampolines note their calls in the session. What is asked of the
session goes to the active interpreter.
-/

namespace CppReflect

/-- The state of a session. -/
structure Session where
  config : Config
  host : Host := {}
  registry : Registry Interpreter := {}
  engine : Trampoline.Engine MachineCode := {}
  debugOutput : Bool := false
  /-- The calls of trampolines, the first one first. -/
  noted : List Trampoline.NotedCall := []
  /-- The next address that storage is handed out at. -/
  nextAddress : Address := 0x10000
deriving Inhabited

/-- A computation of a session. -/
abbrev SessionM := StateM Session

namespace Session

open Trampoline (Workshop)

/-- The engine at work for the active interpreter. -/
def workshop? (s : Session) : Option (Workshop MachineCode) :=
  s.registry.active?.map fun (service, interpreter) =>
    { engine := s.engine, service, bench := { interpreter, host := s.host } }

/-- The session once the engine has worked. -/
def putBack (s : Session) (w : Workshop MachineCode) : Session :=
  { s with
    engine := w.engine
    host := w.bench.host
    registry := s.registry.replace w.service w.bench.interpreter }

/-- Runs a computation of the engine for the active interpreter, if there is one. -/
def withEngine {α : Type} (x : StateM (Workshop MachineCode) α) : SessionM (Option α) :=
  modifyGet fun s =>
    match s.workshop? with
    | some w =>
      let (a, w) := x.run w
      (some a, s.putBack w)
    | none => (none, s)

/-- Runs a computation of the active interpreter, if there is one. -/
def withBench {α : Type} (x : StateM Workbench α) : SessionM (Option α) :=
  withEngine (Workshop.onBench x)

/-- Runs a computation on the model of the active interpreter, if there is one. -/
def withModel {α : Type} (x : ModelM α) : SessionM (Option α) := withBench (Workbench.onModel x)

/-- Runs a computation of the host. -/
def onHost {α : Type} (x : StateM Host α) : SessionM α :=
  modifyGet fun s =>
    let (a, host) := x.run s.host
    (a, { s with host })

/-- The model of the active interpreter. -/
def model? (s : Session) : Option Model := s.registry.active?.map fun e => e.2.model

/-! ## Interpreters -/

/-- Registers an interpreter, which becomes active, and tells its number. -/
def register (i : Interpreter) : SessionM Nat :=
  modifyGet fun s => (s.registry.next, { s with registry := s.registry.register i })

/-- Starts an interpreter that drives a compiler. The arguments that every interpreter is started
with come last. -/
def createInterpreter (args : List String) : SessionM Nat := do
  let config := (← get).config
  register (← onHost (Interpreter.start config.toolchain (args ++ config.extraInterpreterArgs)))

/-- Deletes an interpreter, or the active one if none is named, with the trampolines that were made
for it. Tells whether there was one. -/
def deleteInterpreter (number : Option Nat) : SessionM Bool :=
  modifyGet fun s =>
    match s.registry.delete? number with
    | some (number, registry) => (true, { s with registry, engine := s.engine.forget number })
    | none => (false, s)

/-- Makes an interpreter the active one, and tells whether there is one with the number. -/
def activate (number : Nat) : SessionM Bool :=
  modifyGet fun s =>
    match s.registry.activate? number with
    | some registry => (true, { s with registry })
    | none => (false, s)

/-! ## Calls -/

/-- Notes a call, if one came about. -/
def note (call : Option Trampoline.NotedCall) : SessionM Unit :=
  modify fun s => { s with noted := s.noted ++ call.toList }

/-- Takes the calls that were noted so far. -/
def takeNoted : SessionM (List Trampoline.NotedCall) :=
  modifyGet fun s => (s.noted, { s with noted := [] })

end Session

end CppReflect
