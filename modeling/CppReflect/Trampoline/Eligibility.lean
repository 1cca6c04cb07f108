import CppReflect.Interpreter.Service

/-!
# Which functions can be called through a trampoline

A function needs a definition that a trampoline may call, or may have one outside the session. The
body of an implicit instantiation is made on the way. A function that can have no trampoline is
rejected for a reason that depends on how it takes part in templates.
-/

namespace CppReflect

namespace Trampoline

/-- Why a function can have no trampoline. -/
inductive Rejection where
  | functionTemplate
  | noPattern (kind : TemplatedKind)
  | noBody (kind : TemplatedKind)
  | notInstantiated
  | deleted (kind : TemplatedKind)
  | lateParsed (kind : TemplatedKind)
deriving DecidableEq, Inhabited, Repr

/-- What an instantiation of a kind is called. -/
def instanceNoun : TemplatedKind → String
  | .memberSpecialization => "member function instantiation"
  | .dependentFunctionTemplateSpecialization => "dependent function template instantiation"
  | .nonTemplate | .functionTemplate | .functionTemplateSpecialization =>
    "function template instantiation"

/-- What a function of a kind is called. -/
def functionNoun : TemplatedKind → String
  | .nonTemplate => "function"
  | .functionTemplate => "function template"
  | .memberSpecialization => "member function of a specialization"
  | .functionTemplateSpecialization => "function template specialization"
  | .dependentFunctionTemplateSpecialization => "dependent function template specialization"

/-- The text of the reason. -/
def Rejection.message : Rejection → String
  | .functionTemplate => "Cannot make wrapper for a function template!"
  | .noPattern kind => "Cannot make wrapper for a " ++ instanceNoun kind ++ " with no pattern!"
  | .noBody kind => "Cannot make wrapper for a " ++ instanceNoun kind ++ " with no body!"
  | .notInstantiated => "Failed to force template instantiation!"
  | .deleted kind => "Cannot make wrapper for a deleted " ++ functionNoun kind ++ "!"
  | .lateParsed kind =>
    "Cannot make wrapper for a late template parsed " ++ functionNoun kind ++ "!"

/-- Why no trampoline is made. -/
inductive SynthesisError where
  | notAFunction
  | notAClass
  | ineligible (reason : Rejection)
  | compile (symbol : String) (cause : CompilerError)
  | nullAddress (symbol : String)
deriving DecidableEq, Inhabited, Repr

/-- The text of the error. -/
def SynthesisError.message : SynthesisError → String
  | .notAFunction => "declaration is not a function"
  | .notAClass => "declaration is not a class"
  | .ineligible reason => reason.message
  | .compile symbol cause => "failed to compile \x60" ++ symbol ++ "\x60: " ++ cause.message
  | .nullAddress symbol => "compiled \x60" ++ symbol ++ "\x60 but its address is null"

/-- A computation of an interpreter that makes a trampoline or fails to. -/
abbrev SynthesisM := ExceptT SynthesisError (StateM Workbench)

/-- The outcome of an operation of the compiler service. -/
def attempt {α : Type} (x : ServiceM α) : SynthesisM (Except CompilerError α) :=
  ExceptT.lift x.run

/-- The model. -/
def model : SynthesisM Model := return (← get).interpreter.model

/-- What is known of a function. -/
def functionInfo (func : DeclId) : SynthesisM FunctionInfo := do
  match (← model).function? func with
  | some info => return info
  | none => throw .notAFunction

/-- Rejects a function. -/
def reject {α : Type} (reason : Rejection) : SynthesisM α := throw (.ineligible reason)

/-- The pattern is an ordinary function, which needs no instantiation. -/
def isOrdinary (pattern : FunctionInfo) : Bool :=
  pattern.templated = .nonTemplate ||
    (pattern.templated != .functionTemplate && !pattern.specialization.isInstantiation)

/-- The body of an instantiation is to be made from its pattern. -/
def needsInstantiation (info : FunctionInfo) : SynthesisM Bool := do
  match info.pattern with
  | none => reject (.noPattern info.templated)
  | some d =>
    let pattern ← functionInfo d
    if isOrdinary pattern then return false
    else if !pattern.defined then reject (.noBody info.templated)
    else return info.specialization = .implicitInstantiation

/-- Makes the body of an instantiation that has none, if it is to be made, and tells what is known of
the function then. -/
def materialize (func : DeclId) (info : FunctionInfo) : SynthesisM FunctionInfo := do
  match info.templated with
  | .nonTemplate => return info
  | .functionTemplate => reject .functionTemplate
  | _ =>
    if info.specialization.isInstantiation then
      if ← needsInstantiation info then
        let _ ← attempt (Service.instantiateDefinition func)
        let info ← functionInfo func
        if info.defined then return info else reject .notInstantiated
      else return info
    else return info

/-- Checks that a definition may be called. -/
def checkDefinition (info : FunctionInfo) : SynthesisM Unit := do
  if info.templated = .functionTemplate then reject .functionTemplate
  else if info.deleted then reject (.deleted info.templated)
  else if info.lateParsed then reject (.lateParsed info.templated)

/-- Makes sure that a trampoline may call a function. -/
def prepare (func : DeclId) : SynthesisM Unit := do
  let info ← functionInfo func
  let info ← if info.defined || info.deleted then pure info else materialize func info
  if info.defined || info.deleted then checkDefinition info

end Trampoline

end CppReflect
