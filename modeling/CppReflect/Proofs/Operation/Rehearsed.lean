import CppReflect.Proofs.Model.Interning
import CppReflect.Query.Layout
import CppReflect.Query.Overload

/-!
# Rehearsed interpreters only add types

A rehearsed interpreter answers from tables. Whatever is asked of it about declarations, types,
overloads and templates, it may put types into its table on the way, and it does nothing else: not
if the question fails either.
-/

namespace CppReflect

/-- The interpreters differ at most in types that stand behind the others. -/
structure Workbench.Interned (w w' : Workbench) : Prop where
  model : w.interpreter.model.Interned w'.interpreter.model
  libraries : w'.interpreter.libraries = w.interpreter.libraries
  backend : w'.interpreter.backend = w.interpreter.backend
  silencers : w'.interpreter.silencers = w.interpreter.silencers
  host : w'.host = w.host

namespace Workbench.Interned

variable {w w' w'' : Workbench}

theorem refl (w : Workbench) : w.Interned w := ⟨Model.Interned.refl _, rfl, rfl, rfl, rfl⟩

theorem trans (h : w.Interned w') (h' : w'.Interned w'') : w.Interned w'' where
  model := h.model.trans h'.model
  libraries := h'.libraries.trans h.libraries
  backend := h'.backend.trans h.backend
  silencers := h'.silencers.trans h.silencers
  host := h'.host.trans h.host

/-- Only the model is another one. -/
theorem interpreter_eq (h : w.Interned w') :
    w'.interpreter = { w.interpreter with model := w'.interpreter.model } := by
  calc w'.interpreter
      = ⟨w'.interpreter.model, w'.interpreter.libraries, w'.interpreter.backend,
          w'.interpreter.silencers⟩ := rfl
    _ = { w.interpreter with model := w'.interpreter.model } := by
        rw [h.libraries, h.backend, h.silencers]

end Workbench.Interned

namespace Rehearsal

variable {α β : Type}

/-- On a rehearsed interpreter the computation puts types into the table and does nothing else. -/
def Interns (x : StateM Workbench α) : Prop :=
  ∀ (w : Workbench) (r : Rehearsal), w.interpreter.backend = .rehearsed r → w.Interned (x.run w).2

namespace Interns

theorem pure (a : α) : Interns (pure a : StateM Workbench α) := fun w _ _ => .refl w

theorem bind {x : StateM Workbench α} {f : α → StateM Workbench β} (hx : Interns x)
    (hf : ∀ a, Interns (f a)) : Interns (x >>= f) := by
  intro w r hr
  have hfirst := hx w r hr
  exact hfirst.trans (hf (x.run w).1 (x.run w).2 r (hfirst.backend.trans hr))

theorem map {x : StateM Workbench α} (f : α → β) (hx : Interns x) : Interns (f <$> x) := hx

theorem onModel {x : ModelM α} (hx : Model.Interns x) : Interns (Workbench.onModel x) :=
  fun w _ _ => ⟨hx w.interpreter.model, rfl, rfl, rfl, rfl⟩

end Interns

/-- On a rehearsed interpreter the computation puts types into the table and does nothing else, even
if it fails. -/
def Asks (x : ServiceM α) : Prop := Interns x.run

namespace Asks

theorem pure (a : α) : Asks (pure a : ServiceM α) := Interns.pure _

theorem throw (e : CompilerError) : Asks (throw e : ServiceM α) := Interns.pure _

theorem bind {x : ServiceM α} {f : α → ServiceM β} (hx : Asks x) (hf : ∀ a, Asks (f a)) :
    Asks (x >>= f) := by
  change Interns (x.run >>= ExceptT.bindCont f)
  refine Interns.bind hx fun reply => ?_
  cases reply with
  | ok a => exact hf a
  | error e => exact Interns.pure _

theorem tryCatch {x : ServiceM α} {f : CompilerError → ServiceM α} (hx : Asks x)
    (hf : ∀ e, Asks (f e)) : Asks (tryCatch x f) := by
  change Interns (ExceptT.tryCatch x f).run
  unfold ExceptT.tryCatch
  refine Interns.bind hx fun reply => ?_
  cases reply with
  | ok a => exact Interns.pure _
  | error e => exact hf e

theorem orElse (e : CompilerError) (found : Option α) : Asks (Service.orElse e found) := by
  cases found with
  | none => exact throw e
  | some a => exact pure a

theorem onModel {x : ModelM α} (hx : Model.Interns x) : Asks (Service.onModel x) :=
  Interns.onModel hx

theorem model : Asks Service.model := fun w _ _ => .refl w

/-- Only what a rehearsed interpreter does matters. -/
theorem backend_bind {f : Backend → ServiceM α} (hf : ∀ r, Asks (f (.rehearsed r))) :
    Asks (Service.backend >>= f) := by
  intro w r hr
  change w.Interned ((f w.interpreter.backend).run.run w).2
  rw [hr]
  exact hf r w r hr

theorem orDefault {x : ServiceM α} (hx : Asks x) (standard : α) :
    Interns (Service.orDefault x standard) := by
  refine Interns.bind hx fun reply => ?_
  cases reply <;> exact Interns.pure _

/-! ## Services -/

theorem symbolAddress (symbol : String) : Asks (Service.symbolAddress symbol) :=
  backend_bind fun _ => orElse _ _

theorem functionAddress (func : DeclId) : Asks (Service.functionAddress func) :=
  backend_bind fun _ => model.bind fun _ => (orElse _ _).bind fun _ => orElse _ _

theorem sizeOfType (t : TypeId) : Asks (Service.sizeOfType t) := by
  refine backend_bind fun _ => (onModel (Model.askAlong_interns _ _)).bind fun size => ?_
  cases size with
  | known n => exact pure n
  | unknown => exact throw _
  | excessive => exact throw _

theorem fieldOffset (field : DeclId) : Asks (Service.fieldOffset field) :=
  backend_bind fun _ => model.bind fun _ => orElse _ _

theorem baseOffset (derived base : DeclId) : Asks (Service.baseOffset derived base) := by
  refine backend_bind fun r => ?_
  dsimp only [Rehearsal.baseOffset]
  split
  · exact pure 0
  · exact orElse _ _

theorem instantiate (template : DeclId) (args : List TemplateArg) :
    Asks (Rehearsal.instantiate template args) :=
  model.bind fun _ => orElse _ _

theorem instantiateClass (template : DeclId) (args : List TemplateArg) (withBody : Bool) :
    Asks (Service.instantiateClass template args withBody) :=
  backend_bind fun _ => instantiate template args

theorem instantiateFunction (template : DeclId) (args : List TemplateArg) :
    Asks (Service.instantiateFunction template args) :=
  backend_bind fun _ => instantiate template args

end Asks

end Rehearsal

open Rehearsal (Asks Interns)

/-! ## Sizes, offsets, addresses and instances -/

namespace Query

theorem declAt_asks (h : Handle) : Asks (declAt h) := Asks.model.bind fun _ => Asks.orElse _ _

theorem sizeOfScope_asks (scope : Handle) : Asks (sizeOfScope scope) := by
  refine Asks.model.bind fun m => ?_
  cases recordAt? m scope with
  | none => exact Asks.throw _
  | some found =>
      obtain ⟨d, info⟩ := found
      dsimp only
      split
      · exact (Asks.onModel (Model.intern_interns _)).bind fun t => Asks.sizeOfType t
      · exact Asks.throw _

theorem sizeOfType_asks (ty : Handle) : Asks (sizeOfType ty) :=
  Asks.model.bind fun _ => (Asks.orElse _ _).bind fun t => Asks.sizeOfType t

theorem baseClassOffset_asks (derived base : Handle) : Asks (baseClassOffset derived base) := by
  refine Asks.model.bind fun m => ?_
  split
  next d _ b _ _ _ => exact Asks.baseOffset d b
  next => exact Asks.throw _

theorem sumOffsets_asks (a b : Int64) : Asks (sumOffsets a b) := by
  dsimp only [sumOffsets]
  split
  · exact Asks.pure _
  · exact Asks.throw _

theorem variableOffset_asks (var parent : Handle) : Asks (variableOffset var parent) := by
  refine Asks.model.bind fun m => (declAt_asks var).bind fun d => ?_
  refine (Asks.orElse _ _).bind fun info => ?_
  split
  · refine (Asks.orElse _ _).bind fun owner => (Asks.fieldOffset d).bind fun offset => ?_
    split
    next derived _ => exact (Asks.baseOffset derived owner).bind fun _ => sumOffsets_asks _ _
    next => exact Asks.pure _
  · exact (Asks.symbolAddress _).bind fun _ => Asks.pure _

theorem functionAddress_asks (func : Handle) : Asks (functionAddress func) := by
  refine Asks.model.bind fun m => ?_
  cases functionAt? m func with
  | none => exact Asks.throw _
  | some found => exact Asks.functionAddress found.1

theorem methodAddress_asks (method : Handle) : Asks (methodAddress method) := by
  refine Asks.model.bind fun m => ?_
  split
  · exact functionAddress_asks method
  · exact Asks.throw _

theorem instantiate_asks (template : Handle) (args : List ArgRequest) (withBody : Bool) :
    Asks (instantiate template args withBody) := by
  refine Asks.model.bind fun m => (Asks.orElse _ _).bind fun d => ?_
  refine (Asks.orElse _ _).bind fun args => ?_
  split
  · exact Asks.instantiateClass d args withBody
  · exact Asks.instantiateFunction d args
  · exact Asks.throw _

end Query

/-! ## Overloads -/

namespace Overload

open Model (Interned)

theorem referred_interns (t : TypeId) : Model.Interns (referred t) := Model.askAlong_interns _ _

theorem valueType_interns (t : TypeId) : Model.Interns (valueType t) :=
  (referred_interns t).bind fun _ => (Model.canonical_interns _).bind fun _ =>
    Model.withoutQuals_interns _ _

theorem classBehind?_interns (t : TypeId) : Model.Interns (classBehind? t) := by
  refine Model.Interns.get.bind fun m => ?_
  split
  next pointee _ =>
    refine (valueType_interns pointee).bind fun target => Model.Interns.get.bind fun m => ?_
    split <;> exact Model.Interns.pure _
  next =>
    refine (Model.Interns.pure t).bind fun target => Model.Interns.get.bind fun m => ?_
    split <;> exact Model.Interns.pure _

theorem conversion?_interns (arg param : TypeId) : Model.Interns (conversion? arg param) := by
  refine (valueType_interns arg).bind fun arg => (valueType_interns param).bind fun param =>
    Model.Interns.get.bind fun m => ?_
  split
  · exact Model.Interns.pure _
  · split
    · exact Model.Interns.pure _
    · refine (classBehind?_interns arg).bind fun derived => ?_
      cases derived with
      | none => exact Model.Interns.pure _
      | some derived =>
          refine (classBehind?_interns param).bind fun base => ?_
          cases base with
          | none => exact Model.Interns.pure _
          | some base => exact Model.Interns.get.bind fun _ => Model.Interns.pure _

theorem conversionCost?_interns (params args : List TypeId) :
    Model.Interns (conversionCost? params args) := by
  induction params generalizing args with
  | nil => exact Model.Interns.pure _
  | cons param params ih =>
      cases args with
      | nil => exact Model.Interns.pure _
      | cons arg args =>
          refine (conversion?_interns arg param).bind fun c => ?_
          cases c with
          | none => exact Model.Interns.pure _
          | some c => exact (ih args).bind fun _ => Model.Interns.pure _

theorem cost?_interns (args : List TypeId) (func : DeclId) : Model.Interns (cost? args func) := by
  refine Model.Interns.get.bind fun m => ?_
  cases m.function? func with
  | none => exact Model.Interns.pure _
  | some info =>
      dsimp only
      split
      · exact conversionCost?_interns _ args
      · exact Model.Interns.pure _

theorem stripped_interns (t : TypeId) : Model.Interns (stripped t) :=
  (referred_interns t).bind fun _ => Model.withoutQuals_interns _ _

theorem deduce?_interns (name : String) (params args : List TypeId) :
    Model.Interns (deduce? name params args) := by
  induction params generalizing args with
  | nil => exact Model.Interns.pure _
  | cons param params ih =>
      cases args with
      | nil => exact Model.Interns.pure _
      | cons arg args =>
          refine (stripped_interns param).bind fun spelled => Model.Interns.get.bind fun m => ?_
          split
          · exact (stripped_interns arg).bind fun _ => Model.Interns.pure _
          · exact ih args

theorem deduceAll?_interns (params args : List TypeId) (names : List String) :
    Model.Interns (deduceAll? params args names) := by
  induction names with
  | nil => exact Model.Interns.pure _
  | cons name names ih =>
      refine (deduce?_interns name params args).bind fun t => ?_
      cases t with
      | none => exact Model.Interns.pure _
      | some t => exact ih.bind fun _ => Model.Interns.pure _

theorem candidate?_interns (given : List TemplateArg) (args : List TypeId) (h : Handle) :
    Model.Interns (candidate? given args h) := by
  refine Model.Interns.get.bind fun m => ?_
  cases m.declOfHandle? h with
  | none => exact Model.Interns.pure _
  | some d =>
      dsimp only
      split
      next => exact Model.Interns.pure _
      next info _ =>
        cases info.pattern with
        | none => exact Model.Interns.pure _
        | some pattern => exact (deduceAll?_interns _ args _).bind fun _ => Model.Interns.pure _
      next => exact Model.Interns.pure _

theorem candidates_interns (given : List TemplateArg) (args : List TypeId) (hs : List Handle) :
    Model.Interns (filterMapM (candidate? given args) hs) := by
  induction hs with
  | nil => exact Model.Interns.pure _
  | cons h hs ih =>
      exact (candidate?_interns given args h).bind fun _ => ih.bind fun _ => Model.Interns.pure _

theorem functions_asks (candidates : List Candidate) :
    Asks (filterMapM Candidate.function? candidates) := by
  have hone (c : Candidate) : Asks c.function? := by
    cases c with
    | function d => exact Asks.pure _
    | template d args =>
        have hmade := (Asks.instantiateFunction d args).bind fun made => Asks.pure (some made)
        refine Asks.tryCatch hmade fun e => ?_
        split
        · exact Asks.throw e
        · exact Asks.pure _
  induction candidates with
  | nil => exact Asks.pure _
  | cons c candidates ih => exact (hone c).bind fun _ => ih.bind fun _ => Asks.pure _

theorem cheapest?_interns (args : List TypeId) (functions : List DeclId) (s : Standing) :
    Model.Interns (cheapest? args functions s) := by
  induction functions generalizing s with
  | nil => exact Model.Interns.pure _
  | cons func functions ih =>
      refine (cost?_interns args func).bind fun cost => ?_
      cases cost with
      | none => exact ih s
      | some cost => exact ih _

theorem best?_asks (candidates : List Handle) (given args : List Query.ArgRequest) :
    Asks (best? candidates given args) := by
  refine Asks.model.bind fun m => ?_
  split
  next given args _ _ =>
    exact (Asks.onModel (candidates_interns given args candidates)).bind fun prepared =>
      (functions_asks prepared).bind fun functions =>
        Asks.onModel (cheapest?_interns args functions {})
  next => exact Asks.pure _

end Overload

end CppReflect
