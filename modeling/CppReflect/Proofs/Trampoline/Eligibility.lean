import CppReflect.Proofs.Instances
import CppReflect.Trampoline.Eligibility

/-!
# Functions that trampolines may call

Whether a trampoline may call a function is decided in several steps, and in the middle of them the
function may get a body, which the last step looks at. On a rehearsed interpreter the decision
touches nothing but that body, only functions that may be called pass it, and a second one comes to
the same verdict.
-/

namespace CppReflect

/-! ## Bodies -/

/-- What is known of a function that has a body. -/
def FunctionInfo.withBody (info : FunctionInfo) : FunctionInfo := { info with defined := true }

/-- A function with a body; any other declaration stays as it is. -/
def Decl.withBody (e : Decl) : Decl :=
  match e.kind with
  | .function info => { e with kind := .function info.withBody }
  | _ => e

/-- The model in which a function has a body. -/
def Model.withBody (m : Model) (func : DeclId) : Model :=
  { m with decls := m.decls.modify func.index Decl.withBody }

/-- The interpreter in whose model a function has a body. -/
def Workbench.withBody (w : Workbench) (func : DeclId) : Workbench :=
  { w with interpreter := { w.interpreter with model := w.interpreter.model.withBody func } }

theorem Model.function?_withBody (m : Model) (func : DeclId) :
    (m.withBody func).function? func = (m.function? func).map FunctionInfo.withBody := by
  have hdecl : (m.withBody func).decl? func = (m.decl? func).map Decl.withBody := by
    rw [Model.withBody, Model.decl?_modify, if_pos rfl]
  unfold Model.function?
  rw [hdecl]
  cases m.decl? func with
  | none => rfl
  | some e =>
      obtain ⟨name, kind, parent, access, members, usingDirectives, implicit⟩ := e
      cases kind <;> rfl

namespace Trampoline

variable {w : Workbench} {r : Rehearsal} {func : DeclId} {info : FunctionInfo}

/-! ## Running the decision -/

/-- A step that fails is followed by nothing. -/
theorem run_step {α β : Type} (x : SynthesisM α) (f : α → SynthesisM β) (w : Workbench) :
    (x >>= f).run.run w =
      match x.run.run w with
      | (.ok a, w') => (f a).run.run w'
      | (.error e, w') => (.error e, w') := by
  change (ExceptT.bindCont f (x.run.run w).1).run (x.run.run w).2 = _
  rcases x.run.run w with ⟨_ | _, _⟩ <;> rfl

theorem run_functionInfo (d : DeclId) (w : Workbench) :
    (functionInfo d).run.run w =
      ((w.interpreter.model.function? d).elim (.error .notAFunction) .ok, w) := by
  have hmodel : (model : SynthesisM Model).run.run w = (.ok w.interpreter.model, w) := rfl
  unfold functionInfo
  rw [run_step, hmodel]
  dsimp only
  cases w.interpreter.model.function? d <;> rfl

/-- The last check asks nothing of the interpreter, and passes no template, nothing that is deleted
and nothing that is parsed late. -/
theorem checkDefinition_verdict (info : FunctionInfo) :
    ∃ verdict, (∀ w, (checkDefinition info).run.run w = (verdict, w)) ∧
      (verdict = .ok () → info.templated ≠ .functionTemplate ∧ info.deleted = false ∧
        info.lateParsed = false) := by
  unfold checkDefinition
  by_cases htemplate : info.templated = .functionTemplate
  · rw [if_pos htemplate]
    exact ⟨_, fun _ => rfl, nofun⟩
  rw [if_neg htemplate]
  by_cases hdeleted : info.deleted = true
  · rw [if_pos hdeleted]
    exact ⟨_, fun _ => rfl, nofun⟩
  rw [if_neg hdeleted]
  by_cases hlate : info.lateParsed = true
  · rw [if_pos hlate]
    exact ⟨_, fun _ => rfl, nofun⟩
  rw [if_neg hlate]
  exact ⟨_, fun _ => rfl, fun _ => ⟨htemplate, by simpa using hdeleted, by simpa using hlate⟩⟩

/-- The function has no body, and is an implicit instantiation of a pattern that has one. -/
structure AwaitsBody (m : Model) (info : FunctionInfo) : Prop where
  bodiless : info.defined = false
  isImplicit : info.specialization = .implicitInstantiation
  pattern : ∃ d pattern, info.pattern = some d ∧ m.function? d = some pattern ∧
    pattern.defined = true

/-- Whether a body is to be made is decided without making it. -/
theorem needsInstantiation_cases (w : Workbench) (hbody : info.defined = false) :
    (∃ e, (needsInstantiation info).run.run w = (.error e, w)) ∨
      (needsInstantiation info).run.run w = (.ok false, w) ∨
      (needsInstantiation info).run.run w = (.ok true, w) ∧
        AwaitsBody w.interpreter.model info := by
  unfold needsInstantiation
  cases hpattern : info.pattern with
  | none => exact .inl ⟨_, rfl⟩
  | some d =>
      simp only
      rw [run_step, run_functionInfo]
      cases hfunction : w.interpreter.model.function? d with
      | none => exact .inl ⟨_, rfl⟩
      | some pattern =>
          simp only [Option.elim]
          by_cases hordinary : isOrdinary pattern = true
          · rw [if_pos hordinary]
            exact .inr (.inl rfl)
          rw [if_neg hordinary]
          by_cases hdefined : pattern.defined = true
          · rw [if_neg (by simp [hdefined])]
            by_cases himplicit : info.specialization = .implicitInstantiation
            · rw [decide_eq_true himplicit]
              exact .inr (.inr ⟨rfl, hbody, himplicit, d, pattern, hpattern, hfunction, hdefined⟩)
            · rw [decide_eq_false himplicit]
              exact .inr (.inl rfl)
          · rw [if_pos (by simpa using hdefined)]
            exact .inl ⟨_, rfl⟩

/-- A rehearsed interpreter gives a function that awaits a body one, and does nothing else. -/
theorem run_instantiateDefinition (hr : w.interpreter.backend = .rehearsed r)
    (hfunc : w.interpreter.model.function? func = some info)
    (hawaits : AwaitsBody w.interpreter.model info) :
    (attempt (Service.instantiateDefinition func)).run.run w = (.ok (.ok ()), w.withBody func) := by
  obtain ⟨d, pattern, hpattern, hfunction, hdefined⟩ := hawaits.pattern
  have hany : (info.pattern.bind w.interpreter.model.function?).any FunctionInfo.defined = true := by
    simp [hpattern, hfunction, hdefined]
  have hfound : (Service.orElse .invalidDecl (w.interpreter.model.function? func)).run.run w =
      (.ok info, w) := by
    rw [run_orElse, hfunc]
    rfl
  have hrun : (Service.instantiateDefinition func).run.run w = (.ok (), w.withBody func) := by
    rw [Service.instantiateDefinition, run_bind_ok run_backend, hr]
    simp only [Rehearsal.instantiateDefinition]
    rw [run_bind_ok run_model, run_bind_ok hfound, if_pos hany]
    rfl
  change (Except.ok ((Service.instantiateDefinition func).run.run w).1,
    ((Service.instantiateDefinition func).run.run w).2) = _
  rw [hrun]

/-- A function without a body is rejected, or it needs none, or it is given one. -/
theorem materialize_cases (hr : w.interpreter.backend = .rehearsed r)
    (hfunc : w.interpreter.model.function? func = some info) (hbody : info.defined = false) :
    (∃ e, (materialize func info).run.run w = (.error e, w)) ∨
      (materialize func info).run.run w = (.ok info, w) ∧ info.templated ≠ .functionTemplate ∨
      (materialize func info).run.run w = (.ok info.withBody, w.withBody func) ∧
        AwaitsBody w.interpreter.model info := by
  unfold materialize
  split
  next hplain => exact .inr (.inl ⟨rfl, by rw [hplain]; nofun⟩)
  next => exact .inl ⟨_, rfl⟩
  next hinstance htemplate =>
    by_cases hinstantiation : info.specialization.isInstantiation = true
    · rw [if_pos hinstantiation, run_step]
      rcases needsInstantiation_cases w hbody with ⟨e, hneeds⟩ | hneeds | ⟨hneeds, hawaits⟩
      · rw [hneeds]
        exact .inl ⟨e, rfl⟩
      · rw [hneeds]
        exact .inr (.inl ⟨rfl, htemplate⟩)
      · rw [hneeds]
        apply Or.inr
        apply Or.inr
        refine ⟨?_, hawaits⟩
        have hfunc' : (w.withBody func).interpreter.model.function? func = some info.withBody := by
          rw [Workbench.withBody, Model.function?_withBody, hfunc]
          rfl
        simp only [if_true]
        rw [run_step, run_instantiateDefinition hr hfunc hawaits]
        simp only
        rw [run_step, run_functionInfo, hfunc']
        rfl
    · rw [if_neg hinstantiation]
      exact .inr (.inl ⟨rfl, htemplate⟩)

/-- A function that has a body, or is deleted, is checked at once. -/
theorem run_prepare_checked (hfunc : w.interpreter.model.function? func = some info)
    (hchecked : (info.defined || info.deleted) = true) :
    (prepare func).run.run w = (checkDefinition info).run.run w := by
  unfold prepare
  rw [run_step, run_functionInfo, hfunc]
  simp only [Option.elim]
  rw [if_pos hchecked, run_step]
  change (if info.defined || info.deleted then checkDefinition info else pure ()).run.run w = _
  rw [if_pos hchecked]

/-- The decision changes nothing, or it gives the function a body and then checks the definition. -/
theorem prepare_cases (hr : w.interpreter.backend = .rehearsed r) (func : DeclId) :
    (∃ verdict, (prepare func).run.run w = (verdict, w) ∧ (verdict = .ok () → ∃ info,
      w.interpreter.model.function? func = some info ∧ info.templated ≠ .functionTemplate ∧
        info.deleted = false ∧ (info.defined = true → info.lateParsed = false))) ∨
    ∃ info, w.interpreter.model.function? func = some info ∧
      AwaitsBody w.interpreter.model info ∧
      (prepare func).run.run w = (checkDefinition info.withBody).run.run (w.withBody func) := by
  cases hfunc : w.interpreter.model.function? func with
  | none =>
      apply Or.inl
      refine ⟨.error .notAFunction, ?_, nofun⟩
      rw [prepare, run_step, run_functionInfo, hfunc]
      rfl
  | some info =>
      by_cases hchecked : (info.defined || info.deleted) = true
      · obtain ⟨verdict, hrun, hverdict⟩ := checkDefinition_verdict info
        apply Or.inl
        refine ⟨verdict, by rw [run_prepare_checked hfunc hchecked, hrun], fun hok => ⟨info, rfl, ?_⟩⟩
        obtain ⟨htemplate, hdeleted, hlate⟩ := hverdict hok
        exact ⟨htemplate, hdeleted, fun _ => hlate⟩
      · have hopen : info.defined = false ∧ info.deleted = false := by simpa using hchecked
        rw [prepare, run_step, run_functionInfo, hfunc]
        simp only [Option.elim]
        rw [if_neg hchecked, run_step]
        rcases materialize_cases hr hfunc hopen.1 with
          ⟨e, hrun⟩ | ⟨hrun, htemplate⟩ | ⟨hrun, hawaits⟩
        · rw [hrun]
          exact .inl ⟨_, rfl, nofun⟩
        · rw [hrun]
          simp only
          rw [if_neg hchecked]
          apply Or.inl
          exact ⟨.ok (), rfl, fun _ => ⟨info, rfl, htemplate, hopen.2, by simp [hopen.1]⟩⟩
        · rw [hrun]
          exact .inr ⟨info, rfl, hawaits, rfl⟩

/-! ## Verdicts -/

/-- What a decision on a function comes to: only a function that may be called passes, nothing but a
missing body has changed, and a second decision is the same. -/
structure Decided (w : Workbench) (func : DeclId) (verdict : Except SynthesisError Unit)
    (w' : Workbench) : Prop where
  sound : verdict = .ok () → ∃ info, w'.interpreter.model.function? func = some info ∧
    info.templated ≠ .functionTemplate ∧ info.deleted = false ∧
    (info.defined = true → info.lateParsed = false)
  spares : w' = w ∨ ∃ info, w.interpreter.model.function? func = some info ∧
    AwaitsBody w.interpreter.model info ∧ w' = w.withBody func
  repeats : (prepare func).run.run w' = (verdict, w')

/-- On a rehearsed interpreter the decision whether a trampoline may call a function is sound, makes
at most the body that an implicit instantiation of a defined pattern has not got, and stands if it
is asked for again. -/
theorem prepare_decided (hr : w.interpreter.backend = .rehearsed r) (func : DeclId) :
    Decided w func ((prepare func).run.run w).1 ((prepare func).run.run w).2 := by
  rcases prepare_cases hr func with ⟨verdict, hrun, hsound⟩ | ⟨info, hfunc, hawaits, hrun⟩
  · rw [hrun]
    exact ⟨hsound, .inl rfl, hrun⟩
  · obtain ⟨verdict, hcheck, hverdict⟩ := checkDefinition_verdict info.withBody
    have hfunc' : (w.withBody func).interpreter.model.function? func = some info.withBody := by
      rw [Workbench.withBody, Model.function?_withBody, hfunc]
      rfl
    rw [hrun, hcheck]
    refine ⟨fun hok => ?_, .inr ⟨info, hfunc, hawaits, rfl⟩, ?_⟩
    · obtain ⟨htemplate, hdeleted, hlate⟩ := hverdict hok
      exact ⟨info.withBody, hfunc', htemplate, hdeleted, fun _ => hlate⟩
    · -- The body that was made is there now, so the definition is checked at once.
      rw [run_prepare_checked hfunc' rfl, hcheck]

/-- What is known of the pattern of `template <typename T> int id(T)`. -/
def idPattern : FunctionInfo where
  returnType := ⟨0⟩
  templated := .functionTemplate

/-- What is known of the instantiation `id<int>`, which has no body yet. -/
def idInfo : FunctionInfo where
  returnType := ⟨0⟩
  defined := false
  templated := .functionTemplateSpecialization
  specialization := .implicitInstantiation
  pattern := some ⟨1⟩

/-- A rehearsed interpreter whose model has both. -/
def idWorkbench : Workbench where
  interpreter := .rehearsed ((do
    let _ ← Model.internKind (.builtin .int)
    let _ ← Model.addDetached Model.root "id" .none (.function idPattern)
    Model.addDetached Model.root "id" .none (.function idInfo) : ModelM DeclId).run .empty).2
  host := default

/-- The instantiation passes and has a body then; its pattern does not pass. -/
theorem prepare_decided_id :
    idWorkbench.interpreter.backend = .rehearsed {} ∧
      Decided idWorkbench ⟨2⟩ (.ok ()) (idWorkbench.withBody ⟨2⟩) ∧
      (idWorkbench.withBody ⟨2⟩).interpreter.model.function? ⟨2⟩ = some idInfo.withBody ∧
      Decided idWorkbench ⟨1⟩ (.error (.ineligible .functionTemplate)) idWorkbench := by
  have hinstance : (prepare ⟨2⟩).run.run idWorkbench = (.ok (), idWorkbench.withBody ⟨2⟩) := by rfl
  have hpattern : (prepare ⟨1⟩).run.run idWorkbench =
      (.error (.ineligible .functionTemplate), idWorkbench) := by rfl
  have hpasses := prepare_decided (w := idWorkbench) (r := {}) rfl ⟨2⟩
  have hrejected := prepare_decided (w := idWorkbench) (r := {}) rfl ⟨1⟩
  rw [hinstance] at hpasses
  rw [hpattern] at hrejected
  exact ⟨rfl, hpasses, by decide +kernel, hrejected⟩

end Trampoline

end CppReflect
