import CppReflect.Proofs.Operation.Frame

/-!
# Arguments that name the same

What a question does and what it answers depends on the declarations and types that its handles
name, and a handle that names none is as good as any other such handle. There are three exceptions.
A name is looked up in the global scope if the handle of the scope is null, equal handles of classes
are told before they are read, and a handle that stands for its own answer is handed back as it is.
-/

namespace CppReflect

/-- The null handle names no declaration. -/
theorem Model.declOfHandle?_zero (m : Model) : m.declOfHandle? 0 = none := rfl

/-- Arguments that say the same but for their handles, which name the same. -/
structure Model.Alike (m : Model) (a b : Arguments) : Prop where
  decl : ∀ arg, m.declOfHandle? (b.decl arg) = m.declOfHandle? (a.decl arg)
  decls : ∀ arg, (b.decls arg).map m.declOfHandle? = (a.decls arg).map m.declOfHandle?
  type : ∀ arg, m.typeOfHandle? (b.type arg) = m.typeOfHandle? (a.type arg)
  templateArgs : ∀ arg, (b.templateArgs arg).map (fun r => (m.typeOfHandle? r.type, r.value)) =
    (a.templateArgs arg).map fun r => (m.typeOfHandle? r.type, r.value)
  /-- A name is looked up in the global scope if the handle of the scope is null. -/
  parent : b.decl "parent" = 0 ↔ a.decl "parent" = 0
  /-- Equal handles of classes are told before they are read. -/
  same : b.decl "derived" = b.decl "base" ↔ a.decl "derived" = a.decl "base"
  derived : b.decl "derived" = 0 ↔ a.decl "derived" = 0
  rest : b = { a with
    decl := b.decl, decls := b.decls, type := b.type, templateArgs := b.templateArgs }

/-- The replies are the same, or they hand back a handle that was given. -/
inductive Arguments.Matches (a b : Arguments) : Reply → Reply → Prop
  | same (r : Reply) : a.Matches b r r
  | decl (arg : String) : a.Matches b (.decl (a.decl arg)) (.decl (b.decl arg))
  | type (arg : String) : a.Matches b (.type (a.type arg)) (.type (b.type arg))

/-- The actions, for some arguments each, do the same on an interpreter with a model, and their
replies match. -/
def Action.Agrees (m : Model) (a b : Arguments) : Action → Action → Prop
  | .read _ f, .read _ g => a.Matches b (f m) (g m)
  | .explore _ way f, .explore _ way' g => way m = way' m ∧ a.Matches b (f m) (g m)
  | .intern _ f, .intern _ g => a.Matches b (f.run m).1 (g.run m).1 ∧ (f.run m).2 = (g.run m).2
  | .ask _ f, .ask _ g => ∀ w : Workbench, w.interpreter.model = m → f.run w = g.run w
  | .manage f, .manage g => f = g
  | _, _ => False

namespace Model.Alike

variable {m : Model} {a b : Arguments}

theorem text (h : m.Alike a b) : b.text = a.text := by rw [h.rest]

theorem flag (h : m.Alike a b) : b.flag = a.flag := by rw [h.rest]

theorem count (h : m.Alike a b) : b.count = a.count := by rw [h.rest]

theorem quals (h : m.Alike a b) : b.quals = a.quals := by rw [h.rest]

theorem operator (h : m.Alike a b) : b.operator = a.operator := by rw [h.rest]

theorem arity (h : m.Alike a b) : b.arity = a.arity := by rw [h.rest]

/-! ## Scopes and classes -/

theorem scopeFor? (h : m.Alike a b) :
    Query.scopeFor? m (b.decl "parent") = Query.scopeFor? m (a.decl "parent") := by
  simp only [Query.scopeFor?, h.parent, h.decl]

theorem plainScope? (h : m.Alike a b) :
    Query.plainScope? m (b.decl "parent") = Query.plainScope? m (a.decl "parent") := by
  simp only [Query.plainScope?, h.parent, h.decl]

theorem isSubclass (h : m.Alike a b) :
    Query.isSubclass m (b.decl "derived") (b.decl "base") =
      Query.isSubclass m (a.decl "derived") (a.decl "base") := by
  simp only [Query.isSubclass, Query.recordAt?, h.same, ne_eq, h.derived, h.decl]

/-- A null handle and one that names no scope both have no functions. -/
theorem functionsNamed (h : m.Alike a b) (arg name : String) :
    Query.functionsNamed m (b.decl arg) name = Query.functionsNamed m (a.decl arg) name := by
  have hread (scope : Handle) : Query.functionsNamed m scope name =
      if name.isEmpty then [] else
        ((m.declOfHandle? scope).bind fun d =>
          (m.decl d).underlying?.elim (some d) fun _ => m.recordOfDecl? d).elim [] fun d =>
            (m.lookupIn d name).filter fun f => (m.function? f).isSome := by
    by_cases hnull : scope = 0
    · subst hnull
      simp [Query.functionsNamed, m.declOfHandle?_zero]
    · have hpresent : (scope == 0) = false := beq_eq_false_iff_ne.mpr hnull
      simp only [Query.functionsNamed, Query.scopeFor?, if_neg hnull, hpresent, Bool.or_false]
      congr 3
      funext d
      cases (m.decl d).underlying? <;> rfl
  rw [hread, hread, h.decl]

/-- A handle that is no typedef of a class is handed back. -/
theorem underlyingScope (h : m.Alike a b) (arg : String) :
    a.Matches b (.decl (Query.underlyingScope m (a.decl arg)))
      (.decl (Query.underlyingScope m (b.decl arg))) := by
  simp only [Query.underlyingScope, h.decl]
  generalize (do
    let d ← m.declOfHandle? (a.decl arg)
    let _ ← (m.decl d).underlying?
    m.recordOfDecl? d) = klass
  cases klass with
  | none => exact .decl arg
  | some d => exact .same _

/-! ## Types -/

theorem mapType (h : m.Alike a b) (arg : String) (f : TypeId → ModelM TypeId) :
    (Query.mapType (b.type arg) f).run m = (Query.mapType (a.type arg) f).run m := by
  simp only [Query.mapType, StateT.run_bind, StateT.run_get, pure_bind, h.type]

theorem isSmartPointer (h : m.Alike a b) (arg : String) :
    (Query.isSmartPointer (b.type arg)).run m = (Query.isSmartPointer (a.type arg)).run m := by
  simp only [Query.isSmartPointer, StateT.run_bind, StateT.run_get, pure_bind, h.type]

theorem typeOfScope (h : m.Alike a b) (arg : String) :
    (Query.typeOfScope (b.decl arg)).run m = (Query.typeOfScope (a.decl arg)).run m := by
  simp only [Query.typeOfScope, StateT.run_bind, StateT.run_get, pure_bind, h.decl]

theorem templateArgs? (h : m.Alike a b) (arg : String) :
    Query.templateArgs? m (b.templateArgs arg) = Query.templateArgs? m (a.templateArgs arg) := by
  have hresolve (args : List Query.ArgRequest) : Query.templateArgs? m args =
      (args.map fun r => (m.typeOfHandle? r.type, r.value)).mapM fun r =>
        r.1.map fun t => r.2.elim (TemplateArg.ofType t) (.ofValue t) := by
    rw [List.mapM_map]
    rfl
  rw [hresolve, hresolve, h.templateArgs]

theorem argTypes? (h : m.Alike a b) (arg : String) :
    (b.templateArgs arg).mapM (fun r => m.typeOfHandle? r.type) =
      (a.templateArgs arg).mapM fun r => m.typeOfHandle? r.type := by
  have hread (args : List Query.ArgRequest) : args.mapM (fun r => m.typeOfHandle? r.type) =
      (args.map fun r => (m.typeOfHandle? r.type, r.value)).mapM Prod.fst := by
    rw [List.mapM_map]
    rfl
  rw [hread, hread, h.templateArgs]

/-! ## What interpreters are asked for -/

variable {w : Workbench}

/-- A question that starts with a look at the model is about that model. -/
theorem run_model_bind {α : Type} (f : Model → ServiceM α) :
    (Service.model >>= f).run.run w = (f w.interpreter.model).run.run w := rfl

theorem run_bind_congr {α β : Type} {x y : ServiceM α} (hxy : x.run.run w = y.run.run w)
    (f : α → ServiceM β) : (x >>= f).run.run w = (y >>= f).run.run w := by
  change (ExceptT.bindCont f (x.run.run w).1).run (x.run.run w).2 = _
  rw [hxy]
  rfl

theorem run_onModel_congr {α : Type} {x y : ModelM α}
    (hxy : x.run w.interpreter.model = y.run w.interpreter.model) :
    (Service.onModel x).run.run w = (Service.onModel y).run.run w := by
  change (Except.ok (x.run w.interpreter.model).1, { w with
    interpreter := { w.interpreter with model := (x.run w.interpreter.model).2 } }) = _
  rw [hxy]
  rfl

theorem declAt (h : m.Alike a b) (hw : w.interpreter.model = m) (arg : String) :
    (Query.declAt (b.decl arg)).run.run w = (Query.declAt (a.decl arg)).run.run w := by
  unfold Query.declAt
  rw [run_model_bind, run_model_bind, hw, h.decl]

theorem sizeOfScope (h : m.Alike a b) (hw : w.interpreter.model = m) (arg : String) :
    (Query.sizeOfScope (b.decl arg)).run.run w = (Query.sizeOfScope (a.decl arg)).run.run w := by
  unfold Query.sizeOfScope
  rw [run_model_bind, run_model_bind, hw]
  simp only [Query.recordAt?, h.decl]

theorem sizeOfType (h : m.Alike a b) (hw : w.interpreter.model = m) (arg : String) :
    (Query.sizeOfType (b.type arg)).run.run w = (Query.sizeOfType (a.type arg)).run.run w := by
  unfold Query.sizeOfType
  rw [run_model_bind, run_model_bind, hw, h.type]

theorem baseClassOffset (h : m.Alike a b) (hw : w.interpreter.model = m) :
    (Query.baseClassOffset (b.decl "derived") (b.decl "base")).run.run w =
      (Query.baseClassOffset (a.decl "derived") (a.decl "base")).run.run w := by
  unfold Query.baseClassOffset
  rw [run_model_bind, run_model_bind, hw]
  simp only [Query.recordAt?, h.decl]

theorem variableOffset (h : m.Alike a b) (hw : w.interpreter.model = m) :
    (Query.variableOffset (b.decl "var") (b.decl "parent")).run.run w =
      (Query.variableOffset (a.decl "var") (a.decl "parent")).run.run w := by
  unfold Query.variableOffset
  rw [run_model_bind, run_model_bind, hw, h.decl "parent"]
  exact run_bind_congr (h.declAt hw "var") _

theorem functionAddress (h : m.Alike a b) (hw : w.interpreter.model = m) (arg : String) :
    (Query.functionAddress (b.decl arg)).run.run w =
      (Query.functionAddress (a.decl arg)).run.run w := by
  unfold Query.functionAddress
  rw [run_model_bind, run_model_bind, hw]
  simp only [Query.functionAt?, h.decl]

theorem methodAddress (h : m.Alike a b) (hw : w.interpreter.model = m) (arg : String) :
    (Query.methodAddress (b.decl arg)).run.run w =
      (Query.methodAddress (a.decl arg)).run.run w := by
  have hmethod : Query.isMethod m (b.decl arg) = Query.isMethod m (a.decl arg) := by
    simp only [Query.isMethod, Query.functionIs, Query.functionAt?, h.decl]
  unfold Query.methodAddress
  rw [run_model_bind, run_model_bind, hw, hmethod]
  cases Query.isMethod m (a.decl arg) with
  | false => rfl
  | true => exact h.functionAddress hw arg

theorem instantiate (h : m.Alike a b) (hw : w.interpreter.model = m) (withBody : Bool) :
    (Query.instantiate (b.decl "tmpl") (b.templateArgs "args") withBody).run.run w =
      (Query.instantiate (a.decl "tmpl") (a.templateArgs "args") withBody).run.run w := by
  unfold Query.instantiate
  rw [run_model_bind, run_model_bind, hw, h.decl, h.templateArgs?]

/-! ### Overloads -/

/-- Candidates are read off their handles whenever the declarations are those of the model. -/
theorem candidates {given : List TemplateArg} {args : List TypeId} {hs hs' : List Handle}
    (hsame : hs'.map m.declOfHandle? = hs.map m.declOfHandle?) {l : Model}
    (hdecls : l.decls = m.decls) :
    (Overload.filterMapM (Overload.candidate? given args) hs').run l =
      (Overload.filterMapM (Overload.candidate? given args) hs).run l := by
  -- The model grows from one candidate to the next, but not in its declarations.
  induction hs generalizing hs' l with
  | nil =>
      obtain rfl := List.map_eq_nil_iff.mp hsame
      rfl
  | cons h hs ih =>
      obtain ⟨h', hs', rfl, hhead, htail⟩ := List.map_eq_cons_iff.mp hsame
      have hread (h : Handle) : l.declOfHandle? h = m.declOfHandle? h := by
        rw [Model.declOfHandle?, Model.declOfHandle?, hdecls]
      have hfirst : (Overload.candidate? given args h').run l =
          (Overload.candidate? given args h).run l := by
        simp only [Overload.candidate?, StateT.run_bind, StateT.run_get, pure_bind, hread, hhead]
      have hdecls' := (Overload.candidate?_interns given args h l).decls.trans hdecls
      change (let first := (Overload.candidate? given args h').run l
        let others := (Overload.filterMapM (Overload.candidate? given args) hs').run first.2
        (first.1.elim others.1 (· :: others.1), others.2)) = _
      rw [hfirst]
      dsimp only
      rw [ih htail hdecls']
      rfl

theorem best? (h : m.Alike a b) (hw : w.interpreter.model = m) :
    (Overload.best? (b.decls "candidates") (b.templateArgs "explicit_types")
      (b.templateArgs "arg_types")).run.run w =
    (Overload.best? (a.decls "candidates") (a.templateArgs "explicit_types")
      (a.templateArgs "arg_types")).run.run w := by
  unfold Overload.best?
  rw [run_model_bind, run_model_bind, hw, h.templateArgs?, h.argTypes?]
  split
  · refine run_bind_congr (run_onModel_congr ?_) _
    exact candidates (h.decls "candidates") (congrArg Model.decls hw)
  · rfl

end Model.Alike

namespace Operation

variable {m : Model} {a b : Arguments}

end Operation

end CppReflect
