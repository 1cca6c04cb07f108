import CppReflect.Proofs.Ast.Reading
import CppReflect.Proofs.Model.Steps

/-!
# The steps of a dump

Every handler of a dump changes the model in steps. Most keys are of another sort than those of
specializations, so a declaration that a handler lists is never found under such a key; and the
specializations of a function template learn their arguments under the key at which they were put.
-/

namespace CppReflect.Ast

open Model (Interns IsInstanceKey)

/-! ## Keys -/

/-- A key tells what it is the key of. -/
theorem keyIn_inj {scope scope' : DeclId} {what what' : String}
    (h : keyIn scope what = keyIn scope' what') : what = what' := by
  have hdigits (d : DeclId) : ∀ c ∈ (toString d.index).toList, (c != '/') = true := by
    intro c hc
    rw [Nat.toString_eq_ofList_toDigits, String.toList_ofList] at hc
    have hdigit := Nat.isDigit_of_mem_toDigits (by decide) (by decide) hc
    exact bne_iff_ne.mpr fun hslash => by simp [hslash] at hdigit
  have hdrop (d : DeclId) (what : String) :
      (keyIn d what).toList.dropWhile (· != '/') = '/' :: what.toList := by
    simp only [keyIn, String.toList_append, List.append_assoc]
    rw [List.dropWhile_append_of_pos (hdigits d)]
    rfl
  -- A printed place has no slash in it, so the first one is behind the scope.
  have heq := hdrop scope what
  rw [h, hdrop scope' what'] at heq
  exact String.toList_injective (List.cons.inj heq).2.symm

/-- What is no specialization has another key. -/
theorem not_isInstanceKey {scope : DeclId} {what : String}
    (h : ¬"spec:<".toList <+: what.toList) : ¬IsInstanceKey (keyIn scope what) := by
  rintro ⟨template, arguments, hkey⟩
  rw [keyIn_inj hkey, String.toList_append] at h
  exact h (List.prefix_append _ _)

theorem functionKey_not_instance (m : Model) (owner : DeclId) (name : String)
    (params : List ParamInfo) (isConst : Bool) :
    ¬IsInstanceKey (functionKey m owner name params isConst) :=
  not_isInstanceKey (by simp [String.toList_append])

theorem specializationKey_instance (m : Model) (template : DeclId) (args : List TemplateArg) :
    IsInstanceKey (specializationKey m template args) :=
  ⟨template, m.argsText args ++ ">", by rw [specializationKey, String.append_assoc]⟩

/-! ## Steps on the model -/

theorem typeOf_interns (spelling : Option String) (context : DeclId) :
    Interns (typeOf spelling context) := by
  cases spelling with
  | some s => exact Model.parseType_interns s context
  | none => exact Model.intern_interns _

theorem baseSpecifiers_interns (node : Json) (context : DeclId) :
    Interns (baseSpecifiers node context) :=
  Interns.mapM fun _ _ => (typeOf_interns _ context).bind fun _ => Interns.pure _

theorem templateParams_interns (node : Json) (context : DeclId) :
    Interns (templateParams node context) := by
  refine (Interns.mapM fun child _ => ?_).bind fun params => Interns.pure _
  dsimp only
  split
  · exact Interns.pure _
  · exact (Model.parseType_interns _ context).bind fun _ => Interns.pure _
  · exact Interns.pure _
  · exact Interns.pure _

theorem templateArgFrom_interns (context : DeclId) (fuel : Nat) (node : Json) :
    Interns (templateArgFrom context fuel node) := by
  induction fuel generalizing node with
  | zero => exact Interns.pure []
  | succ fuel ih =>
      unfold templateArgFrom
      split
      · exact (Model.parseType_interns _ context).bind fun _ => Interns.pure _
      · exact (Model.parseType_interns _ context).bind fun _ => Interns.pure _
      · exact (Model.intern_interns _).bind fun _ => Interns.pure _
      · split
        · exact (Interns.mapM fun child _ => ih child).bind fun _ => Interns.pure _
        · exact Interns.pure []

theorem templateArgs_interns (node : Json) (context : DeclId) :
    Interns (templateArgs node context) :=
  (Interns.mapM fun child _ => templateArgFrom_interns context _ child).bind fun _ => Interns.pure _

theorem specialOf_interns (node : Json) (owner : DeclId) (params : List ParamInfo) :
    Interns (specialOf node owner params) := by
  unfold specialOf
  split
  · exact Model.askAlong_interns _ _
  · exact Interns.pure _
  · exact Interns.pure _
  · exact Interns.pure _

theorem returnTypeOf_interns (proto : Option FunctionProto) (special : SpecialMember) :
    Interns (returnTypeOf proto special) := by
  unfold returnTypeOf
  split
  · exact Model.intern_interns _
  · exact Model.intern_interns _
  · exact Interns.pure _
  · exact Model.intern_interns _

/-- What is declared under a key is in the list of its scope only if the key is that of no
specialization. -/
theorem upsert_stepwise {key : String} (parent : DeclId) (name : String) (access : Access)
    {detached : Bool} {kind : ModelM DeclKind} (hkind : Interns kind)
    (hunit : ∀ m : Model, (kind.run m).1 ≠ .translationUnit)
    (hlisted : detached = false →
      ¬IsInstanceKey key ∧ ∀ m : Model, (kind.run m).1.args? = none) :
    Model.Stepwise (upsert key parent name access detached kind) := by
  intro m
  cases hkey : m.keyed? key with
  | some d =>
      rw [upsert_of_keyed hkey]
      exact .refl
  | none =>
      have hfree : (kind.run m).2.keyed? key = none := by
        rw [Model.keyed?, (hkind m).keys]
        exact hkey
      rw [upsert_of_free hkey]
      -- The types of the declaration come first, and leave the key free.
      refine (hkind.stepwise m).trans ?_
      cases detached with
      | true => exact .single (.appendUnder hfree parent name access (hunit m))
      | false =>
          obtain ⟨hinstance, hargs⟩ := hlisted rfl
          have hadded := Model.addDecl_stepwise parent name access (hunit m) (hargs m)
          exact (hadded (kind.run m).2).tail (.bind (by exact hfree) hinstance _)

/-- What is declared under a key and listed in its scope. -/
theorem upsert_listed_stepwise {key : String} (hkey : ¬IsInstanceKey key) (parent : DeclId)
    (name : String) (access : Access) {kind : ModelM DeclKind} (hkind : Interns kind)
    (hplain : ∀ m : Model, (kind.run m).1 ≠ .translationUnit ∧ (kind.run m).1.args? = none) :
    Model.Stepwise (upsert key parent name access false kind) :=
  upsert_stepwise parent name access hkind (fun m => (hplain m).1)
    fun _ => ⟨hkey, fun m => (hplain m).2⟩

theorem usingDirective_stepwise (node : Json) (scope : DeclId) :
    Model.Stepwise (usingDirective node scope) := by
  refine Model.Stepwise.get.bind fun m => ?_
  dsimp only
  split
  next d _ => exact Model.useNamespace_stepwise scope d
  next => exact Model.Stepwise.pure _

theorem declareImplicitMembers_stepwise (record : DeclId) (data : Json) :
    Model.Stepwise (declareImplicitMembers record data) := by
  refine Model.Stepwise.get.bind fun m => ?_
  refine (Model.intern_interns _).stepwise.bind fun void => ?_
  have hdeclare : ∀ name special, Model.Stepwise
      (upsert (keyIn record ("fn:" ++ name ++ "()")) record name .pub false
          (pure (.function { returnType := void, method := some {}, special })) >>= fun r =>
        if r.2 then Model.modifyDecl r.1 fun e => { e with implicit := true }
        else pure ()) := by
    intro name special
    refine Model.Stepwise.bind (upsert_listed_stepwise (not_isInstanceKey ?_) record name .pub
      (Interns.pure _) ?_) fun r => ?_
    · simp
    · exact fun _ => ⟨nofun, rfl⟩
    exact Model.Stepwise.ite (Model.setImplicit_stepwise r.1 true) (Model.Stepwise.pure _)
  dsimp only
  refine Model.Stepwise.ite ?_ ?_
  · refine (hdeclare _ _).bind fun _ => ?_
    exact Model.Stepwise.ite (hdeclare _ _) (Model.Stepwise.pure _)
  · exact Model.Stepwise.ite (hdeclare _ _) (Model.Stepwise.pure _)

theorem listSpecialization_stepwise (template d : DeclId) :
    Model.Stepwise (listSpecialization template d) :=
  Model.modifyTemplate_stepwise template _

/-! ## Steps of a dump -/

/-- The step leads from each model to a related one, also when it gives up. -/
def Along (R : Model → Model → Prop) {α : Type} (x : IngestM α) : Prop :=
  ∀ p : Progress, R p.model (x.run.run p).2.model

namespace Along

variable {α β : Type} {R : Model → Model → Prop}

theorem onModel {x : ModelM α} (hx : ∀ m : Model, R m (x.run m).2) : Along R (onModel x) :=
  fun p => hx p.model

theorem ite {c : Prop} [Decidable c] {x y : IngestM α} (hx : Along R x) (hy : Along R y) :
    Along R (if c then x else y) := by
  split
  · exact hx
  · exact hy

variable [IsPreorder Model R]

theorem pure (a : α) : Along R (pure a : IngestM α) := fun p => refl_of R p.model

/-- What follows a step goes on where the step leads. -/
theorem bind_run {x : IngestM α} {f : α → IngestM β} (hx : Along R x)
    (hf : ∀ p a p', x.run.run p = (.ok a, p') → R p'.model ((f a).run.run p').2.model) :
    Along R (x >>= f) := by
  intro p
  have hfirst := hx p
  rcases hrun : x.run.run p with ⟨e | a, p'⟩
  · rw [hrun] at hfirst
    rw [run_bind_of_error hrun]
    exact hfirst
  · rw [hrun] at hfirst
    rw [run_bind_of_ok hrun]
    exact trans_of R hfirst (hf p a p' hrun)

theorem bind {x : IngestM α} {f : α → IngestM β} (hx : Along R x) (hf : ∀ a, Along R (f a)) :
    Along R (x >>= f) := hx.bind_run fun _ a p' _ => hf a p'

/-- A step on the model leads from the one at hand to a related one, and so does what follows. -/
theorem onModel_bind {x : ModelM α} {f : α → IngestM β} {p : Progress}
    (hx : R p.model (x.run p.model).2) (hf : ∀ a, Along R (f a)) :
    R p.model ((Ast.onModel x >>= f).run.run p).2.model := by
  rw [run_bind_of_ok (run_onModel x)]
  exact trans_of R hx (hf _ { p with model := (x.run p.model).2 })

theorem check (x : Except IngestError α) : Along R (liftM x : IngestM α) := by
  intro p
  cases x with
  | ok a => exact refl_of R p.model
  | error e => exact refl_of R p.model

theorem progress : Along R (getThe Progress : IngestM Progress) := fun p => refl_of R p.model

theorem model : Along R Ast.model := fun p => refl_of R p.model

/-- A change of what is not the model. -/
theorem note {g : Progress → Progress} (hg : ∀ p, (g p).model = p.model) :
    Along R (modifyThe Progress g : IngestM PUnit) := by
  intro p
  change R p.model (g p).model
  exact hg p ▸ refl_of R p.model

theorem foldlM {f : β → α → IngestM β} {l : List α} (hf : ∀ a ∈ l, ∀ b, Along R (f b a)) (b : β) :
    Along R (l.foldlM f b) := by
  induction l generalizing b with
  | nil => exact pure b
  | cons a l ih =>
      rw [List.foldlM_cons]
      refine (hf a List.mem_cons_self b).bind fun b' => ?_
      exact ih (fun c hc => hf c (List.mem_cons_of_mem a hc)) b'

theorem forM {f : α → IngestM PUnit} {l : List α} (hf : ∀ a ∈ l, Along R (f a)) :
    Along R (l.forM f) := by
  induction l with
  | nil => exact pure _
  | cons a l ih =>
      change Along R (f a >>= fun _ => l.forM f)
      exact (hf a List.mem_cons_self).bind fun _ => ih fun c hc => hf c (List.mem_cons_of_mem a hc)

theorem mapM {f : α → IngestM β} {l : List α} (hf : ∀ a ∈ l, Along R (f a)) :
    Along R (l.mapM f) := by
  induction l with
  | nil => exact pure []
  | cons a l ih =>
      rw [List.mapM_cons]
      refine (hf a List.mem_cons_self).bind fun b => ?_
      exact (ih fun c hc => hf c (List.mem_cons_of_mem a hc)).bind fun bs => pure _

end Along

section Quiet

variable {R : Model → Model → Prop} [IsPreorder Model R]

theorem observe_along (node : Json) : Along R (observe node) := Along.note fun _ => rfl

theorem passOver_along (node : Json) : Along R (passOver node) := Along.note fun _ => rfl

theorem unnamedKey_along (scope : DeclId) (sort : String) : Along R (unnamedKey scope sort) := by
  refine Along.progress.bind fun p => Along.bind (Along.note ?_) fun _ => Along.pure _
  exact fun _ => rfl

theorem ownerOf_along (node : Json) (scope : DeclId) : Along R (ownerOf node scope) :=
  Along.progress.bind fun _ => Along.pure _

end Quiet

/-- The step changes the model in steps, also when it gives up. -/
abbrev Stepwise {α : Type} (x : IngestM α) : Prop := Along Model.Steps x

/-! ## Handlers -/

/-- A visitor that changes every model in steps. -/
def Visitor.Stepwise (visit : Visitor) : Prop :=
  ∀ node scope access, Ast.Stepwise (visit node scope access)

variable {visit : Visitor}

theorem namespaceDecl_stepwise (hvisit : visit.Stepwise) (node : Json) (parent : DeclId) :
    Stepwise (namespaceDecl visit node parent) := by
  refine Along.bind (Along.onModel (upsert_listed_stepwise (not_isInstanceKey ?_) parent _ .none
    (Interns.pure _) ?_)) fun r => hvisit node r.1 .none
  · simp
  · exact fun _ => ⟨nofun, rfl⟩

/-- What is done under the key of an unnamed declaration. -/
theorem unnamedKey_then {α : Type} {sort : String}
    (hsort : ∀ n, ¬"spec:<".toList <+: (sort ++ n).toList) (scope : DeclId)
    {f : String → IngestM α} (hf : ∀ key, ¬IsInstanceKey key → Stepwise (f key)) :
    Stepwise (unnamedKey scope sort >>= f) := by
  refine (unnamedKey_along scope sort).bind_run fun p key p' hrun => hf key ?_ p'
  cases hrun
  refine not_isInstanceKey ?_
  rw [String.append_assoc]
  exact hsort _

/-- What is done under the key of a declaration that may be unnamed. -/
theorem key_then {α : Type} {c : Prop} [Decidable c] {scope : DeclId} {sort what : String}
    (hsort : ∀ n, ¬"spec:<".toList <+: (sort ++ n).toList)
    (hwhat : ¬"spec:<".toList <+: what.toList) {f : String → IngestM α}
    (hf : ∀ key, ¬IsInstanceKey key → Stepwise (f key)) :
    Stepwise (if c then unnamedKey scope sort >>= f else pure (keyIn scope what) >>= f) := by
  refine Along.ite (unnamedKey_then hsort scope hf) ?_
  rw [pure_bind]
  exact hf _ (not_isInstanceKey hwhat)

theorem recordHead_stepwise (node : Json) (parent : DeclId) (access : Access)
    (detached : Option Detached) : Stepwise (recordHead node parent access detached) := by
  cases detached with
  | some detached =>
      refine (Along.pure _).bind fun key => Along.bind (Along.onModel ?_) fun r =>
        Along.bind (Along.note ?_) fun _ => Along.pure _
      · exact upsert_stepwise parent _ access (Interns.pure _) (fun _ => nofun) nofun
      · exact fun _ => rfl
  | none =>
      unfold recordHead recordKey
      rw [ite_bind]
      refine key_then (by simp) (by simp) fun key hkey => Along.bind (Along.onModel ?_) fun r =>
        Along.bind (Along.note ?_) fun _ => Along.pure _
      · exact upsert_listed_stepwise hkey parent _ access (Interns.pure _) fun _ => ⟨nofun, rfl⟩
      · exact fun _ => rfl

theorem recordBody_stepwise (hvisit : visit.Stepwise) (node : Json) (parent d : DeclId) :
    Stepwise (recordBody visit node parent d) := by
  refine Along.ite ?_ (passOver_along node)
  refine (Along.onModel (baseSpecifiers_interns node parent).stepwise).bind fun bases => ?_
  refine Along.bind (Along.onModel (Model.modifyRecord_stepwise d ?_)) fun _ => ?_
  · exact fun _ => rfl
  refine (hvisit node d _).bind fun _ => ?_
  exact Along.onModel (declareImplicitMembers_stepwise d _)

theorem recordDecl_stepwise (hvisit : visit.Stepwise) (node : Json) (parent : DeclId)
    (access : Access) (detached : Option Detached) :
    Stepwise (recordDecl visit node parent access detached) := by
  rw [recordDecl_eq]
  exact (recordHead_stepwise node parent access detached).bind fun d =>
    (recordBody_stepwise hvisit node parent d).bind fun _ => Along.pure d

theorem specializationDecl_stepwise (hvisit : visit.Stepwise) (node : Json) (template : DeclId)
    (access : Access) : Stepwise (specializationDecl visit node template access) :=
  Along.model.bind fun _ => (Along.onModel (templateArgs_interns node _).stepwise).bind fun _ =>
    Along.model.bind fun _ => (recordDecl_stepwise hvisit node _ access _).bind fun d =>
      Along.onModel (listSpecialization_stepwise template d)

theorem classTemplateMember_stepwise (hvisit : visit.Stepwise) (source : Source) (parent : DeclId)
    (access : Access) (template : DeclId) (child : Json) :
    Stepwise (classTemplateMember visit source parent access template child) := by
  refine (observe_along child).bind fun _ => Along.ite (Along.ite ?_ ?_) (Along.pure _)
  · refine (recordDecl_stepwise hvisit child parent access _).bind fun d => ?_
    exact Along.onModel (Model.modifyTemplate_stepwise template _)
  · refine Along.progress.bind fun p => Along.ite ?_ (passOver_along child)
    exact specializationDecl_stepwise hvisit child template access

theorem classTemplateDecl_stepwise (hvisit : visit.Stepwise) (source : Source) (node : Json)
    (parent : DeclId) (access : Access) :
    Stepwise (classTemplateDecl visit source node parent access) := by
  rw [classTemplateDecl_eq]
  refine (Along.onModel (templateParams_interns node parent).stepwise).bind fun params => ?_
  refine Along.bind (Along.onModel (upsert_listed_stepwise (not_isInstanceKey ?_) parent _ access
    (Interns.pure _) ?_)) fun r => Along.forM fun child _ => ?_
  · simp
  · exact fun _ => ⟨nofun, rfl⟩
  · exact classTemplateMember_stepwise hvisit source parent access r.1 child

/-! ## Functions -/

theorem functionParams_stepwise (source : Source) (node : Json) (context : DeclId) :
    Stepwise (functionParams source node context) :=
  Along.mapM fun _ _ => (Along.check _).bind fun _ =>
    (Along.onModel (typeOf_interns _ context).stepwise).bind fun _ => Along.pure _

theorem mergeFunction_special (created : Bool) (n : FunctionNode) (info : FunctionInfo) :
    (mergeFunction created n info).special = info.special := by
  unfold mergeFunction
  cases n.memberPattern <;> rfl

theorem mergeFunction_templateArgs (created : Bool) (n : FunctionNode) (info : FunctionInfo) :
    (mergeFunction created n info).templateArgs = info.templateArgs := by
  unfold mergeFunction
  cases n.memberPattern <;> rfl

theorem functionDecl_stepwise (source : Source) (node : Json) (scope : DeclId) (access : Access)
    (detachedKey : Option String) :
    Stepwise (functionDecl source node scope access detachedKey) := by
  refine (ownerOf_along node scope).bind fun owner => ?_
  refine (Along.onModel (typeOf_interns _ owner).stepwise).bind fun type => ?_
  refine Along.model.bind fun m₁ => ?_
  refine (functionParams_stepwise source node owner).bind fun params => ?_
  refine Along.model.bind fun m₂ => ?_
  refine (Along.onModel (specialOf_interns node owner params).stepwise).bind fun special => ?_
  refine (Along.onModel (returnTypeOf_interns _ special).stepwise).bind fun returnType => ?_
  refine Along.bind (Along.onModel (upsert_stepwise owner _ access (Interns.pure _) ?_ ?_)) ?_
  · exact fun _ => nofun
  · cases detachedKey with
    | some key => exact nofun
    | none => exact fun _ => ⟨functionKey_not_instance m₂ owner _ params _, fun _ => rfl⟩
  rintro ⟨d, created⟩
  have hmerge : ∀ n, Model.Stepwise (Model.modifyFunction d (mergeFunction created n)) := fun n =>
    Model.modifyFunction_stepwise d fun info =>
      ⟨mergeFunction_special created n info, mergeFunction_templateArgs created n info⟩
  dsimp -zeta only
  extract_lets finished
  have hfinished : Stepwise (finished ()) :=
    Along.model.bind fun _ => (Along.onModel (hmerge _)).bind fun _ =>
      (passOver_along node).bind fun _ => Along.pure d
  exact Along.ite ((Along.onModel (Model.setImplicit_stepwise d true)).bind fun _ => hfinished)
    hfinished

/-- A specialization of a function template is found under the key at which it was put. -/
theorem functionDecl_keyed {source : Source} {node : Json} {scope : DeclId} {access : Access}
    {key : String} {p p' : Progress} {d : DeclId}
    (hrun : (functionDecl source node scope access (some key)).run.run p = (.ok d, p')) :
    p'.model.keyed? key = some d := by
  rw [functionDecl_eq] at hrun
  obtain ⟨head, p₁, -, hbody⟩ := run_bind_eq_ok hrun
  obtain ⟨special, p₂, -, hbody⟩ := run_bind_eq_ok hbody
  obtain ⟨returnType, p₃, -, hbody⟩ := run_bind_eq_ok hbody
  obtain ⟨⟨d', created⟩, p₄, hupsert, hbody⟩ := run_bind_eq_ok hbody
  have hkeyed := run_upsert_keyed hupsert
  -- What follows binds no key.
  dsimp only at hbody
  rw [ite_bind] at hbody
  split at hbody
  · cases hbody
    exact hkeyed
  · cases hbody
    exact hkeyed

theorem functionTemplateMember_stepwise (source : Source) (parent : DeclId) (access : Access)
    (template : DeclId) (pattern : Option DeclId) (child : Json) :
    Stepwise (functionTemplateMember source parent access template pattern child) := by
  refine (observe_along child).bind fun _ => Along.ite ?_ ?_
  · cases pattern with
    | none =>
        refine (functionDecl_stepwise source child parent access _).bind fun d => ?_
        refine Along.bind (Along.onModel (Model.modifyFunction_stepwise d ?_)) fun _ => Along.pure _
        exact fun _ => ⟨rfl, rfl⟩
    | some pattern =>
        refine (Along.onModel (templateArgs_interns child parent).stepwise).bind fun args => ?_
        refine Along.model.bind fun m => ?_
        refine (functionDecl_stepwise source child parent access _).bind_run fun p d p' hrun => ?_
        refine Along.onModel_bind (.single (Model.modifyFunction_instantiates ?_
          (functionDecl_keyed hrun) ?_)) fun _ => ?_
        · exact specializationKey_instance m template args
        · exact fun _ => rfl
        · exact (Along.onModel (listSpecialization_stepwise template d)).bind fun _ => Along.pure _
  · exact (passOver_along child).bind fun _ => Along.pure _

theorem functionTemplateDecl_stepwise (source : Source) (node : Json) (parent : DeclId)
    (access : Access) : Stepwise (functionTemplateDecl source node parent access) := by
  refine (Along.onModel (templateParams_interns node parent).stepwise).bind fun params => ?_
  refine Along.bind (Along.onModel (upsert_listed_stepwise (not_isInstanceKey ?_) parent _ access
    (Interns.pure _) ?_)) ?_
  · simp
  · exact fun _ => ⟨nofun, rfl⟩
  rintro ⟨template, created⟩
  refine (Along.foldlM (fun child _ pattern =>
    functionTemplateMember_stepwise source parent access template pattern child) none).bind ?_
  intro pattern
  exact Along.onModel (Model.modifyTemplate_stepwise template _)

/-! ## Other declarations -/

theorem fieldDecl_stepwise (node : Json) (record : DeclId) (access : Access) :
    Stepwise (fieldDecl node record access) := by
  unfold fieldDecl
  refine key_then (by simp) (by simp) fun key hkey => Along.bind (Along.onModel ?_) fun _ =>
    Along.pure _
  exact upsert_listed_stepwise hkey record _ access
    ((Model.parseType_interns _ record).bind fun _ => Interns.pure _) fun _ => ⟨nofun, rfl⟩

theorem varDecl_stepwise (node : Json) (scope : DeclId) (access : Access) :
    Stepwise (varDecl node scope access) := by
  refine (ownerOf_along node scope).bind fun owner => ?_
  refine Along.bind (Along.onModel (upsert_listed_stepwise (not_isInstanceKey ?_) owner _ _
    ((Model.parseType_interns _ owner).bind fun _ => Interns.pure _) ?_)) ?_
  · simp
  · exact fun _ => ⟨nofun, rfl⟩
  rintro ⟨d, created⟩
  dsimp only
  split
  next mangled _ =>
    refine Along.onModel (Model.modifyDecl_stepwise d fun e => ?_)
    split
    next info hkind =>
      exact Decl.Matures.set_kind (hkind ▸ trivial) (by simp [Decl.function?, hkind])
        (by simp [hkind, DeclKind.args?])
    next => exact Decl.Matures.refl e
  next => exact Along.pure _

theorem enumeratorDecl_stepwise (enum : DeclId) (type : TypeId) (r : EnumeratorRange)
    (child : Json) : Stepwise (enumeratorDecl enum type r child) := by
  refine (observe_along child).bind fun _ => Along.ite ?_ ?_
  · refine Along.bind (Along.onModel (upsert_listed_stepwise (not_isInstanceKey ?_) enum _ .none
      (Interns.pure _) ?_)) ?_
    · simp
    · exact fun _ => ⟨nofun, rfl⟩
    rintro ⟨d, created⟩
    refine (Along.onModel (Model.modifyDecl_stepwise d fun e => ?_)).bind fun _ =>
      (passOver_along child).bind fun _ => Along.pure _
    split
    next value type hkind =>
      exact Decl.Matures.set_kind (hkind ▸ trivial) (by simp [Decl.function?, hkind])
        (by simp [hkind, DeclKind.args?])
    next => exact Decl.Matures.refl e
  · exact (passOver_along child).bind fun _ => Along.pure _

theorem enumDecl_stepwise (node : Json) (parent : DeclId) (access : Access) :
    Stepwise (enumDecl node parent access) := by
  unfold enumDecl
  extract_lets name isScoped declared
  refine key_then (by simp) (by simp) fun key hkey => Along.bind (Along.onModel ?_) ?_
  · exact upsert_listed_stepwise hkey parent _ access
      ((Model.intern_interns _).bind fun _ => Interns.pure _) fun _ => ⟨nofun, rfl⟩
  rintro ⟨d, created⟩
  refine (Along.onModel (Model.intern_interns _).stepwise).bind fun type => ?_
  refine (Along.foldlM (fun child _ r => enumeratorDecl_stepwise d type r child) {}).bind ?_
  intro range
  extract_lets completed
  have hcompleted : ∀ integerType, Stepwise (completed integerType) := by
    intro integerType
    apply Along.onModel
    apply Model.modifyDecl_stepwise
    intro e
    split
    next info hkind =>
      apply Decl.Matures.set_kind
      · simp [hkind, DeclKind.Continues]
      · simp [Decl.function?, hkind]
      · simp [hkind, DeclKind.args?]
    next => exact Decl.Matures.refl e
  split
  · exact (Along.onModel (Model.parseType_interns _ parent).stepwise).bind hcompleted
  · exact (Along.onModel (Model.intern_interns _).stepwise).bind hcompleted

theorem typedefDecl_stepwise (node : Json) (parent : DeclId) (access : Access)
    (unnamed : Option DeclId) : Stepwise (typedefDecl node parent access unnamed) := by
  unfold typedefDecl
  extract_lets name spelling namesUnnamed
  refine Along.bind (Along.onModel (upsert_listed_stepwise (not_isInstanceKey ?_) parent name access
    ?_ ?_)) fun _ => Along.pure _
  · simp
  · split
    · exact (Model.intern_interns _).bind fun _ => Interns.pure _
    · exact (Model.parseType_interns _ parent).bind fun _ => Interns.pure _
  · split
    · exact fun _ => ⟨nofun, rfl⟩
    · exact fun _ => ⟨nofun, rfl⟩

/-! ## Visiting -/

theorem recordMember_stepwise (hvisit : visit.Stepwise) (scope : DeclId) (s : MemberState)
    (node : Json) : Stepwise (recordMember visit scope s node) := by
  refine Along.ite ?_ ?_
  · exact (passOver_along node).bind fun _ => Along.pure s
  · exact (recordDecl_stepwise hvisit node scope s.access none).bind fun d =>
      Along.ite (Along.pure _) (Along.pure s)

theorem declare_stepwise (hvisit : visit.Stepwise) (source : Source) (scope : DeclId)
    (s : MemberState) (node : Json) : Stepwise (declare visit source scope s node) := by
  unfold declare
  extract_lets finished
  have hthen : ∀ {x : IngestM PUnit}, Stepwise x → Stepwise (x >>= finished) := fun hx =>
    hx.bind fun _ => Along.pure s
  have hskip : Stepwise (passOver node >>= finished) := hthen (passOver_along node)
  split
  next => exact Along.pure _
  next => exact hthen (hvisit node scope s.access)
  next => exact hthen (hvisit node scope s.access)
  next => exact hthen (namespaceDecl_stepwise hvisit node scope)
  next => exact (Along.onModel (usingDirective_stepwise node scope)).bind fun _ => hskip
  next => exact recordMember_stepwise hvisit scope s node
  next => exact recordMember_stepwise hvisit scope s node
  next => exact hthen (classTemplateDecl_stepwise hvisit source node scope s.access)
  next =>
    refine Along.model.bind fun m => ?_
    extract_lets found
    clear_value found
    cases found with
    | some template => exact hthen (specializationDecl_stepwise hvisit node template s.access)
    | none => exact hskip
  next => exact hthen (functionTemplateDecl_stepwise source node scope s.access)
  next => exact hthen (enumDecl_stepwise node scope s.access)
  next => exact (typedefDecl_stepwise node scope s.access s.unnamed).bind fun _ => hskip
  next => exact (typedefDecl_stepwise node scope s.access s.unnamed).bind fun _ => hskip
  next => exact (fieldDecl_stepwise node scope s.access).bind fun _ => hskip
  next => exact (varDecl_stepwise node scope s.access).bind fun _ => hskip
  next =>
    refine Along.ite ?_ hskip
    exact (functionDecl_stepwise source node scope s.access none).bind fun _ => Along.pure s

theorem visitMember_stepwise (hvisit : visit.Stepwise) (source : Source) (scope : DeclId)
    (s : MemberState) (node : Json) : Stepwise (visitMember visit source scope s node) := by
  refine (observe_along node).bind fun _ => Along.progress.bind fun p => ?_
  refine Along.ite ?_ ?_
  · exact declare_stepwise hvisit source scope s node
  · exact (passOver_along node).bind fun _ => Along.pure s

/-- The visitor that is tied to the handlers changes every model in steps, down to any depth. -/
theorem visitMembers_stepwise (source : Source) (fuel : Nat) :
    Visitor.Stepwise (visitMembers source fuel) := by
  induction fuel with
  | zero => exact fun _ _ _ => Along.pure _
  | succ fuel ih =>
      intro node scope access
      exact (Along.foldlM (fun child _ s => visitMember_stepwise ih source scope s child)
        _).bind fun _ => Along.pure _

theorem visitDump_stepwise (source : Source) (node : Json) : Stepwise (visitDump source node) :=
  (observe_along node).bind fun _ => visitMembers_stepwise source _ node Model.root .none

/-- A dump changes every model in steps, also one that is given up. -/
theorem ingest_stepwise (m : Model) (source : Source) (dump : String) :
    m.Steps ((ingest source dump).run.run m).2 := by
  unfold ingest
  cases Json.read? dump with
  | none => exact .refl
  | some node =>
      have hsteps := visitDump_stepwise source node (start m)
      dsimp only
      rw [run_ingestNode]
      rcases hrun : (visitDump source node).run.run (start m) with ⟨e | _, after⟩
      · rw [hrun] at hsteps
        exact hsteps
      · rw [hrun] at hsteps
        exact hsteps

end CppReflect.Ast
