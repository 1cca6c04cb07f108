import CppReflect.Ast.Ingest
import CppReflect.Proofs.Model.Extension
import Mathlib.Logic.Relation

/-!
# The steps that a model is filled by

Whatever a client does, a model is changed in small steps of a few sorts: types are put into its
table, a declaration is appended and perhaps listed in its scope, a key is bound, or more becomes
known of a declaration. A declaration is made with its template arguments and keeps them. Only the
specializations of function templates learn theirs afterwards: those are found under the keys of
specializations, and a declaration under such a key is listed in no scope.
-/

namespace CppReflect

/-- The arguments of a specialization of a class or function template. -/
def DeclKind.args? : DeclKind → Option (List TemplateArg)
  | .record info => info.specialization.map Specialization.args
  | .function info => if info.templateArgs.isEmpty then none else some info.templateArgs
  | _ => none

/-- A later state of a declaration that lists the same members and has the same template
arguments. -/
structure Decl.Matures (e e' : Decl) : Prop extends e.Extends e' where
  listed : e'.members = e.members
  args : e'.kind.args? = e.kind.args?

namespace Decl.Matures

theorem refl (e : Decl) : e.Matures e := ⟨Extends.refl e, rfl, rfl⟩

/-- More is known of what is declared. -/
theorem set_kind {e : Decl} {k : DeclKind} (hkind : e.kind.Continues k)
    (hspecial : ({ e with kind := k } : Decl).function?.map FunctionInfo.special =
      e.function?.map FunctionInfo.special)
    (hargs : k.args? = e.kind.args?) : e.Matures { e with kind := k } :=
  ⟨Extends.set_kind hkind hspecial, rfl, hargs⟩

theorem set_classTemplate {e : Decl} {info : TemplateInfo} (hkind : e.kind = .classTemplate info)
    (info' : TemplateInfo) : e.Matures { e with kind := .classTemplate info' } :=
  set_kind (hkind ▸ trivial) (by simp [Decl.function?, hkind]) (by simp [hkind, DeclKind.args?])

theorem set_functionTemplate {e : Decl} {info : TemplateInfo}
    (hkind : e.kind = .functionTemplate info) (info' : TemplateInfo) :
    e.Matures { e with kind := .functionTemplate info' } :=
  set_kind (hkind ▸ trivial) (by simp [Decl.function?, hkind]) (by simp [hkind, DeclKind.args?])

theorem set_implicit (e : Decl) (implicit : Bool) : e.Matures { e with implicit } :=
  ⟨Extends.set_implicit e implicit, rfl, rfl⟩

end Decl.Matures

namespace Model

theorem templateArgs?_eq (m : Model) (d : DeclId) : m.templateArgs? d = (m.decl d).kind.args? := by
  unfold templateArgs? DeclKind.args?
  cases (m.decl d).kind <;> rfl

/-- The key belongs to a specialization of a template. -/
def IsInstanceKey (key : String) : Prop :=
  ∃ template arguments, key = Ast.keyIn template ("spec:<" ++ arguments)

/-- A step that changes a model. -/
inductive Step (m : Model) : Model → Prop
  | types {m' : Model} (hinterned : m.Interned m') : Step m m'
  | append (parent : DeclId) (name : String) (access : Access) {kind : DeclKind}
    (hkind : kind ≠ .translationUnit) : Step m ((addDetached parent name access kind).run m).2
  /-- Appends a declaration that is listed nowhere, under any key. -/
  | appendUnder {key : String} (hfree : m.keyed? key = none) (parent : DeclId) (name : String)
    (access : Access) {kind : DeclKind} (hkind : kind ≠ .translationUnit) :
    Step m ((addDetached parent name access kind >>= bindKey key).run m).2
  | list (parent : DeclId) (name : String) (access : Access) {kind : DeclKind}
    (hkind : kind ≠ .translationUnit) (hargs : kind.args? = none) :
    Step m ((addDecl parent name access kind).run m).2
  | bind {key : String} (hfree : m.keyed? key = none) (hkey : ¬IsInstanceKey key) (d : DeclId) :
    Step m ((bindKey key d).run m).2
  | mature (d : DeclId) {f : Decl → Decl} (hf : ∀ e : Decl, e.Matures (f e)) :
    Step m ((modifyDecl d f).run m).2
  /-- A specialization learns its arguments. -/
  | instantiate {key : String} {d : DeclId} (hkey : IsInstanceKey key)
    (hbound : m.keyed? key = some d) {f : Decl → Decl}
    (hf : ∀ e : Decl, e.Extends (f e) ∧ (f e).members = e.members) :
    Step m ((modifyDecl d f).run m).2

/-- A step only adds to the model. -/
theorem Step.extends {m m' : Model} (h : m.Step m') : m.Extends m' := by
  cases h with
  | types hinterned => exact hinterned.extends
  | append parent name access _ => exact addDetached_extending parent name access _ m
  | appendUnder hfree parent name access _ =>
      exact (addDetached_extending parent name access _ m).bindKey hfree _
  | list parent name access _ _ => exact addDecl_extending parent name access _ m
  | bind hfree _ d => exact (Extends.refl m).bindKey hfree d
  | mature d hf => exact modifyDecl_extending d (fun e => (hf e).toExtends) m
  | instantiate _ _ hf => exact modifyDecl_extending _ (fun e => (hf e).1) m

/-- Any number of steps. -/
def Steps : Model → Model → Prop := Relation.ReflTransGen Step

instance : IsPreorder Model Steps := inferInstanceAs (IsPreorder Model (Relation.ReflTransGen Step))

theorem Steps.extends {m m' : Model} (h : m.Steps m') : m.Extends m' := by
  induction h with
  | refl => exact Extends.refl m
  | tail _ hstep ih => exact ih.trans hstep.extends

/-- The computation changes every model in steps. -/
def Stepwise {α : Type} (x : ModelM α) : Prop := ∀ m : Model, m.Steps (x.run m).2

theorem Interns.stepwise {α : Type} {x : ModelM α} (hx : Interns x) : Stepwise x :=
  fun m => .single (.types (hx m))

namespace Stepwise

variable {α β : Type}

theorem pure (a : α) : Stepwise (pure a : ModelM α) := fun _ => .refl

theorem get : Stepwise (get : ModelM Model) := fun _ => .refl

theorem bind {x : ModelM α} {f : α → ModelM β} (hx : Stepwise x) (hf : ∀ a, Stepwise (f a)) :
    Stepwise (x >>= f) := fun m => (hx m).trans (hf _ _)

/-- What is known of the answer is known to what follows. -/
theorem bind_of_post {post : α → Prop} {x : ModelM α} {f : α → ModelM β} (hx : Stepwise x)
    (hpost : ∀ m : Model, post (x.run m).1) (hf : ∀ a, post a → Stepwise (f a)) :
    Stepwise (x >>= f) := fun m => (hx m).trans (hf _ (hpost m) _)

theorem discard {x : ModelM α} (hx : Stepwise x) : Stepwise (Functor.discard x) := hx

theorem ite {c : Prop} [Decidable c] {x y : ModelM α} (hx : Stepwise x) (hy : Stepwise y) :
    Stepwise (if c then x else y) := by
  split
  · exact hx
  · exact hy

end Stepwise

/-! ## Primitive steps -/

theorem addDetached_stepwise (parent : DeclId) (name : String) (access : Access) {kind : DeclKind}
    (hkind : kind ≠ .translationUnit) : Stepwise (addDetached parent name access kind) :=
  fun _ => .single (.append parent name access hkind)

theorem addDecl_stepwise (parent : DeclId) (name : String) (access : Access) {kind : DeclKind}
    (hkind : kind ≠ .translationUnit) (hargs : kind.args? = none) :
    Stepwise (addDecl parent name access kind) :=
  fun _ => .single (.list parent name access hkind hargs)

theorem modifyDecl_stepwise (d : DeclId) {f : Decl → Decl} (hf : ∀ e : Decl, e.Matures (f e)) :
    Stepwise (modifyDecl d f) := fun _ => .single (.mature d hf)

theorem modifyRecord_stepwise (d : DeclId) {f : RecordInfo → RecordInfo}
    (hf : ∀ info, (f info).specialization = info.specialization) : Stepwise (modifyRecord d f) := by
  refine modifyDecl_stepwise d fun e => ?_
  split
  next info hkind =>
    refine Decl.Matures.set_kind (hkind ▸ trivial) ?_ ?_
    · simp [Decl.function?, hkind]
    · simp [hkind, DeclKind.args?, hf]
  next => exact Decl.Matures.refl e

/-- What becomes known of a function changes neither its role nor its template arguments. -/
theorem modifyFunction_stepwise (d : DeclId) {f : FunctionInfo → FunctionInfo}
    (hf : ∀ info, (f info).special = info.special ∧ (f info).templateArgs = info.templateArgs) :
    Stepwise (modifyFunction d f) := by
  refine modifyDecl_stepwise d fun e => ?_
  split
  next info hkind =>
    refine Decl.Matures.set_kind (hkind ▸ trivial) ?_ ?_
    · simp [Decl.function?, hkind, hf]
    · simp [hkind, DeclKind.args?, hf]
  next => exact Decl.Matures.refl e

/-- A specialization of a function template learns its arguments. -/
theorem modifyFunction_instantiates {m : Model} {key : String} {d : DeclId}
    (hkey : IsInstanceKey key) (hbound : m.keyed? key = some d) {f : FunctionInfo → FunctionInfo}
    (hf : ∀ info, (f info).special = info.special) : m.Step ((modifyFunction d f).run m).2 := by
  refine .instantiate hkey hbound fun e => ?_
  split
  next info hkind =>
    refine ⟨Decl.Extends.set_kind (hkind ▸ trivial) ?_, rfl⟩
    simp [Decl.function?, hkind, hf]
  next => exact ⟨Decl.Extends.refl e, rfl⟩

theorem modifyTemplate_stepwise (d : DeclId) (f : TemplateInfo → TemplateInfo) :
    Stepwise (modifyTemplate d f) := by
  refine modifyDecl_stepwise d fun e => ?_
  split
  next info hkind => exact Decl.Matures.set_classTemplate hkind _
  next info hkind => exact Decl.Matures.set_functionTemplate hkind _
  next => exact Decl.Matures.refl e

theorem setImplicit_stepwise (d : DeclId) (implicit : Bool) :
    Stepwise (modifyDecl d fun e => { e with implicit }) :=
  modifyDecl_stepwise d fun e => Decl.Matures.set_implicit e implicit

theorem useNamespace_stepwise (scope nominated : DeclId) :
    Stepwise (useNamespace scope nominated) := by
  refine modifyDecl_stepwise scope fun e => ?_
  split
  · exact Decl.Matures.refl e
  · exact ⟨Decl.Extends.append_usingDirectives e [nominated], rfl, rfl⟩

/-! ## Declaring -/

theorem declareNamespace_stepwise (parent : DeclId) (name : String) :
    Stepwise (declareNamespace parent name) := by
  refine Stepwise.get.bind fun m => ?_
  split
  · exact Stepwise.pure _
  · exact addDecl_stepwise parent name .none nofun rfl

theorem declareRecord_stepwise (parent : DeclId) (name : String) (tag : TagKind) (complete : Bool) :
    Stepwise (declareRecord parent name tag complete) :=
  Stepwise.get.bind fun _ => addDecl_stepwise parent name _ nofun rfl

theorem addBase_stepwise (record base : DeclId) (access : Access) (isVirtual : Bool) :
    Stepwise (addBase record base access isVirtual) :=
  (intern_interns _).stepwise.bind fun _ => Stepwise.get.bind fun _ =>
    modifyRecord_stepwise record fun _ => rfl

theorem declareField_stepwise (record : DeclId) (name : String) (type : TypeId) (access : Access) :
    Stepwise (declareField record name type access) :=
  addDecl_stepwise record name access nofun rfl

theorem declareVariable_stepwise (parent : DeclId) (name : String) (type : TypeId) :
    Stepwise (declareVariable parent name type) :=
  Stepwise.get.bind fun _ => addDecl_stepwise parent name _ nofun rfl

theorem declareTypedef_stepwise (parent : DeclId) (name : String) (underlying : TypeId) :
    Stepwise (declareTypedef parent name underlying) :=
  Stepwise.get.bind fun _ => addDecl_stepwise parent name _ nofun rfl

theorem declareConstants_stepwise (enum : DeclId) (type : TypeId)
    (constants : List (String × Int64)) : Stepwise (declareConstants enum type constants) := by
  induction constants with
  | nil => exact Stepwise.pure _
  | cons constant rest ih =>
      exact (addDecl_stepwise enum constant.1 .none (by nofun) (by rfl)).bind fun _ => ih

theorem declareEnum_stepwise (parent : DeclId) (name : String) (isScoped : Bool)
    (constants : List (String × Int64)) :
    Stepwise (declareEnum parent name isScoped constants) := by
  refine (intern_interns _).stepwise.bind fun _ => Stepwise.get.bind fun _ => ?_
  refine (addDecl_stepwise parent name _ (by nofun) (by rfl)).bind fun d => ?_
  refine (intern_interns _).stepwise.bind fun type => ?_
  exact (declareConstants_stepwise d type constants).bind fun _ => Stepwise.pure d

theorem declareClassTemplate_stepwise (parent : DeclId) (name : String) (params : List String) :
    Stepwise (declareClassTemplate parent name params) := by
  refine Stepwise.get.bind fun _ => ?_
  refine (addDecl_stepwise parent name _ (by nofun) (by rfl)).bind fun d => ?_
  refine (addDetached_stepwise parent name _ (by nofun)).bind fun _ => ?_
  exact (modifyTemplate_stepwise d _).bind fun _ => Stepwise.pure d

theorem listClassSpecialization_stepwise (template d : DeclId) :
    Stepwise (listClassSpecialization template d) := by
  refine modifyDecl_stepwise template fun e => ?_
  split
  next info hkind => exact Decl.Matures.set_classTemplate hkind _
  next => exact Decl.Matures.refl e

theorem declareSpecialization_stepwise (template : DeclId) (args : List TemplateArg) :
    Stepwise (declareSpecialization template args) := by
  refine Stepwise.get.bind fun _ => ?_
  refine (addDetached_stepwise _ _ _ (by nofun)).bind fun d => ?_
  exact (listClassSpecialization_stepwise template d).bind fun _ => Stepwise.pure d

/-! ## Functions -/

end Model

namespace FunctionDraft

open Model

/-- A function that will be listed in its scope has no template arguments. -/
def Plain (f : FunctionDraft) : Prop := f.role = .none → f.info.templateArgs = []

/-- The computation changes models in steps and answers with such a draft. -/
structure Drafts (x : ModelM FunctionDraft) : Prop where
  stepwise : Stepwise x
  plain : ∀ m : Model, (x.run m).1.Plain

variable {f : FunctionDraft}

theorem Drafts.pure (hf : f.Plain) : Drafts (pure f) := ⟨Stepwise.pure f, fun _ => hf⟩

theorem Drafts.bind {α : Type} {x : ModelM α} {g : α → ModelM FunctionDraft} (hx : Stepwise x)
    (hg : ∀ a, Drafts (g a)) : Drafts (x >>= g) :=
  ⟨hx.bind fun a => (hg a).stepwise, fun m => (hg _).plain (x.run m).2⟩

theorem Drafts.then {α : Type} {x : ModelM FunctionDraft} {g : FunctionDraft → ModelM α}
    (hx : Drafts x) (hg : ∀ f, f.Plain → Stepwise (g f)) : Stepwise (x >>= g) :=
  hx.stepwise.bind_of_post hx.plain hg

theorem function_plain (m : Model) (parent : DeclId) (name : String) (returnType : TypeId) :
    (function m parent name returnType).Plain := fun _ => rfl

theorem withParams_drafts (hf : f.Plain) (params : List ParamInfo) :
    Drafts (f.withParams params) := by
  unfold withParams
  split
  · exact Drafts.bind (askAlong_interns _ _).stepwise fun special => Drafts.pure hf
  · exact Drafts.pure hf

theorem Plain.withWord (hf : f.Plain) (word : String) : (f.withWord word).Plain := by
  unfold FunctionDraft.withWord
  split <;> exact hf

/-- What a template learns of a function is nothing about its own arguments. -/
theorem listFunction_stepwise (template : DeclId) (g : TemplateInfo → TemplateInfo) :
    Stepwise (modifyDecl template fun e =>
      match e.kind with
      | .functionTemplate info => { e with kind := .functionTemplate (g info) }
      | _ => e) := by
  refine modifyDecl_stepwise template fun e => ?_
  split
  next info hkind => exact Decl.Matures.set_functionTemplate hkind _
  next => exact Decl.Matures.refl e

theorem declare_stepwise (hf : f.Plain) : Stepwise f.declare := by
  unfold declare
  split
  next hrole =>
    refine addDecl_stepwise f.parent f.name f.access (by nofun) ?_
    simp [DeclKind.args?, hf hrole]
  next template _ =>
    refine (addDetached_stepwise f.parent f.name f.access (by nofun)).bind fun d => ?_
    exact (listFunction_stepwise template _).bind fun _ => Stepwise.pure d
  next template _ =>
    refine (addDetached_stepwise f.parent f.name f.access (by nofun)).bind fun d => ?_
    exact (listFunction_stepwise template _).bind fun _ => Stepwise.pure d

end FunctionDraft

namespace Model

open FunctionDraft (Drafts)

theorem draftConstructor_drafts (record : DeclId) : Drafts (draftConstructor record) :=
  Drafts.bind (intern_interns _).stepwise fun _ => Drafts.bind Stepwise.get fun _ =>
    Drafts.pure fun _ => rfl

theorem draftDestructor_drafts (record : DeclId) : Drafts (draftDestructor record) :=
  Drafts.bind (intern_interns _).stepwise fun _ => Drafts.bind Stepwise.get fun _ =>
    Drafts.pure fun _ => rfl

theorem draftFunctionTemplate_stepwise (parent : DeclId) (name : String) (params : List String)
    (returnType : TypeId) : Stepwise (draftFunctionTemplate parent name params returnType) := by
  refine Stepwise.get.bind fun _ => ?_
  refine (addDecl_stepwise parent name _ (by nofun) (by rfl)).bind fun d => ?_
  exact Stepwise.get.bind fun _ => Stepwise.pure _

theorem declareImplicit_stepwise {f : FunctionDraft} (hf : f.Plain) :
    Stepwise (declareImplicit f) :=
  (FunctionDraft.declare_stepwise hf).bind fun d => setImplicit_stepwise d true

theorem finishRecord_stepwise (record : DeclId) : Stepwise (finishRecord record) := by
  have hdestructor : Stepwise (do declareImplicit (← draftDestructor record)) :=
    (draftDestructor_drafts record).then fun _ hf => declareImplicit_stepwise hf
  refine Stepwise.get.bind fun m => (askAlong_interns _ _).stepwise.bind fun plain => ?_
  refine Stepwise.bind (modifyRecord_stepwise record ?_) fun _ => Stepwise.ite ?_ ?_
  · exact fun _ => rfl
  · refine (draftConstructor_drafts record).then fun f hf => ?_
    exact (declareImplicit_stepwise hf).bind fun _ =>
      Stepwise.ite hdestructor (Stepwise.pure _)
  · exact Stepwise.ite hdestructor (Stepwise.pure _)

end Model

end CppReflect
