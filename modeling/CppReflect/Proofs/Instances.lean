import CppReflect.Interpreter.Service
import CppReflect.Proofs.Addresses
import CppReflect.Proofs.Coherence
import CppReflect.Proofs.Pieces
import CppReflect.Query.Template
import Mathlib.Data.List.Find

/-!
# Instances of templates

An instance of a template is looked up by its spelling, which is made of the qualified name of the
template and the texts of the arguments. What is found is the first instance, of any template that
the qualified name finds, with arguments that have these texts up to blanks. So a template answers
for another one of its name, and an instance for one with other arguments that are spelled the same.
If nothing is spelled like anything else, the answer is the template's own instance with exactly the
arguments that were asked for.
-/

namespace CppReflect

namespace Model

variable {m : Model}

/-! ## Spellings of instances -/

/-- The text of a template argument. -/
def argText (m : Model) (a : TemplateArg) : String := a.value.getD (m.typeText a.type)

theorem argsText_eq_joined (m : Model) (args : List TemplateArg) :
    m.argsText args = Text.joined ", " (args.map m.argText) := by
  unfold argsText argsTextWith
  refine congrArg _ (List.map_congr_left fun a _ => ?_)
  unfold argText
  cases a.value <;> rfl

/-- A template with arguments of some texts, as it is spelled. -/
def instanceText (m : Model) (template : DeclId) (texts : List String) : String :=
  m.qualifiedName template ++ "<" ++ Text.joined ", " texts ++ ">"

/-- The instance of a template with arguments of some texts. -/
def instanceSpelled? (m : Model) (template : DeclId) (texts : List String) : Option DeclId :=
  (m.lookupNamed (m.instanceText template texts) root).found?

/-- The names of the scopes around a declaration without template arguments, the outermost first. -/
def bareScopeNames (m : Model) (d : DeclId) : List String :=
  ((m.namedScopes d).filterMap (m.scopeSegment? fun s => (m.decl s).name)).reverse

/-- The name of a template with arguments of some texts, without the scopes around it. -/
def instanceSegment (m : Model) (template : DeclId) (texts : List String) : String :=
  (m.decl template).name ++ "<" ++ Text.joined ", " texts ++ ">"

theorem instanceText_eq {template : DeclId} (hunit : m.isTranslationUnit template = false)
    (texts : List String) : m.instanceText template texts =
      String.join ((m.bareScopeNames template).map (· ++ "::")) ++
        m.instanceSegment template texts := by
  rw [instanceText, qualifiedName, qualifiedBy, hunit, instanceSegment]
  simp only [qualifierText, bareScopeNames, String.append_assoc, Bool.false_eq_true, if_false]

/-! ## Where the spelling leads -/

/-- The scope that some names lead to. -/
def scopeNamed? (m : Model) (scope : DeclId) : List String → Option DeclId
  | [] => some scope
  | name :: rest =>
    (m.lookupSegment scope name).found?.bind fun d => m.scopeNamed? (m.scopeTarget d) rest

/-- The declarations that the qualified name of a declaration finds. -/
def homonyms (m : Model) (d : DeclId) : List DeclId :=
  (m.scopeNamed? root (m.bareScopeNames d)).elim [] (m.lookupIn · (m.decl d).name)

theorem found?_lookupSegments_cons {scope : DeclId} {segment : String} {rest : List String}
    (hrest : rest ≠ []) : (m.lookupSegments scope (segment :: rest)).found? =
      (m.lookupSegment scope segment).found?.bind fun d =>
        (m.lookupSegments (m.scopeTarget d) rest).found? := by
  cases rest with
  | nil => exact absurd rfl hrest
  | cons next rest =>
      simp only [lookupSegments]
      generalize m.lookupSegment scope segment = found
      cases found <;> rfl

theorem found?_lookupSegments_concat (scope : DeclId) (names : List String) (last : String) :
    (m.lookupSegments scope (names ++ [last])).found? =
      (m.scopeNamed? scope names).bind fun s => (m.lookupSegment s last).found? := by
  induction names generalizing scope with
  | nil => rfl
  | cons name names ih =>
      rw [List.cons_append, found?_lookupSegments_cons (by simp), scopeNamed?, Option.bind_assoc]
      exact congrArg _ (funext fun d => ih (m.scopeTarget d))

theorem exists_of_mem_firstNonempty {α β : Type} {f : α → List β} {l : List α} {b : β}
    (hb : b ∈ firstNonempty f l) : ∃ a, b ∈ f a := by
  induction l with
  | nil => exact absurd hb List.not_mem_nil
  | cons a l ih =>
      rw [firstNonempty] at hb
      split at hb
      next => exact ih hb
      next => exact ⟨a, hb⟩

/-- What a name finds has this name. -/
theorem name_of_mem_lookupIn {s d : DeclId} {name : String} (hd : d ∈ m.lookupIn s name) :
    (m.decl d).name = name := by
  unfold lookupIn at hd
  generalize m.declFuel = fuel at hd
  induction fuel generalizing s with
  | zero => exact absurd hd List.not_mem_nil
  | succ fuel ih =>
      rw [lookupInFrom] at hd
      dsimp only at hd
      split at hd
      next => exact (found_of_mem_membersNamed hd).1
      next =>
        split at hd
        next =>
          obtain ⟨b, hb⟩ := exists_of_mem_firstNonempty hd
          exact ih hb
        next =>
          obtain ⟨s, hs⟩ := exists_of_mem_firstNonempty hd
          exact (found_of_mem_membersNamed hs).1

/-- The arguments that a declaration was made with; none if it is no instance. -/
def instanceArgs (m : Model) (d : DeclId) : List TemplateArg := (m.templateArgs? d).getD []

/-- An instance was made with arguments of some texts, up to blanks. -/
def sameText (m : Model) (texts : List String) (d : DeclId) : Bool :=
  Text.squashed (Text.joined ", " ((m.instanceArgs d).map m.argText)) ==
    Text.squashed (Text.joined ", " texts)

theorem found?_lookupSegment_args {name : String} (hname : Name.IsPlainName name) (s : DeclId)
    (texts : List String) :
    (m.lookupSegment s (name ++ "<" ++ Text.joined ", " texts ++ ">")).found? =
      (m.specializationsOf (m.lookupIn s name)).find? (m.sameText texts) := by
  have hsame : (fun d => Text.squashed (m.argsText ((m.templateArgs? d).getD [])) ==
      Text.squashed (Text.joined ", " texts)) = m.sameText texts := by
    funext d
    rw [argsText_eq_joined]
    rfl
  rw [lookupSegment_args hname, hsame]
  generalize (m.specializationsOf (m.lookupIn s name)).find? (m.sameText texts) = found
  cases found <;> rfl

/-- Behind the scopes of a template its own name goes through the instances of all its homonyms. -/
theorem found?_instanceSegment {template : DeclId}
    (hname : Name.IsPlainName (m.decl template).name) (texts : List String) :
    ((m.scopeNamed? root (m.bareScopeNames template)).bind fun s =>
        (m.lookupSegment s (m.instanceSegment template texts)).found?) =
      (m.specializationsOf (m.homonyms template)).find? (m.sameText texts) := by
  rw [homonyms, instanceSegment]
  cases m.scopeNamed? root (m.bareScopeNames template) with
  | none => rfl
  | some s => exact found?_lookupSegment_args hname s texts

/-- The arguments behind the name of an operator are taken for a part of the name. -/
theorem found?_lookupSegment_operator {segment : String}
    (hoperator : Text.startsWith "operator" segment = true)
    (hunnamed : ∀ d, (m.decl d).name ≠ segment) (s : DeclId) :
    (m.lookupSegment s segment).found? = none := by
  have hnone : m.lookupIn s segment = [] :=
    List.eq_nil_iff_forall_not_mem.mpr fun d hd => hunnamed d (name_of_mem_lookupIn hd)
  simp only [lookupSegment, Name.templateId_operator hoperator, hnone]
  rfl

/-- The spelling of an instance leads through the scopes of the template. -/
theorem instanceSpelled?_through_scopes {template : DeclId} {texts : List String}
    (hunit : m.isTranslationUnit template = false)
    (hname : Name.IsTemplateName (m.decl template).name)
    (hscopes : ∀ n ∈ m.bareScopeNames template, Name.IsSegment n)
    (htexts : ∀ s ∈ texts, Name.IsArgument s) : m.instanceSpelled? template texts =
      (m.scopeNamed? root (m.bareScopeNames template)).bind fun s =>
        (m.lookupSegment s (m.instanceSegment template texts)).found? := by
  have hbalanced := Name.balanced_joined fun s hs => (htexts s hs).whole
  rw [instanceSpelled?, instanceText_eq hunit, instanceSegment,
    lookupNamed_join hscopes (hname.segments_args hbalanced) (Name.bare_args hname.first _),
    found?_lookupSegments_concat]

/-! ## Own instances -/

/-- The instances of a template. -/
def ownInstances (m : Model) (template : DeclId) : List DeclId :=
  (m.decl template).template?.elim [] TemplateInfo.specializations

/-- The first instance of the template itself with exactly these arguments. The instances of an
operator are not found, and neither are those of a template that its own name does not find. -/
def ownInstance? (m : Model) (template : DeclId) (args : List TemplateArg) : Option DeclId :=
  if Text.startsWith "operator" (m.decl template).name ∨ template ∉ m.homonyms template then none
  else (m.ownInstances template).find? fun d => m.instanceArgs d = args

/-- Nothing else is spelled like an instance of the template with these arguments, blanks aside. -/
structure Unmistakable (m : Model) (template : DeclId) (args : List TemplateArg) : Prop where
  name : Name.IsTemplateName (m.decl template).name
  scopes : ∀ n ∈ m.bareScopeNames template, Name.IsSegment n
  /-- The qualified name finds no other template. -/
  alone : ∀ d ∈ m.homonyms template, (m.decl d).template?.isSome = true → d = template
  /-- Nothing has the spelling of an operator with arguments for its name. -/
  unnamed : Text.startsWith "operator" (m.decl template).name = true →
    ∀ d, (m.decl d).name ≠ m.instanceSegment template (args.map m.argText)
  spelled : ∀ a ∈ args ++ (m.ownInstances template).flatMap m.instanceArgs,
    Name.IsArgument (m.argText a)
  /-- An argument that is spelled like one of an instance is the same. -/
  apart : ∀ a ∈ args, ∀ b ∈ (m.ownInstances template).flatMap m.instanceArgs,
    Text.squashed (m.argText a) = Text.squashed (m.argText b) → a = b

theorem specializationsOf_cons (d : DeclId) (ds : List DeclId) :
    m.specializationsOf (d :: ds) = m.ownInstances d ++ m.specializationsOf ds := rfl

/-- Among declarations with one template only its own instances are found. -/
theorem find?_specializationsOf {template : DeclId} {ds : List DeclId}
    (halone : ∀ d ∈ ds, (m.decl d).template?.isSome = true → d = template) (p : DeclId → Bool) :
    (m.specializationsOf ds).find? p =
      if template ∈ ds then (m.ownInstances template).find? p else none := by
  induction ds with
  | nil => rfl
  | cons d ds ih =>
      obtain ⟨hd, hds⟩ := List.forall_mem_cons.mp halone
      rw [specializationsOf_cons, List.find?_append, ih hds]
      by_cases heq : d = template
      · subst heq
        rw [if_pos List.mem_cons_self]
        cases (m.ownInstances d).find? p <;> simp
      · have hnone : m.ownInstances d = [] := by
          rw [ownInstances, Option.not_isSome_iff_eq_none.mp (mt hd heq)]
          rfl
        simp [hnone, Ne.symm heq]

namespace Unmistakable

variable {template : DeclId} {args : List TemplateArg}

/-- The texts tell whether an instance has the arguments. -/
theorem sameText_iff (h : m.Unmistakable template args) {d : DeclId}
    (hd : d ∈ m.ownInstances template) :
    m.sameText (args.map m.argText) d = true ↔ m.instanceArgs d = args := by
  have hspelled (as : List TemplateArg) (has : ∀ a ∈ as, Name.IsArgument (m.argText a)) :
      ∀ s ∈ as.map m.argText, Name.IsArgument s := List.forall_mem_map.mpr has
  have hmem (a : TemplateArg) (ha : a ∈ m.instanceArgs d) :
      a ∈ (m.ownInstances template).flatMap m.instanceArgs := List.mem_flatMap.mpr ⟨d, hd, ha⟩
  rw [sameText, beq_iff_eq]
  refine ⟨fun heq => ?_, fun heq => by rw [heq]⟩
  have htexts := Name.squashed_eq_of_joined
    (hspelled _ fun a ha => h.spelled a (List.mem_append_right _ (hmem a ha)))
    (hspelled _ fun a ha => h.spelled a (List.mem_append_left _ ha)) heq
  rw [List.map_map, List.map_map] at htexts
  exact (eq_of_map_eq htexts.symm fun a ha b hb hab => h.apart a ha b (hmem b hb) hab).symm

/-- The spelling finds the template's own instance with the arguments. -/
theorem instanceSpelled?_eq (h : m.Unmistakable template args)
    (htemplate : (m.decl template).template?.isSome = true) :
    m.instanceSpelled? template (args.map m.argText) = m.ownInstance? template args := by
  have hunit : m.isTranslationUnit template = false := by
    refine decide_eq_false fun hkind => ?_
    rw [Decl.template?, hkind] at htemplate
    cases htemplate
  have htexts : ∀ s ∈ args.map m.argText, Name.IsArgument s :=
    List.forall_mem_map.mpr fun a ha => h.spelled a (List.mem_append_left _ ha)
  rw [instanceSpelled?_through_scopes hunit h.name h.scopes htexts, ownInstance?]
  cases h.name with
  | operator hstart _ =>
      have hoperator : Text.startsWith "operator"
          (m.instanceSegment template (args.map m.argText)) = true :=
        (Name.startsWith_operator_args _ _).trans hstart
      rw [if_pos (.inl hstart)]
      simp [found?_lookupSegment_operator hoperator (h.unnamed hstart)]
  | plain hname =>
      have hsame : (m.ownInstances template).find? (m.sameText (args.map m.argText)) =
          (m.ownInstances template).find? fun d => m.instanceArgs d = args :=
        List.find?_congr fun d hd =>
          Bool.eq_iff_iff.mpr ((h.sameText_iff hd).trans decide_eq_true_iff.symm)
      rw [found?_instanceSegment hname, find?_specializationsOf h.alone, hsame, hname.noOperator]
      by_cases hlisted : template ∈ m.homonyms template <;> simp [hlisted]

end Unmistakable

end Model

/-! ## Instantiating -/

section

variable {w : Workbench}

/-- The step that comes next starts with what the one before it answers and leaves. -/
theorem run_bind_ok {α β : Type} {x : ServiceM α} {f : α → ServiceM β} {w' : Workbench} {a : α}
    (hx : x.run.run w = (.ok a, w')) : (x >>= f).run.run w = (f a).run.run w' := by
  change (ExceptT.bindCont f (x.run.run w).1).run (x.run.run w).2 = _
  rw [hx]
  rfl

theorem run_orElse {α : Type} (e : CompilerError) (found : Option α) (w : Workbench) :
    (Service.orElse e found).run.run w = (found.elim (.error e) .ok, w) := by
  cases found <;> rfl

theorem run_backend : Service.backend.run.run w = (.ok w.interpreter.backend, w) := rfl

theorem run_model : Service.model.run.run w = (.ok w.interpreter.model, w) := rfl

theorem run_findSpecialization (template : DeclId) (args : List TemplateArg) :
    (DriverSession.findSpecialization template args).run.run w =
      (.ok (w.interpreter.model.instanceSpelled? template
        (args.map w.interpreter.model.argText)), w) := by
  rw [DriverSession.findSpecialization, run_bind_ok run_model, DriverSession.instanceSpelling,
    Model.argsText_eq_joined]
  rfl

/-- A rehearsed interpreter makes no new instances. -/
theorem run_instantiate (template : DeclId) (args : List TemplateArg) :
    (Rehearsal.instantiate template args).run.run w =
      ((w.interpreter.model.instanceSpelled? template
          (args.map w.interpreter.model.argText)).elim
        (.error (.unsupported "no such specialization in the model")) .ok, w) := by
  rw [Rehearsal.instantiate, run_bind_ok run_model, Model.argsText_eq_joined]
  exact run_orElse _ _ w

theorem run_query_instantiate {r : Rehearsal} (hr : w.interpreter.backend = .rehearsed r)
    {handle : Handle} {template : DeclId}
    (hhandle : w.interpreter.model.declOfHandle? handle = some template)
    (htemplate : (w.interpreter.model.decl template).template?.isSome = true)
    {requests : List Query.ArgRequest} {args : List TemplateArg}
    (hargs : Query.templateArgs? w.interpreter.model requests = some args) (withBody : Bool) :
    (Query.instantiate handle requests withBody).run.run w =
      (Rehearsal.instantiate template args).run.run w := by
  rw [Query.instantiate, run_bind_ok run_model, hhandle, hargs,
    run_bind_ok (run_orElse _ (some template) w), run_bind_ok (run_orElse _ (some args) w)]
  cases hkind : (w.interpreter.model.decl template).kind with
  | classTemplate info =>
      dsimp only
      rw [Service.instantiateClass, run_bind_ok run_backend, hr]
  | functionTemplate info =>
      dsimp only
      rw [Service.instantiateFunction, run_bind_ok run_backend, hr]
  | _ =>
      rw [Decl.template?, hkind] at htemplate
      cases htemplate

/-- If nothing else is spelled like it, what is found for a template with arguments is one of the
template's own instances, with exactly these arguments, and on a rehearsed interpreter the template
is made into nothing else. -/
theorem instances_are_own {template : DeclId} {args : List TemplateArg}
    (htemplate : (w.interpreter.model.decl template).template?.isSome = true)
    (h : w.interpreter.model.Unmistakable template args) :
    ((DriverSession.findSpecialization template args).run.run w).1 =
        .ok (w.interpreter.model.ownInstance? template args) ∧
      ∀ (r : Rehearsal) (handle : Handle) (requests : List Query.ArgRequest) (withBody : Bool),
        w.interpreter.backend = .rehearsed r →
        w.interpreter.model.declOfHandle? handle = some template →
        Query.templateArgs? w.interpreter.model requests = some args →
        ((Query.instantiate handle requests withBody).run.run w).1 =
          (w.interpreter.model.ownInstance? template args).elim
            (.error (.unsupported "no such specialization in the model")) .ok := by
  have hfound := h.instanceSpelled?_eq htemplate
  refine ⟨?_, fun r handle requests withBody hr hhandle hargs => ?_⟩
  · rw [run_findSpecialization, hfound]
  · rw [run_query_instantiate hr hhandle htemplate hargs, run_instantiate, hfound]

/-- A pair of a type and a pair of types is told from a pair of types. -/
theorem instances_are_own_pair :
    let int := ((Request.intern ⟨.builtin .int, .none⟩).perform.run .empty).2
    let space := ((Request.declareNamespace Model.root "N").perform.run int).2
    let template := ((Request.declareClassTemplate ⟨1⟩ "P" ["T", "U"]).perform.run space).2
    let ints : List TemplateArg := [.ofType ⟨0⟩, .ofType ⟨0⟩]
    let pair := ((Request.declareSpecialization ⟨2⟩ ints).perform.run template).2
    let named := ((Request.typeOfDecl ⟨4⟩).perform.run pair).2
    let nested : List TemplateArg := [.ofType ⟨0⟩, .ofType ⟨1⟩]
    let m := ((Request.declareSpecialization ⟨2⟩ nested).perform.run named).2
    let w : Workbench := ⟨.rehearsed m, default⟩
    m.instanceText ⟨2⟩ (nested.map m.argText) = "N::P<int, N::P<int, int>>" ∧
      ((DriverSession.findSpecialization ⟨2⟩ nested).run.run w).1 = .ok (some ⟨5⟩) ∧
      ((DriverSession.findSpecialization ⟨2⟩ ints).run.run w).1 = .ok (some ⟨4⟩) ∧
      ((Query.instantiate 3 [⟨1, none⟩, ⟨2, none⟩] false).run.run w).1 = .ok ⟨5⟩ := by
  intro int space template ints pair named nested m w
  have hname : (m.decl ⟨2⟩).name = "P" := by decide +kernel
  have hscopes : m.bareScopeNames ⟨2⟩ = ["N"] := by decide +kernel
  have hhomonyms : m.homonyms ⟨2⟩ = [⟨2⟩] := by decide +kernel
  have hargs : (m.ownInstances ⟨2⟩).flatMap m.instanceArgs = ints ++ nested := by decide +kernel
  have hint : m.argText (.ofType ⟨0⟩) = "int" := by decide +kernel
  have hpair : m.argText (.ofType ⟨1⟩) = "N::P<int, int>" := by decide +kernel
  have hplain {n : String} (hn : n = "N" ∨ n = "P") : Name.IsPlainName n := by
    rcases hn with rfl | rfl <;> exact ⟨by decide, by decide, by decide⟩
  have hunmistakable {args : List TemplateArg} (hasked : args = ints ∨ args = nested) :
      m.Unmistakable ⟨2⟩ args := by
    have hkinds : ∀ a ∈ args ++ (ints ++ nested), a = .ofType ⟨0⟩ ∨ a = .ofType ⟨1⟩ := by
      rcases hasked with rfl | rfl <;> decide
    constructor
    case name => exact hname ▸ .plain (hplain (.inr rfl))
    case scopes =>
      rw [hscopes]
      exact List.forall_mem_singleton.mpr (hplain (.inl rfl)).isSegment
    case alone =>
      rw [hhomonyms]
      exact fun d hd _ => List.mem_singleton.mp hd
    case unnamed =>
      rw [hname]
      exact fun hoperator => absurd hoperator (by decide)
    case spelled =>
      rw [hargs]
      intro a ha
      obtain rfl | rfl := hkinds a ha
      · exact hint ▸ ⟨by decide, by decide⟩
      · exact hpair ▸ ⟨by decide, by decide⟩
    case apart =>
      rw [hargs]
      intro a ha b hb heq
      obtain rfl | rfl := hkinds a (List.mem_append_left _ ha) <;>
        obtain rfl | rfl := hkinds b (List.mem_append_right _ hb)
      · rfl
      · rw [hint, hpair] at heq
        exact absurd heq (by decide)
      · rw [hint, hpair] at heq
        exact absurd heq (by decide)
      · rfl
  have htemplate : (m.decl ⟨2⟩).template?.isSome = true := by decide +kernel
  have hnested : m.ownInstance? ⟨2⟩ nested = some ⟨5⟩ := by decide +kernel
  have hints : m.ownInstance? ⟨2⟩ ints = some ⟨4⟩ := by decide +kernel
  have htext : m.instanceText ⟨2⟩ (nested.map m.argText) = "N::P<int, N::P<int, int>>" := by
    decide +kernel
  have hhandle : m.declOfHandle? 3 = some ⟨2⟩ := by decide +kernel
  have hrequests : Query.templateArgs? m [⟨1, none⟩, ⟨2, none⟩] = some nested := by decide +kernel
  clear_value m
  obtain ⟨hfound, hmade⟩ :=
    instances_are_own (w := w) htemplate (hunmistakable (.inr rfl))
  obtain ⟨hfound', -⟩ :=
    instances_are_own (w := w) htemplate (hunmistakable (.inl rfl))
  refine ⟨htext, hfound.trans (congrArg _ hnested), hfound'.trans (congrArg _ hints), ?_⟩
  refine (hmade {} 3 _ false rfl hhandle hrequests).trans ?_
  change (m.ownInstance? ⟨2⟩ nested).elim (Except.error _) Except.ok = _
  rw [hnested]
  rfl

/-- Of two function templates of one name, with one instance for `int` each, the second one answers
with the instance of the first. -/
example :
    let declare (f : Drafting) (m : Model) := ((Request.declareFunction f []).perform.run m).2
    let void := ((Request.intern ⟨.void, .none⟩).perform.run .empty).2
    let int := ((Request.intern ⟨.builtin .int, .none⟩).perform.run void).2
    let first := declare (.functionTemplate Model.root "f" ["T"] ⟨0⟩) int
    let second := declare (.functionTemplate Model.root "f" ["T"] ⟨0⟩) first
    let made := declare (.functionSpecialization ⟨1⟩ [.ofType ⟨1⟩] ⟨0⟩) second
    let m := declare (.functionSpecialization ⟨3⟩ [.ofType ⟨1⟩] ⟨0⟩) made
    m.ownInstances ⟨3⟩ = [⟨6⟩] ∧ m.instanceSpelled? ⟨3⟩ ["int"] = some ⟨5⟩ := by
  decide +kernel

end

end CppReflect
