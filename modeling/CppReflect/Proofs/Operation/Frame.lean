import CppReflect.Operation.Table
import CppReflect.Proofs.Operation.Rehearsed
import CppReflect.Proofs.Session.Basic

/-!
# What operations leave alone

Questions on declarations, types, functions, variables, overloads and templates leave a session as
it is, but for types that they put into the table of the active interpreter.
-/

namespace CppReflect

/-! ## Questions that make types -/

namespace Query

theorem mapType_interns (h : Handle) {f : TypeId → ModelM TypeId}
    (hf : ∀ t, Model.Interns (f t)) : Model.Interns (mapType h f) := by
  refine Model.Interns.get.bind fun m => ?_
  cases m.typeOfHandle? h with
  | none => exact Model.Interns.pure _
  | some t => exact (hf t).bind fun _ => Model.Interns.pure _

theorem isSmartPointer_interns (ty : Handle) : Model.Interns (isSmartPointer ty) := by
  refine Model.Interns.get.bind fun m => ?_
  cases m.typeOfHandle? ty with
  | none => exact Model.Interns.pure _
  | some t =>
      refine (Model.desugar_interns t).bind fun t => Model.Interns.get.bind fun m => ?_
      cases m.recordNamed? t with
      | none => exact Model.Interns.pure _
      | some record =>
          exact (Model.withoutQuals_interns t _).bind fun _ => Model.Interns.get.bind fun _ =>
            Model.Interns.pure _

theorem referenceType_interns (ty : Handle) (rvalue : Bool) :
    Model.Interns (referenceType ty rvalue) :=
  mapType_interns ty fun t => by
    cases rvalue
    · exact Model.lvalueReference_interns t
    · exact Model.rvalueReference_interns t

/-- Qualifiers are added and taken away in the same way: without any, nothing is done. -/
theorem changeQuals_interns (ty : Handle) (q : Quals) {f : TypeId → ModelM TypeId}
    (hf : ∀ t, Model.Interns (f t)) :
    Model.Interns (if q = .none then return ty else mapType ty f) := by
  split
  · exact Model.Interns.pure ty
  · exact mapType_interns ty hf

theorem complexType_interns (ty : Handle) : Model.Interns (complexType ty) :=
  mapType_interns ty fun _ => Model.intern_interns _

theorem typeNamed_interns (name : String) : Model.Interns (typeNamed name) := by
  unfold typeNamed
  split
  case h_1 | h_2 => exact (Model.intern_interns _).bind fun _ => Model.Interns.pure _
  case h_3 =>
    exact (Model.intern_interns _).bind fun _ => (Model.intern_interns _).bind fun _ =>
      Model.Interns.pure _
  case h_4 | h_5 =>
    refine Model.Interns.get.bind fun m => ?_
    split
    next d _ => exact (Model.typeOfDecl?_interns d).bind fun _ => Model.Interns.pure _
    next => exact Model.Interns.pure _

theorem typeOfScope_interns (klass : Handle) : Model.Interns (typeOfScope klass) := by
  refine Model.Interns.get.bind fun m => ?_
  cases m.declOfHandle? klass with
  | none => exact Model.Interns.pure _
  | some d => exact (Model.typeOfDecl?_interns d).bind fun _ => Model.Interns.pure _

end Query

/-! ## Sessions -/

/-- The sessions differ at most in types that stand behind the others, in the table of the
interpreter that is active. -/
structure Session.Interned (s s' : Session) : Prop where
  numbers : s'.registry.numbers = s.registry.numbers
  active : s'.registry.active = s.registry.active
  next : s'.registry.next = s.registry.next
  interpreters : ∀ n i, s.registry.get? n = some i →
    ∃ m, s'.registry.get? n = some { i with model := m } ∧ i.model.Interned m ∧
      (s.registry.active ≠ some n → m = i.model)
  rest : s' = { s with registry := s'.registry }

theorem Session.Interned.refl (s : Session) : s.Interned s where
  numbers := rfl
  active := rfl
  next := rfl
  interpreters _ i hi := ⟨i.model, hi, Model.Interned.refl _, fun _ => rfl⟩
  rest := rfl

section

variable {s : Session} {n : Nat} {i : Interpreter} {r : Rehearsal}

/-- A rehearsed interpreter that is asked something leaves the session alone but for its types. -/
theorem Session.interned_withBench {α : Type} {x : StateM Workbench α} (hx : Rehearsal.Interns x)
    (hactive : s.registry.active? = some (n, i)) (hbackend : i.backend = .rehearsed r) :
    s.Interned ((Session.withBench x).run s).2 := by
  obtain ⟨hnumber, hget⟩ := Registry.active?_eq_some_iff.mp hactive
  have hbench := hx { interpreter := i, host := s.host } r hbackend
  rw [Session.withBench_of_active hactive]
  refine ⟨Registry.numbers_replace, rfl, rfl, fun k j hj => ?_, ?_⟩
  · change ∃ m, (s.registry.replace n _).get? k = _ ∧ _
    rw [Registry.get?_replace]
    split
    next hk =>
      subst hk
      obtain rfl : i = j := Option.some.inj (hget.symm.trans hj)
      refine ⟨_, ?_, hbench.model, fun hother => absurd hnumber hother⟩
      rw [hj, ← hbench.interpreter_eq]
      rfl
    next => exact ⟨j.model, hj, Model.Interned.refl _, fun _ => rfl⟩
  · change ({ s with engine := _, host := _, registry := _ } : Session) = { s with registry := _ }
    congr 1
    exact hbench.host

namespace Action

/-- On rehearsed interpreters the action puts types into the table and does nothing else. -/
def Interns : Action → Prop
  | read .. | explore .. => True
  | intern _ f => Model.Interns f
  | ask _ f => Rehearsal.Interns f
  | manage f => ∀ s, (f.run s).2 = s

theorem Interns.run {action : Action} (haction : action.Interns)
    (hactive : s.registry.active? = some (n, i)) (hbackend : i.backend = .rehearsed r) :
    s.Interned (action.run.run s).2 := by
  cases action with
  | read absent f => exact Session.Interned.refl s
  | explore absent way f =>
      exact Session.interned_withBench
        (Rehearsal.Interns.onModel (Model.askAlong_interns way f)) hactive hbackend
  | intern absent f =>
      exact Session.interned_withBench (Rehearsal.Interns.onModel haction) hactive hbackend
  | ask absent f => exact Session.interned_withBench haction hactive hbackend
  | manage f =>
      have hsame := haction s
      change s.Interned (f.run s).2
      rw [hsame]
      exact Session.Interned.refl s

end Action

end

/-! ## Operations -/

namespace Operation

/-- What is asked of an interpreter is told as a reply. -/
theorem interns_reply {α : Type} {x : ServiceM α} (hx : Rehearsal.Asks x) (standard : α)
    (reply : α → Reply) : Rehearsal.Interns (reply <$> Service.orDefault x standard) :=
  .map reply (hx.orDefault standard)

theorem interns_scope {op : Operation} (hop : op ∈ scopeOperations) (args : Arguments) :
    (op.action args).Interns := by
  revert op
  simp only [scopeOperations, isKind, tellsText, lists, finds, onType, measures, Action.Interns,
    List.forall_mem_cons, List.not_mem_nil, false_implies, implies_true, and_true, true_and]
  refine ⟨interns_reply ((Query.sizeOfScope_asks _).bind fun _ => .pure _) _ _, ?_⟩
  by_cases hsame : args.decl "derived" = args.decl "base"
  · rw [if_pos hsame]
    exact fun _ => rfl
  · rw [if_neg hsame]
    exact interns_reply ((Query.baseClassOffset_asks _ _).bind fun _ => .pure _) _ _

theorem interns_type {op : Operation} (hop : op ∈ typeOperations) (args : Arguments) :
    (op.action args).Interns := by
  revert op
  simp only [typeOperations, isTypeKind, onType, makesType, findsType, measures, Action.Interns,
    List.forall_mem_cons, List.not_mem_nil, false_implies, implies_true, and_true, true_and]
  refine ⟨.map _ (Query.isSmartPointer_interns _), .map _ (Query.mapType_interns _ fun _ => ?_),
    .map _ (Query.referenceType_interns _ _),
    .map _ (Query.mapType_interns _ Model.canonical_interns),
    .map _ (Query.mapType_interns _ Model.underlying_interns),
    .map _ (Query.changeQuals_interns _ _ fun t => Model.withQuals_interns t _),
    .map _ (Query.changeQuals_interns _ _ fun t => Model.withoutQuals_interns t _),
    interns_reply ((Query.sizeOfType_asks _).bind fun _ => .pure _) _ _,
    .map _ (Query.typeNamed_interns _), .map _ (Query.typeOfScope_interns _),
    .map _ (Query.complexType_interns _)⟩
  exact Model.intern_interns _

theorem interns_function {op : Operation} (hop : op ∈ functionOperations) (args : Arguments) :
    (op.action args).Interns := by
  revert op
  simp only [functionOperations, isKind, listsOfClass, counts, locates, finds, findsType,
    Action.Interns, List.forall_mem_cons, List.not_mem_nil, false_implies, implies_true, and_true,
    true_and]
  refine ⟨interns_reply (Query.functionAddress_asks _) _ _,
    interns_reply (.symbolAddress _) _ _, interns_reply (Query.methodAddress_asks _) _ _, ?_,
    fun _ => rfl, fun _ => rfl⟩
  exact ((Overload.best?_asks _ _ _).orDefault none).bind fun _ => .pure _

theorem interns_variable {op : Operation} (hop : op ∈ variableOperations) (args : Arguments) :
    (op.action args).Interns := by
  revert op
  simp only [variableOperations, isKind, lists, findsType, measures, Action.Interns,
    List.forall_mem_cons, List.not_mem_nil, false_implies, implies_true, and_true, true_and]
  exact interns_reply ((Query.variableOffset_asks _ _).bind fun _ => .pure _) _ _

theorem interns_template {op : Operation} (hop : op ∈ templateOperations) (args : Arguments) :
    (op.action args).Interns := by
  revert op
  simp only [templateOperations, Action.Interns, List.forall_mem_cons, List.not_mem_nil,
    false_implies, implies_true, and_true]
  exact (Rehearsal.Asks.orDefault ((Query.instantiate_asks _ _ _).bind fun _ => .pure _)
    none).bind fun _ => .pure _

/-- The groups of operations that ask about declarations, types and what can be made of them. -/
def questions : List Group :=
  [.scopes, .types, .functions, .variables, .overloads, .templates]

/-- Where the questions stand in the table. -/
theorem mem_of_questions {op : Operation} (hop : op ∈ table) (hgroup : op.group ∈ questions) :
    op ∈ scopeOperations ∨ op ∈ typeOperations ∨ op ∈ functionOperations ∨
      op ∈ variableOperations ∨ op ∈ templateOperations := by
  have hsystem : ∀ op ∈ systemOperations, op.group = .system := by
    simp [systemOperations, manages, runsCode]
  have hobjects : ∀ op ∈ objectOperations, op.group = .objects := by
    simp [objectOperations, manages]
  simp only [table, List.mem_append] at hop
  rcases hop with (((((hop | hop) | hop) | hop) | hop) | hop) | hop
  · rw [hsystem op hop] at hgroup
    exact absurd hgroup (by decide)
  · exact .inl hop
  · exact .inr (.inl hop)
  · exact .inr (.inr (.inl hop))
  · exact .inr (.inr (.inr (.inl hop)))
  · exact .inr (.inr (.inr (.inr hop)))
  · rw [hobjects op hop] at hgroup
    exact absurd hgroup (by decide)

theorem interns {op : Operation} (hop : op ∈ table) (hgroup : op.group ∈ questions)
    (args : Arguments) : (op.action args).Interns := by
  rcases mem_of_questions hop hgroup with hop | hop | hop | hop | hop
  · exact interns_scope hop args
  · exact interns_type hop args
  · exact interns_function hop args
  · exact interns_variable hop args
  · exact interns_template hop args

end Operation

end CppReflect
