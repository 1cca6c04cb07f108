import CppReflect.Proofs.Ast.Steps
import CppReflect.Proofs.Reachable

/-!
# What scopes list

Every operation of a client changes a model in steps, so a reachable model comes about step by step
from the translation unit. Each step keeps the lists of the scopes in order: what is listed exists
and is no specialization of a template, and what is found under the key of a specialization is
listed nowhere. A specialization is found through its template alone.
-/

namespace CppReflect

open Model

/-! ## Operations in steps -/

theorem Drafting.start_drafts (drafting : Drafting) : FunctionDraft.Drafts drafting.start := by
  cases drafting with
  | function parent name returnType =>
      exact .bind Stepwise.get fun m =>
        .pure (FunctionDraft.function_plain m parent name returnType)
  | constructor record => exact draftConstructor_drafts record
  | destructor record => exact draftDestructor_drafts record
  | functionTemplate parent name params returnType =>
      refine ⟨(draftFunctionTemplate_stepwise parent name params returnType).bind fun r =>
        Stepwise.pure r.2, fun m => ?_⟩
      exact fun hrole => nomatch hrole
  | functionSpecialization template args returnType =>
      exact .bind Stepwise.get fun m => .pure fun hrole => nomatch hrole

theorem DraftEdit.apply_drafts {f : FunctionDraft} (hf : f.Plain) (edit : DraftEdit) :
    FunctionDraft.Drafts (edit.apply f) := by
  cases edit with
  | params params => exact FunctionDraft.withParams_drafts hf params
  | access access => exact .pure hf
  | mangledName name => exact .pure hf
  | word word => exact .pure (hf.withWord word)

theorem DraftEdit.applyAll_drafts {f : FunctionDraft} (hf : f.Plain) (edits : List DraftEdit) :
    FunctionDraft.Drafts (DraftEdit.applyAll f edits) := by
  induction edits generalizing f with
  | nil => exact .pure hf
  | cons edit rest ih =>
      have hfirst := DraftEdit.apply_drafts hf edit
      exact ⟨hfirst.then fun f' hf' => (ih hf').stepwise, fun m => (ih (hfirst.plain m)).plain _⟩

namespace Model

/-- Every operation changes every model in steps. -/
theorem perform_stepwise (request : Request) : Stepwise request.perform := by
  cases request with
  | declareNamespace parent name => exact (declareNamespace_stepwise parent name).discard
  | useNamespace scope nominated => exact useNamespace_stepwise scope nominated
  | declareRecord parent name tag complete =>
      exact (declareRecord_stepwise parent name tag complete).discard
  | addBase record base access isVirtual => exact addBase_stepwise record base access isVirtual
  | declareField record name type access =>
      exact (declareField_stepwise record name type access).discard
  | declareVariable parent name type => exact (declareVariable_stepwise parent name type).discard
  | declareTypedef parent name underlying =>
      exact (declareTypedef_stepwise parent name underlying).discard
  | declareEnum parent name isScoped constants =>
      exact (declareEnum_stepwise parent name isScoped constants).discard
  | declareClassTemplate parent name params =>
      exact (declareClassTemplate_stepwise parent name params).discard
  | declareSpecialization template args =>
      exact (declareSpecialization_stepwise template args).discard
  | declareFunction drafting edits =>
      refine drafting.start_drafts.then fun f hf => ?_
      exact (DraftEdit.applyAll_drafts hf edits).then fun f' hf' =>
        (FunctionDraft.declare_stepwise hf').discard
  | finishRecord record => exact finishRecord_stepwise record
  | intern node => exact (intern_interns node).stepwise.discard
  | lvalueReference referee => exact (lvalueReference_interns referee).stepwise.discard
  | rvalueReference referee => exact (rvalueReference_interns referee).stepwise.discard
  | withQuals type quals => exact (withQuals_interns type quals).stepwise.discard
  | withoutQuals type quals => exact (withoutQuals_interns type quals).stepwise.discard
  | desugar type => exact (desugar_interns type).stepwise.discard
  | canonical type => exact (canonical_interns type).stepwise.discard
  | underlying type => exact (underlying_interns type).stepwise.discard
  | typeOfDecl d => exact (typeOfDecl?_interns d).stepwise.discard
  | ask way => exact (askAlong_interns way fun _ => ()).stepwise
  | parseType text context => exact (parseType_interns text context).stepwise.discard
  | ingest source dump => exact fun m => Ast.ingest_stepwise m source dump

/-- A reachable model comes about in steps. -/
theorem Reachable.steps {m : Model} (h : m.Reachable) : Model.empty.Steps m := by
  induction h with
  | empty => exact .refl
  | step _ request _ ih => exact ih.trans (perform_stepwise request _)

/-! ## Lists in order -/

/-- The declaration is listed in no scope. -/
def Unlisted (m : Model) (d : DeclId) : Prop := ∀ s e, m.decl? s = some e → d ∉ e.members

/-- What every step keeps of the lists of scopes. -/
structure Orderly (m : Model) : Prop where
  unit : ∀ d e, m.decl? d = some e → e.kind = .translationUnit → d = root
  listed : ∀ s e d, m.decl? s = some e → d ∈ e.members →
    ∃ x, m.decl? d = some x ∧ x.kind.args? = none
  instances : ∀ key d, IsInstanceKey key → m.keyed? key = some d → m.HasDecl d ∧ m.Unlisted d

namespace Orderly

variable {m m' : Model}

theorem empty : Model.empty.Orderly where
  unit d _ hd _ := (decl?_empty hd).1
  listed s e d hs hd := by
    rw [(decl?_empty hs).2] at hd
    exact absurd hd List.not_mem_nil
  instances key d _ hd := by simp [keyed?, Model.empty] at hd

theorem interned (h : m.Orderly) (hinterned : m.Interned m') : m'.Orderly := by
  have hdecl (d : DeclId) : m'.decl? d = m.decl? d := by rw [decl?, hinterned.decls, decl?]
  refine ⟨?_, ?_, ?_⟩
  · simpa only [hdecl] using h.unit
  · simpa only [hdecl] using h.listed
  · simpa only [hdecl, keyed?, hinterned.keys, HasDecl, hinterned.decls, Unlisted] using h.instances

theorem append (h : m.Orderly) {e : Decl} (hkind : e.kind ≠ .translationUnit)
    (hmembers : e.members = []) : ({ m with decls := m.decls.push e } : Model).Orderly := by
  refine ⟨fun d x hd hunit => ?_, fun s x d hs hd => ?_, fun key d hkey hbound => ?_⟩
  · rcases decl?_append_cases hd with hd | ⟨-, rfl⟩
    · exact h.unit d x hd hunit
    · exact absurd hunit hkind
  · rcases decl?_append_cases hs with hs | ⟨-, rfl⟩
    · obtain ⟨y, hy, hargs⟩ := h.listed s x d hs hd
      exact ⟨y, decl?_append_of_decl? hy, hargs⟩
    · exact absurd hd (hmembers ▸ List.not_mem_nil)
  · obtain ⟨hex, hunlisted⟩ := h.instances key d hkey hbound
    refine ⟨growsTo_append.hasDecl hex, fun s x hs hd => ?_⟩
    rcases decl?_append_cases hs with hs | ⟨-, rfl⟩
    · exact hunlisted s x hs hd
    · exact absurd hd (hmembers ▸ List.not_mem_nil)

/-- What is appended exists and is listed nowhere. -/
theorem unlisted_append (h : m.Orderly) {e : Decl} (hmembers : e.members = []) :
    ({ m with decls := m.decls.push e } : Model).Unlisted ⟨m.decls.size⟩ := by
  intro s x hs hd
  rcases decl?_append_cases hs with hs | ⟨-, rfl⟩
  · -- The place is behind all that was there, and so behind all that was listed.
    obtain ⟨y, hy, -⟩ := h.listed s x _ hs hd
    exact Nat.lt_irrefl _ (hasDecl_iff.mpr ⟨y, hy⟩)
  · exact absurd hd (hmembers ▸ List.not_mem_nil)

/-- More becomes known of a declaration, of its template arguments only if it is listed nowhere. -/
theorem learn (h : m.Orderly) {d : DeclId} {f : Decl → Decl} (hf : ∀ e : Decl, e.Continues (f e))
    (hmembers : ∀ e : Decl, (f e).members = e.members)
    (hargs : (∀ e : Decl, (f e).kind.args? = e.kind.args?) ∨ m.Unlisted d) :
    ({ m with decls := m.decls.modify d.index f } : Model).Orderly := by
  have hlists {s : DeclId} {x : Decl}
      (hs : ({ m with decls := m.decls.modify d.index f } : Model).decl? s = some x) :
      ∃ e, m.decl? s = some e ∧ x.members = e.members := by
    obtain ⟨e, he, rfl | ⟨-, rfl⟩⟩ := decl?_modify_cases hs
    · exact ⟨_, he, rfl⟩
    · exact ⟨e, he, hmembers e⟩
  refine ⟨fun c x hx hunit => ?_, fun s x c hs hc => ?_, fun key c hkey hbound => ?_⟩
  · obtain ⟨e, he, rfl | ⟨-, rfl⟩⟩ := decl?_modify_cases hx
    · exact h.unit c _ he hunit
    · refine h.unit c e he ?_
      have hkind := (hf e).kind
      rw [hunit] at hkind
      cases hold : e.kind <;> simp_all [DeclKind.Continues]
  · obtain ⟨e, he, hsame⟩ := hlists hs
    rw [hsame] at hc
    obtain ⟨y, hy, hplain⟩ := h.listed s e c he hc
    refine ⟨_, decl?_modify_of_decl? hy f, ?_⟩
    split
    next heq =>
      rcases hargs with hargs | hunlisted
      · rw [hargs, hplain]
      · -- What is listed nowhere is not the member at hand.
        exact absurd (heq ▸ hc) (hunlisted s e he)
    next => exact hplain
  · obtain ⟨hex, hunlisted⟩ := h.instances key c hkey hbound
    obtain ⟨e, he⟩ := hasDecl_iff.mp hex
    refine ⟨hasDecl_iff.mpr ⟨_, decl?_modify_of_decl? he f⟩, fun s x hs => ?_⟩
    obtain ⟨e, he, hsame⟩ := hlists hs
    exact hsame ▸ hunlisted s e he

/-- A declaration without template arguments is listed. -/
theorem enlist (h : m.Orderly) {c : DeclId} {y : Decl} (hy : m.decl? c = some y)
    (hplain : y.kind.args? = none) (hfree : ∀ key, IsInstanceKey key → m.keyed? key ≠ some c)
    (scope : DeclId) :
    ({ m with decls := m.decls.modify scope.index fun e =>
      { e with members := e.members ++ [c] } } : Model).Orderly := by
  refine ⟨fun d x hx hunit => ?_, fun s x d hs hd => ?_, fun key d hkey hbound => ?_⟩
  · obtain ⟨e, he, rfl | ⟨-, rfl⟩⟩ := decl?_modify_cases hx
    · exact h.unit d _ he hunit
    · exact h.unit d e he hunit
  · obtain ⟨z, hz, hargs⟩ : ∃ z, m.decl? d = some z ∧ z.kind.args? = none := by
      obtain ⟨e, he, rfl | ⟨-, rfl⟩⟩ := decl?_modify_cases hs
      · exact h.listed s _ d he hd
      · rcases List.mem_append.mp hd with hd | hd
        · exact h.listed s e d he hd
        · exact ⟨y, List.mem_singleton.mp hd ▸ hy, hplain⟩
    refine ⟨_, decl?_modify_of_decl? hz _, ?_⟩
    split <;> exact hargs
  · obtain ⟨hex, hunlisted⟩ := h.instances key d hkey hbound
    obtain ⟨e, he⟩ := hasDecl_iff.mp hex
    refine ⟨hasDecl_iff.mpr ⟨_, decl?_modify_of_decl? he _⟩, fun s x hs hd => ?_⟩
    obtain ⟨e, he, rfl | ⟨-, rfl⟩⟩ := decl?_modify_cases hs
    · exact hunlisted s _ he hd
    · rcases List.mem_append.mp hd with hd | hd
      · exact hunlisted s e he hd
      · exact hfree key hkey (List.mem_singleton.mp hd ▸ hbound)

/-- A key is bound: that of a specialization only to what exists and is listed nowhere. -/
theorem bindKey (h : m.Orderly) {key : String} {d : DeclId}
    (hd : IsInstanceKey key → m.HasDecl d ∧ m.Unlisted d) :
    ({ m with keys := (key, d) :: m.keys } : Model).Orderly := by
  refine ⟨h.unit, h.listed, fun k c hk hbound => ?_⟩
  change List.lookup k ((key, d) :: m.keys) = some c at hbound
  rw [List.lookup_cons] at hbound
  split at hbound
  next heq =>
    obtain rfl := Option.some.inj hbound
    exact hd (beq_iff_eq.mp heq ▸ hk)
  next => exact h.instances k c hk hbound

end Orderly

/-- Each step keeps the lists in order. -/
theorem Step.orderly {m m' : Model} (hstep : m.Step m') (h : m.Orderly) : m'.Orderly := by
  cases hstep with
  | types hinterned => exact h.interned hinterned
  | append parent name access hkind => exact h.append hkind rfl
  | appendUnder _ parent name access hkind =>
      exact (h.append hkind rfl).bindKey fun _ =>
        ⟨hasDecl_iff.mpr ⟨_, decl?_append_self⟩, h.unlisted_append rfl⟩
  | list parent name access hkind hargs =>
      refine (h.append hkind rfl).enlist decl?_append_self hargs (fun key hkey hbound => ?_) parent
      exact Nat.lt_irrefl _ (h.instances key _ hkey hbound).1
  | bind _ hkey d => exact h.bindKey fun hinstance => absurd hinstance hkey
  | mature d hf =>
      exact h.learn (fun e => (hf e).toContinues) (fun e => (hf e).listed)
        (.inl fun e => (hf e).args)
  | instantiate hkey hbound hf =>
      exact h.learn (fun e => (hf e).1.toContinues) (fun e => (hf e).2)
        (.inr (h.instances _ _ hkey hbound).2)

theorem Steps.orderly {m m' : Model} (hsteps : m.Steps m') (h : m.Orderly) : m'.Orderly := by
  induction hsteps with
  | refl => exact h
  | tail _ hstep ih => exact hstep.orderly ih

/-- Every reachable model has its lists in order. -/
theorem Reachable.orderly {m : Model} (h : m.Reachable) : m.Orderly := h.steps.orderly .empty

end Model

end CppReflect
