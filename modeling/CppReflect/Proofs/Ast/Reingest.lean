import CppReflect.Proofs.Ast.Reading
import CppReflect.Proofs.Ast.Rerun
import CppReflect.Proofs.Model.WellFormed

/-!
# The second pass over a dump

If both passes over a dump read the same, the second one asks for the keys that the first one has
bound, and declares nothing.
-/

namespace CppReflect.Ast

open Model (Interns Adds Amends)
open Rerun (Twice always any)

variable {w : Rerun} {pre : Progress → Progress → Prop}

/-! ## Readings -/

namespace Rerun

/-- What the test lets through tells which key is asked for, and which base classes are named. -/
def Determines (w : Rerun) (test : ReadingTest) : Prop :=
  ∀ scope node r r', test scope node r = true → test scope node r' = true →
    r.key = r'.key ∧ (w.hierarchy → r.bases = r'.bases)

/-- The passes read the same. -/
def SameReading (w : Rerun) (reading reading' : IngestM Reading) (p q : Progress) : Prop :=
  ∀ r r', (reading.run.run p).1 = .ok r → (reading'.run.run q).1 = .ok r' →
    r.key = r'.key ∧ (w.hierarchy → r.bases = r'.bases)

end Rerun

theorem run_expect (test : ReadingTest) (e : IngestError) (scope : DeclId) (node : Json)
    (reading : IngestM Reading) (p : Progress) :
    (expect test e scope node reading).run.run p = (.ok ⟨⟩, p) ∧
        (∀ r, (reading.run.run p).1 = .ok r → test scope node r = true) ∨
      (expect test e scope node reading).run.run p = (.error e, p) := by
  unfold expect
  rw [run_bind_of_ok (show (getThe Progress : IngestM Progress).run.run p = (.ok p, p) from rfl)]
  cases (reading.run.run p).1 with
  | error e' => exact .inl ⟨rfl, by simp⟩
  | ok r =>
      by_cases htest : test scope node r = true
      · refine .inl ⟨?_, ?_⟩
        · simp only [htest]
          rfl
        · rintro _ ⟨⟩
          exact htest
      · refine .inr ?_
        simp only [htest]
        rfl

theorem expect_extending (test : ReadingTest) (e : IngestError) (scope : DeclId) (node : Json)
    (reading : IngestM Reading) : Extending (expect test e scope node reading) := by
  intro p
  rcases run_expect test e scope node reading p with ⟨hrun, -⟩ | hrun <;> rw [hrun] <;>
    exact Model.Extends.refl p.model

/-- Behind a check that neither pass has failed, the passes have read the same. -/
theorem Rerun.Twice.expect {α : Type} {test : ReadingTest} (htest : w.Determines test)
    {scope : DeclId} {node : Json} {reading : IngestM Reading} {x y : IngestM α}
    {post : α → α → Prop}
    (h : w.Twice (fun p q => pre p q ∧ w.SameReading reading reading p q) x y post) :
    w.Twice pre (Ast.expect test w.failure scope node reading >>= fun _ => x)
      (Ast.expect test w.failure scope node reading >>= fun _ => y) post := by
  refine ⟨(expect_extending _ _ _ _ _).bind fun _ => h.left, ?_⟩
  intro p q halike hp a p' hrun hmiddle
  rcases run_expect test w.failure scope node reading p with ⟨hfirst, hpass⟩ | hfirst
  · rw [run_bind_of_ok hfirst] at hrun
    rcases run_expect test w.failure scope node reading q with ⟨hsecond, hpass'⟩ | hsecond
    · rw [run_bind_of_ok hsecond]
      -- the reading does nothing to the states, so `x` and `y` start where it was made
      refine h.again p q halike ⟨hp, fun r r' hr hr' => ?_⟩ a p' hrun hmiddle
      exact htest scope node r r' (hpass r hr) (hpass' r' hr')
    · rw [run_bind_of_error hsecond]
      exact rfl
  · rw [run_bind_of_error hfirst] at hrun
    cases hrun

/-! ## Steps -/

theorem observe_twice (node : Json) : w.Twice pre (observe node) (observe node) any :=
  Twice.note (fun _ => rfl) fun _ _ h => ⟨by rw [h.file], h.nodes, h.unnamed⟩

theorem passOver_twice (node : Json) : w.Twice pre (passOver node) (passOver node) any :=
  Twice.note (fun _ => rfl) fun _ _ h => ⟨by rw [h.file], h.nodes, h.unnamed⟩

theorem unnamedKey_twice (scope : DeclId) (sort : String) :
    w.Twice pre (unnamedKey scope sort) (unnamedKey scope sort) Eq := by
  refine ⟨unnamedKey_along scope sort, ?_⟩
  rintro p q halike - _ _ ⟨⟩ -
  have hunnamed := halike.unnamed
  refine ⟨⟨halike.file, halike.nodes, ?_, halike.keys, halike.extension, halike.size,
    halike.bases⟩, ?_⟩
  · simp only [hunnamed]
  · simp only [hunnamed]

theorem ownerOf_twice (node : Json) (scope : DeclId) :
    w.Twice pre (ownerOf node scope) (ownerOf node scope) Eq := by
  refine ⟨ownerOf_along node scope, ?_⟩
  rintro p q halike - _ _ ⟨⟩ -
  exact ⟨halike, by simp only [halike.nodes]⟩

theorem typeOf_twice (spelling : Option String) (context context' : DeclId) :
    w.Twice pre (onModel (typeOf spelling context)) (onModel (typeOf spelling context')) any :=
  Twice.interns (typeOf_interns spelling context) (typeOf_interns spelling context')

/-! ## Scopes -/

/-- A visitor that both passes follow in the same way. -/
def Visitor.Twice (w : Rerun) (visit : Visitor) : Prop :=
  ∀ node scope access, w.Twice always (visit node scope access) (visit node scope access) any

variable {visit : Visitor}

theorem namespaceDecl_twice (hvisit : visit.Twice w) (node : Json) (parent : DeclId) :
    w.Twice pre (namespaceDecl visit node parent) (namespaceDecl visit node parent) any :=
  Twice.upsert (Interns.pure _) (fun _ _ => rfl) (fun _ _ _ => rfl) fun d _ =>
    (hvisit node d .none).mono fun _ _ _ => trivial

theorem usingDirective_amends (node : Json) (scope : DeclId) :
    Amends (usingDirective node scope) := by
  refine Interns.get.amends.bind fun m => ?_
  dsimp only
  split
  next d _ => exact Model.useNamespace_amends scope d
  next => exact (Interns.pure _).amends

/-! ## Classes -/

theorem recordKey_extending (node : Json) (parent : DeclId) (detached : Option Detached) :
    Extending (recordKey node parent detached) := by
  cases detached with
  | some detached => exact Along.pure _
  | none => exact Along.ite (unnamedKey_along parent "rec") (Along.pure _)

/-- The same class, under the same key. -/
def SameRecord (parent parent' : DeclId) (detached detached' : Option Detached) : Prop :=
  detached.map Detached.key = detached'.map Detached.key ∧ (detached = none → parent = parent')

theorem recordKey_twice (node : Json) {parent parent' : DeclId}
    {detached detached' : Option Detached} :
    w.Twice (fun _ _ => SameRecord parent parent' detached detached')
      (recordKey node parent detached) (recordKey node parent' detached') Eq := by
  refine ⟨recordKey_extending node parent detached, ?_⟩
  rintro p q halike ⟨hkey, hparent⟩
  have hpure : ∀ {k k' : String}, k = k' → w.Twice always (pure k) (pure k') Eq := fun h =>
    Twice.pure fun _ _ _ => h
  cases detached with
  | some detached =>
      obtain ⟨detached', rfl, hkey'⟩ := Option.map_eq_some_iff.mp hkey.symm
      exact (hpure hkey'.symm).again p q halike trivial
  | none =>
      obtain rfl := hparent rfl
      obtain rfl := Option.map_eq_none_iff.mp hkey.symm
      exact ((unnamedKey_twice parent "rec").ite (hpure rfl)).again p q halike trivial

/-- Declaring a class never fails, and leaves it under a key. -/
theorem recordHead_run (node : Json) (parent : DeclId) (access : Access)
    (detached : Option Detached) (p : Progress) :
    ∃ d p', (recordHead node parent access detached).run.run p = (.ok d, p') ∧
      ∃ key, p'.model.keyed? key = some d := by
  obtain ⟨key, p₁, hkey⟩ : ∃ key p₁, (recordKey node parent detached).run.run p = (.ok key, p₁) := by
    cases detached with
    | some detached => exact ⟨_, _, rfl⟩
    | none =>
        unfold recordKey
        dsimp only
        split <;> exact ⟨_, _, rfl⟩
  unfold recordHead
  rw [run_bind_of_ok hkey]
  exact ⟨_, _, rfl, key, upsert_keyed p₁.model key parent _ access _ _⟩

/-- Declaring a class comes to the same declaration in both passes. -/
theorem recordHead_twice (node : Json) {parent parent' : DeclId} {access access' : Access}
    {detached detached' : Option Detached} :
    w.Twice (fun _ _ => SameRecord parent parent' detached detached')
      (recordHead node parent access detached) (recordHead node parent' access' detached') Eq := by
  refine (recordKey_twice node).bind_eq fun key => ?_
  refine Twice.upsert (Interns.pure _) (fun _ _ => rfl) (fun _ _ _ => rfl) fun d _ => ?_
  refine Twice.bind_any (Twice.note (fun _ => rfl) ?_) fun _ _ => Twice.pure fun _ _ _ => rfl
  exact fun p q h => ⟨h.file, by rw [h.nodes], h.unnamed⟩

theorem recordReading_run {node : Json} {parent : DeclId} {access : Access}
    {detached : Option Detached} {p p' : Progress} {d : DeclId}
    (h : (recordHead node parent access detached).run.run p = (.ok d, p')) :
    ((recordReading node parent access detached).run.run p).1 = .ok {
      key := detached.map Detached.key
      bases := if flag node "completeDefinition" then
        ((baseSpecifiers node parent).run p'.model).1 else [] } := by
  unfold recordReading
  rw [run_bind_of_ok h]
  split <;> rfl

/-! ### Completing a class -/

theorem basesOf_modifyRecord {m : Model} {d : DeclId} {f : RecordInfo → RecordInfo}
    {bases : List BaseSpecifier} (hf : ∀ info, (f info).bases = bases) (hd : m.HasDecl d)
    (c : DeclId) :
    ((Model.modifyRecord d f).run m).2.basesOf c =
      if d = c then (if (m.decl d).isRecord then bases else []) else m.basesOf c := by
  unfold Model.modifyRecord
  rw [Model.basesOf_modifyDecl]
  by_cases heq : d = c
  · subst heq
    obtain ⟨e, he⟩ := Model.hasDecl_iff.mp hd
    rw [if_pos rfl, if_pos rfl, he, Model.decl, he]
    cases hkind : e.kind <;> simp [Decl.bases, Decl.record?, Decl.isRecord, hkind, hf]
  · rw [if_neg heq, if_neg heq]

theorem isRecord_of_continues {e e' : Decl} (h : e.Continues e') : e'.isRecord = e.isRecord := by
  have hkind := h.kind
  unfold Decl.isRecord Decl.record?
  cases he : e.kind <;> cases he' : e'.kind <;> simp_all [DeclKind.Continues]

/-- A class is completed with the bases that both passes have read. -/
theorem modifyRecord_twice {d : DeclId} {f g : RecordInfo → RecordInfo}
    {bases bases' : List BaseSpecifier} (hf : ∀ info, (f info).bases = bases)
    (hg : ∀ info, (g info).bases = bases') :
    w.Twice (fun p _ => p.model.HasDecl d ∧ (w.hierarchy → bases = bases'))
      (onModel (Model.modifyRecord d f)) (onModel (Model.modifyRecord d g)) any := by
  refine ⟨Along.onModel (Model.modifyRecord_extending d f), ?_⟩
  rintro p q halike ⟨hd, hbases⟩ _ _ ⟨⟩ hmiddle
  have hf' := Model.modifyRecord_extending d f p.model
  have hg' := Model.modifyRecord_extending d g q.model
  have hgrow := ((hf'.trans hmiddle).trans halike.extension).growsTo
  refine ⟨⟨halike.file, halike.nodes, halike.unnamed, halike.keys.of_keys hf' rfl,
    halike.extension.trans hg', Array.size_modify.trans halike.size, fun hw c => ?_⟩, trivial⟩
  -- either `c` is completed with the same bases in both passes, or it is left alone in both
  have hfirst : _ = _ := basesOf_modifyRecord hf hd c
  have hsecond : _ = _ := basesOf_modifyRecord hg (hgrow.hasDecl hd) c
  rw [isRecord_of_continues (hgrow.decl hd), ← hbases hw] at hsecond
  change ((Model.modifyRecord d g).run q.model).2.basesOf c = _ ∨
    ((Model.modifyRecord d g).run q.model).2.basesOf c =
      ((Model.modifyRecord d f).run p.model).2.basesOf c
  rw [hfirst, hsecond]
  split
  · exact .inr rfl
  · exact halike.bases hw c

/-! ### Implicit members -/

theorem onModel_bind {α β : Type} (x : ModelM α) (f : α → ModelM β) :
    onModel (x >>= f) = onModel x >>= fun a => onModel (f a) := rfl

/-- The class has a constructor. -/
def hasConstructor (m : Model) (record : DeclId) : Bool :=
  (m.methods record).any fun d => (m.function? d).any FunctionInfo.isConstructor

/-- Declares a member function that the compiler adds, unless it is there. -/
def implicitMember (record : DeclId) (void : TypeId) (name : String) (special : SpecialMember) :
    ModelM PUnit := do
  let (d, created) ← upsert (keyIn record ("fn:" ++ name ++ "()")) record name .pub false
    (pure (.function { returnType := void, method := some {}, special }))
  if created then
    Model.modifyDecl d fun e => { e with implicit := true }

theorem declareImplicitMembers_eq (record : DeclId) (data : Json) :
    declareImplicitMembers record data = (do
      let m ← get
      let void ← Model.void
      let wanted := (data.get? "defaultCtor").any fun c => flag c "exists" || flag c "needsImplicit"
      (if !hasConstructor m record && wanted then
        implicitMember record void (m.decl record).name (.constructor true false) else pure ⟨⟩)
      (if !(m.destructor? record).isSome then
        implicitMember record void ("~" ++ (m.decl record).name) .destructor else pure ⟨⟩)) := by
  have hjoin : ∀ {c : Prop} [Decidable c] (x : ModelM PUnit) (k : PUnit → ModelM PUnit),
      (if c then x >>= k else k ⟨⟩) = (if c then x else pure ⟨⟩) >>= k := by
    intro c _ x k
    split <;> rfl
  refine congrArg _ (funext fun m => ?_)
  dsimp only
  exact congrArg _ (funext fun void => hjoin _ _)

/-- A class that has a function in some role goes on having one. -/
theorem any_methods_of_extends {m m' : Model} (h : m.Extends m') {record : DeclId}
    {test : FunctionInfo → Bool} (htest : ∀ f f', f'.special = f.special → test f' = test f)
    (hany : ((m.methods record).any fun d => (m.function? d).any test) = true) :
    ((m'.methods record).any fun d => (m'.function? d).any test) = true := by
  obtain ⟨d, hd, hf⟩ := List.any_eq_true.mp hany
  obtain ⟨hmem, -⟩ := List.mem_filter.mp hd
  obtain ⟨f, hfunction, hf⟩ := (Option.any_eq_true _ _).mp hf
  obtain ⟨e, he, hef⟩ := Option.bind_eq_some_iff.mp hfunction
  obtain ⟨e', he', hext⟩ := h.decls d e he
  -- the role of the function is the same in the later model
  have hspecial := hext.special
  rw [hef, Option.map_some, Option.map_eq_some_iff] at hspecial
  obtain ⟨f', hef', hsame⟩ := hspecial
  have hfunction' : m'.function? d = some f' := Option.bind_eq_some_iff.mpr ⟨e', he', hef'⟩
  have hrecord : m.HasDecl record := by
    cases hr : m.decl? record with
    | none =>
        rw [Model.decl, hr] at hmem
        cases hmem
    | some e => exact Model.hasDecl_iff.mpr ⟨e, hr⟩
  refine List.any_eq_true.mpr ⟨d, List.mem_filter.mpr ⟨?_, by rw [hfunction']; rfl⟩, ?_⟩
  · exact (h.growsTo.decl hrecord).members.subset hmem
  · rw [hfunction', Option.any_some, htest f f' hsame]
    exact hf

theorem hasConstructor_of_extends {m m' : Model} (h : m.Extends m') {record : DeclId}
    (hc : hasConstructor m record = true) : hasConstructor m' record = true := by
  refine any_methods_of_extends h (fun f f' hsame => ?_) hc
  unfold FunctionInfo.isConstructor
  rw [hsame]

theorem destructor?_of_extends {m m' : Model} (h : m.Extends m') {record : DeclId}
    (hd : (m.destructor? record).isSome = true) : (m'.destructor? record).isSome = true := by
  rw [Model.destructor?, List.find?_isSome, ← List.any_eq_true] at hd ⊢
  refine any_methods_of_extends h (fun f f' hsame => ?_) hd
  unfold FunctionInfo.isDestructor
  rw [hsame]

theorem markImplicit_amends (d : DeclId) :
    Amends (Model.modifyDecl d fun e => { e with implicit := true }) :=
  Model.modifyDecl_amends (setImplicit_extending d) fun _ => rfl

theorem implicitMember_adds (record : DeclId) (void : TypeId) (name : String)
    (special : SpecialMember) : Adds (implicitMember record void name special) := by
  refine (upsert_adds (Interns.pure _) (fun _ _ => rfl) _ record name .pub false).bind fun m => ?_
  exact Adds.ite (markImplicit_amends _).toAdds (Interns.pure _).amends.toAdds

/-- A member function that the second pass misses was missing in the first one, which has declared
it. -/
theorem implicitMember_twice {record : DeclId} {void void' : TypeId} {name name' : String}
    {special : SpecialMember} {c c' : Bool} (hname : ∀ p q, pre p q → name = name')
    (hmissing : ∀ p q, pre p q → c' = true → c = true) :
    w.Twice pre (onModel (if c then implicitMember record void name special else pure ⟨⟩))
      (onModel (if c' then implicitMember record void' name' special else pure ⟨⟩)) any := by
  have hadds := implicitMember_adds record void name special
  have hnone : Amends (pure ⟨⟩ : ModelM PUnit) := (Interns.pure _).amends
  have hboth : w.Twice pre (onModel (implicitMember record void name special))
      (onModel (implicitMember record void' name' special)) any := by
    unfold implicitMember
    rw [onModel_bind, onModel_bind]
    refine Twice.upsert (Interns.pure _) (fun _ _ => rfl) ?_ fun d created => ?_
    · exact fun p q hp => by rw [hname p q hp]
    · exact Twice.onModel (Adds.ite (markImplicit_amends d).toAdds hnone.toAdds) hnone
  cases c' with
  | false => exact Twice.onModel (Adds.ite hadds hnone.toAdds) hnone
  | true =>
      cases c with
      | true => exact hboth
      | false =>
          refine ⟨Along.onModel (Model.Extending.pure _), fun p q _ hp => ?_⟩
          cases hmissing p q hp rfl

theorem declareImplicitMembers_twice (record : DeclId) (data : Json) :
    w.Twice (fun p _ => p.model.HasDecl record) (onModel (declareImplicitMembers record data))
      (onModel (declareImplicitMembers record data)) any := by
  rw [declareImplicitMembers_eq, onModel_bind]
  refine Twice.bind (fun m m' _ _ => m.Extends m' ∧ m.HasDecl record)
    (Twice.interns Interns.get Interns.get) ?_ fun m m' => ?_
  · rintro _ _ p q _ _ ⟨-, hd, ⟨⟩, ⟨⟩, -, hshared, -, -⟩
    exact ⟨hshared, hd⟩
  · rw [onModel_bind, onModel_bind]
    refine Twice.bind_known (Twice.interns (Model.intern_interns _) (Model.intern_interns _))
      fun void void' => ?_
    dsimp only
    rw [onModel_bind, onModel_bind]
    have hname : ∀ _ _ : Progress, m.Extends m' ∧ m.HasDecl record →
        (m.decl record).name = (m'.decl record).name :=
      fun _ _ h => (h.1.growsTo.decl h.2).name.symm
    refine Twice.bind_known (implicitMember_twice hname ?_) fun _ _ => ?_
    · rintro _ _ ⟨hext, -⟩ hc
      simp only [Bool.and_eq_true, Bool.not_eq_true'] at hc ⊢
      exact ⟨Bool.eq_false_iff.mpr fun hm => by simp [hasConstructor_of_extends hext hm] at hc, hc.2⟩
    · refine implicitMember_twice (fun p q h => by rw [hname p q h]) ?_
      rintro _ _ ⟨hext, -⟩ hc
      simp only [Bool.not_eq_true'] at hc ⊢
      exact Bool.eq_false_iff.mpr fun hm => by simp [destructor?_of_extends hext hm] at hc

/-! ### Declaring a class -/

/-- The passes read the same base classes in two scopes. -/
def SameBases (w : Rerun) (node : Json) (parent parent' : DeclId) (p q : Progress) : Prop :=
  w.hierarchy → flag node "completeDefinition" = true →
    ((baseSpecifiers node parent).run p.model).1 = ((baseSpecifiers node parent').run q.model).1

theorem recordBody_twice (hvisit : visit.Twice w) (node : Json) (parent parent' d : DeclId) :
    w.Twice (fun p q => p.model.HasDecl d ∧ SameBases w node parent parent' p q)
      (recordBody visit node parent d) (recordBody visit node parent' d) any := by
  unfold recordBody
  split
  next hcomplete =>
    refine Twice.bind
      (fun bases bases' p _ => p.model.HasDecl d ∧ (w.hierarchy → bases = bases'))
      (Twice.interns (baseSpecifiers_interns node parent) (baseSpecifiers_interns node parent'))
      ?_ fun bases bases' => ?_
    · rintro _ _ p q _ _ ⟨-, ⟨hd, hsame⟩, ⟨⟩, ⟨⟩, hgrown, -, -, -⟩
      exact ⟨hgrown.growsTo.hasDecl hd, fun hw => hsame hw hcomplete⟩
    · dsimp only
      refine Twice.bind (fun _ _ p _ => p.model.HasDecl d)
        (modifyRecord_twice (fun _ => rfl) fun _ => rfl)
        (fun _ _ _ _ _ _ h => h.grown.growsTo.hasDecl h.pre.1) fun _ _ => ?_
      refine Twice.bind (fun _ _ p _ => p.model.HasDecl d)
        ((hvisit node d _).mono fun _ _ _ => trivial)
        (fun _ _ _ _ _ _ h => h.grown.growsTo.hasDecl h.pre) fun _ _ => ?_
      exact declareImplicitMembers_twice d _
  next => exact passOver_twice node

theorem recordDecl_twice (hvisit : visit.Twice w) (node : Json) {parent parent' : DeclId}
    {access access' : Access} {detached detached' : Option Detached} :
    w.Twice (fun p q => SameRecord parent parent' detached detached' ∧
        w.SameReading (recordReading node parent access detached)
          (recordReading node parent' access' detached') p q)
      (recordDecl visit node parent access detached)
      (recordDecl visit node parent' access' detached') Eq := by
  rw [recordDecl_eq, recordDecl_eq]
  refine Twice.bind_same
    (fun d p q => p.model.HasDecl d ∧ SameBases w node parent parent' p q)
    ((recordHead_twice node).mono fun _ _ h => h.1) ?_ fun d => ?_
  · rintro d p q p' q' ⟨-, ⟨-, hsame⟩, hfirst, hsecond, -, -, halike', -⟩
    obtain ⟨_, _, hrun, key, hkey⟩ := recordHead_run node parent access detached p
    cases hrun.symm.trans hfirst
    -- the bases are read in the states that declaring the class has left
    refine ⟨halike'.keys key d hkey, fun hw hcomplete => ?_⟩
    have hbases := (hsame _ _ (recordReading_run hfirst) (recordReading_run hsecond)).2 hw
    rwa [if_pos hcomplete, if_pos hcomplete] at hbases
  · exact (recordBody_twice hvisit node parent parent' d).bind_any fun _ _ =>
      Twice.pure fun _ _ _ => rfl

theorem specializationHead_twice (node : Json) (template template' : DeclId) :
    w.Twice pre (specializationHead node template) (specializationHead node template') any := by
  refine Twice.model.bind_any fun _ _ => ?_
  refine Twice.bind_any (Twice.interns (templateArgs_interns node _) (templateArgs_interns node _))
    fun _ _ => ?_
  exact Twice.model.bind_any fun _ _ => Twice.pure fun _ _ _ => trivial

/-- The templates need not be the same, as long as the key is. -/
theorem specializationDecl_twice (hvisit : visit.Twice w) (node : Json)
    (template template' : DeclId) (access : Access) :
    w.Twice (fun p q => w.SameReading (specializationReading node template access)
        (specializationReading node template' access) p q)
      (specializationDecl visit node template access)
      (specializationDecl visit node template' access) any := by
  rw [specializationDecl_eq, specializationDecl_eq]
  refine Twice.bind (fun h h' p q => SameRecord h.1 h'.1 (some h.2) (some h'.2) ∧
      w.SameReading (recordReading node h.1 access (some h.2))
        (recordReading node h'.1 access (some h'.2)) p q)
    (specializationHead_twice node template template') ?_ ?_
  · rintro h h' p q p' q' ⟨-, hsame, hfirst, hsecond, -, -, -, -⟩
    unfold specializationReading Rerun.SameReading at hsame
    rw [run_bind_of_ok hfirst, run_bind_of_ok hsecond] at hsame
    obtain ⟨_, _, hrun, -⟩ := recordHead_run node h.1 access (some h.2) p'
    obtain ⟨_, _, hrun', -⟩ := recordHead_run node h'.1 access (some h'.2) q'
    have hkey := (hsame _ _ (recordReading_run hrun) (recordReading_run hrun')).1
    exact ⟨⟨hkey, fun hnone => by cases hnone⟩, hsame⟩
  · rintro ⟨parent, detached⟩ ⟨parent', detached'⟩
    refine (recordDecl_twice hvisit node).bind_eq fun d => ?_
    exact Twice.amends (Model.modifyTemplate_amends template _)
      (Model.modifyTemplate_amends template' _)

/-! ## Templates -/

section Checked

variable {test : ReadingTest}

theorem classTemplateMemberChecked_twice (htest : w.Determines test) (hvisit : visit.Twice w)
    (source : Source) (parent : DeclId) (access : Access) (template : DeclId) (child : Json) :
    w.Twice always
      (classTemplateMemberChecked test w.failure visit source parent access template child)
      (classTemplateMemberChecked test w.failure visit source parent access template child)
      any := by
  refine (observe_twice child).bind_any fun _ _ => ?_
  have hnothing : w.Twice always (pure ⟨⟩ : IngestM PUnit) (pure ⟨⟩) any :=
    Twice.pure fun _ _ _ => trivial
  refine Twice.ite (Twice.ite ?_ ?_) hnothing
  · refine Twice.expect htest (Twice.bind_eq ((recordDecl_twice hvisit child).mono ?_) fun d => ?_)
    · exact fun _ _ h => ⟨⟨rfl, fun _ => rfl⟩, h.2⟩
    · exact Twice.amends (Model.modifyTemplate_amends template _) (Model.modifyTemplate_amends template _)
  · refine Twice.bind_progress (fun p q hfile => by rw [hfile]) fun p => Twice.ite ?_ ?_
    · refine Twice.expect htest ((specializationDecl_twice hvisit child template template access).mono ?_)
      exact fun _ _ h => h.2
    · exact passOver_twice child

theorem classTemplateDeclChecked_twice (htest : w.Determines test) (hvisit : visit.Twice w)
    (source : Source) (node : Json) (parent : DeclId) (access : Access) :
    w.Twice pre (classTemplateDeclChecked test w.failure visit source node parent access)
      (classTemplateDeclChecked test w.failure visit source node parent access) any := by
  have hparams := templateParams_interns node parent
  refine Twice.bind_any (Twice.interns hparams hparams) fun _ _ => ?_
  refine Twice.upsert (Interns.pure _) (fun _ _ => rfl) (fun _ _ _ => rfl) fun template _ => ?_
  refine (Twice.forM fun child _ => ?_).mono fun _ _ _ => trivial
  exact classTemplateMemberChecked_twice htest hvisit source parent access template child

end Checked

/-! ## Functions -/

theorem functionHead_twice (source : Source) (node : Json) (scope : DeclId) :
    w.Twice pre (functionHead source node scope) (functionHead source node scope) any := by
  refine (ownerOf_twice node scope).bind_eq fun owner => ?_
  refine (typeOf_twice (qualType? node) owner owner).bind_any fun _ _ => ?_
  refine Twice.model.bind_any fun _ _ => ?_
  have hparams : w.Twice always (functionParams source node owner)
      (functionParams source node owner) any := by
    refine Twice.mapM fun param _ => (Twice.check _).bind_eq fun default? => ?_
    refine (typeOf_twice (qualType? param) owner owner).bind_any fun _ _ => ?_
    exact Twice.pure fun _ _ _ => trivial
  refine hparams.bind_any fun _ _ => Twice.model.bind_any fun _ _ => ?_
  exact Twice.pure fun _ _ _ => trivial

theorem functionBody_twice (node : Json) (access access' : Access)
    {detachedKey detachedKey' : Option String} {h h' : FunctionHead} :
    w.Twice (fun _ _ => detachedKey.getD h.key = detachedKey'.getD h'.key)
      (functionBody node access detachedKey h) (functionBody node access' detachedKey' h') Eq := by
  refine Twice.bind_known (Twice.interns (specialOf_interns node h.owner h.params)
    (specialOf_interns node h'.owner h'.params)) fun special special' => ?_
  refine Twice.bind_known (Twice.interns (returnTypeOf_interns h.proto special)
    (returnTypeOf_interns h'.proto special')) fun _ _ => ?_
  refine Twice.upsert (Interns.pure _) (fun _ _ => rfl) (fun _ _ hkey => hkey) fun d created => ?_
  -- only a declaration that is new is marked
  have hmark : ∀ c c' : Bool, w.Twice (fun p _ => p.model.HasDecl d)
      (if c then onModel (Model.modifyDecl d fun e => { e with implicit := true }) else pure ⟨⟩)
      (if c' then onModel (Model.modifyDecl d fun e => { e with implicit := true }) else pure ⟨⟩)
      any := by
    intro c c'
    have hdone := markImplicit_amends d
    have hnone : Amends (pure ⟨⟩ : ModelM PUnit) := (Interns.pure _).amends
    cases c <;> cases c'
    · exact Twice.amends hnone hnone
    · exact Twice.amends hnone hdone
    · exact Twice.amends hdone hnone
    · exact Twice.amends hdone hdone
  refine (hmark _ _).bind_any fun _ _ => Twice.model.bind_any fun _ _ => ?_
  have hmerge : ∀ c n, Amends (Model.modifyFunction d (mergeFunction c n)) := fun c n =>
    Model.modifyFunction_amends d (mergeFunction_special c n)
  refine Twice.bind_any (Twice.amends (hmerge _ _) (hmerge _ _)) fun _ _ => ?_
  exact (passOver_twice node).bind_any fun _ _ => Twice.pure fun _ _ _ => rfl

theorem functionDecl_twice (source : Source) (node : Json) (scope : DeclId)
    (access access' : Access) {detachedKey detachedKey' : Option String} :
    w.Twice (fun p q => detachedKey = detachedKey' ∧ (detachedKey = none →
        w.SameReading (functionReading source node scope) (functionReading source node scope) p q))
      (functionDecl source node scope access detachedKey)
      (functionDecl source node scope access' detachedKey') Eq := by
  rw [functionDecl_eq, functionDecl_eq]
  refine Twice.bind (fun h h' _ _ => detachedKey.getD h.key = detachedKey'.getD h'.key)
    (functionHead_twice source node scope) ?_ fun h h' => ?_
  · rintro h h' p q p' q' ⟨-, ⟨rfl, hsame⟩, hfirst, hsecond, -, -, -, -⟩
    cases detachedKey with
    | some key => rfl
    | none =>
        -- the key is the one that has been read
        have hreading := hsame rfl
        unfold functionReading Rerun.SameReading at hreading
        rw [run_bind_of_ok hfirst, run_bind_of_ok hsecond] at hreading
        exact Option.some.inj (hreading _ _ rfl rfl).1
  · exact functionBody_twice node access access'

section Checked

variable {test : ReadingTest}

theorem functionTemplateMember_twice (source : Source) (parent : DeclId) (access : Access)
    (template : DeclId) (pattern : Option DeclId) (child : Json) :
    w.Twice (fun p q => (has child "loc" && isFunctionKind (kind child) && pattern.isSome) = true →
        w.SameReading (instanceReading child parent template)
          (instanceReading child parent template) p q)
      (functionTemplateMember source parent access template pattern child)
      (functionTemplateMember source parent access template pattern child) Eq := by
  refine Twice.bind (fun _ _ p q =>
      (has child "loc" && isFunctionKind (kind child) && pattern.isSome) = true →
        w.SameReading (instanceReading child parent template)
          (instanceReading child parent template) p q)
    (observe_twice child) ?_ fun _ _ => ?_
  · -- the location does not matter to the reading
    rintro _ _ p q _ _ ⟨-, hsame, ⟨⟩, ⟨⟩, -, -, -, -⟩
    exact hsame
  by_cases hfunction : (has child "loc" && isFunctionKind (kind child)) = true
  · rw [if_pos hfunction, hfunction]
    cases pattern with
    | none =>
        refine Twice.bind_eq ((functionDecl_twice source child parent access access).mono ?_)
          fun d => ?_
        · exact fun _ _ _ => ⟨rfl, fun hnone => by cases hnone⟩
        · have hmark := Model.modifyFunction_amends d (f := fun info =>
            { info with templated := .functionTemplate }) fun _ => rfl
          exact Twice.bind_any (Twice.amend hmark) fun _ _ =>
            Twice.pure fun _ _ _ => rfl
    | some pattern =>
        have hargs := templateArgs_interns child parent
        refine Twice.bind (fun args args' p q =>
            specializationKey p.model template args = specializationKey q.model template args')
          (Twice.interns hargs hargs) ?_ fun args args' => ?_
        · rintro _ _ p q _ _ ⟨-, hsame, ⟨⟩, ⟨⟩, -, -, -, -⟩
          exact Option.some.inj (hsame rfl _ _ rfl rfl).1
        refine Twice.bind (fun m m' _ _ =>
            specializationKey m template args = specializationKey m' template args')
          Twice.model ?_ fun m m' => ?_
        · rintro _ _ p q _ _ ⟨-, hsame, ⟨⟩, ⟨⟩, -, -, -, -⟩
          exact hsame
        refine Twice.bind_eq ((functionDecl_twice source child parent access access).mono ?_)
          fun d => ?_
        · exact fun _ _ hkey => ⟨congrArg some hkey, fun hnone => by cases hnone⟩
        · have hfill : ∀ args : List TemplateArg, Amends (Model.modifyFunction d fun info =>
              { info with
                templated := .functionTemplateSpecialization
                specialization := .implicitInstantiation
                pattern := some pattern
                templateArgs := args }) := fun args =>
            Model.modifyFunction_amends d fun _ => rfl
          have hlist : Amends (listSpecialization template d) :=
            Model.modifyTemplate_amends template _
          refine Twice.bind_any (Twice.amends (hfill _) (hfill _)) fun _ _ => ?_
          exact Twice.bind_any (Twice.amend hlist) fun _ _ =>
            Twice.pure fun _ _ _ => rfl
  · rw [if_neg hfunction]
    exact (passOver_twice child).bind_any fun _ _ => Twice.pure fun _ _ _ => rfl

theorem functionTemplateMemberChecked_twice (htest : w.Determines test) (source : Source)
    (parent : DeclId) (access : Access) (template : DeclId) (pattern : Option DeclId)
    (child : Json) :
    w.Twice always
      (functionTemplateMemberChecked test w.failure source parent access template pattern child)
      (functionTemplateMemberChecked test w.failure source parent access template pattern child)
      Eq := by
  have hmember := functionTemplateMember_twice (w := w) source parent access template pattern child
  unfold functionTemplateMemberChecked
  split
  · exact Twice.expect htest (hmember.mono fun _ _ h _ => h.2)
  next hnone => exact hmember.mono fun _ _ _ h => absurd h hnone

theorem functionTemplateDeclChecked_twice (htest : w.Determines test) (source : Source)
    (node : Json) (parent : DeclId) (access : Access) :
    w.Twice pre (functionTemplateDeclChecked test w.failure source node parent access)
      (functionTemplateDeclChecked test w.failure source node parent access) any := by
  have hparams := templateParams_interns node parent
  refine Twice.bind_any (Twice.interns hparams hparams) fun _ _ => ?_
  refine Twice.upsert (Interns.pure _) (fun _ _ => rfl) (fun _ _ _ => rfl) fun template _ => ?_
  refine ((Twice.foldlM (fun child _ pattern => functionTemplateMemberChecked_twice htest source
    parent access template pattern child) none).mono fun _ _ _ => trivial).bind_eq fun pattern => ?_
  exact Twice.amends (Model.modifyTemplate_amends template _)
    (Model.modifyTemplate_amends template _)

end Checked

/-! ## Other declarations -/

/-- More becomes known of a declaration that is no function and no class. -/
theorem refined_of_kind {e : Decl} {k : DeclKind} (hkind : e.kind.Continues k)
    (hother : (∀ info, e.kind ≠ .function info) ∧ ∀ info, e.kind ≠ .record info) :
    e.Extends { e with kind := k } ∧ Decl.bases { e with kind := k } = e.bases := by
  refine ⟨Decl.Extends.set_kind hkind ?_, ?_⟩
  · unfold Decl.function?
    cases he : e.kind <;> cases k <;> simp_all [DeclKind.Continues]
  · unfold Decl.bases Decl.record?
    cases he : e.kind <;> cases k <;> simp_all [DeclKind.Continues]

theorem fieldDecl_twice (node : Json) (record : DeclId) (access : Access) :
    w.Twice pre (fieldDecl node record access) (fieldDecl node record access) any := by
  unfold fieldDecl
  extract_lets name declared
  have hdeclared : ∀ key, w.Twice always (declared key) (declared key) any := fun key =>
    Twice.upsert ((Model.parseType_interns _ record).bind fun _ => Interns.pure _)
      (fun _ _ => rfl) (fun _ _ _ => rfl) fun _ _ => Twice.pure fun _ _ _ => trivial
  refine Twice.ite ?_ ?_
  · exact (unnamedKey_twice record "field").bind_eq hdeclared
  · exact Twice.bind_eq (Twice.pure fun _ _ _ => rfl) hdeclared

theorem varDecl_twice (node : Json) (scope : DeclId) (access : Access) :
    w.Twice pre (varDecl node scope access) (varDecl node scope access) any := by
  refine (ownerOf_twice node scope).bind_eq fun owner => ?_
  refine Twice.upsert ((Model.parseType_interns _ owner).bind fun _ => Interns.pure _)
    (fun _ _ => rfl) (fun _ _ _ => rfl) fun d _ => ?_
  dsimp only
  split
  next mangled _ =>
    refine Twice.amend (Model.modifyKind_amends fun e => ?_)
    split
    next info hkind => exact refined_of_kind (by simp [hkind, DeclKind.Continues]) (by simp [hkind])
    next => exact ⟨Decl.Extends.refl e, rfl⟩
  next => exact Twice.pure fun _ _ _ => trivial

theorem enumeratorDecl_twice (enum : DeclId) (type type' : TypeId) (r : EnumeratorRange)
    (child : Json) :
    w.Twice always (enumeratorDecl enum type r child) (enumeratorDecl enum type' r child) Eq := by
  refine (observe_twice child).bind_any fun _ _ => Twice.ite ?_ ?_
  · refine Twice.upsert (Interns.pure _) (fun _ _ => rfl) (fun _ _ _ => rfl) fun d _ => ?_
    refine Twice.bind_any (Twice.amend (Model.modifyKind_amends fun e => ?_))
      fun _ _ => ?_
    · split
      next value type hkind =>
        exact refined_of_kind (by simp [hkind, DeclKind.Continues]) (by simp [hkind])
      next => exact ⟨Decl.Extends.refl e, rfl⟩
    · exact (passOver_twice child).bind_any fun _ _ => Twice.pure fun _ _ _ => rfl
  · exact (passOver_twice child).bind_any fun _ _ => Twice.pure fun _ _ _ => rfl

theorem enumDecl_twice (node : Json) (parent : DeclId) (access : Access) :
    w.Twice pre (enumDecl node parent access) (enumDecl node parent access) any := by
  unfold enumDecl
  extract_lets name isScoped declared
  have hdeclared : ∀ key, w.Twice always (declared key) (declared key) any := by
    intro key
    refine Twice.upsert ((Model.intern_interns _).bind fun _ => Interns.pure _)
      (fun _ _ => rfl) (fun _ _ _ => rfl) fun d _ => ?_
    have htype := Model.intern_interns ⟨.enum d, .none⟩
    refine Twice.bind_any (Twice.interns htype htype) fun type type' => ?_
    refine (Twice.foldlM (fun child _ r => enumeratorDecl_twice d type type' r child) {}).bind_eq
      fun range => ?_
    extract_lets completed
    have hcompleted : ∀ integerType integerType', w.Twice always (completed integerType)
        (completed integerType') any := by
      intro integerType integerType'
      refine Twice.amends ?_ ?_ <;>
        (refine Model.modifyKind_amends fun e => ?_
         split)
      next info hkind =>
        exact refined_of_kind (by simp [hkind, DeclKind.Continues]) (by simp [hkind])
      next => exact ⟨Decl.Extends.refl e, rfl⟩
      next info hkind =>
        exact refined_of_kind (by simp [hkind, DeclKind.Continues]) (by simp [hkind])
      next => exact ⟨Decl.Extends.refl e, rfl⟩
    split
    next spelling _ =>
      have hparse := Model.parseType_interns spelling parent
      exact Twice.bind_any (Twice.interns hparse hparse) hcompleted
    next =>
      have hbuiltin := Model.intern_interns ⟨.builtin range.integerType, .none⟩
      exact Twice.bind_any (Twice.interns hbuiltin hbuiltin) hcompleted
  refine Twice.ite ?_ ?_
  · exact (unnamedKey_twice parent "enum").bind_eq hdeclared
  · exact Twice.bind_eq (Twice.pure fun _ _ _ => rfl) hdeclared

theorem typedefDecl_twice (node : Json) (parent : DeclId) (access : Access)
    (unnamed : Option DeclId) :
    w.Twice pre (typedefDecl node parent access unnamed) (typedefDecl node parent access unnamed)
      any := by
  unfold typedefDecl
  extract_lets name spelling namesUnnamed
  refine Twice.upsert ?_ ?_ (fun _ _ _ => rfl) fun _ _ => Twice.pure fun _ _ _ => trivial
  · split
    · exact (Model.intern_interns _).bind fun _ => Interns.pure _
    · exact (Model.parseType_interns _ parent).bind fun _ => Interns.pure _
  · intro m
    split <;> exact fun _ => rfl

/-! ## Visiting -/

theorem specializationReading_run (node : Json) (template : DeclId) (access : Access)
    (p : Progress) :
    ∃ r key, ((specializationReading node template access).run.run p).1 = .ok r ∧
      r.key = some key := by
  obtain ⟨h, p', hhead⟩ : ∃ h p', (specializationHead node template).run.run p = (.ok h, p') :=
    ⟨_, _, rfl⟩
  obtain ⟨d, p'', hrun, -⟩ := recordHead_run node h.1 access (some h.2) p'
  have hreading : (specializationReading node template access).run.run p =
      (recordReading node h.1 access (some h.2)).run.run p' := run_bind_of_ok hhead
  rw [hreading, recordReading_run hrun]
  exact ⟨_, h.2.key, rfl, rfl⟩

/-- A specialization whose template is looked for: the passes find one, or both find none. -/
theorem specializationMember_twice (hvisit : visit.Twice w) (node : Json) (access : Access)
    (found found' : Option DeclId) :
    w.Twice (fun p q => w.SameReading
        (found.elim (pure {}) fun template => specializationReading node template access)
        (found'.elim (pure {}) fun template => specializationReading node template access) p q)
      (found.elim (passOver node) fun template => specializationDecl visit node template access)
      (found'.elim (passOver node) fun template => specializationDecl visit node template access)
      any := by
  have hkeyed : ∀ {template : DeclId} {p : Progress} {r : Reading},
      ((specializationReading node template access).run.run p).1 = .ok r → r.key ≠ none := by
    intro template p r hr
    obtain ⟨r', key, hr', hkey⟩ := specializationReading_run node template access p
    cases hr.symm.trans hr'
    rw [hkey]
    exact Option.some_ne_none key
  cases found with
  | some template =>
      cases found' with
      | some template' => exact specializationDecl_twice hvisit node template template' access
      | none =>
          -- only a specialization that is declared has a key to read
          refine ⟨(specializationDecl_twice (w := w) hvisit node template template access).left,
            fun p q _ h => ?_⟩
          obtain ⟨r, key, hr, hkey⟩ := specializationReading_run node template access p
          exact absurd (h r {} hr rfl).1 (hkeyed hr)
  | none =>
      cases found' with
      | some template' =>
          refine ⟨passOver_along node, fun p q _ h => ?_⟩
          obtain ⟨r, key, hr, hkey⟩ := specializationReading_run node template' access q
          exact absurd (h {} r rfl hr).1.symm (hkeyed hr)
      | none => exact passOver_twice node

/-- A specialization beside its template is read if there is a template. -/
theorem memberReading_template {source : Source} {scope : DeclId} {access : Access} {node : Json}
    (hkind : kind node = "ClassTemplateSpecializationDecl") (p : Progress) :
    (memberReading source scope access node).run.run p =
      ((memberTemplate? p.model scope (text node "name")).elim (pure {}) fun template =>
        specializationReading node template access).run.run p := by
  unfold memberReading
  rw [if_neg (by rw [hkind]; decide), if_pos hkind]
  rfl

/-- A specialization beside its template is declared if there is a template. -/
theorem declare_specialization {source : Source} {scope : DeclId} {s : MemberState} {node : Json}
    (hkind : kind node = "ClassTemplateSpecializationDecl") :
    declare visit source scope s node = (do
      (memberTemplate? (← model) scope (text node "name")).elim (passOver node) fun template =>
        specializationDecl visit node template s.access
      return s) := by
  unfold declare
  rw [hkind]
  refine bind_congr fun m => ?_
  extract_lets found
  have hfound : found = memberTemplate? m scope (text node "name") := by
    refine congrArg (List.find? · _) (funext fun d => ?_)
    unfold isClassTemplate Decl.template?
    cases (m.decl d).kind <;> simp
  rw [← hfound]
  clear_value found
  cases found <;> rfl

theorem declare_specialization_twice (hvisit : visit.Twice w) (source : Source) (scope : DeclId)
    (s : MemberState) {node : Json} (hkind : kind node = "ClassTemplateSpecializationDecl") :
    w.Twice (fun p q => w.SameReading (memberReading source scope s.access node)
        (memberReading source scope s.access node) p q)
      (declare visit source scope s node) (declare visit source scope s node) Eq := by
  rw [declare_specialization hkind]
  refine Twice.bind (fun m m' p q => m = p.model ∧ m' = q.model ∧
      w.SameReading (memberReading source scope s.access node)
        (memberReading source scope s.access node) p q) Twice.model ?_ fun m m' => ?_
  · rintro _ _ p q _ _ ⟨-, hsame, ⟨⟩, ⟨⟩, -, -, -, -⟩
    exact ⟨rfl, rfl, hsame⟩
  refine ((specializationMember_twice hvisit node s.access _ _).mono ?_).bind_any
    fun _ _ => Twice.pure fun _ _ _ => rfl
  rintro p q ⟨rfl, rfl, hsame⟩
  unfold Rerun.SameReading at hsame
  rwa [memberReading_template hkind, memberReading_template hkind] at hsame

theorem memberReading_function {source : Source} {scope : DeclId} {access : Access} {node : Json}
    (hkind : isFunctionKind (kind node) = true) :
    memberReading source scope access node = functionReading source node scope := by
  unfold memberReading
  rw [if_neg, if_neg, if_pos hkind]
  · intro h
    rw [h] at hkind
    exact absurd hkind (by decide)
  · rintro (h | h) <;>
      (rw [h] at hkind
       exact absurd hkind (by decide))

theorem recordMember_twice (hvisit : visit.Twice w) (source : Source) (scope : DeclId)
    (s : MemberState) {node : Json} (hkind : kind node = "CXXRecordDecl" ∨ kind node = "RecordDecl") :
    w.Twice (fun p q => w.SameReading (memberReading source scope s.access node)
        (memberReading source scope s.access node) p q)
      (recordMember visit scope s node) (recordMember visit scope s node) Eq := by
  unfold memberReading recordMember
  rw [if_pos hkind]
  split
  · exact (passOver_twice node).bind_any fun _ _ => Twice.pure fun _ _ _ => rfl
  · refine Twice.bind_eq ((recordDecl_twice hvisit node).mono ?_) fun d => ?_
    · exact fun _ _ h => ⟨⟨rfl, fun _ => rfl⟩, h⟩
    · exact Twice.ite (Twice.pure fun _ _ _ => rfl) (Twice.pure fun _ _ _ => rfl)

theorem declare_twice (hvisit : visit.Twice w) (source : Source) (scope : DeclId) (s : MemberState)
    (node : Json) (hclassTemplate : kind node ≠ "ClassTemplateDecl")
    (hfunctionTemplate : kind node ≠ "FunctionTemplateDecl") :
    w.Twice (fun p q => w.SameReading (memberReading source scope s.access node)
        (memberReading source scope s.access node) p q)
      (declare visit source scope s node) (declare visit source scope s node) Eq := by
  by_cases hspecialization : kind node = "ClassTemplateSpecializationDecl"
  · exact declare_specialization_twice hvisit source scope s hspecialization
  unfold declare
  extract_lets finished
  have hthen : ∀ {pre : Progress → Progress → Prop} {x y : IngestM PUnit}, w.Twice pre x y any →
      w.Twice pre (x >>= finished) (y >>= finished) Eq := fun hx =>
    hx.bind_any fun _ _ => Twice.pure fun _ _ _ => rfl
  have hskip : ∀ {pre : Progress → Progress → Prop},
      w.Twice pre (passOver node >>= finished) (passOver node >>= finished) Eq :=
    hthen (passOver_twice node)
  split
  next => exact Twice.pure fun _ _ _ => rfl
  next => exact hthen ((hvisit node scope s.access).mono fun _ _ _ => trivial)
  next => exact hthen ((hvisit node scope s.access).mono fun _ _ _ => trivial)
  next => exact hthen (namespaceDecl_twice hvisit node scope)
  next =>
    exact Twice.bind_any (Twice.amend (usingDirective_amends node scope)) fun _ _ => hskip
  next hkind => exact recordMember_twice hvisit source scope s (.inl hkind)
  next hkind => exact recordMember_twice hvisit source scope s (.inr hkind)
  next hkind => exact absurd hkind hclassTemplate
  next hkind => exact absurd hkind hspecialization
  next hkind => exact absurd hkind hfunctionTemplate
  next => exact hthen (enumDecl_twice node scope s.access)
  next => exact (typedefDecl_twice node scope s.access s.unnamed).bind_any fun _ _ => hskip
  next => exact (typedefDecl_twice node scope s.access s.unnamed).bind_any fun _ _ => hskip
  next => exact (fieldDecl_twice node scope s.access).bind_any fun _ _ => hskip
  next => exact (varDecl_twice node scope s.access).bind_any fun _ _ => hskip
  next =>
    split
    next hfunction =>
      refine Twice.bind_eq ((functionDecl_twice source node scope s.access s.access).mono ?_)
        fun d => Twice.pure fun _ _ _ => rfl
      rw [memberReading_function hfunction]
      exact fun _ _ h => ⟨rfl, fun _ => h⟩
    next => exact hskip

section Checked

variable {test : ReadingTest}

theorem declareChecked_twice (htest : w.Determines test) (hvisit : visit.Twice w) (source : Source)
    (scope : DeclId) (s : MemberState) (node : Json) :
    w.Twice always (declareChecked test w.failure visit source scope s node)
      (declareChecked test w.failure visit source scope s node) Eq := by
  unfold declareChecked
  split
  next =>
    refine Twice.bind_any ?_ fun _ _ => Twice.pure fun _ _ _ => rfl
    exact classTemplateDeclChecked_twice htest hvisit source node scope s.access
  next hclassTemplate =>
    split
    next =>
      refine Twice.bind_any ?_ fun _ _ => Twice.pure fun _ _ _ => rfl
      exact functionTemplateDeclChecked_twice htest source node scope s.access
    next hfunctionTemplate =>
      refine Twice.expect htest (Twice.mono ?_ fun _ _ h => h.2)
      exact declare_twice hvisit source scope s node hclassTemplate hfunctionTemplate

theorem visitMemberChecked_twice (htest : w.Determines test) (hvisit : visit.Twice w)
    (source : Source) (scope : DeclId) (s : MemberState) (node : Json) :
    w.Twice always (visitMemberChecked test w.failure visit source scope s node)
      (visitMemberChecked test w.failure visit source scope s node) Eq := by
  refine (observe_twice node).bind_any fun _ _ => ?_
  refine Twice.bind_progress (fun p q hfile => by rw [hfile]) fun p => Twice.ite ?_ ?_
  · exact declareChecked_twice htest hvisit source scope s node
  · exact (passOver_twice node).bind_any fun _ _ => Twice.pure fun _ _ _ => rfl

/-- Both passes follow the visitor in the same way, down to any depth. -/
theorem visitMembersChecked_twice (htest : w.Determines test) (source : Source) (fuel : Nat) :
    Visitor.Twice w (visitMembersChecked test w.failure source fuel) := by
  induction fuel with
  | zero => exact fun _ _ _ => Twice.pure fun _ _ _ => trivial
  | succ fuel ih =>
      intro node scope access
      refine (Twice.foldlM (fun child _ s => ?_) _).bind_eq fun _ => Twice.pure fun _ _ _ => trivial
      exact visitMemberChecked_twice htest ih source scope s child

theorem visitDumpChecked_twice (htest : w.Determines test) (source : Source) (node : Json) :
    w.Twice always (visitDumpChecked test w.failure source node)
      (visitDumpChecked test w.failure source node) any :=
  (observe_twice node).bind_any fun _ _ =>
    visitMembersChecked_twice htest source _ node Model.root .none

end Checked

end CppReflect.Ast
