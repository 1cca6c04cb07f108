import CppReflect.Proofs.Ast.Redeclarations

/-!
# The default constructor that the compiler adds

The compiler declares the default constructor of a class when it is first needed, so a dump may need
one without having a node for it. It is added behind the members of the class, but only if no
constructor at all is listed there, and not if one is listed that takes the place of no default
constructor, such as the copy constructor. If none is in the way, the class has a default
constructor from then on, unless a later node deletes it.
-/

namespace CppReflect

/-- The function can be called to construct an object from nothing. -/
structure FunctionInfo.ConstructsDefault (f : FunctionInfo) : Prop where
  constructor : f.isConstructor = true
  required : f.minRequiredArgs = 0
  undeleted : f.deleted = false

theorem FunctionInfo.isConstructor_of_special {f g : FunctionInfo} (h : g.special = f.special) :
    g.isConstructor = f.isConstructor := by
  unfold isConstructor
  rw [h]

theorem FunctionInfo.isConstructor_of_bare {f g : FunctionInfo} (h : g.bare = f.bare) :
    g.isConstructor = f.isConstructor :=
  isConstructor_of_special (show g.bare.special = f.bare.special by rw [h])

theorem FunctionInfo.ConstructsDefault.of_bare {f g : FunctionInfo} (h : f.ConstructsDefault)
    (hsame : g.bare = f.bare) : g.ConstructsDefault where
  constructor := (isConstructor_of_bare hsame).trans h.constructor
  required := by
    rw [minRequiredArgs, params_of_bare hsame]
    exact h.required
  undeleted := (congrArg FunctionInfo.deleted hsame).trans h.undeleted

namespace Model

variable {m m' : Model} {record d : DeclId}

/-- The class lists the function, which constructs an object from nothing. -/
def ListsDefault (m : Model) (record d : DeclId) : Prop :=
  d ∈ (m.decl record).members ∧ ∃ f, m.function? d = some f ∧ f.ConstructsDefault

theorem constructsDefault_iff {f : FunctionInfo} : f.ConstructsDefault ↔
    (f.isConstructor && f.minRequiredArgs == 0 && !f.deleted) = true := by
  simp only [Bool.and_eq_true, beq_iff_eq, Bool.not_eq_true']
  exact ⟨fun h => ⟨⟨h.constructor, h.required⟩, h.undeleted⟩, fun h => ⟨h.1.1, h.1.2, h.2⟩⟩

theorem defaultConstructor?_lists (h : m.defaultConstructor? record = some d) :
    m.ListsDefault record d := by
  have htest := List.find?_some h
  obtain ⟨hmem, -⟩ := List.mem_filter.mp (List.mem_of_find?_eq_some h)
  obtain ⟨f, hf, hdefault⟩ := (Option.any_eq_true _ _).mp htest
  exact ⟨hmem, f, hf, constructsDefault_iff.mpr hdefault⟩

theorem ListsDefault.defaultConstructor? (h : m.ListsDefault record d) :
    (m.defaultConstructor? record).isSome = true := by
  obtain ⟨hmem, f, hf, hdefault⟩ := h
  refine List.find?_isSome.mpr ⟨d, List.mem_filter.mpr ⟨hmem, by rw [hf]; rfl⟩, ?_⟩
  rw [hf]
  exact constructsDefault_iff.mp hdefault

/-- What is listed in a class stays listed. -/
theorem mem_members_of_extends (h : m.Extends m') (hd : d ∈ (m.decl record).members) :
    d ∈ (m'.decl record).members := by
  have hrecord : m.HasDecl record := by
    cases hr : m.decl? record with
    | none =>
        rw [Model.decl, hr] at hd
        cases hd
    | some e => exact hasDecl_iff.mpr ⟨e, hr⟩
  exact (h.growsTo.decl hrecord).members.subset hd

/-- A default constructor that is listed stays one where functions are left alone. -/
theorem ListsDefault.of_spares (h : m.ListsDefault record d) (hspares : m.Spares m') :
    m'.ListsDefault record d := by
  obtain ⟨hmem, f, hf, hdefault⟩ := h
  obtain ⟨f', hf', hsame⟩ := hspares.functions d f nofun hf
  exact ⟨mem_members_of_extends hspares.extension hmem, f', hf', hdefault.of_bare hsame⟩

end Model

namespace Ast

open Model (Interns)

/-- The node says that the class needs a default constructor. -/
def needsDefault (data : Json) : Bool :=
  (data.get? "defaultCtor").any fun c => flag c "needsImplicit"

/-- The key of the default constructor of a class. -/
def defaultConstructorKey (m : Model) (record : DeclId) : String :=
  keyIn record ("fn:" ++ (m.decl record).name ++ "()")

theorem implicitMember_lists {m : Model} {record : DeclId} {name : String} (void : TypeId)
    (special : SpecialMember) (hrecord : m.HasDecl record)
    (hfree : m.keyed? (keyIn record ("fn:" ++ name ++ "()")) = none) :
    ⟨m.decls.size⟩ ∈ (((implicitMember record void name special).run m).2.decl record).members ∧
      ((implicitMember record void name special).run m).2.function? ⟨m.decls.size⟩ =
        some { returnType := void, method := some {}, special } := by
  let info : FunctionInfo := { returnType := void, method := some {}, special }
  obtain ⟨m', hrun, -, -, hf⟩ := upsert_function hfree record name .pub false info
  have hmem : ⟨m.decls.size⟩ ∈ (m'.decl record).members := by
    have hlisted := addition_listed (Interns.pure (.function info)) m record name .pub hrecord
    rw [upsert_of_free hfree] at hrun
    obtain rfl := congrArg Prod.snd hrun
    exact hlisted
  rw [implicitMember, run_modelM_bind, hrun]
  dsimp only
  rw [if_pos rfl]
  exact ⟨Model.mem_members_of_extends (setImplicit_extending _ _) hmem,
    (setImplicit_function? _ _ _).trans hf⟩

/-- A class that needs a default constructor and lists no constructor gets one. -/
theorem declareImplicitMembers_lists {m : Model} {record : DeclId} {data : Json}
    (hrecord : m.HasDecl record) (hneeds : needsDefault data = true)
    (hnone : hasConstructor m record = false)
    (hfree : m.keyed? (defaultConstructorKey m record) = none) :
    ∃ d, ((declareImplicitMembers record data).run m).2.ListsDefault record d := by
  have hvoid := Model.intern_interns ⟨.void, .none⟩ m
  have hwanted : ((data.get? "defaultCtor").any fun c =>
      flag c "exists" || flag c "needsImplicit") = true := by
    obtain ⟨c, hc, hflag⟩ := (Option.any_eq_true _ _).mp hneeds
    exact (Option.any_eq_true _ _).mpr ⟨c, hc, by rw [hflag, Bool.or_true]⟩
  have hmissing : (!hasConstructor m record && (data.get? "defaultCtor").any fun c =>
      flag c "exists" || flag c "needsImplicit") = true := by
    rw [hnone, hwanted]
    rfl
  obtain ⟨hmem, hf⟩ := implicitMember_lists (Model.void.run m).1 (.constructor true false)
    (hvoid.extends.growsTo.hasDecl hrecord) ((hvoid.keyed?_eq _).trans hfree)
  have hlists : Model.ListsDefault _ record _ := ⟨hmem, _, hf, rfl, rfl, rfl⟩
  rw [declareImplicitMembers_eq, run_modelM_bind, run_modelM_bind]
  dsimp only
  rw [run_modelM_bind, StateT.run_get]
  dsimp only [pure]
  rw [if_pos hmissing]
  -- what is declared next leaves the constructor alone
  exact ⟨_, hlists.of_spares (Model.Sparing.ite (implicitMember_sparing record _ _ _)
    (Model.Sparing.pure _) _)⟩

/-- Nodes that are merged into the function do not delete it. -/
def Undeleted (d : DeclId) (entries : List Entry) : Prop :=
  ∀ e ∈ entries, e.target? = some d → ∀ n ∈ e.states?, n.deleted = false

/-- A default constructor that is listed stays one, unless it is deleted or declared with other
parameters. -/
theorem Leads.listsDefault {m m' : Model} {entries : List Entry} (h : Leads m entries m')
    {record d : DeclId} {f : FunctionInfo} (hd : d ∈ (m.decl record).members)
    (hf : m.function? d = some f) (hdefault : f.ConstructsDefault)
    (hundeleted : Undeleted d entries) (harity : SameArity f d entries) :
    m'.ListsDefault record d := by
  let P (g : FunctionInfo) : Prop :=
    g.isConstructor = true ∧ g.deleted = false ∧ ParamInfo.AllRetain f.params g.params
  have hbare : ∀ g g' : FunctionInfo, g'.bare = g.bare → P g → P g' := by
    rintro g g' hsame ⟨hconstructor, hdeleted, hparams⟩
    rw [← FunctionInfo.params_of_bare hsame] at hparams
    exact ⟨(FunctionInfo.isConstructor_of_bare hsame).trans hconstructor,
      (congrArg FunctionInfo.deleted hsame).trans hdeleted, hparams⟩
  have hmerge : ∀ e ∈ entries, ∀ n, e.target? = some d → e.states? = some n →
      ∀ g, P g → P (mergeFunction false n g) := by
    rintro e he n htarget hstates g ⟨hconstructor, hdeleted, hparams⟩
    have hlength := (harity e he htarget n hstates).trans hparams.length_eq
    refine ⟨?_, ?_, ?_⟩
    · rw [FunctionInfo.isConstructor_of_special (mergeFunction_special false n g)]
      exact hconstructor
    · rw [mergeFunction_deleted, hdeleted, hundeleted e he htarget n hstates]
      rfl
    · rw [mergeFunction_params]
      exact hparams.trans (mergeParams_retains hlength)
  obtain ⟨f', hf', hconstructor, hdeleted, hparams⟩ := h.function_invariant hbare hmerge hf
    ⟨hdefault.constructor, hdefault.undeleted, .refl _⟩
  refine ⟨Model.mem_members_of_extends h.extendsApart.extension hd, f', hf', hconstructor, ?_,
    hdeleted⟩
  exact Nat.le_zero.mp (hdefault.required ▸ hparams.required_le)

/-- A class whose node needs a default constructor has one behind the dump, if at its end no
constructor was listed in it, or a default constructor was, and if no later node deletes it. -/
theorem defaultConstructor_kept {m : Model} {source : Source} {dump : Json}
    {earlier later : List Entry} {e : Entry} {record : DeclId} {data : Json} (hm : m.KeysDeclared)
    (hledger : ledger source dump m = earlier ++ e :: later)
    (hdeed : e.deed = .implicitMembers record data) (hneeds : needsDefault data = true)
    (hlisted : hasConstructor e.before.model record = true →
      (e.before.model.defaultConstructor? record).isSome = true)
    (hfree : hasConstructor e.before.model record = false →
      e.before.model.keyed? (defaultConstructorKey e.before.model record) = none)
    (hlater : ∀ d f, e.after.defaultConstructor? record = some d → e.after.function? d = some f →
      Undeleted d later ∧ SameArity f d later) :
    (((ingestNode source dump).run.run m).2.defaultConstructor? record).isSome = true := by
  have hleads := ledger_leads source dump m
  rw [hledger] at hleads
  have hafter : e.after = ((declareImplicitMembers record data).run e.before.model).2 := by
    rw [Entry.after, hdeed]
    rfl
  obtain ⟨c, hc⟩ : ∃ c, e.after.ListsDefault record c := by
    rw [hafter]
    -- what is listed at the end of the class decides whether a constructor is added
    cases hsome : hasConstructor e.before.model record with
    | true =>
        obtain ⟨c, hc⟩ := Option.isSome_iff_exists.mp (hlisted hsome)
        exact ⟨c, (Model.defaultConstructor?_lists hc).of_spares
          (declareImplicitMembers_sparing record data _)⟩
    | false =>
        have hdeclared := ledger_declared hm source dump e (hledger ▸ by simp)
        rw [Entry.Declared, hdeed] at hdeclared
        exact declareImplicitMembers_lists hdeclared hneeds hsome (hfree hsome)
  obtain ⟨d, hd⟩ := Option.isSome_iff_exists.mp hc.defaultConstructor?
  obtain ⟨hmem, f, hf, hdefault⟩ := Model.defaultConstructor?_lists hd
  obtain ⟨hundeleted, harity⟩ := hlater d f hd hf
  exact (hleads.split.2.listsDefault hmem hf hdefault hundeleted harity).defaultConstructor?

/-- A class with a member function that is no constructor. -/
def methodDump : Json :=
  .obj [("inner", .arr [.obj [("kind", .str "CXXRecordDecl"),
    ("loc", .obj [("file", .str "a.cpp")]), ("name", .str "S"), ("completeDefinition", .bool true),
    ("definitionData", .obj [("defaultCtor", .obj [("needsImplicit", .bool true)])]),
    ("inner", .arr [.obj [("kind", .str "CXXMethodDecl"), ("loc", .obj []), ("name", .str "g"),
      ("type", .obj [("qualType", .str "void ()")])]])]])]

theorem defaultConstructor_kept_method :
    (((ingestNode ⟨"", "a.cpp"⟩ methodDump).run.run .empty).2.defaultConstructor? ⟨1⟩).isSome =
      true := by
  have hend : ((ledger ⟨"", "a.cpp"⟩ methodDump .empty).getLast?.any fun e =>
      match e.deed with
      | .implicitMembers record data =>
        record = ⟨1⟩ && needsDefault data && !hasConstructor e.before.model record &&
          (e.before.model.keyed? (defaultConstructorKey e.before.model record)).isNone
      | .function .. => false) = true := by decide +kernel
  obtain ⟨e, hlast, htest⟩ := (Option.any_eq_true _ _).mp hend
  obtain ⟨earlier, hledger⟩ := List.getLast?_eq_some_iff.mp hlast
  cases hdeed : e.deed with
  | function node scope access key? =>
      rw [hdeed] at htest
      cases htest
  | implicitMembers record data =>
      rw [hdeed] at htest
      simp only [Bool.and_eq_true, Bool.not_eq_true', decide_eq_true_eq,
        Option.isNone_iff_eq_none] at htest
      obtain ⟨⟨⟨rfl, hneeds⟩, hnone⟩, hfree⟩ := htest
      exact defaultConstructor_kept nofun hledger hdeed hneeds
        (fun hsome => by cases hnone.symm.trans hsome) (fun _ => hfree)
        fun _ _ _ _ => ⟨nofun, nofun⟩

end Ast

end CppReflect
