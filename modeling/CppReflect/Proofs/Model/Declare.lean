import CppReflect.Model.Declare
import CppReflect.Proofs.Model.Sugar

/-!
# Declaring in a well-formed model

Every operation that fills a model keeps it well-formed, if the scopes and types it is given exist:
it appends declarations whose types are there already, and changes old ones only in what they say of
themselves. In particular a typedef is declared after the type it stands for.
-/

namespace CppReflect

namespace Model

variable {m : Model}

/-- The scope of a template, in which its specializations are declared. -/
theorem WellFormed.scope_hasDecl (h : m.WellFormed) (d : DeclId) :
    m.HasDecl ((m.decl d).parent.getD root) := by
  cases hp : (m.decl d).parent with
  | none => exact h.translationUnit.1
  | some p => exact h.parent_hasDecl hp

/-! ## Changes of what is known -/

theorem modifyRecord_keeps (h : m.WellFormed) {d : DeclId} {f : RecordInfo → RecordInfo}
    (hf : ∀ e info, m.decl? d = some e → e.kind = .record info →
      ∀ t ∈ (DeclKind.record (f info)).types, m.HasType t) :
    m.Keeps (modifyRecord d f) fun _ _ => True := by
  refine modifyKind_keeps h (fun e => ?_) fun e he => ?_
  · split <;> simp
  · split
    next info hkind => exact ⟨by simp [hkind, DeclKind.Continues], hf e info he hkind⟩
    next => exact ⟨DeclKind.Continues.refl _, h.types d e he⟩

theorem modifyFunction_keeps (h : m.WellFormed) {d : DeclId} {f : FunctionInfo → FunctionInfo}
    (hf : ∀ e info, m.decl? d = some e → e.kind = .function info →
      ∀ t ∈ (DeclKind.function (f info)).types, m.HasType t) :
    m.Keeps (modifyFunction d f) fun _ _ => True := by
  refine modifyKind_keeps h (fun e => ?_) fun e he => ?_
  · split <;> simp
  · split
    next info hkind => exact ⟨by simp [hkind, DeclKind.Continues], hf e info he hkind⟩
    next => exact ⟨DeclKind.Continues.refl _, h.types d e he⟩

/-- A template keeps its parameters, whatever else is learned of it. -/
theorem modifyTemplate_keeps (h : m.WellFormed) {d : DeclId} {f : TemplateInfo → TemplateInfo}
    (hf : ∀ info, (f info).params = info.params) :
    m.Keeps (modifyTemplate d f) fun _ _ => True := by
  refine modifyKind_keeps h (fun e => ?_) fun e he => ?_
  · split <;> simp
  · have htypes := h.types d e he
    split
    next info hkind =>
      simp only [hkind, DeclKind.types, DeclKind.Continues, true_and, hf] at htypes ⊢
      exact htypes
    next info hkind =>
      simp only [hkind, DeclKind.types, DeclKind.Continues, true_and, hf] at htypes ⊢
      exact htypes
    next => exact ⟨DeclKind.Continues.refl _, htypes⟩

theorem setImplicit_keeps (h : m.WellFormed) (d : DeclId) :
    m.Keeps (modifyDecl d fun e => { e with implicit := true }) fun _ _ => True :=
  modifyKind_keeps h (fun _ => ⟨rfl, rfl, rfl, rfl, List.prefix_refl _⟩)
    fun e he => ⟨DeclKind.Continues.refl _, h.types d e he⟩

/-! ## Scopes, classes and types -/

theorem declareNamespace_keeps (h : m.WellFormed) {parent : DeclId} (hparent : m.HasDecl parent)
    (name : String) : m.Keeps (declareNamespace parent name) fun d m' => m'.HasDecl d := by
  refine Keeps.get_bind ?_
  split
  next d hd =>
    refine Keeps.pure h (hasDecl_of_kind ?_)
    have hspace := List.find?_some hd
    intro hkind
    simp [hkind, Decl.isNamespace] at hspace
  next => exact addDecl_keeps h hparent name .none (by simp [DeclKind.types])

theorem useNamespace_keeps (h : m.WellFormed) (scope nominated : DeclId) :
    m.Keeps (useNamespace scope nominated) fun _ _ => True := by
  refine modifyKind_keeps h (fun e => ?_) fun e he => ?_
  · split
    next => exact ⟨rfl, rfl, rfl, rfl, List.prefix_refl _⟩
    next => exact ⟨rfl, rfl, rfl, rfl, List.prefix_append _ _⟩
  · split
    next => exact ⟨DeclKind.Continues.refl _, h.types scope e he⟩
    next => exact ⟨DeclKind.Continues.refl _, h.types scope e he⟩

theorem declareRecord_keeps (h : m.WellFormed) {parent : DeclId} (hparent : m.HasDecl parent)
    (name : String) (tag : TagKind) (complete : Bool) :
    m.Keeps (declareRecord parent name tag complete) fun d m' => m'.HasDecl d :=
  Keeps.get_bind <| addDecl_keeps h hparent name _ (by simp [DeclKind.types])

theorem addBase_keeps (h : m.WellFormed) (record : DeclId) {base : DeclId} (hbase : m.HasDecl base)
    (access : Access) (isVirtual : Bool) :
    m.Keeps (addBase record base access isVirtual) fun _ _ => True := by
  refine (internKind_keeps h (by simp [TypeKind.parts]) ?_).bind fun t m' hwf _ ht =>
    Keeps.get_bind <| modifyRecord_keeps hwf fun e info he hkind u hu => ?_
  · rintro _ ⟨rfl⟩
    exact hbase
  · have htypes := hwf.types record e he
    simp only [hkind, DeclKind.types, List.map_append, List.map_cons, List.map_nil, List.mem_append,
      List.mem_singleton] at htypes hu
    rcases hu with (hu | rfl) | hu
    · exact htypes u (Or.inl hu)
    · exact hasType_of_get? ht
    · exact htypes u (Or.inr hu)

theorem declareField_keeps (h : m.WellFormed) {record : DeclId} (hrecord : m.HasDecl record)
    (name : String) {type : TypeId} (htype : m.HasType type) (access : Access) :
    m.Keeps (declareField record name type access) fun d m' => m'.HasDecl d :=
  addDecl_keeps h hrecord name access (by simpa [DeclKind.types] using htype)

theorem declareVariable_keeps (h : m.WellFormed) {parent : DeclId} (hparent : m.HasDecl parent)
    (name : String) {type : TypeId} (htype : m.HasType type) :
    m.Keeps (declareVariable parent name type) fun d m' => m'.HasDecl d :=
  Keeps.get_bind <| addDecl_keeps h hparent name _ (by simpa [DeclKind.types] using htype)

theorem declareTypedef_keeps (h : m.WellFormed) {parent : DeclId} (hparent : m.HasDecl parent)
    (name : String) {underlying : TypeId} (hunderlying : m.HasType underlying) :
    m.Keeps (declareTypedef parent name underlying) fun d m' => m'.HasDecl d :=
  Keeps.get_bind <| addDecl_keeps h hparent name _ (by simpa [DeclKind.types] using hunderlying)

theorem declareConstants_keeps (h : m.WellFormed) {enum : DeclId} (henum : m.HasDecl enum)
    {type : TypeId} (htype : m.HasType type) (constants : List (String × Int64)) :
    m.Keeps (declareConstants enum type constants) fun _ _ => True := by
  induction constants generalizing m with
  | nil => exact Keeps.pure h trivial
  | cons constant rest ih =>
      refine (addDecl_keeps h henum constant.1 .none ?_).bind fun _ m' hwf hgrow _ =>
        ih hwf (hgrow.hasDecl henum) (hgrow.hasType htype)
      simpa [DeclKind.types] using htype

theorem declareEnum_keeps (h : m.WellFormed) {parent : DeclId} (hparent : m.HasDecl parent)
    (name : String) (isScoped : Bool) (constants : List (String × Int64)) :
    m.Keeps (declareEnum parent name isScoped constants) fun d m' => m'.HasDecl d := by
  refine (internKind_keeps h (by simp [TypeKind.parts]) (by simp [TypeKind.decl?])).bind
    fun int m₁ hwf₁ hgrow₁ hint => Keeps.get_bind ?_
  refine (addDecl_keeps hwf₁ (hgrow₁.hasDecl hparent) name _ ?_).bind fun d m₂ hwf₂ _ hd => ?_
  · simpa [DeclKind.types] using hasType_of_get? hint
  refine (internKind_keeps hwf₂ (by simp [TypeKind.parts]) ?_).bind fun type m₃ hwf₃ hgrow₃ htype => ?_
  · rintro _ ⟨rfl⟩
    exact hd
  refine (declareConstants_keeps hwf₃ (hgrow₃.hasDecl hd) (hasType_of_get? htype) constants).bind
    fun _ m₄ hwf₄ hgrow₄ _ => ?_
  exact Keeps.pure hwf₄ (hgrow₄.hasDecl (hgrow₃.hasDecl hd))

/-! ## Class templates -/

theorem types_typeParams (names : List String) :
    (typeParams names).flatMap TemplateParam.types = [] := by
  simp [typeParams, TemplateParam.types]

theorem declareClassTemplate_keeps (h : m.WellFormed) {parent : DeclId} (hparent : m.HasDecl parent)
    (name : String) (params : List String) :
    m.Keeps (declareClassTemplate parent name params) fun d m' => m'.HasDecl d := by
  refine Keeps.get_bind <| (addDecl_keeps h hparent name _ ?_).bind fun d m₁ hwf₁ hgrow₁ hd => ?_
  · simp [DeclKind.types, types_typeParams]
  refine (addDetached_keeps hwf₁ (hgrow₁.hasDecl hparent) name _ (by simp [DeclKind.types])).bind
    fun pattern m₂ hwf₂ hgrow₂ _ => ?_
  refine Keeps.bind (modifyTemplate_keeps hwf₂ ?_) fun _ m₃ hwf₃ hgrow₃ _ =>
    Keeps.pure hwf₃ (hgrow₃.hasDecl (hgrow₂.hasDecl hd))
  exact fun _ => rfl

theorem listClassSpecialization_keeps (h : m.WellFormed) (template d : DeclId) :
    m.Keeps (listClassSpecialization template d) fun _ _ => True := by
  refine modifyKind_keeps h (fun e => ?_) fun e he => ?_
  · split <;> simp
  · have htypes := h.types template e he
    split
    next info hkind =>
      simp only [hkind, DeclKind.types, DeclKind.Continues, true_and] at htypes ⊢
      exact htypes
    next => exact ⟨DeclKind.Continues.refl _, htypes⟩

theorem declareSpecialization_keeps (h : m.WellFormed) (template : DeclId) {args : List TemplateArg}
    (hargs : ∀ t ∈ args.flatMap TemplateArg.types, m.HasType t) :
    m.Keeps (declareSpecialization template args) fun d m' => m'.HasDecl d := by
  refine Keeps.get_bind <|
    (addDetached_keeps h (h.scope_hasDecl template) _ _ (by simpa [DeclKind.types] using hargs)).bind
      fun d m₁ hwf₁ _ hd => ?_
  refine (listClassSpecialization_keeps hwf₁ template d).bind fun _ m₂ hwf₂ hgrow₂ _ => ?_
  refine Keeps.pure hwf₂ (hgrow₂.hasDecl ?_)
  rw [hd.2, hd.1, HasDecl, Array.size_push]
  exact Nat.lt_succ_self _

end Model

/-! ## Functions -/

/-- The scope of a drafted function exists, and so do the types that it names. -/
structure FunctionDraft.Sound (f : FunctionDraft) (m : Model) : Prop where
  parent : m.HasDecl f.parent
  types : ∀ t ∈ (DeclKind.function f.info).types, m.HasType t

namespace FunctionDraft

open Model

variable {m m' : Model} {f : FunctionDraft}

theorem Sound.grow (hf : f.Sound m) (hgrow : m.GrowsTo m') : f.Sound m' :=
  ⟨hgrow.hasDecl hf.parent, fun t ht => hgrow.hasType (hf.types t ht)⟩

theorem function_sound {parent : DeclId} (hparent : m.HasDecl parent) (name : String)
    {returnType : TypeId} (hreturn : m.HasType returnType) :
    (function m parent name returnType).Sound m :=
  ⟨hparent, by simpa [function, DeclKind.types] using hreturn⟩

theorem withParams_keeps (h : m.WellFormed) (hf : f.Sound m) {params : List ParamInfo}
    (hparams : ∀ p ∈ params, m.HasType p.type) :
    m.Keeps (f.withParams params) fun f' m' => f'.Sound m' := by
  have htypes : ∀ t ∈ (DeclKind.function { f.info with params }).types, m.HasType t := by
    intro t ht
    simp only [DeclKind.types, List.cons_append, List.mem_cons, List.mem_append,
      List.mem_map] at ht
    rcases ht with rfl | ⟨p, hp, rfl⟩ | ht
    · exact hf.types _ (by simp [DeclKind.types])
    · exact hparams p hp
    · exact hf.types t (by simp [DeclKind.types, ht])
  unfold withParams
  split
  · refine (askAlong_keeps h _ _).bind fun special m' hwf hgrow _ => ?_
    exact Keeps.pure hwf ⟨hgrow.hasDecl hf.parent, fun t ht => hgrow.hasType (htypes t ht)⟩
  · exact Keeps.pure h ⟨hf.parent, htypes⟩

/-- A word changes neither the scope of the function nor its types. -/
theorem Sound.withWord (hf : f.Sound m) (word : String) : (f.withWord word).Sound m := by
  unfold FunctionDraft.withWord
  split <;> exact ⟨hf.parent, hf.types⟩

/-- What a template learns of a function is no type. -/
theorem listFunction_keeps (h : m.WellFormed) {template : DeclId} {g : TemplateInfo → TemplateInfo}
    (hg : ∀ info, (g info).params = info.params) :
    m.Keeps (modifyDecl template fun e =>
      match e.kind with
      | .functionTemplate info => { e with kind := .functionTemplate (g info) }
      | _ => e) fun _ _ => True := by
  refine modifyKind_keeps h (fun e => ?_) fun e he => ?_
  · split <;> simp
  · have htypes := h.types template e he
    split
    next info hkind =>
      simp only [hkind, DeclKind.types, DeclKind.Continues, true_and, hg] at htypes ⊢
      exact htypes
    next => exact ⟨DeclKind.Continues.refl _, htypes⟩

theorem declare_keeps (h : m.WellFormed) (hf : f.Sound m) :
    m.Keeps f.declare fun d m' => m'.HasDecl d := by
  have hdetached : ∀ {x : DeclId → ModelM Unit},
      (∀ d (m' : Model), m'.WellFormed → m'.Keeps (x d) fun _ _ => True) →
      m.Keeps (do
        let d ← addDetached f.parent f.name f.access (.function f.info)
        x d
        return d) fun d m' => m'.HasDecl d := by
    intro x hx
    refine (addDetached_keeps h hf.parent f.name f.access hf.types).bind fun d m₁ hwf₁ _ hd => ?_
    refine (hx d m₁ hwf₁).bind fun _ m₂ hwf₂ hgrow₂ _ => Keeps.pure hwf₂ (hgrow₂.hasDecl ?_)
    rw [hd.2, hd.1, HasDecl, Array.size_push]
    exact Nat.lt_succ_self _
  unfold declare
  split
  · exact addDecl_keeps h hf.parent f.name f.access hf.types
  · refine hdetached fun d m' hwf => listFunction_keeps hwf ?_
    exact fun _ => rfl
  · refine hdetached fun d m' hwf => listFunction_keeps hwf ?_
    exact fun _ => rfl

end FunctionDraft

namespace Model

variable {m : Model}

theorem draftConstructor_keeps (h : m.WellFormed) {record : DeclId} (hrecord : m.HasDecl record) :
    m.Keeps (draftConstructor record) fun f m' => f.Sound m' := by
  refine (internKind_keeps h (by simp [TypeKind.parts]) (by simp [TypeKind.decl?])).bind
    fun t m' hwf hgrow ht => Keeps.get_bind <| Keeps.pure hwf ?_
  have hf := FunctionDraft.function_sound (hgrow.hasDecl hrecord) (m'.decl record).name
    (hasType_of_get? ht)
  exact ⟨hf.parent, hf.types⟩

theorem draftDestructor_keeps (h : m.WellFormed) {record : DeclId} (hrecord : m.HasDecl record) :
    m.Keeps (draftDestructor record) fun f m' => f.Sound m' := by
  refine (internKind_keeps h (by simp [TypeKind.parts]) (by simp [TypeKind.decl?])).bind
    fun t m' hwf hgrow ht => Keeps.get_bind <| Keeps.pure hwf ?_
  have hf := FunctionDraft.function_sound (hgrow.hasDecl hrecord) ("~" ++ (m'.decl record).name)
    (hasType_of_get? ht)
  exact ⟨hf.parent, hf.types⟩

theorem draftFunctionTemplate_keeps (h : m.WellFormed) {parent : DeclId}
    (hparent : m.HasDecl parent) (name : String) (params : List String) {returnType : TypeId}
    (hreturn : m.HasType returnType) :
    m.Keeps (draftFunctionTemplate parent name params returnType) fun r m' =>
      m'.HasDecl r.1 ∧ r.2.Sound m' := by
  refine Keeps.get_bind <| (addDecl_keeps h hparent name _ ?_).bind fun d m' hwf hgrow hd =>
    Keeps.get_bind <| Keeps.pure hwf ⟨hd, ?_⟩
  · simp [DeclKind.types, types_typeParams]
  · have hf := FunctionDraft.function_sound (hgrow.hasDecl hparent) name (hgrow.hasType hreturn)
    exact ⟨hf.parent, hf.types⟩

theorem WellFormed.draftFunctionSpecialization_sound (h : m.WellFormed) (template : DeclId)
    {args : List TemplateArg} (hargs : ∀ t ∈ args.flatMap TemplateArg.types, m.HasType t)
    {returnType : TypeId} (hreturn : m.HasType returnType) :
    (draftFunctionSpecialization m template args returnType).Sound m := by
  refine ⟨h.scope_hasDecl template, fun t ht => ?_⟩
  simp only [draftFunctionSpecialization, FunctionDraft.function, DeclKind.types, List.map_nil,
    List.cons_append, List.nil_append, List.mem_cons] at ht
  rcases ht with rfl | ht
  · exact hreturn
  · exact hargs t ht

theorem declareImplicit_keeps (h : m.WellFormed) {f : FunctionDraft} (hf : f.Sound m) :
    m.Keeps (declareImplicit f) fun _ _ => True :=
  (FunctionDraft.declare_keeps h hf).bind fun d _ hwf _ _ => setImplicit_keeps hwf d

/-- Completing a class changes what is known of it and declares at most two members. -/
theorem finishRecord_keeps (h : m.WellFormed) {record : DeclId} (hrecord : m.HasDecl record) :
    m.Keeps (finishRecord record) fun _ _ => True := by
  refine Keeps.get_bind <| (askAlong_keeps h _ _).bind fun plain m₁ hwf₁ hgrow₁ _ => ?_
  refine Keeps.bind (modifyRecord_keeps hwf₁ ?_) fun _ m₂ hwf₂ hgrow₂ _ => ?_
  · intro e info he hkind t ht
    exact hwf₁.types record e he t (by rw [hkind]; exact ht)
  have hrecord₂ := hgrow₂.hasDecl (hgrow₁.hasDecl hrecord)
  have hdestructor : ∀ {m' : Model}, m'.WellFormed → m₂.GrowsTo m' →
      m'.Keeps (do declareImplicit (← draftDestructor record)) fun _ _ => True := by
    intro m' hwf hgrow
    exact (draftDestructor_keeps hwf (hgrow.hasDecl hrecord₂)).bind
      fun f _ hwf' _ hf => declareImplicit_keeps hwf' hf
  refine Keeps.ite ?_ ?_
  · refine (draftConstructor_keeps hwf₂ hrecord₂).bind fun f m₃ hwf₃ hgrow₃ hf => ?_
    refine (declareImplicit_keeps hwf₃ hf).bind fun _ m₄ hwf₄ hgrow₄ _ => ?_
    exact Keeps.ite (hdestructor hwf₄ (hgrow₃.trans hgrow₄)) (Keeps.pure hwf₄ trivial)
  · exact Keeps.ite (hdestructor hwf₂ (GrowsTo.refl m₂)) (Keeps.pure hwf₂ trivial)

end Model

end CppReflect
