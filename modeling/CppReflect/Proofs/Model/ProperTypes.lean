import CppReflect.Proofs.Model.References
import CppReflect.Proofs.Spelling.Reader

/-!
# Types that can be spelled

The table takes qualifiers that the language does not know, and references to references. Types that
are read from texts have neither in them, not even behind the typedefs that they name, as long as
the typedefs stand for such types themselves. So no such type comes about where types are read, and
typedefs are declared of what was read.
-/

namespace CppReflect

namespace TypeTree

/-- The qualifiers are those of the language, and no reference refers to a reference. -/
inductive Proper : TypeTree → Prop
  | node {shape : TypeKind} {quals : Quals} {parts : List TypeTree} (hquals : quals.Valid)
    (hproto : ∀ f, shape = (TypeKind.function f).shape → f.quals.Valid)
    (hreferee : ∀ r, shape.referee? = some r → ∃ p, parts = [p] ∧ p.shape.referee? = none)
    (hparts : ∀ p ∈ parts, Proper p) : Proper (.node shape quals parts)

namespace Proper

variable {T : TypeTree}

theorem qualified (hT : T.Proper) {q : Quals} (hq : q.Valid) : (T.qualified q).Proper := by
  cases hT with
  | node hquals hproto hreferee hparts =>
      exact .node (Quals.valid_union hquals hq) hproto hreferee hparts

/-- What a proper type refers to is proper, and it is no reference. -/
theorem referred (hT : T.Proper) : T.referred.Proper ∧ T.referred.shape.referee? = none := by
  cases hT with
  | @node shape quals parts hquals hproto hreferee hparts =>
      cases hshape : shape.referee? with
      | none =>
          have hself : (TypeTree.node shape quals parts).referred = .node shape quals parts := by
            cases shape <;> first | rfl | cases hshape
          rw [hself]
          exact ⟨.node hquals hproto hreferee hparts, hshape⟩
      | some r =>
          obtain ⟨p, rfl, hp⟩ := hreferee r hshape
          have hpart : (TypeTree.node shape quals [p]).referred = p := by
            cases shape <;> first | rfl | cases hshape
          rw [hpart]
          exact ⟨hparts p List.mem_cons_self, hp⟩

theorem referenced (hT : T.Proper) {make : TypeId → TypeKind}
    (hmake : ∀ f, (make default).shape ≠ (TypeKind.function f).shape) :
    (T.referenced make).Proper := by
  obtain ⟨hproper, hshape⟩ := hT.referred
  apply node Quals.valid_none
  · intro f hf
    exact absurd hf (hmake f)
  · intro r _
    exact ⟨T.referred, rfl, hshape⟩
  · rwa [List.forall_mem_singleton]

end Proper

end TypeTree

namespace TypeKind

theorem quals_of_shape {k : TypeKind} {f : FunctionProto} (h : k.shape = (function f).shape) :
    ∃ g, k = .function g ∧ f.quals = g.quals := by
  cases k with
  | function g =>
      have hproto := TypeKind.function.inj h
      exact ⟨g, rfl, (congrArg FunctionProto.quals hproto).symm⟩
  | _ => cases h

theorem referee?_shape (k : TypeKind) : k.shape.referee? = none ↔ k.referee? = none := by
  cases k <;> simp [shape, traverse, referee?]

end TypeKind

namespace Model

variable {m m' : Model}

/-- Every typedef stands for a proper type. -/
def ProperTypedefs (m : Model) : Prop :=
  ∀ d u, (m.decl d).underlying? = some u → (m.canonTree u).Proper

/-- The type is there and is proper, behind all typedefs. -/
structure ProperType (m : Model) (t : TypeId) : Prop where
  hasType : m.HasType t
  proper : (m.canonTree t).Proper

theorem ProperType.grows {t : TypeId} (ht : m.ProperType t) (h : m.WellFormed)
    (h' : m'.WellFormed) (hgrow : m.GrowsTo m') : m'.ProperType t where
  hasType := hgrow.hasType ht.hasType
  proper := by
    rw [h.canonTree_grows h' hgrow ht.hasType]
    exact ht.proper

/-- Where no declaration is added, typedefs go on standing for proper types. -/
theorem ProperTypedefs.keeps {α : Type} {x : ModelM α} {post : α → Model → Prop}
    (hp : m.ProperTypedefs) (h : m.WellFormed) (hx : Interns x) (hkeeps : m.Keeps x post) :
    m.Keeps x fun a m' => m'.ProperTypedefs ∧ post a m' where
  wellFormed := hkeeps.wellFormed
  grows := hkeeps.grows
  answer := by
    refine ⟨?_, hkeeps.answer⟩
    intro d u hu
    have hdecl : (x.run m).2.decl d = m.decl d := by
      rw [decl, decl, decl?, decl?, (hx m).decls]
    rw [hdecl] at hu
    rw [h.canonTree_grows hkeeps.wellFormed hkeeps.grows (h.underlying_hasType hu)]
    exact hp d u hu

/-! ## Types that are made of proper types -/

/-- A type is proper if its node is and its parts are, and a typedef always is. -/
theorem ProperTypedefs.properType (hp : m.ProperTypedefs) (h : m.WellFormed) {t : TypeId}
    {k : TypeKind} (ht : m.types.get? t = some ⟨k, .none⟩)
    (hproto : ∀ f, k = .function f → f.quals.Valid)
    (hreferee : k.referee? = none) (hparts : ∀ p ∈ k.parts, m.ProperType p) : m.ProperType t where
  hasType := hasType_of_get? ht
  proper := by
    have hex := hasType_of_get? ht
    cases hu : m.sugarStep? t with
    | some u =>
        rw [sugarStep?, node_of_get? ht] at hu
        cases k with
        | typedef d =>
            rw [h.canonTree_typedef hex (node_of_get? ht) hu]
            exact hp d u hu
        | _ => cases hu
    | none =>
        rw [h.canonTree_eq hex, kindOf, desugared_of_none hu, node_of_get? ht]
        apply TypeTree.Proper.node Quals.valid_none
        · intro f hf
          obtain ⟨g, rfl, hquals⟩ := TypeKind.quals_of_shape hf
          exact hquals ▸ hproto g rfl
        · intro r hr
          rw [(TypeKind.referee?_shape k).mpr hreferee] at hr
          cases hr
        · intro T hT
          obtain ⟨p, hp, rfl⟩ := List.mem_map.mp hT
          exact (hparts p hp).proper

theorem internKind_proper (h : m.WellFormed) (hp : m.ProperTypedefs) {k : TypeKind}
    (hdecl : ∀ d ∈ k.decl?, m.HasDecl d) (hproto : ∀ f, k = .function f → f.quals.Valid)
    (hreferee : k.referee? = none) (hparts : ∀ p ∈ k.parts, m.ProperType p) :
    m.Keeps (internKind k) fun t m' => m'.ProperTypedefs ∧ m'.ProperType t := by
  have hkeeps := internKind_keeps h (fun p hp => (hparts p hp).hasType) hdecl
  apply (hp.keeps h (intern_interns _) hkeeps).weaken
  intro t m' hwf hgrow ⟨hp', ht⟩
  exact ⟨hp', hp'.properType hwf ht hproto hreferee fun p hp => (hparts p hp).grows h hwf hgrow⟩

/-- A type without parts is proper. -/
theorem internLeaf_proper (h : m.WellFormed) (hp : m.ProperTypedefs) {k : TypeKind}
    (hdecl : ∀ d ∈ k.decl?, m.HasDecl d) (hleaf : k.parts = []) :
    m.Keeps (internKind k) fun t m' => m'.ProperTypedefs ∧ m'.ProperType t := by
  apply internKind_proper h hp hdecl
  · rintro f rfl
    cases hleaf
  · cases k <;> first | rfl | cases hleaf
  · simp [hleaf]

theorem withQuals_proper (h : m.WellFormed) (hp : m.ProperTypedefs) {t : TypeId}
    (ht : m.ProperType t) {q : Quals} (hq : q.Valid) :
    m.Keeps (withQuals t q) fun u m' => m'.ProperTypedefs ∧ m'.ProperType u := by
  apply (hp.keeps h (withQuals_interns t q) (withQuals_keeps h t q)).weaken
  intro u m' hwf hgrow ⟨hp', hu⟩
  have hgrown := ht.grows h hwf hgrow
  have hnode : m'.node u = ⟨(m'.node t).kind, (m'.node t).quals ∪ q⟩ := by
    rw [node_of_get? hu, hgrow.node ht.hasType]
  refine ⟨hp', hasType_of_get? hu, ?_⟩
  rw [hwf.canonTree_of_node (hasType_of_get? hu) hgrown.hasType hnode]
  exact hgrown.proper.qualified hq

/-- A reference never refers to a reference, whatever typedef one hides behind. -/
theorem MakesReference.reference_proper {make : TypeId → TypeKind} (hmake : MakesReference make)
    (hshape : ∀ f, (make default).shape ≠ (TypeKind.function f).shape) (h : m.WellFormed)
    (hp : m.ProperTypedefs) {t : TypeId} (ht : m.ProperType t) :
    m.Keeps (reference make t) fun u m' => m'.ProperTypedefs ∧ m'.ProperType u := by
  have hinterns : Interns (reference make t) :=
    (askAlong_interns _ _).bind fun _ => intern_interns _
  apply (hp.keeps h hinterns (hmake.canonTree_keeps h ht.hasType)).weaken
  intro u m' hwf hgrow ⟨hp', hu, htree⟩
  refine ⟨hp', hasType_of_get? hu, ?_⟩
  rw [htree]
  exact ht.proper.referenced hshape

theorem lvalueReference_proper (h : m.WellFormed) (hp : m.ProperTypedefs) {t : TypeId}
    (ht : m.ProperType t) :
    m.Keeps (lvalueReference t) fun u m' => m'.ProperTypedefs ∧ m'.ProperType u :=
  makesReference_lvalue.reference_proper nofun h hp ht

theorem rvalueReference_proper (h : m.WellFormed) (hp : m.ProperTypedefs) {t : TypeId}
    (ht : m.ProperType t) :
    m.Keeps (rvalueReference t) fun u m' => m'.ProperTypedefs ∧ m'.ProperType u := by
  by_cases hwritten : m.WrittenAsLvalueReference t
  · have hself : m.Keeps (pure t) fun u m' => m'.ProperTypedefs ∧ m'.ProperType u :=
      Keeps.pure h ⟨hp, ht⟩
    exact hself.of_run (rvalueReference_run_of_written hwritten)
  · have hreference := makesReference_rvalue.reference_proper nofun h hp ht
    exact hreference.of_run (rvalueReference_run_of_not_written hwritten)

/-! ## Types that are read -/

theorem resolveName_proper (h : m.WellFormed) (hp : m.ProperTypedefs) (name : QualifiedName)
    (context : DeclId) :
    m.Keeps (resolveName name context) fun t m' => m'.ProperTypedefs ∧ m'.ProperType t := by
  refine Keeps.get_bind ?_
  split
  next d hd =>
    have hex := hasDecl_of_isTypeDecl (isTypeDecl_of_resolveTypeName? hd)
    split
    all_goals
      apply internLeaf_proper h hp _ rfl
      rintro _ ⟨rfl⟩
      exact hex
  next =>
    split
    all_goals exact internLeaf_proper h hp (by simp [TypeKind.decl?]) rfl

theorem resolveBase_proper (h : m.WellFormed) (hp : m.ProperTypedefs) (base : Spelling.Base)
    (context : DeclId) :
    m.Keeps (resolveBase base context) fun t m' => m'.ProperTypedefs ∧ m'.ProperType t := by
  cases base with
  | void | builtin b => exact internLeaf_proper h hp (by simp [TypeKind.decl?]) rfl
  | complex b =>
      have hbuiltin : m.Keeps (builtin b) fun t m' => m'.ProperTypedefs ∧ m'.ProperType t :=
        internLeaf_proper h hp (by simp [TypeKind.decl?]) rfl
      apply hbuiltin.bind
      intro e m₁ hwf₁ _ ⟨hp₁, he⟩
      exact internKind_proper hwf₁ hp₁ (by simp [TypeKind.decl?]) nofun rfl
        (by simpa [TypeKind.parts] using he)
  | name n => exact resolveName_proper h hp n context

mutual

/-- A sound spelling means a proper type, where the typedefs that it can name stand for such
types. -/
theorem resolve_proper (context : DeclId) : (s : Spelling) → Spelling.Sound (fun _ => True) s →
    {m : Model} → m.WellFormed → m.ProperTypedefs →
    m.Keeps (resolve context s) fun t m' => m'.ProperTypedefs ∧ m'.ProperType t
  | .mk base quals ops, hs, m, h, hp => by
    unfold resolve
    apply (resolveBase_proper h hp base context).bind
    intro t m₁ hwf₁ _ ⟨hp₁, ht⟩
    apply (withQuals_proper hwf₁ hp₁ ht hs.2.1).bind
    intro u m₂ hwf₂ _ ⟨hp₂, hu⟩
    exact resolveOps_proper context ops hs.2.2 hwf₂ hp₂ hu

theorem resolveOps_proper (context : DeclId) : (ops : List DeclaratorOp) →
    Spelling.OpsSound (fun _ => True) ops → {m : Model} → m.WellFormed → m.ProperTypedefs →
    {t : TypeId} → m.ProperType t →
    m.Keeps (resolveOps context t ops) fun u m' => m'.ProperTypedefs ∧ m'.ProperType u
  | [], _, m, h, hp, t, ht => by
    unfold resolveOps
    exact Keeps.pure h ⟨hp, ht⟩
  | o :: ops, hs, m, h, hp, t, ht => by
    unfold resolveOps
    apply (resolveOp_proper context o hs.1 h hp ht).bind
    intro u m₁ hwf₁ _ ⟨hp₁, hu⟩
    exact resolveOps_proper context ops hs.2 hwf₁ hp₁ hu

theorem resolveOp_proper (context : DeclId) : (o : DeclaratorOp) →
    Spelling.OpSound (fun _ => True) o → {m : Model} → m.WellFormed → m.ProperTypedefs →
    {t : TypeId} → m.ProperType t →
    m.Keeps (resolveOp context t o) fun u m' => m'.ProperTypedefs ∧ m'.ProperType u
  | .pointer quals, hs, m, h, hp, t, ht => by
    unfold resolveOp
    have hpointer : m.Keeps (pointer t) fun u m' => m'.ProperTypedefs ∧ m'.ProperType u :=
      internKind_proper h hp (by simp [TypeKind.decl?]) nofun rfl
        (by simpa [TypeKind.parts] using ht)
    apply hpointer.bind
    intro u m₁ hwf₁ _ ⟨hp₁, hu⟩
    exact withQuals_proper hwf₁ hp₁ hu hs
  | .lvalueReference, _, m, h, hp, t, ht => by
    unfold resolveOp
    exact lvalueReference_proper h hp ht
  | .rvalueReference, _, m, h, hp, t, ht => by
    unfold resolveOp
    exact rvalueReference_proper h hp ht
  | .memberPointer klass quals, hs, m, h, hp, t, ht => by
    unfold resolveOp
    apply (resolveName_proper h hp klass context).bind
    intro c m₁ hwf₁ hgrow₁ ⟨hp₁, hc⟩
    have hparts : ∀ u ∈ (TypeKind.memberPointer t c).parts, m₁.ProperType u := by
      simp [TypeKind.parts, hc, ht.grows h hwf₁ hgrow₁]
    have hpointer : m₁.Keeps (internKind (.memberPointer t c)) fun u m' =>
        m'.ProperTypedefs ∧ m'.ProperType u :=
      internKind_proper hwf₁ hp₁ (by simp [TypeKind.decl?]) nofun rfl hparts
    apply hpointer.bind
    intro u m₂ hwf₂ _ ⟨hp₂, hu⟩
    exact withQuals_proper hwf₂ hp₂ hu hs.2
  | .array (some n), _, m, h, hp, t, ht | .array none, _, m, h, hp, t, ht => by
    unfold resolveOp
    exact internKind_proper h hp (by simp [TypeKind.decl?]) nofun rfl
      (by simpa [TypeKind.parts] using ht)
  | .function params variadic quals ref, hs, m, h, hp, t, ht => by
    unfold resolveOp
    apply (resolveAll_proper context params hs.1 h hp).bind
    intro ts m₁ hwf₁ hgrow₁ ⟨hp₁, hts⟩
    apply internKind_proper hwf₁ hp₁ (by simp [TypeKind.decl?]) _ rfl
    · intro u hu
      rcases List.mem_cons.mp hu with rfl | hu
      · exact ht.grows h hwf₁ hgrow₁
      · exact hts u hu
    · rintro f ⟨rfl⟩
      exact hs.2.2

theorem resolveAll_proper (context : DeclId) : (params : List Spelling) →
    Spelling.AllSound (fun _ => True) params → {m : Model} → m.WellFormed → m.ProperTypedefs →
    m.Keeps (resolveAll context params) fun ts m' =>
      m'.ProperTypedefs ∧ ∀ t ∈ ts, m'.ProperType t
  | [], _, m, h, hp => by
    unfold resolveAll
    exact Keeps.pure h ⟨hp, by simp⟩
  | s :: rest, hs, m, h, hp => by
    unfold resolveAll
    apply (resolve_proper context s hs.1 h hp).bind
    intro t m₁ hwf₁ _ ⟨hp₁, ht⟩
    apply (resolveAll_proper context rest hs.2 hwf₁ hp₁).bind
    intro ts m₂ hwf₂ hgrow₂ ⟨hp₂, hts⟩
    exact Keeps.pure hwf₂ ⟨hp₂, List.forall_mem_cons.mpr ⟨ht.grows hwf₁ hwf₂ hgrow₂, hts⟩⟩

end

/-- Whatever text is read, its type is proper. -/
theorem parseType_proper (h : m.WellFormed) (hp : m.ProperTypedefs) (text : String)
    (context : DeclId) :
    m.Keeps (parseType text context) fun t m' => m'.ProperTypedefs ∧ m'.ProperType t := by
  unfold parseType
  split
  next s hread =>
    have hsound := Spelling.ofTokens_sound (P := fun _ => True) (fun _ _ _ _ _ => trivial) hread
    exact resolve_proper context s hsound h hp
  next => exact internLeaf_proper h hp (by simp [TypeKind.decl?]) rfl

theorem properTypedefs_empty : empty.ProperTypedefs := by
  intro d u hu
  have hd := (decl?_empty (decl?_eq_decl (hasDecl_of_underlying? hu))).2
  simp [hd, rootDecl, Decl.underlying?] at hu

/-- A declared typedef stands for the type that it is given, and old ones for their old types. -/
theorem declareTypedef_proper (h : m.WellFormed) (hp : m.ProperTypedefs) {parent : DeclId}
    (hparent : m.HasDecl parent) (name : String) {t : TypeId} (ht : m.ProperType t) :
    m.Keeps (declareTypedef parent name t) fun _ m' => m'.ProperTypedefs := by
  have hkeeps := declareTypedef_keeps h hparent name ht.hasType
  -- a declaration that is found but was not there is the one that is appended
  have hlast : ∀ d u, ¬m.HasDecl d →
      (((declareTypedef parent name t).run m).2.decl d).underlying? = some u → u = t := by
    intro d u hd hu
    cases hx : ((declareTypedef parent name t).run m).2.decl? d with
    | none =>
        rw [decl, hx] at hu
        cases hu
    | some x =>
        obtain ⟨e, he, hsame⟩ := decl?_modify_cases hx
        have hunder : x.underlying? = e.underlying? := by
          rcases hsame with rfl | ⟨-, rfl⟩ <;> rfl
        rw [decl, hx, Option.getD_some, hunder] at hu
        rcases decl?_append_cases he with hold | ⟨-, rfl⟩
        · exact absurd (hasDecl_iff.mpr ⟨e, hold⟩) hd
        · exact (Option.some.inj hu).symm
  refine ⟨hkeeps.wellFormed, hkeeps.grows, ?_⟩
  intro d u hu
  by_cases hd : m.HasDecl d
  · rw [(hkeeps.grows.decl hd).underlying?] at hu
    rw [h.canonTree_grows hkeeps.wellFormed hkeeps.grows (h.underlying_hasType hu)]
    exact hp d u hu
  · rw [hlast d u hd hu]
    exact (ht.grows h hkeeps.wellFormed hkeeps.grows).proper

/-! ## Models of what is spelled -/

/-- The model is filled by reading types, declaring typedefs of what is read, and building canonical
forms, in any order. -/
inductive Spelled : Model → Prop
  | empty : Spelled Model.empty
  | read {m : Model} (hm : Spelled m) (text : String) {context : DeclId}
    (hcontext : m.HasDecl context) : Spelled ((parseType text context).run m).2
  | typedef {m : Model} (hm : Spelled m) (name text : String) {parent context : DeclId}
    (hparent : m.HasDecl parent) (hcontext : m.HasDecl context) :
    Spelled ((parseType text context >>= declareTypedef parent name).run m).2
  | canonical {m : Model} (hm : Spelled m) {t : TypeId} (ht : m.HasType t) :
    Spelled ((Model.canonical t).run m).2

theorem run_discard {α : Type} (x : ModelM α) : ((discard x).run m).2 = (x.run m).2 := rfl

namespace Spelled

theorem reachable (hm : m.Spelled) : m.Reachable := by
  have hread : ∀ {m : Model} (text : String) {context : DeclId}, m.Reachable → m.HasDecl context →
      ((parseType text context).run m).2.Reachable := by
    intro m text context hm hcontext
    rw [← run_discard]
    exact .step hm (.parseType text context) hcontext
  induction hm with
  | empty => exact .empty
  | read hm text hcontext ih => exact hread text ih hcontext
  | @typedef m hm name text parent context hparent hcontext ih =>
      have hkeeps := parseType_keeps ih.wellFormed text context
      have hstep := Reachable.step (hread text ih hcontext)
        (.declareTypedef parent name ((parseType text context).run m).1)
        ⟨hkeeps.grows.hasDecl hparent, hkeeps.answer⟩
      rw [Request.perform, run_discard] at hstep
      rwa [Ast.run_modelM_bind]
  | canonical hm ht ih =>
      rw [← run_discard]
      exact .step ih (.canonical _) ht

/-- Every typedef stands for a proper type, however many typedefs it was read through. -/
theorem properTypedefs (hm : m.Spelled) : m.ProperTypedefs := by
  induction hm with
  | empty => exact properTypedefs_empty
  | read hm text hcontext ih =>
      exact (parseType_proper hm.reachable.wellFormed ih text _).answer.1
  | @typedef m hm name text parent context hparent hcontext ih =>
      have hread := parseType_proper hm.reachable.wellFormed ih text context
      obtain ⟨hp, ht⟩ := hread.answer
      rw [Ast.run_modelM_bind]
      exact (declareTypedef_proper hread.wellFormed hp (hread.grows.hasDecl hparent) name ht).answer
  | canonical hm ht ih =>
      have h := hm.reachable.wellFormed
      exact (ih.keeps h (canonical_interns _) (canonical_written h ht)).answer.1

end Spelled

/-- What is read may be put into canonical form at once. -/
theorem Spelled.read_canonical (hm : m.Spelled) (text : String) {context : DeclId}
    (hcontext : m.HasDecl context) :
    ((parseType text context >>= Model.canonical).run m).2.Spelled := by
  have hkeeps := parseType_keeps hm.reachable.wellFormed text context
  rw [Ast.run_modelM_bind]
  exact (hm.read text hcontext).canonical hkeeps.answer

/-- The canonical form of whatever is read is proper. -/
theorem parseType_canonical_proper (hm : m.Spelled) (text : String) (context : DeclId) :
    m.Keeps (parseType text context >>= canonical) fun u m' =>
      ∃ T : TypeTree, m'.Written T u ∧ T.Proper := by
  apply (parseType_proper hm.reachable.wellFormed hm.properTypedefs text context).bind
  intro t m₁ hwf₁ _ ⟨_, ht⟩
  apply (canonical_written hwf₁ ht.hasType).weaken
  intro u m₂ _ _ hu
  exact ⟨m₁.canonTree t, hu, ht.proper⟩

end Model

end CppReflect
