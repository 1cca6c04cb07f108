import CppReflect.Model.Sugar
import CppReflect.Proofs.Model.WellFormed

/-!
# Looking through typedefs

In a well-formed model every step of a walk over types goes down: from a type to its parts, and from
a typedef to what it stands for. So a walk from a place ends within that many steps, and the types
it meets exist. The computations that look through typedefs put only types with such parts into the
table.
-/

namespace CppReflect.Model

variable {m : Model}

namespace WellFormed

/-- A part of a type exists and comes before it. -/
theorem node_parts (h : m.WellFormed) {t p : TypeId} (hp : p ∈ (m.node t).kind.parts) :
    p.index < t.index ∧ m.HasType p := by
  have ht : m.HasType t := hasType_of_kind fun hvoid => by simp [hvoid, TypeKind.parts] at hp
  have hlt := h.partsBelow t _ (get?_eq_node ht) p hp
  exact ⟨hlt, Nat.lt_trans hlt ht⟩

theorem node_decl? (h : m.WellFormed) {t : TypeId} {d : DeclId} (hd : d ∈ (m.node t).kind.decl?) :
    m.HasDecl d := by
  have ht : m.HasType t := hasType_of_kind fun hvoid => by simp [hvoid, TypeKind.decl?] at hd
  exact h.declExists t _ (get?_eq_node ht) d hd

/-- What a typedef stands for exists and comes before the typedef. -/
theorem sugarStep?_lt (h : m.WellFormed) {t u : TypeId} (hu : m.sugarStep? t = some u) :
    u.index < t.index ∧ m.HasType u := by
  unfold sugarStep? at hu
  split at hu
  next d hkind =>
    have ht : m.HasType t := hasType_of_kind (by simp [hkind])
    exact ⟨h.underlyingBelow t _ d u (get?_eq_node ht) hkind hu, h.underlying_hasType hu⟩
  next => simp at hu

/-- The end of the typedefs at the top of a type. -/
theorem desugarFrom_kind (h : m.WellFormed) (fuel : Nat) (quals : Quals) (t : TypeId) :
    ∃ u, u.index ≤ t.index ∧ (m.desugarFrom fuel quals t).kind = (m.node u).kind := by
  induction fuel generalizing quals t with
  | zero => exact ⟨t, Nat.le_refl _, rfl⟩
  | succ fuel ih =>
      unfold desugarFrom
      split
      next u hu =>
        obtain ⟨v, hle, hkind⟩ := ih (quals ∪ (m.node t).quals) u
        exact ⟨v, Nat.le_trans hle (Nat.le_of_lt (h.sugarStep?_lt hu).1), hkind⟩
      next => exact ⟨t, Nat.le_refl _, rfl⟩

theorem desugared_parts (h : m.WellFormed) {t p : TypeId}
    (hp : p ∈ (m.desugared t).kind.parts) : p.index < t.index ∧ m.HasType p := by
  obtain ⟨u, hle, hkind⟩ := h.desugarFrom_kind m.typeFuel .none t
  rw [desugared, hkind] at hp
  obtain ⟨hlt, hex⟩ := h.node_parts hp
  exact ⟨Nat.lt_of_lt_of_le hlt hle, hex⟩

theorem desugared_decl? (h : m.WellFormed) {t : TypeId} {d : DeclId}
    (hd : d ∈ (m.desugared t).kind.decl?) : m.HasDecl d := by
  obtain ⟨u, _, hkind⟩ := h.desugarFrom_kind m.typeFuel .none t
  rw [desugared, hkind] at hd
  exact h.node_decl? hd

end WellFormed

/-! ## Types that are put into the table -/

theorem hasType_of_get? {t : TypeId} {n : TypeNode} (h : m.types.get? t = some n) : m.HasType t :=
  hasType_iff.mpr ⟨n, h⟩

theorem internKind_keeps (h : m.WellFormed) {k : TypeKind} (hparts : ∀ p ∈ k.parts, m.HasType p)
    (hdecl : ∀ d ∈ k.decl?, m.HasDecl d) :
    m.Keeps (internKind k) fun t m' => m'.types.get? t = some ⟨k, .none⟩ :=
  intern_keeps h hparts hdecl

theorem desugar_keeps (h : m.WellFormed) (t : TypeId) :
    m.Keeps (desugar t) fun u m' => m'.types.get? u = some (m.desugared t) :=
  Keeps.get_bind <| intern_keeps h (fun _ hp => (h.desugared_parts hp).2)
    fun _ hd => h.desugared_decl? hd

theorem lookThrough_keeps (h : m.WellFormed) (ts : List TypeId) :
    m.Keeps (lookThrough ts) fun _ _ => True :=
  Keeps.forM h fun t _ _ hwf _ => Keeps.map <| (desugar_keeps hwf t).weaken fun _ _ _ _ _ => trivial

/-- Asking a question adds types at most; the answer is that of the model before. -/
theorem askAlong_keeps {α : Type} (h : m.WellFormed) (way : Model → List TypeId)
    (question : Model → α) : m.Keeps (askAlong way question) fun a _ => a = question m :=
  Keeps.get_bind <| (lookThrough_keeps h (way m)).bind fun _ _ hwf _ _ => Keeps.pure hwf rfl

theorem withQuals_keeps (h : m.WellFormed) (t : TypeId) (q : Quals) :
    m.Keeps (withQuals t q) fun u m' =>
      m'.types.get? u = some ⟨(m.node t).kind, (m.node t).quals ∪ q⟩ :=
  Keeps.get_bind <| intern_keeps h (fun _ hp => (h.node_parts hp).2) fun _ hd => h.node_decl? hd

theorem withoutQuals_keeps (h : m.WellFormed) (t : TypeId) (q : Quals) :
    m.Keeps (withoutQuals t q) fun u m' =>
      m'.types.get? u = some ⟨(m.node t).kind, (m.node t).quals.without q⟩ :=
  Keeps.get_bind <| intern_keeps h (fun _ hp => (h.node_parts hp).2) fun _ hd => h.node_decl? hd

theorem mem_parts_of_referee? {k : TypeKind} {t : TypeId} (h : k.referee? = some t) :
    t ∈ k.parts := by
  cases k <;> simp_all [TypeKind.referee?, TypeKind.parts]

theorem WellFormed.nonReference_hasType (h : m.WellFormed) {t : TypeId} (ht : m.HasType t) :
    m.HasType (m.nonReference t) := by
  unfold nonReference
  cases href : (m.kindOf t).referee? with
  | none => exact ht
  | some r => exact (h.desugared_parts (mem_parts_of_referee? href)).2

/-- A reference is put around what is left of the type without the reference at its top. -/
theorem internReference_keeps (h : m.WellFormed) {t : TypeId} (ht : m.HasType t)
    (make : TypeId → TypeKind) (hparts : ∀ u, (make u).parts = [u])
    (hdecl : ∀ u, (make u).decl? = none) :
    m.Keeps (do internKind (make (← askAlong (fun _ => [t]) (·.nonReference t)))) fun u m' =>
      m'.types.get? u = some ⟨make (m.nonReference t), .none⟩ := by
  refine (askAlong_keeps h _ _).bind fun r m' hwf hgrow hr => ?_
  subst hr
  refine internKind_keeps hwf ?_ (by simp [hdecl])
  simpa [hparts] using hgrow.hasType (h.nonReference_hasType ht)

theorem lvalueReference_keeps (h : m.WellFormed) {t : TypeId} (ht : m.HasType t) :
    m.Keeps (lvalueReference t) fun u m' => m'.HasType u :=
  (internReference_keeps h ht .lvalueReference (fun _ => rfl) fun _ => rfl).weaken
    fun _ _ _ _ hget => hasType_of_get? hget

theorem rvalueReference_keeps (h : m.WellFormed) {t : TypeId} (ht : m.HasType t) :
    m.Keeps (rvalueReference t) fun u m' => m'.HasType u := by
  refine Keeps.get_bind ?_
  split
  next => exact Keeps.pure h ht
  next =>
    exact (internReference_keeps h ht .rvalueReference (fun _ => rfl) fun _ => rfl).weaken
      fun _ _ _ _ hget => hasType_of_get? hget

/-- Rebuilding a type of parts that `f` answers with. -/
theorem traverse_keeps (h : m.WellFormed) {f : TypeId → ModelM TypeId} {k : TypeKind}
    (hf : ∀ p ∈ k.parts, ∀ m', m'.WellFormed → m.GrowsTo m' →
      m'.Keeps (f p) fun u m'' => m''.HasType u) :
    m.Keeps (k.traverse f) fun k' m' => (∀ p ∈ k'.parts, m'.HasType p) ∧ k'.decl? = k.decl? := by
  have hone : ∀ t, k.parts = [t] → ∀ make : TypeId → TypeKind, (∀ u, (make u).parts = [u]) →
      (∀ u, (make u).decl? = k.decl?) → m.Keeps (do return make (← f t))
        fun k' m' => (∀ p ∈ k'.parts, m'.HasType p) ∧ k'.decl? = k.decl? := by
    intro t hparts make hmake hdecl
    refine (hf t (by simp [hparts]) m h (GrowsTo.refl m)).bind fun u m' hwf _ hu => ?_
    exact Keeps.pure hwf ⟨by simpa [hmake] using hu, hdecl u⟩
  cases k with
  | pointer t | lvalueReference t | rvalueReference t | incompleteArray t | complex t =>
      exact hone t rfl _ (fun _ => rfl) fun _ => rfl
  | constantArray t n => exact hone t rfl (.constantArray · n) (fun _ => rfl) fun _ => rfl
  | memberPointer pointee klass =>
      refine (hf pointee (by simp [TypeKind.parts]) m h (GrowsTo.refl m)).bind
        fun p m₁ hwf₁ hgrow₁ hp => ?_
      refine (hf klass (by simp [TypeKind.parts]) m₁ hwf₁ hgrow₁).bind fun c m₂ hwf₂ hgrow₂ hc => ?_
      exact Keeps.pure hwf₂ ⟨by simp [TypeKind.parts, hgrow₂.hasType hp, hc], rfl⟩
  | function proto =>
      refine (hf proto.ret (by simp [TypeKind.parts]) m h (GrowsTo.refl m)).bind
        fun ret m₁ hwf₁ hgrow₁ hret => ?_
      refine (Keeps.mapM Keeps.lasting_hasType hwf₁ fun p hp m' hwf hgrow =>
        hf p (by simp [TypeKind.parts, hp]) m' hwf (hgrow₁.trans hgrow)).bind
          fun params m₂ hwf₂ hgrow₂ hparams => ?_
      refine Keeps.pure hwf₂ ⟨?_, rfl⟩
      intro p hp
      rcases List.mem_cons.mp hp with rfl | hp
      · exact hgrow₂.hasType hret
      · exact hparams p hp
  | void | builtin _ | record _ | enum _ | typedef _ | named _ =>
      exact Keeps.pure h ⟨by simp [TypeKind.parts], rfl⟩

theorem canonicalFrom_keeps (h : m.WellFormed) (fuel : Nat) {t : TypeId} (ht : m.HasType t) :
    m.Keeps (canonicalFrom fuel t) fun u m' => m'.HasType u := by
  induction fuel generalizing m t with
  | zero => exact Keeps.pure h ht
  | succ fuel ih =>
      refine Keeps.get_bind <| (lookThrough_keeps h [t]).bind fun _ m₁ hwf₁ hgrow₁ _ => ?_
      refine (traverse_keeps hwf₁ fun p hp m' hwf hgrow => ?_).bind fun k m₂ hwf₂ hgrow₂ hk => ?_
      · exact ih hwf (hgrow.hasType (hgrow₁.hasType (h.desugared_parts hp).2))
      · refine (intern_keeps hwf₂ hk.1 fun d hd => ?_).weaken fun _ _ _ _ hget => hasType_of_get? hget
        rw [hk.2] at hd
        exact hgrow₂.hasDecl (hgrow₁.hasDecl (h.desugared_decl? hd))

theorem canonical_keeps (h : m.WellFormed) {t : TypeId} (ht : m.HasType t) :
    m.Keeps (canonical t) fun u m' => m'.HasType u :=
  Keeps.get_bind <| canonicalFrom_keeps h m.typeFuel ht

theorem mem_parts_of_pointee? {k : TypeKind} {t : TypeId} (h : k.pointee? = some t) :
    t ∈ k.parts := by
  cases k <;> simp_all [TypeKind.pointee?, TypeKind.parts]

theorem mem_parts_of_element? {k : TypeKind} {t : TypeId} (h : k.element? = some t) :
    t ∈ k.parts := by
  cases k <;> simp_all [TypeKind.element?, TypeKind.parts]

theorem WellFormed.pointeeEndFrom_hasType (h : m.WellFormed) (fuel : Nat) {t : TypeId}
    (ht : m.HasType t) : m.HasType (m.pointeeEndFrom fuel t) := by
  induction fuel generalizing t with
  | zero => exact ht
  | succ fuel ih =>
      unfold pointeeEndFrom
      split
      next p hp => exact ih (h.desugared_parts (mem_parts_of_pointee? hp)).2
      next => exact ht

theorem underlying_keeps (h : m.WellFormed) {t : TypeId} (ht : m.HasType t) :
    m.Keeps (underlying t) fun u m' => m'.HasType u := by
  refine (canonical_keeps h ht).bind fun c m₁ hwf₁ _ _ => ?_
  refine (withoutQuals_keeps hwf₁ c .all).bind fun u m₂ hwf₂ _ hu => Keeps.get_bind ?_
  have helement : m₂.HasType ((m₂.node u).kind.element?.getD u) := by
    cases he : (m₂.node u).kind.element? with
    | none => exact hasType_of_get? hu
    | some e => exact (hwf₂.node_parts (mem_parts_of_element? he)).2
  refine (canonical_keeps hwf₂ (hwf₂.pointeeEndFrom_hasType _ helement)).bind
    fun v m₃ hwf₃ _ _ => ?_
  exact (withoutQuals_keeps hwf₃ v .all).weaken fun _ _ _ _ hget => hasType_of_get? hget

/-- The type of a declaration names only types that the declaration names. -/
theorem typeOfDecl?_keeps (h : m.WellFormed) {d : DeclId} (hd : m.HasDecl d) :
    m.Keeps (typeOfDecl? d) fun t? m' => ∀ t ∈ t?, m'.HasType t := by
  obtain ⟨e, he⟩ := hasDecl_iff.mp hd
  have hdecl : m.decl d = e := by rw [decl, he, Option.getD_some]
  have htypes := h.types d e he
  have hnamed : ∀ {k : TypeKind}, (∀ p ∈ k.parts, m.HasType p) → (∀ c ∈ k.decl?, m.HasDecl c) →
      m.Keeps (some <$> internKind k) fun t? m' => ∀ t ∈ t?, m'.HasType t := by
    intro k hparts hdecls
    refine Keeps.map <| (internKind_keeps h hparts hdecls).weaken fun t m' _ _ hget => ?_
    rintro _ ⟨rfl⟩
    exact hasType_of_get? hget
  refine Keeps.get_bind ?_
  rw [hdecl]
  cases hkind : e.kind with
  | record info | enum info | typedef u =>
      refine hnamed (by simp [TypeKind.parts]) ?_
      rintro _ ⟨rfl⟩
      exact hd
  | variableDecl info | enumConstant _ type =>
      refine Keeps.pure h ?_
      rintro _ ⟨rfl⟩
      exact htypes _ (by simp [hkind, DeclKind.types])
  | function info =>
      refine hnamed ?_ (by simp [TypeKind.decl?])
      intro p hp
      apply htypes
      rw [hkind]
      exact List.mem_append_left _ hp
  | translationUnit | namespaceDecl _ | classTemplate _ | functionTemplate _ =>
      exact Keeps.pure h (by simp)

end CppReflect.Model
