import CppReflect.Model.Print
import CppReflect.Proofs.Model.Resolve
import CppReflect.Proofs.Spelling.Canonical

/-!
# What spellings mean where nothing is declared

In a model without declarations every name stands for itself, so a type of the table can be compared
with a spelling operator by operator. The type that a spelling is resolved to is the one that the
canonical spelling means; a canonical spelling means one type at most, and that type is printed as
the spelling is.
-/

namespace CppReflect

/-- What a name is that no declaration has. -/
def QualifiedName.kind (n : QualifiedName) : TypeKind :=
  if n.text = "std::nullptr_t" ∨ n.text = "nullptr_t" then .builtin .nullPtr else .named n.text

theorem QualifiedName.kind_canon (n : QualifiedName) : n.canon.kind = n.kind := by
  unfold canon
  split
  next hnull =>
    unfold kind
    rw [if_pos (Or.inl (by decide)), if_pos (Or.inr hnull)]
  next => rfl

namespace Model

variable {m m' : Model}

/-- Nothing is declared but the translation unit. -/
def Bare (m : Model) : Prop := m.decls = #[rootDecl]

theorem Bare.decl (h : m.Bare) (d : DeclId) : m.decl d = rootDecl := by
  unfold Bare at h
  unfold Model.decl decl?
  rw [h]
  cases d.index <;> rfl

theorem Bare.resolveTypeName? (h : m.Bare) (name : String) (context : DeclId) :
    m.resolveTypeName? name context = none := by
  cases hname : m.resolveTypeName? name context with
  | none => rfl
  | some d =>
      have htype := isTypeDecl_of_resolveTypeName? hname
      simp [isTypeDecl, h.decl, rootDecl] at htype

theorem Bare.sugarStep? (h : m.Bare) (t : TypeId) : m.sugarStep? t = none := by
  unfold Model.sugarStep?
  split
  · rw [h.decl]
    rfl
  · rfl

/-- Without typedefs nothing is looked through. -/
theorem Bare.kindOf (h : m.Bare) (t : TypeId) : m.kindOf t = (m.node t).kind := by
  unfold Model.kindOf desugared typeFuel desugarFrom
  rw [h.sugarStep?]

/-! ## The types that spellings mean -/

/-- The type is the base with the qualifiers. -/
def BaseMeans (m : Model) (quals : Quals) (t : TypeId) : Spelling.Base → Prop
  | .void => m.types.get? t = some ⟨.void, quals⟩
  | .builtin b => m.types.get? t = some ⟨.builtin b, quals⟩
  | .complex b => ∃ e, m.types.get? e = some ⟨.builtin b, .none⟩ ∧
      m.types.get? t = some ⟨.complex e, quals⟩
  | .name n => m.types.get? t = some ⟨n.kind, quals⟩

mutual

/-- The type is spelled so. -/
def Means (m : Model) : Spelling → TypeId → Prop
  | .mk base quals ops, t => ∃ b, m.BaseMeans quals b base ∧ m.OpsMean b ops t

/-- The second type is made of the first one by the operators. -/
def OpsMean (m : Model) : TypeId → List DeclaratorOp → TypeId → Prop
  | t, [], u => t = u
  | t, o :: ops, u => ∃ v, m.OpMeans t o v ∧ m.OpsMean v ops u

/-- The second type is made of the first one by the operator. -/
def OpMeans (m : Model) (t : TypeId) : DeclaratorOp → TypeId → Prop
  | .pointer quals, u => m.types.get? u = some ⟨.pointer t, quals⟩
  | .lvalueReference, u => m.types.get? u = some ⟨.lvalueReference t, .none⟩
  | .rvalueReference, u => m.types.get? u = some ⟨.rvalueReference t, .none⟩
  | .memberPointer klass quals, u => ∃ c, m.types.get? c = some ⟨klass.kind, .none⟩ ∧
      m.types.get? u = some ⟨.memberPointer t c, quals⟩
  | .array (some n), u => m.types.get? u = some ⟨.constantArray t n, .none⟩
  | .array none, u => m.types.get? u = some ⟨.incompleteArray t, .none⟩
  | .function params variadic quals ref, u => ∃ ts, m.AllMean params ts ∧
      m.types.get? u = some ⟨.function ⟨t, ts, variadic, quals, ref⟩, .none⟩

/-- The types are spelled so, one after the other. -/
def AllMean (m : Model) : List Spelling → List TypeId → Prop
  | [], ts => ts = []
  | s :: rest, ts => ∃ t us, ts = t :: us ∧ m.Means s t ∧ m.AllMean rest us

end

theorem BaseMeans.mono (h : m.GrowsTo m') {quals : Quals} {t : TypeId} {base : Spelling.Base}
    (hbase : m.BaseMeans quals t base) : m'.BaseMeans quals t base := by
  cases base with
  | complex b =>
      obtain ⟨e, he, ht⟩ := hbase
      exact ⟨e, h.types _ _ he, h.types _ _ ht⟩
  | void | builtin | name => exact h.types _ _ hbase

mutual

/-- What a type is spelled like does not change as the model grows. -/
theorem Means.mono (h : m.GrowsTo m') : (s : Spelling) → {t : TypeId} → m.Means s t → m'.Means s t
  | .mk base quals ops, t, hs => by
    unfold Means at hs ⊢
    obtain ⟨b, hb, hops⟩ := hs
    exact ⟨b, hb.mono h, OpsMean.mono h ops hops⟩

theorem OpsMean.mono (h : m.GrowsTo m') : (ops : List DeclaratorOp) → {t u : TypeId} →
    m.OpsMean t ops u → m'.OpsMean t ops u
  | [], t, u, hops => by
    unfold OpsMean at hops ⊢
    exact hops
  | o :: ops, t, u, hops => by
    unfold OpsMean at hops ⊢
    obtain ⟨v, ho, hops⟩ := hops
    exact ⟨v, OpMeans.mono h o ho, OpsMean.mono h ops hops⟩

theorem OpMeans.mono (h : m.GrowsTo m') : (o : DeclaratorOp) → {t u : TypeId} →
    m.OpMeans t o u → m'.OpMeans t o u
  | .pointer _, t, u, ho | .lvalueReference, t, u, ho | .rvalueReference, t, u, ho
  | .array (some _), t, u, ho | .array none, t, u, ho => by
    unfold OpMeans at ho ⊢
    exact h.types _ _ ho
  | .memberPointer klass quals, t, u, ho => by
    unfold OpMeans at ho ⊢
    obtain ⟨c, hc, hu⟩ := ho
    exact ⟨c, h.types _ _ hc, h.types _ _ hu⟩
  | .function params variadic quals ref, t, u, ho => by
    unfold OpMeans at ho ⊢
    obtain ⟨ts, hts, hu⟩ := ho
    exact ⟨ts, AllMean.mono h params hts, h.types _ _ hu⟩

theorem AllMean.mono (h : m.GrowsTo m') : (params : List Spelling) → {ts : List TypeId} →
    m.AllMean params ts → m'.AllMean params ts
  | [], ts, hts => by
    unfold AllMean at hts ⊢
    exact hts
  | s :: rest, ts, hts => by
    unfold AllMean at hts ⊢
    obtain ⟨t, us, rfl, hs, hrest⟩ := hts
    exact ⟨t, us, rfl, Means.mono h s hs, AllMean.mono h rest hrest⟩

end

/-! ## A spelling means one type at most -/

theorem WellFormed.get?_inj (h : m.WellFormed) {t u : TypeId} {n : TypeNode}
    (ht : m.types.get? t = some n) (hu : m.types.get? u = some n) : t = u := by
  have hfind := (TypeTable.find?_eq_some_iff h.nodup).mpr ht
  exact Option.some.inj (hfind.symm.trans ((TypeTable.find?_eq_some_iff h.nodup).mpr hu))

theorem BaseMeans.unique (h : m.WellFormed) {quals : Quals} {t u : TypeId} {base : Spelling.Base}
    (ht : m.BaseMeans quals t base) (hu : m.BaseMeans quals u base) : t = u := by
  cases base with
  | complex b =>
      obtain ⟨e, he, ht⟩ := ht
      obtain ⟨f, hf, hu⟩ := hu
      obtain rfl := h.get?_inj he hf
      exact h.get?_inj ht hu
  | void | builtin | name => exact h.get?_inj ht hu

mutual

theorem Means.unique (h : m.WellFormed) : (s : Spelling) → {t u : TypeId} → m.Means s t →
    m.Means s u → t = u
  | .mk base quals ops, t, u, ht, hu => by
    unfold Means at ht hu
    obtain ⟨b, hb, ht⟩ := ht
    obtain ⟨c, hc, hu⟩ := hu
    obtain rfl := hb.unique h hc
    exact OpsMean.unique h ops ht hu

theorem OpsMean.unique (h : m.WellFormed) : (ops : List DeclaratorOp) → {t u v : TypeId} →
    m.OpsMean t ops u → m.OpsMean t ops v → u = v
  | [], t, u, v, hu, hv => by
    unfold OpsMean at hu hv
    exact hu.symm.trans hv
  | o :: ops, t, u, v, hu, hv => by
    unfold OpsMean at hu hv
    obtain ⟨u', ho, hu⟩ := hu
    obtain ⟨v', ho', hv⟩ := hv
    obtain rfl := OpMeans.unique h o ho ho'
    exact OpsMean.unique h ops hu hv

theorem OpMeans.unique (h : m.WellFormed) : (o : DeclaratorOp) → {t u v : TypeId} →
    m.OpMeans t o u → m.OpMeans t o v → u = v
  | .pointer _, t, u, v, hu, hv | .lvalueReference, t, u, v, hu, hv
  | .rvalueReference, t, u, v, hu, hv | .array (some _), t, u, v, hu, hv
  | .array none, t, u, v, hu, hv => by
    unfold OpMeans at hu hv
    exact h.get?_inj hu hv
  | .memberPointer klass quals, t, u, v, hu, hv => by
    unfold OpMeans at hu hv
    obtain ⟨c, hc, hu⟩ := hu
    obtain ⟨d, hd, hv⟩ := hv
    obtain rfl := h.get?_inj hc hd
    exact h.get?_inj hu hv
  | .function params variadic quals ref, t, u, v, hu, hv => by
    unfold OpMeans at hu hv
    obtain ⟨ts, hts, hu⟩ := hu
    obtain ⟨us, hus, hv⟩ := hv
    obtain rfl := AllMean.unique h params hts hus
    exact h.get?_inj hu hv

theorem AllMean.unique (h : m.WellFormed) : (params : List Spelling) → {ts us : List TypeId} →
    m.AllMean params ts → m.AllMean params us → ts = us
  | [], ts, us, hts, hus => by
    unfold AllMean at hts hus
    exact hts.trans hus.symm
  | s :: rest, ts, us, hts, hus => by
    unfold AllMean at hts hus
    obtain ⟨t, ts', rfl, ht, hts⟩ := hts
    obtain ⟨u, us', rfl, hu, hus⟩ := hus
    rw [Means.unique h s ht hu, AllMean.unique h rest hts hus]

end

/-! ## What a spelling is resolved to -/

open Spelling (canonOps canonOp consOp mergeRefs canonAll)

theorem Keeps.bare {α : Type} {x : ModelM α} {post : α → Model → Prop} (hb : m.Bare)
    (hx : m.Keeps x post) (hdecls : (x.run m).2.decls = m.decls) :
    m.Keeps x fun a m' => m'.Bare ∧ post a m' :=
  ⟨hx.wellFormed, hx.grows, hdecls.trans hb, hx.answer⟩

theorem Keeps.and {α : Type} {x : ModelM α} {post post' : α → Model → Prop}
    (hx : m.Keeps x post) (hx' : m.Keeps x post') : m.Keeps x fun a m' => post a m' ∧ post' a m' :=
  ⟨hx.wellFormed, hx.grows, hx.answer, hx'.answer⟩

/-- The type is a reference. -/
def IsReference (m : Model) (t : TypeId) : Prop := (m.node t).kind.referee?.isSome = true

theorem internKind_bare (h : m.WellFormed) (hb : m.Bare) {k : TypeKind}
    (hparts : ∀ p ∈ k.parts, m.HasType p) (hdecl : ∀ d ∈ k.decl?, m.HasDecl d) :
    m.Keeps (internKind k) fun t m' => m'.Bare ∧ m'.types.get? t = some ⟨k, .none⟩ :=
  (internKind_keeps h hparts hdecl).bare hb rfl

/-- Adding qualifiers to a type without any. -/
theorem withQuals_bare (h : m.WellFormed) (hb : m.Bare) {t : TypeId} {k : TypeKind}
    (ht : m.types.get? t = some ⟨k, .none⟩) (q : Quals) :
    m.Keeps (withQuals t q) fun u m' => m'.Bare ∧ m'.types.get? u = some ⟨k, q⟩ := by
  have hkeeps := (withQuals_keeps h t q).bare hb rfl
  rw [node_of_get? ht, Quals.none_union] at hkeeps
  exact hkeeps

theorem resolveName_means (h : m.WellFormed) (hb : m.Bare) (n : QualifiedName)
    (context : DeclId) :
    m.Keeps (resolveName n context) fun t m' =>
      m'.Bare ∧ m'.types.get? t = some ⟨n.kind, .none⟩ := by
  refine Keeps.get_bind ?_
  rw [hb.resolveTypeName?]
  unfold QualifiedName.kind
  dsimp only
  split
  · exact internKind_bare h hb (by simp [TypeKind.parts]) (by simp [TypeKind.decl?])
  · exact internKind_bare h hb (by simp [TypeKind.parts]) (by simp [TypeKind.decl?])

theorem resolveBase_means (h : m.WellFormed) (hb : m.Bare) (base : Spelling.Base)
    (context : DeclId) :
    m.Keeps (resolveBase base context) fun t m' => m'.Bare ∧ m'.BaseMeans .none t base := by
  cases base with
  | void | builtin b =>
      exact internKind_bare h hb (by simp [TypeKind.parts]) (by simp [TypeKind.decl?])
  | complex b =>
      refine (internKind_bare h hb (by simp [TypeKind.parts]) (by simp [TypeKind.decl?])).bind
        fun e m₁ hwf₁ _ he => ?_
      have hkeeps : m₁.Keeps (internKind (.complex e)) _ :=
        internKind_bare hwf₁ he.1 (by simpa [TypeKind.parts] using hasType_of_get? he.2)
          (by simp [TypeKind.decl?])
      refine hkeeps.weaken fun t m₂ _ hgrow ht => ⟨ht.1, e, hgrow.types _ _ he.2, ht.2⟩
  | name n => exact resolveName_means h hb n context

theorem BaseMeans.withQuals (h : m.WellFormed) (hb : m.Bare) {base : Spelling.Base} {t : TypeId}
    (ht : m.BaseMeans .none t base) (q : Quals) :
    m.Keeps (withQuals t q) fun u m' => m'.Bare ∧ m'.BaseMeans q u base := by
  cases base with
  | complex b =>
      obtain ⟨e, he, ht⟩ := ht
      exact (withQuals_bare h hb ht q).weaken
        fun u m' _ hgrow hu => ⟨hu.1, e, hgrow.types _ _ he, hu.2⟩
  | void | builtin | name => exact withQuals_bare h hb ht q

theorem BaseMeans.canon {base : Spelling.Base} {q : Quals} {t : TypeId} (h : m.BaseMeans q t base) :
    m.BaseMeans q t base.canon := by
  cases base with
  | name n =>
      change m.types.get? t = some ⟨n.canon.kind, q⟩
      rw [n.kind_canon]
      exact h
  | void | builtin | complex => exact h

theorem BaseMeans.not_isReference {base : Spelling.Base} {q : Quals} {t : TypeId}
    (h : m.BaseMeans q t base) : ¬m.IsReference t := by
  unfold IsReference
  cases base with
  | void | builtin =>
      rw [node_of_get? h]
      simp [TypeKind.referee?]
  | complex b =>
      obtain ⟨e, _, h⟩ := h
      rw [node_of_get? h]
      simp [TypeKind.referee?]
  | name n =>
      rw [node_of_get? h]
      unfold QualifiedName.kind
      split <;> simp [TypeKind.referee?]

theorem BaseMeans.hasType {base : Spelling.Base} {q : Quals} {t : TypeId}
    (h : m.BaseMeans q t base) : m.HasType t := by
  cases base with
  | complex b =>
      obtain ⟨e, _, h⟩ := h
      exact hasType_of_get? h
  | void | builtin | name => exact hasType_of_get? h

theorem OpMeans.not_isReference {o : DeclaratorOp} {t u : TypeId} (h : m.OpMeans t o u)
    (ho : o.isReference = false) : ¬m.IsReference u := by
  unfold IsReference
  cases o with
  | lvalueReference | rvalueReference => exact absurd ho (by decide)
  | pointer q =>
      unfold OpMeans at h
      simp [node_of_get? h, TypeKind.referee?]
  | memberPointer klass q =>
      unfold OpMeans at h
      obtain ⟨c, _, h⟩ := h
      simp [node_of_get? h, TypeKind.referee?]
  | array extent =>
      cases extent <;> unfold OpMeans at h <;> simp [node_of_get? h, TypeKind.referee?]
  | function params variadic quals ref =>
      unfold OpMeans at h
      obtain ⟨ts, _, h⟩ := h
      simp [node_of_get? h, TypeKind.referee?]

/-- What a type is made of, where a reference at its top may still merge with another. -/
inductive Pending (m : Model) (t : TypeId) : TypeId → List DeclaratorOp → Prop where
  | settled : ¬m.IsReference t → Pending m t t []
  | reference {p : TypeId} {r : DeclaratorOp} : r.isReference = true → m.OpMeans p r t →
      Pending m t p [r]

theorem Bare.nonReference (hb : m.Bare) (t : TypeId) :
    m.nonReference t = ((m.node t).kind.referee?).getD t := by
  rw [Model.nonReference, hb.kindOf]

theorem lvalueReference_means (h : m.WellFormed) (hb : m.Bare) {t : TypeId} (ht : m.HasType t) :
    m.Keeps (lvalueReference t) fun u m' => m'.Bare ∧
      m'.types.get? u = some ⟨.lvalueReference (((m.node t).kind.referee?).getD t), .none⟩ := by
  have hkeeps : m.Keeps (lvalueReference t) fun u m' =>
      m'.types.get? u = some ⟨.lvalueReference (m.nonReference t), .none⟩ :=
    internReference_keeps h ht .lvalueReference (fun _ => rfl) fun _ => rfl
  rw [hb.nonReference] at hkeeps
  exact hkeeps.bare hb rfl

/-- An rvalue reference is put around anything but an lvalue reference. -/
theorem rvalueReference_means (h : m.WellFormed) (hb : m.Bare) {t : TypeId} (ht : m.HasType t) :
    m.Keeps (rvalueReference t) fun u m' => m'.Bare ∧
      ((∃ p, (m.node t).kind = .lvalueReference p) ∧ u = t ∨
        (∀ p, (m.node t).kind ≠ .lvalueReference p) ∧
          m'.types.get? u =
            some ⟨.rvalueReference (((m.node t).kind.referee?).getD t), .none⟩) := by
  refine Keeps.get_bind ?_
  split
  next p hp => exact Keeps.pure h ⟨hb, Or.inl ⟨⟨p, hp⟩, rfl⟩⟩
  next hnot =>
    have hkeeps := internReference_keeps h ht .rvalueReference (fun _ => rfl) fun _ => rfl
    rw [hb.nonReference] at hkeeps
    exact (hkeeps.bare hb rfl).weaken fun u m' _ _ hu => ⟨hu.1, Or.inr ⟨hnot, hu.2⟩⟩

/-- A reference to what a type is made of so far merges with a reference at its top. -/
theorem Pending.reference_means (h : m.WellFormed) (hb : m.Bare) {t p : TypeId}
    {front : List DeclaratorOp} (ht : m.HasType t) (hpending : m.Pending t p front)
    (context : DeclId) {o : DeclaratorOp} (ho : o.isReference = true) :
    m.Keeps (resolveOp context t o) fun u m' => m'.Bare ∧
      ∃ r, r.isReference = true ∧ m'.OpMeans p r u ∧
        ∀ ops, front.foldr consOp (consOp o ops) = consOp r ops := by
  have hl := lvalueReference_means h hb ht
  have hr := rvalueReference_means h hb ht
  cases hpending with
  | settled hnot =>
      have hnone : (m.node t).kind.referee? = none := by simpa [IsReference] using hnot
      rw [hnone] at hl hr
      rcases Spelling.isReference_cases ho with rfl | rfl
      · exact hl.weaken fun u m' _ _ hu => ⟨hu.1, .lvalueReference, rfl, hu.2, fun _ => rfl⟩
      · refine hr.weaken fun u m' _ _ hu => ⟨hu.1, .rvalueReference, rfl, ?_, fun _ => rfl⟩
        rcases hu.2 with ⟨⟨q, hq⟩, _⟩ | ⟨_, hu⟩
        · rw [hq] at hnone
          exact absurd hnone (by simp [TypeKind.referee?])
        · exact hu
  | @reference p r href hmeans =>
      have hmerge : ∀ ops, [r].foldr consOp (consOp o ops) = consOp (mergeRefs r o) ops :=
        Spelling.consOp_consOp href ho
      rcases Spelling.isReference_cases href with rfl | rfl <;> unfold OpMeans at hmeans <;>
        rw [node_of_get? hmeans] at hl hr <;>
        rcases Spelling.isReference_cases ho with rfl | rfl
      case inl.inl | inr.inl =>
        exact hl.weaken fun u m' _ _ hu => ⟨hu.1, .lvalueReference, rfl, hu.2, hmerge⟩
      case inl.inr =>
        refine hr.weaken fun u m' _ hgrow hu => ⟨hu.1, .lvalueReference, rfl, ?_, hmerge⟩
        rcases hu.2 with ⟨_, rfl⟩ | ⟨hnot, _⟩
        · exact hgrow.types _ _ hmeans
        · exact absurd rfl (hnot p)
      case inr.inr =>
        refine hr.weaken fun u m' _ hgrow hu => ⟨hu.1, .rvalueReference, rfl, ?_, hmerge⟩
        rcases hu.2 with ⟨⟨q, hq⟩, _⟩ | ⟨_, hu⟩
        · exact absurd hq (by simp)
        · exact hu

/-- What is made of a type is its parts and what follows is made of it. -/
theorem Pending.cons {t p v u : TypeId} {front : List DeclaratorOp} (h : m.Pending t p front)
    {o : DeclaratorOp} (ho : o.isReference = false) {ops : List DeclaratorOp}
    (hv : m.OpMeans t o v) (hu : m.OpsMean v ops u) :
    m.OpsMean p (front.foldr consOp (consOp o ops)) u := by
  have hops : m.OpsMean t (o :: ops) u := by
    unfold OpsMean
    exact ⟨v, hv, hu⟩
  rw [Spelling.consOp_of_not_isReference ho]
  cases h with
  | settled => exact hops
  | @reference p r href hmeans =>
      change m.OpsMean p (consOp r (o :: ops)) u
      rw [Spelling.consOp_cons_of_not_isReference ho]
      unfold OpsMean
      exact ⟨t, hmeans, hops⟩

theorem Pending.mono (hgrow : m.GrowsTo m') {t p : TypeId} {front : List DeclaratorOp}
    (ht : m.HasType t) (h : m.Pending t p front) : m'.Pending t p front := by
  cases h with
  | settled hnot =>
      refine .settled ?_
      unfold IsReference at hnot ⊢
      rwa [hgrow.node ht]
  | reference href hmeans => exact .reference href (OpMeans.mono hgrow _ hmeans)

theorem Pending.nil {t p : TypeId} {front : List DeclaratorOp} (h : m.Pending t p front) :
    m.OpsMean p (front.foldr consOp []) t := by
  cases h with
  | settled =>
      unfold OpsMean
      rfl
  | reference _ hmeans =>
      change m.OpsMean p (consOp _ []) t
      unfold consOp OpsMean
      exact ⟨t, hmeans, by unfold OpsMean; rfl⟩

mutual

/-- A spelling is resolved to what its canonical spelling means. -/
theorem resolve_means (context : DeclId) : (s : Spelling) → {m : Model} → m.WellFormed → m.Bare →
    m.Keeps (resolve context s) fun t m' => m'.Bare ∧ m'.HasType t ∧ m'.Means s.canon t
  | .mk base quals ops, m, h, hb => by
    unfold resolve
    refine (resolveBase_means h hb base context).bind fun b m₁ hwf₁ _ hb₁ => ?_
    refine (hb₁.2.withQuals hwf₁ hb₁.1 quals).bind fun t m₂ hwf₂ _ ht => ?_
    have hex := ht.2.hasType
    refine (resolveOps_means context ops hwf₂ ht.1 hex (.settled ht.2.not_isReference)).weaken
      fun u m₃ _ hgrow hu => ⟨hu.1, hu.2.1, ?_⟩
    unfold Spelling.canon Means
    exact ⟨t, (ht.2.mono hgrow).canon, hu.2.2⟩

theorem resolveOps_means (context : DeclId) : (ops : List DeclaratorOp) → {m : Model} →
    m.WellFormed → m.Bare → {t p : TypeId} → {front : List DeclaratorOp} → m.HasType t →
    m.Pending t p front →
    m.Keeps (resolveOps context t ops) fun u m' =>
      m'.Bare ∧ m'.HasType u ∧ m'.OpsMean p (front.foldr consOp (canonOps ops)) u
  | [], m, h, hb, t, p, front, ht, hpending => by
    unfold resolveOps canonOps
    exact Keeps.pure h ⟨hb, ht, hpending.nil⟩
  | o :: ops, m, h, hb, t, p, front, ht, hpending => by
    unfold resolveOps canonOps
    cases ho : o.isReference with
    | true =>
        have hcanon : canonOp o = o := by
          rcases Spelling.isReference_cases ho with rfl | rfl <;> unfold canonOp <;> rfl
        refine ((resolveOp_keeps context o h ht).and (hpending.reference_means h hb ht context ho)).bind
          fun v m₁ hwf₁ _ hv => ?_
        obtain ⟨hex, hb₁, r, href, hmeans, hmerge⟩ := hv
        rw [hcanon, hmerge]
        exact resolveOps_means context ops hwf₁ hb₁ hex (.reference href hmeans)
    | false =>
        refine (resolveOp_means context o h hb ht ho).bind fun v m₁ hwf₁ hgrow₁ hv => ?_
        obtain ⟨hb₁, hex, hmeans⟩ := hv
        have hcanon : (canonOp o).isReference = false := (Spelling.canonOp_isReference o).trans ho
        refine (resolveOps_means context ops hwf₁ hb₁ hex
          (.settled (hmeans.not_isReference hcanon))).weaken fun u m₂ _ hgrow hu =>
            ⟨hu.1, hu.2.1, ?_⟩
        exact ((hpending.mono hgrow₁ ht).mono hgrow (hgrow₁.hasType ht)).cons hcanon
          (OpMeans.mono hgrow _ hmeans) hu.2.2

theorem resolveOp_means (context : DeclId) : (o : DeclaratorOp) → {m : Model} → m.WellFormed →
    m.Bare → {t : TypeId} → m.HasType t → o.isReference = false →
    m.Keeps (resolveOp context t o) fun u m' =>
      m'.Bare ∧ m'.HasType u ∧ m'.OpMeans t (canonOp o) u
  | .lvalueReference, _, _, _, _, _, ho | .rvalueReference, _, _, _, _, _, ho =>
    absurd ho (by decide)
  | .pointer quals, m, h, hb, t, ht, _ => by
    unfold resolveOp canonOp
    refine (internKind_bare h hb (by simpa [TypeKind.parts] using ht) (by simp [TypeKind.decl?])).bind
      fun p m₁ hwf₁ _ hp => ?_
    refine (withQuals_bare hwf₁ hp.1 hp.2 quals).weaken fun u m₂ _ _ hu =>
      ⟨hu.1, hasType_of_get? hu.2, ?_⟩
    unfold OpMeans
    exact hu.2
  | .memberPointer klass quals, m, h, hb, t, ht, _ => by
    unfold resolveOp canonOp
    refine (resolveName_means h hb klass context).bind fun c m₁ hwf₁ hgrow₁ hc => ?_
    have hparts : ∀ p ∈ (TypeKind.memberPointer t c).parts, m₁.HasType p := by
      simp [TypeKind.parts, hgrow₁.hasType ht, hasType_of_get? hc.2]
    refine (internKind_bare hwf₁ hc.1 hparts (by simp [TypeKind.decl?])).bind
      fun p m₂ hwf₂ hgrow₂ hp => ?_
    refine (withQuals_bare hwf₂ hp.1 hp.2 quals).weaken fun u m₃ _ hgrow₃ hu =>
      ⟨hu.1, hasType_of_get? hu.2, ?_⟩
    unfold OpMeans
    refine ⟨c, ?_, hu.2⟩
    rw [klass.kind_canon]
    exact hgrow₃.types _ _ (hgrow₂.types _ _ hc.2)
  | .array (some n), m, h, hb, t, ht, _ | .array none, m, h, hb, t, ht, _ => by
    unfold resolveOp canonOp
    refine (internKind_bare h hb (by simpa [TypeKind.parts] using ht)
      (by simp [TypeKind.decl?])).weaken fun u m₁ _ _ hu => ⟨hu.1, hasType_of_get? hu.2, ?_⟩
    unfold OpMeans
    exact hu.2
  | .function params variadic quals ref, m, h, hb, t, ht, _ => by
    unfold resolveOp canonOp
    refine (resolveAll_means context params h hb).bind fun ts m₁ hwf₁ hgrow₁ hts => ?_
    have hparts : ∀ p ∈ (TypeKind.function ⟨t, ts, variadic, quals, ref⟩).parts, m₁.HasType p := by
      intro p hp
      rcases List.mem_cons.mp hp with rfl | hp
      · exact hgrow₁.hasType ht
      · exact hts.2.1 p hp
    refine (internKind_bare hwf₁ hts.1 hparts (by simp [TypeKind.decl?])).weaken
      fun u m₂ _ hgrow₂ hu => ⟨hu.1, hasType_of_get? hu.2, ?_⟩
    unfold OpMeans
    exact ⟨ts, AllMean.mono hgrow₂ _ hts.2.2, hu.2⟩

theorem resolveAll_means (context : DeclId) : (params : List Spelling) → {m : Model} →
    m.WellFormed → m.Bare →
    m.Keeps (resolveAll context params) fun ts m' =>
      m'.Bare ∧ (∀ t ∈ ts, m'.HasType t) ∧ m'.AllMean (canonAll params) ts
  | [], m, h, hb => by
    unfold resolveAll canonAll
    refine Keeps.pure h ⟨hb, by simp, ?_⟩
    unfold AllMean
    rfl
  | s :: rest, m, h, hb => by
    unfold resolveAll canonAll
    refine (resolve_means context s h hb).bind fun t m₁ hwf₁ _ ht => ?_
    refine (resolveAll_means context rest hwf₁ ht.1).bind fun ts m₂ hwf₂ hgrow₂ hts => ?_
    refine Keeps.pure hwf₂ ⟨hts.1, ?_, ?_⟩
    · exact List.forall_mem_cons.mpr ⟨hgrow₂.hasType ht.2.1, hts.2.1⟩
    · unfold AllMean
      exact ⟨t, ts, rfl, Means.mono hgrow₂ _ ht.2.2, hts.2.2⟩

end

end Model

end CppReflect
