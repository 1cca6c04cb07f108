import CppReflect.Proofs.Reachable
import Mathlib.Logic.Relation

/-!
# Walks end

Every walk that the queries make goes one way in a well-formed model: over types to the ones in
front, from a declaration to its scope in front of it, and from a scope to the members behind it. So
each walk ends, the bounds that the queries carry are never used up, and any greater bound gives the
same answer.
-/

namespace CppReflect.Model

variable {m : Model}

/-! ## Typedefs -/

theorem desugarFrom_of_none {t : TypeId} (ht : m.sugarStep? t = none) (fuel : Nat) (quals : Quals) :
    m.desugarFrom fuel quals t = ⟨(m.node t).kind, quals ∪ (m.node t).quals⟩ := by
  cases fuel with
  | zero => rfl
  | succ fuel => rw [desugarFrom, ht]

theorem WellFormed.desugarFrom_congr (h : m.WellFormed) {t : TypeId} {fuel fuel' : Nat}
    (hfuel : t.index ≤ fuel) (hfuel' : t.index ≤ fuel') (quals : Quals) :
    m.desugarFrom fuel quals t = m.desugarFrom fuel' quals t := by
  induction fuel generalizing t fuel' quals with
  | zero =>
      cases hstep : m.sugarStep? t with
      | none => rw [desugarFrom_of_none hstep, desugarFrom_of_none hstep]
      | some u => exact absurd (h.sugarStep?_lt hstep).1 (by omega)
  | succ fuel ih =>
      cases hstep : m.sugarStep? t with
      | none => rw [desugarFrom_of_none hstep, desugarFrom_of_none hstep]
      | some u =>
          have hlt := (h.sugarStep?_lt hstep).1
          obtain ⟨fuel', rfl⟩ := Nat.exists_eq_succ_of_ne_zero (n := fuel') (by omega)
          rw [desugarFrom, desugarFrom, hstep]
          exact ih (by omega) (by omega) _

/-- The walk over typedefs ends at a type that is no typedef to look through. -/
theorem WellFormed.desugarFrom_end (h : m.WellFormed) {t : TypeId} {fuel : Nat}
    (hfuel : t.index ≤ fuel) (quals : Quals) :
    ∃ u, m.sugarStep? u = none ∧ (m.desugarFrom fuel quals t).kind = (m.node u).kind := by
  induction fuel generalizing t quals with
  | zero =>
      cases hstep : m.sugarStep? t with
      | none => exact ⟨t, hstep, rfl⟩
      | some u => exact absurd (h.sugarStep?_lt hstep).1 (by omega)
  | succ fuel ih =>
      cases hstep : m.sugarStep? t with
      | none => exact ⟨t, hstep, by rw [desugarFrom_of_none hstep]⟩
      | some u =>
          have hlt := (h.sugarStep?_lt hstep).1
          rw [desugarFrom, hstep]
          exact ih (by omega) _

theorem WellFormed.desugared_end (h : m.WellFormed) {t : TypeId} (ht : m.HasType t) {d : DeclId}
    (hd : m.kindOf t = .typedef d) : (m.decl d).underlying? = none := by
  obtain ⟨u, hstep, hkind⟩ := h.desugarFrom_end (Nat.le_of_lt (Nat.lt_succ_of_lt ht)) .none
  have hu : (m.node u).kind = .typedef d := hkind.symm.trans hd
  rw [sugarStep?, hu] at hstep
  exact hstep

/-- The type that looking through typedefs puts into the table is not looked through again. -/
theorem WellFormed.desugar_end (h : m.WellFormed) {t : TypeId} (ht : m.HasType t) :
    ((desugar t).run m).2.sugarStep? ((desugar t).run m).1 = none := by
  have hkeeps := desugar_keeps h t
  have hnode : ((desugar t).run m).2.node ((desugar t).run m).1 = m.desugared t := by
    rw [node, hkeeps.answer, Option.getD_some]
  rw [sugarStep?, hnode]
  split
  next d hd =>
    have hex : m.HasDecl d := h.desugared_decl? (t := t) (by rw [hd]; rfl)
    rw [(hkeeps.grows.decl hex).underlying?]
    exact h.desugared_end ht hd
  next => rfl

/-! ## Pointees -/

theorem WellFormed.pointee?_lt (h : m.WellFormed) {t p : TypeId} (hp : m.pointee? t = some p) :
    p.index < t.index :=
  (h.desugared_parts (mem_parts_of_pointee? hp)).1

theorem WellFormed.pointeeEndFrom_congr (h : m.WellFormed) {t : TypeId} {fuel fuel' : Nat}
    (hfuel : t.index ≤ fuel) (hfuel' : t.index ≤ fuel') :
    m.pointeeEndFrom fuel t = m.pointeeEndFrom fuel' t := by
  induction fuel generalizing t fuel' with
  | zero =>
      cases hstep : m.pointee? t with
      | none => cases fuel' <;> simp [pointeeEndFrom, hstep]
      | some p => exact absurd (h.pointee?_lt hstep) (by omega)
  | succ fuel ih =>
      cases hstep : m.pointee? t with
      | none => cases fuel' <;> simp [pointeeEndFrom, hstep]
      | some p =>
          have hlt := h.pointee?_lt hstep
          obtain ⟨fuel', rfl⟩ := Nat.exists_eq_succ_of_ne_zero (n := fuel') (by omega)
          simp only [pointeeEndFrom, hstep]
          exact ih (by omega) (by omega)

theorem WellFormed.pointeeEndFrom_end (h : m.WellFormed) {t : TypeId} {fuel : Nat}
    (hfuel : t.index ≤ fuel) : m.pointee? (m.pointeeEndFrom fuel t) = none := by
  induction fuel generalizing t with
  | zero =>
      cases hstep : m.pointee? t with
      | none => exact hstep
      | some p => exact absurd (h.pointee?_lt hstep) (by omega)
  | succ fuel ih =>
      cases hstep : m.pointee? t with
      | none =>
          simp only [pointeeEndFrom, hstep]
      | some p =>
          have hlt := h.pointee?_lt hstep
          simp only [pointeeEndFrom, hstep]
          exact ih (by omega)

/-! ## Canonical types -/

/-- Two computations that do the same at a model, and go on doing the same, do the same together. -/
theorem run_bind_congr {α β : Type} {x y : ModelM α} {f g : α → ModelM β} (hxy : x.run m = y.run m)
    (hfg : (f (x.run m).1).run (x.run m).2 = (g (x.run m).1).run (x.run m).2) :
    (x >>= f).run m = (y >>= g).run m := by
  change (f (x.run m).1).run (x.run m).2 = (g (y.run m).1).run (y.run m).2
  rw [hfg, hxy]

theorem run_mapM_congr {α β : Type} {f g : α → ModelM β} (post : β → Model → Prop) {l : List α}
    (h : m.WellFormed)
    (hf : ∀ a ∈ l, ∀ m' : Model, m'.WellFormed → m.GrowsTo m' → m'.Keeps (f a) post)
    (hfg : ∀ a ∈ l, ∀ m' : Model, m'.WellFormed → m.GrowsTo m' → (f a).run m' = (g a).run m') :
    (l.mapM f).run m = (l.mapM g).run m := by
  induction l generalizing m with
  | nil => rfl
  | cons a l ih =>
      rw [List.mapM_cons, List.mapM_cons]
      have hhead := hf a List.mem_cons_self m h (GrowsTo.refl m)
      refine run_bind_congr (hfg a List.mem_cons_self m h (GrowsTo.refl m)) ?_
      refine run_bind_congr (ih hhead.wellFormed ?_ ?_) rfl
      · exact fun c hc m' hwf hgrow =>
          hf c (List.mem_cons_of_mem a hc) m' hwf (hhead.grows.trans hgrow)
      · exact fun c hc m' hwf hgrow =>
          hfg c (List.mem_cons_of_mem a hc) m' hwf (hhead.grows.trans hgrow)

theorem run_traverse_congr {f g : TypeId → ModelM TypeId} (post : TypeId → Model → Prop)
    {k : TypeKind} (h : m.WellFormed)
    (hf : ∀ p ∈ k.parts, ∀ m' : Model, m'.WellFormed → m.GrowsTo m' → m'.Keeps (f p) post)
    (hfg : ∀ p ∈ k.parts, ∀ m' : Model, m'.WellFormed → m.GrowsTo m' → (f p).run m' = (g p).run m') :
    (k.traverse f).run m = (k.traverse g).run m := by
  cases k with
  | pointer t | lvalueReference t | rvalueReference t | incompleteArray t | complex t =>
      exact run_bind_congr (hfg t (by simp [TypeKind.parts]) m h (GrowsTo.refl m)) rfl
  | constantArray t n =>
      exact run_bind_congr (hfg t (by simp [TypeKind.parts]) m h (GrowsTo.refl m)) rfl
  | memberPointer pointee klass =>
      have hpointee := hf pointee (by simp [TypeKind.parts]) m h (GrowsTo.refl m)
      refine run_bind_congr (hfg pointee (by simp [TypeKind.parts]) m h (GrowsTo.refl m)) ?_
      exact run_bind_congr
        (hfg klass (by simp [TypeKind.parts]) _ hpointee.wellFormed hpointee.grows) rfl
  | function proto =>
      have hret := hf proto.ret (by simp [TypeKind.parts]) m h (GrowsTo.refl m)
      refine run_bind_congr (hfg proto.ret (by simp [TypeKind.parts]) m h (GrowsTo.refl m)) ?_
      refine run_bind_congr (run_mapM_congr post hret.wellFormed ?_ ?_) rfl
      · exact fun p hp m' hwf hgrow =>
          hf p (by simp [TypeKind.parts, hp]) m' hwf (hret.grows.trans hgrow)
      · exact fun p hp m' hwf hgrow =>
          hfg p (by simp [TypeKind.parts, hp]) m' hwf (hret.grows.trans hgrow)
  | void | builtin _ | record _ | enum _ | typedef _ | named _ => rfl

/-- The depth to which a type is replaced is that of its place: its parts come before it, also the
parts of what it stands for, and whatever is put into the table meanwhile. -/
theorem canonicalFrom_congr (h : m.WellFormed) {t : TypeId} (ht : m.HasType t) {fuel fuel' : Nat}
    (hfuel : t.index < fuel) (hfuel' : t.index < fuel') :
    (canonicalFrom fuel t).run m = (canonicalFrom fuel' t).run m := by
  induction fuel generalizing m t fuel' with
  | zero => exact absurd hfuel (Nat.not_lt_zero _)
  | succ fuel ih =>
      obtain ⟨fuel', rfl⟩ := Nat.exists_eq_succ_of_ne_zero (n := fuel') (by omega)
      have hlook := lookThrough_keeps h [t]
      have hparts : ∀ p ∈ (m.desugared t).kind.parts, ∀ m' : Model,
          ((lookThrough [t]).run m).2.GrowsTo m' → p.index < t.index ∧ m'.HasType p := by
        intro p hp m' hgrow
        obtain ⟨hlt, hex⟩ := h.desugared_parts hp
        exact ⟨hlt, hgrow.hasType (hlook.grows.hasType hex)⟩
      unfold canonicalFrom
      refine run_bind_congr rfl (run_bind_congr rfl (run_bind_congr ?_ rfl))
      refine run_traverse_congr (fun u m' => m'.HasType u) hlook.wellFormed ?_ ?_
      · exact fun p hp m' hwf hgrow => canonicalFrom_keeps hwf fuel (hparts p hp m' hgrow).2
      · intro p hp m' hwf hgrow
        obtain ⟨hlt, hex⟩ := hparts p hp m' hgrow
        exact ih hwf hex (by omega) (by omega)

/-! ## Scopes and members -/

theorem WellFormed.ancestorsFrom_congr (h : m.WellFormed) {d : DeclId} {fuel fuel' : Nat}
    (hfuel : d.index ≤ fuel) (hfuel' : d.index ≤ fuel') :
    m.ancestorsFrom fuel d = m.ancestorsFrom fuel' d := by
  induction fuel generalizing d fuel' with
  | zero =>
      cases hparent : (m.decl d).parent with
      | none => cases fuel' <;> simp [ancestorsFrom, hparent]
      | some p => exact absurd (h.parent_lt hparent) (by omega)
  | succ fuel ih =>
      cases hparent : (m.decl d).parent with
      | none => cases fuel' <;> simp [ancestorsFrom, hparent]
      | some p =>
          have hlt := h.parent_lt hparent
          obtain ⟨fuel', rfl⟩ := Nat.exists_eq_succ_of_ne_zero (n := fuel') (by omega)
          simp only [ancestorsFrom, hparent, List.cons.injEq, true_and]
          exact ih (by omega) (by omega)

/-- The walk over the scopes around a declaration ends with the translation unit. -/
theorem WellFormed.ancestorsFrom_end (h : m.WellFormed) {d : DeclId} (hd : m.HasDecl d)
    {fuel : Nat} (hfuel : d.index ≤ fuel) :
    (d :: m.ancestorsFrom fuel d).getLast? = some root := by
  have hend : ∀ {c : DeclId}, m.HasDecl c → (m.decl c).parent = none → c = root := by
    intro c hc hnone
    by_cases hroot : c = root
    · exact hroot
    · obtain ⟨e, he⟩ := hasDecl_iff.mp hc
      obtain ⟨p, hp, _⟩ := h.parentBelow c e he hroot
      rw [decl, he, Option.getD_some, hp] at hnone
      simp at hnone
  induction fuel generalizing d with
  | zero =>
      cases hparent : (m.decl d).parent with
      | none => simp [ancestorsFrom, hend hd hparent]
      | some p => exact absurd (h.parent_lt hparent) (by omega)
  | succ fuel ih =>
      cases hparent : (m.decl d).parent with
      | none =>
          simp only [ancestorsFrom, hparent]
          rw [hend hd hparent, List.getLast?_singleton]
      | some p =>
          have hlt := h.parent_lt hparent
          simp only [ancestorsFrom, hparent, List.getLast?_cons_cons]
          exact ih (h.parent_hasDecl hparent) (by omega)

theorem WellFormed.membersNamedFrom_congr (h : m.WellFormed) (name : String) {p : DeclId}
    (hp : m.HasDecl p) {fuel fuel' : Nat} (hfuel : m.decls.size ≤ p.index + fuel)
    (hfuel' : m.decls.size ≤ p.index + fuel') :
    m.membersNamedFrom name fuel p = m.membersNamedFrom name fuel' p := by
  induction fuel generalizing p fuel' with
  | zero => exact absurd hp (Nat.not_lt.mpr hfuel)
  | succ fuel ih =>
      obtain ⟨fuel', rfl⟩ := Nat.exists_eq_succ_of_ne_zero (n := fuel') (by
        rintro rfl
        exact absurd hp (Nat.not_lt.mpr hfuel'))
      unfold membersNamedFrom
      rw [List.flatMap_def, List.flatMap_def]
      refine congrArg List.flatten (List.map_congr_left fun d hd => ?_)
      obtain ⟨hlt, hex⟩ := h.member_lt hd
      have hrest : m.membersNamedFrom name fuel d = m.membersNamedFrom name fuel' d :=
        ih hex (by omega) (by omega)
      rw [hrest]

/-! ## Together -/

/-- The type names the other one: as a part, or as what the typedef that it is stands for. -/
def Leads (m : Model) (t u : TypeId) : Prop := u ∈ (m.node t).kind.parts ∨ m.sugarStep? t = some u

theorem WellFormed.leads_lt (h : m.WellFormed) {t u : TypeId} (hu : m.Leads t u) :
    u.index < t.index :=
  hu.elim (fun hp => (h.node_parts hp).1) fun hs => (h.sugarStep?_lt hs).1

theorem WellFormed.leads_le (h : m.WellFormed) {t u : TypeId}
    (hu : Relation.ReflTransGen m.Leads t u) : u.index ≤ t.index := by
  induction hu with
  | refl => exact Nat.le_refl _
  | tail _ hstep ih => exact Nat.le_trans (Nat.le_of_lt (h.leads_lt hstep)) ih

/-- What a typedef stands for has its place before any type that names the typedef. -/
theorem WellFormed.not_leads_typedef (h : m.WellFormed) {d : DeclId} {u t : TypeId}
    (hu : (m.decl d).underlying? = some u) (hreach : Relation.ReflTransGen m.Leads u t) :
    (m.node t).kind ≠ .typedef d := by
  intro hkind
  have hstep : m.sugarStep? t = some u := by simp only [sugarStep?, hkind, hu]
  exact absurd (h.sugarStep?_lt hstep).1 (Nat.not_lt.mpr (h.leads_le hreach))

/-- Every walk over types, scopes and members ends: no walk takes steps for ever, and the answer of
a bounded walk is the same for all bounds from the place where it starts. -/
structure WalksEnd (m : Model) : Prop where
  sugar : WellFounded fun u t => m.sugarStep? t = some u
  desugar : ∀ t, m.HasType t → ∀ quals fuel, t.index ≤ fuel →
    m.desugarFrom fuel quals t = m.desugarFrom m.typeFuel quals t
  /-- What is left when typedefs are looked through is no typedef to look through. -/
  kindOf : ∀ t, m.HasType t → ∀ d, m.kindOf t = .typedef d → (m.decl d).underlying? = none
  desugared : ∀ t, m.HasType t →
    ((Model.desugar t).run m).2.sugarStep? ((Model.desugar t).run m).1 = none
  canonicalParts : WellFounded fun p t => p ∈ (m.kindOf t).parts
  canonical : ∀ t, m.HasType t → ∀ fuel, t.index < fuel →
    (canonicalFrom fuel t).run m = (Model.canonical t).run m
  pointee : WellFounded fun p t => m.pointee? t = some p
  pointeeEnd : ∀ t, m.HasType t → ∀ fuel, t.index ≤ fuel →
    m.pointeeEndFrom fuel t = m.pointeeEndFrom m.typeFuel t ∧
      m.pointee? (m.pointeeEndFrom fuel t) = none
  scope : WellFounded fun p d => (m.decl d).parent = some p
  ancestors : ∀ d, m.HasDecl d → ∀ fuel, d.index ≤ fuel →
    m.ancestorsFrom fuel d = m.ancestors d ∧ (d :: m.ancestors d).getLast? = some root
  member : WellFounded fun d p => d ∈ (m.decl p).members
  membersNamed : ∀ p, m.HasDecl p → ∀ name fuel, m.decls.size ≤ p.index + fuel →
    m.membersNamedFrom name fuel p = m.membersNamed p name
  /-- No typedef is reached from the type that it stands for. -/
  typedefs : ∀ d u, (m.decl d).underlying? = some u →
    ∀ t, Relation.ReflTransGen m.Leads u t → (m.node t).kind ≠ .typedef d

theorem WellFormed.walksEnd (h : m.WellFormed) : m.WalksEnd where
  sugar := Subrelation.wf (fun hu => (h.sugarStep?_lt hu).1) (measure TypeId.index).wf
  desugar t ht quals fuel hfuel :=
    h.desugarFrom_congr hfuel (Nat.le_of_lt (Nat.lt_succ_of_lt ht)) quals
  kindOf t ht d hd := h.desugared_end ht hd
  desugared t ht := h.desugar_end ht
  canonicalParts := Subrelation.wf (fun hp => (h.desugared_parts hp).1) (measure TypeId.index).wf
  canonical t ht fuel hfuel := canonicalFrom_congr h ht hfuel (Nat.lt_succ_of_lt ht)
  pointee := Subrelation.wf (fun hp => h.pointee?_lt hp) (measure TypeId.index).wf
  pointeeEnd t ht fuel hfuel :=
    ⟨h.pointeeEndFrom_congr hfuel (Nat.le_of_lt (Nat.lt_succ_of_lt ht)),
      h.pointeeEndFrom_end hfuel⟩
  scope := Subrelation.wf (fun hp => h.parent_lt hp) (measure DeclId.index).wf
  ancestors d hd fuel hfuel :=
    ⟨h.ancestorsFrom_congr hfuel (Nat.le_of_lt (Nat.lt_succ_of_lt hd)),
      h.ancestorsFrom_end hd (Nat.le_of_lt (Nat.lt_succ_of_lt hd))⟩
  member := by
    refine Subrelation.wf (fun {d p} hd => ?_)
      (measure fun d : DeclId => m.decls.size - d.index).wf
    obtain ⟨hlt, hex⟩ := h.member_lt hd
    have hsize : d.index < m.decls.size := hex
    change m.decls.size - d.index < m.decls.size - p.index
    omega
  membersNamed p hp name fuel hfuel :=
    h.membersNamedFrom_congr name hp hfuel (by unfold declFuel; omega)
  typedefs d u hu t hreach := h.not_leads_typedef hu hreach

/-- In every reachable model all walks end. -/
theorem Reachable.walks_terminate (h : m.Reachable) : m.WalksEnd := h.wellFormed.walksEnd

/-- A typedef of a qualified typedef of a qualified type. -/
theorem walksEnd_typedef_typedef :
    let int := ((Request.intern ⟨.builtin .int, .const⟩).perform.run empty).2
    let first := ((Request.declareTypedef root "T" ⟨0⟩).perform.run int).2
    let qualified := ((Request.intern ⟨.typedef ⟨1⟩, .volatile⟩).perform.run first).2
    let second := ((Request.declareTypedef root "U" ⟨1⟩).perform.run qualified).2
    let last := ((Request.typeOfDecl ⟨2⟩).perform.run second).2
    last.desugared ⟨2⟩ = ⟨.builtin .int, .const ∪ .volatile⟩ ∧ last.WalksEnd := by
  intro int first qualified second last
  have hint : int.Reachable := .step .empty _ ⟨by simp [TypeKind.parts], by simp [TypeKind.decl?]⟩
  have hfirst : first.Reachable := .step hint _ ⟨by decide, by decide +kernel⟩
  have hqualified : qualified.Reachable :=
    .step hfirst _ ⟨by simp [TypeKind.parts], by rintro _ ⟨rfl⟩; decide +kernel⟩
  have hsecond : second.Reachable := .step hqualified _ ⟨by decide +kernel, by decide +kernel⟩
  have hlast : last.Reachable :=
    .step hsecond (.typeOfDecl ⟨2⟩) (by change second.HasDecl ⟨2⟩; decide +kernel)
  exact ⟨by decide +kernel, Reachable.walks_terminate hlast⟩

end CppReflect.Model
