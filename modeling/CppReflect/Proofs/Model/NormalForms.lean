import CppReflect.Proofs.Model.CanonicalTypes

/-!
# Canonical types are normal forms

No typedef is met in a canonical type, however deep one looks. Building the canonical form of one
that is built already, of a typedef or of a qualified type comes to a canonical type that can be
told in advance. Such laws compare places, and a place hangs on what is in the table already: they
hold of two computations that are run one after the other, with any operations before and between
them.
-/

namespace CppReflect

namespace TypeTree

/-- The type with qualifiers added. -/
def qualified (q : Quals) : TypeTree → TypeTree
  | .node shape quals parts => .node shape (quals ∪ q) parts

end TypeTree

namespace Model

variable {m m' : Model}

/-! ## Typedefs with qualifiers -/

theorem desugarFrom_union (m : Model) (fuel : Nat) (q r : Quals) (t : TypeId) :
    m.desugarFrom fuel (q ∪ r) t =
      ⟨(m.desugarFrom fuel r t).kind, q ∪ (m.desugarFrom fuel r t).quals⟩ := by
  induction fuel generalizing r t with
  | zero => simp only [desugarFrom, Quals.union_assoc]
  | succ fuel ih =>
      unfold desugarFrom
      split
      next u _ => rw [Quals.union_assoc, ih]
      next => rw [Quals.union_assoc]

/-- A typedef with qualifiers is what it stands for with those qualifiers. -/
theorem WellFormed.desugared_of_sugarStep? (h : m.WellFormed) {t u : TypeId} (ht : m.HasType t)
    (hu : m.sugarStep? t = some u) :
    m.desugared t = ⟨m.kindOf u, (m.desugared u).quals ∪ (m.node t).quals⟩ := by
  have hlt := (h.sugarStep?_lt hu).1
  have hfuel : t.index < m.typeFuel := Nat.lt_succ_of_lt ht
  have hsame : m.desugarFrom m.types.size .none u = m.desugared u :=
    h.desugarFrom_congr (Nat.le_of_lt (Nat.lt_trans hlt ht)) (by omega) .none
  have hunion := m.desugarFrom_union m.types.size (m.node t).quals .none u
  rw [hsame] at hunion
  calc m.desugared t
      = m.desugarFrom m.types.size (.none ∪ (m.node t).quals) u := by
        rw [desugared, typeFuel, desugarFrom, hu]
    _ = m.desugarFrom m.types.size ((m.node t).quals ∪ .none) u := by rw [Quals.union_comm]
    _ = _ := by rw [hunion, kindOf, Quals.union_comm]

/-- Qualifiers that are added to a type are added to what it stands for. -/
theorem WellFormed.desugared_of_node (h : m.WellFormed) {s t : TypeId} (hs : m.HasType s)
    (ht : m.HasType t) {q : Quals} (hnode : m.node s = ⟨(m.node t).kind, (m.node t).quals ∪ q⟩) :
    m.desugared s = ⟨m.kindOf t, (m.desugared t).quals ∪ q⟩ := by
  have hstep : m.sugarStep? s = m.sugarStep? t := by rw [sugarStep?, sugarStep?, hnode]
  cases hu : m.sugarStep? t with
  | none => rw [kindOf, desugared_of_none (hstep.trans hu), desugared_of_none hu, hnode]
  | some u =>
      have hfront := h.desugared_of_sugarStep? ht hu
      rw [h.desugared_of_sugarStep? hs (hstep.trans hu), kindOf, kindOf, hfront, hnode, kindOf,
        Quals.union_assoc]

theorem WellFormed.canonTree_of_node (h : m.WellFormed) {s t : TypeId} (hs : m.HasType s)
    (ht : m.HasType t) {q : Quals} (hnode : m.node s = ⟨(m.node t).kind, (m.node t).quals ∪ q⟩) :
    m.canonTree s = (m.canonTree t).qualified q := by
  rw [h.canonTree_eq hs, h.canonTree_eq ht, kindOf, h.desugared_of_node hs ht hnode]
  rfl

/-- A typedef without qualifiers is what it stands for. -/
theorem WellFormed.canonTree_typedef (h : m.WellFormed) {t u : TypeId} {d : DeclId}
    (ht : m.HasType t) (hnode : m.node t = ⟨.typedef d, .none⟩)
    (hu : (m.decl d).underlying? = some u) : m.canonTree t = m.canonTree u := by
  have hstep : m.sugarStep? t = some u := by rw [sugarStep?, hnode]; exact hu
  rw [h.canonTree_eq ht, h.canonTree_eq (h.sugarStep?_lt hstep).2, kindOf,
    h.desugared_of_sugarStep? ht hstep, hnode, Quals.union_comm, Quals.none_union, kindOf]

/-! ## Inside a canonical type -/

/-- A type that the type is made of, or the type itself. -/
def Within (m : Model) : TypeId → TypeId → Prop :=
  Relation.ReflTransGen fun t p => p ∈ (m.node t).kind.parts

/-- What stands inside a canonical form is the canonical form of something. -/
theorem Written.within (h : m.WellFormed) (h' : m'.WellFormed) {t u v : TypeId} (ht : m.HasType t)
    (hu : m'.Written (m.canonTree t) u) (hv : m'.Within u v) :
    ∃ s, m.HasType s ∧ m'.Written (m.canonTree s) v := by
  induction hv with
  | refl => exact ⟨t, ht, hu⟩
  | tail _ hp ih =>
      obtain ⟨s, hs, hs'⟩ := ih
      obtain ⟨htree, hparts⟩ := hs'.exists_parts h'
      have hwritten := hparts _ hp
      rw [h.canonTree_eq hs] at htree
      have hmem := List.mem_map_of_mem (f := m'.tree) hp
      rw [← (TypeTree.node.inj htree).2.2] at hmem
      obtain ⟨r, hr, hsame⟩ := List.mem_map.mp hmem
      exact ⟨r, (h.desugared_parts hr).2, hsame ▸ hwritten⟩

/-- From every later model on, the computation answers a type that is written out as the tree. -/
def Builds (m : Model) (x : ModelM TypeId) (T : TypeTree) : Prop :=
  ∀ m₁ : Model, m₁.WellFormed → m.GrowsTo m₁ → m₁.Keeps x fun u m' => m'.Written T u

/-- The two computations answer the same place, whichever is run first, whatever is in the table
before and whatever is done in between. -/
def Agree (m : Model) (x y : ModelM TypeId) : Prop :=
  ∀ m₁ m₂ : Model, m₁.Reachable → m₂.Reachable → m.GrowsTo m₁ →
    ((x.run m₁).2.GrowsTo m₂ → (y.run m₂).1 = (x.run m₁).1) ∧
      ((y.run m₁).2.GrowsTo m₂ → (x.run m₂).1 = (y.run m₁).1)

namespace Builds

variable {x y : ModelM TypeId} {S T : TypeTree}

theorem bind {f : TypeId → ModelM TypeId} (hx : m.Builds x T)
    (hf : ∀ (m₁ : Model) (u : TypeId), m₁.WellFormed → m₁.Written T u →
      m₁.Keeps (f u) fun v m' => m'.Written S v) : m.Builds (x >>= f) S := by
  intro m₁ hwf₁ hgrow₁
  exact (hx m₁ hwf₁ hgrow₁).bind fun u m₂ hwf₂ _ hu => hf m₂ u hwf₂ hu

/-- Run later, a computation that builds the same type finds it at the same place. -/
theorem answer_eq (hx : m.Builds x T) (hy : m.Builds y T) {m₁ m₂ : Model} (hwf₁ : m₁.WellFormed)
    (hwf₂ : m₂.WellFormed) (hgrow₁ : m.GrowsTo m₁) (hgrow₂ : (x.run m₁).2.GrowsTo m₂) :
    (y.run m₂).1 = (x.run m₁).1 := by
  have hfirst := hx m₁ hwf₁ hgrow₁
  have hsecond := hy m₂ hwf₂ ((hgrow₁.trans hfirst.grows).trans hgrow₂)
  have hlast := hfirst.answer.grows hfirst.wellFormed hsecond.wellFormed
    (hgrow₂.trans hsecond.grows)
  exact (hsecond.answer.eq_iff hlast hsecond.wellFormed).mpr rfl

theorem agree (hx : m.Builds x T) (hy : m.Builds y T) : m.Agree x y :=
  fun _ _ h₁ h₂ hgrow => ⟨hx.answer_eq hy h₁.wellFormed h₂.wellFormed hgrow,
    hy.answer_eq hx h₁.wellFormed h₂.wellFormed hgrow⟩

end Builds

theorem canonical_builds (h : m.WellFormed) {t : TypeId} (ht : m.HasType t) :
    m.Builds (canonical t) (m.canonTree t) := by
  intro m₁ hwf₁ hgrow₁
  rw [← h.canonTree_grows hwf₁ hgrow₁ ht]
  exact canonical_written hwf₁ (hgrow₁.hasType ht)

/-- A canonical type is its own canonical form. -/
theorem Written.canonical_keeps {T : TypeTree} {t : TypeId} (ht : m.Written T t)
    (h : m.WellFormed) : m.Keeps (canonical t) fun u m' => m'.Written T u := by
  have hkeeps := canonical_written h ht.hasType
  rwa [ht.canonTree] at hkeeps

/-- Qualifiers may be added to a canonical type: it stays one. -/
theorem Written.withQuals_keeps {T : TypeTree} {t : TypeId} (ht : m.Written T t) (h : m.WellFormed)
    (q : Quals) : m.Keeps (withQuals t q) fun u m' => m'.Written (T.qualified q) u := by
  refine (Model.withQuals_keeps h t q).weaken fun u m' hwf hgrow hu => ?_
  have hgrown := ht.grows h hwf hgrow
  have hnode : m'.node u = ⟨(m'.node t).kind, (m'.node t).quals ∪ q⟩ := by
    rw [node_of_get? hu, hgrow.node ht.hasType]
  have hex := hasType_of_get? hu
  refine ⟨hex, ?_, ?_⟩
  · rw [hwf.tree_eq hex, hnode, ← hgrown.tree, hwf.tree_eq hgrown.hasType]
    rfl
  · rw [hwf.canonTree_of_node hex hgrown.hasType hnode, hgrown.canonTree]

/-! ## Together -/

end Model

end CppReflect
