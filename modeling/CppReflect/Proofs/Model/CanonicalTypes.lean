import CppReflect.Proofs.Coherence
import CppReflect.Proofs.Hierarchy

/-!
# Canonical types written out

The canonical form of a type is built bottom up, and its parts get their places while it is built,
so what its place is depends on the types that were there. The type written out in full does not:
it is told by the type that one starts with, and more types leave it as it is. Canonical types have
one place exactly if they are written out alike.
-/

namespace CppReflect

namespace TypeTree

/-- The type at a place with its parts, down to the depth `fuel`, where `node` tells what is at a
place. -/
def ofNodes (node : TypeId → TypeNode) : Nat → TypeId → TypeTree
  | 0, t => .node (node t).kind.shape (node t).quals []
  | fuel + 1, t =>
    .node (node t).kind.shape (node t).quals ((node t).kind.parts.map (ofNodes node fuel))

/-- Where parts come first, a depth that covers the place is enough. -/
theorem ofNodes_congr {node : TypeId → TypeNode}
    (hbelow : ∀ t, ∀ p ∈ (node t).kind.parts, p.index < t.index) {t : TypeId} {fuel fuel' : Nat}
    (hfuel : t.index < fuel) (hfuel' : t.index < fuel') :
    ofNodes node fuel t = ofNodes node fuel' t := by
  induction fuel generalizing t fuel' with
  | zero => exact absurd hfuel (Nat.not_lt_zero _)
  | succ fuel ih =>
      obtain ⟨fuel', rfl⟩ := Nat.exists_eq_succ_of_ne_zero (Nat.ne_zero_of_lt hfuel')
      unfold ofNodes
      refine congrArg _ (List.map_congr_left fun p hp => ?_)
      have hlt := hbelow t p hp
      exact ih (by omega) (by omega)

/-- Only what is at the places that belong to the type matters. -/
theorem ofNodes_eq {node node' : TypeId → TypeNode} {P : TypeId → Prop}
    (hsame : ∀ t, P t → node' t = node t) (hparts : ∀ t, P t → ∀ p ∈ (node t).kind.parts, P p)
    (fuel : Nat) {t : TypeId} (ht : P t) : ofNodes node' fuel t = ofNodes node fuel t := by
  induction fuel generalizing t with
  | zero => rw [ofNodes, ofNodes, hsame t ht]
  | succ fuel ih =>
      rw [ofNodes, ofNodes, hsame t ht]
      exact congrArg _ (List.map_congr_left fun p hp => ih (hparts t ht p hp))

/-- What the type is apart from its parts. -/
def shape : TypeTree → TypeKind
  | .node shape _ _ => shape

/-- The type without qualifiers. -/
def unqualified : TypeTree → TypeTree
  | .node shape quals parts => .node shape (quals.without .all) parts

/-- What a reference refers to; any other type is its own. -/
def referred : TypeTree → TypeTree
  | .node (.lvalueReference _) _ [r] | .node (.rvalueReference _) _ [r] => r
  | T => T

/-- The type of values: without a reference and qualifiers around it. -/
def value (T : TypeTree) : TypeTree := T.referred.unqualified

end TypeTree

namespace TypeKind

theorem eq_typedef_of_shape_eq {k : TypeKind} {d : DeclId} (h : k.shape = (typedef d).shape) :
    k = .typedef d := by
  cases k <;> simp_all [shape, traverse]

theorem decl?_of_shape_eq {k l : TypeKind} (h : k.shape = l.shape) : k.decl? = l.decl? := by
  have hshape (k : TypeKind) : k.shape.decl? = k.decl? := by cases k <;> rfl
  rw [← hshape k, h, hshape]

end TypeKind

namespace Model

open TypeTree (ofNodes ofNodes_congr ofNodes_eq)

variable {m m' : Model}

theorem treeFrom_eq_ofNodes (m : Model) (fuel : Nat) : m.treeFrom fuel = ofNodes m.node fuel := by
  induction fuel with
  | zero => rfl
  | succ fuel ih =>
      funext t
      rw [treeFrom, ofNodes, ih]

/-- The canonical form of the type, written out in full. -/
def canonTree (m : Model) (t : TypeId) : TypeTree := ofNodes m.desugared m.typeFuel t

theorem WellFormed.tree_eq (h : m.WellFormed) {t : TypeId} (ht : m.HasType t) :
    m.tree t = .node (m.node t).kind.shape (m.node t).quals ((m.node t).kind.parts.map m.tree) := by
  unfold tree
  simp only [treeFrom_eq_ofNodes]
  conv_lhs => unfold typeFuel ofNodes
  refine congrArg _ (List.map_congr_left fun p hp => ?_)
  obtain ⟨hlt, hex⟩ := h.node_parts hp
  exact ofNodes_congr (fun _ _ hp => (h.node_parts hp).1) (Nat.lt_trans hlt ht)
    (Nat.lt_succ_of_lt hex)

theorem WellFormed.canonTree_eq (h : m.WellFormed) {t : TypeId} (ht : m.HasType t) :
    m.canonTree t =
      .node (m.kindOf t).shape (m.desugared t).quals ((m.kindOf t).parts.map m.canonTree) := by
  unfold canonTree
  conv_lhs => unfold typeFuel ofNodes
  refine congrArg _ (List.map_congr_left fun p hp => ?_)
  obtain ⟨hlt, hex⟩ := h.desugared_parts hp
  exact ofNodes_congr (fun _ _ hp => (h.desugared_parts hp).1) (Nat.lt_trans hlt ht)
    (Nat.lt_succ_of_lt hex)

theorem WellFormed.canonTree_nonReference (h : m.WellFormed) {t : TypeId} (ht : m.HasType t) :
    m.canonTree (m.nonReference t) = (m.canonTree t).referred := by
  rw [h.canonTree_eq ht]
  unfold nonReference
  cases hkind : m.kindOf t <;> simp [TypeKind.referee?, TypeKind.shape, TypeKind.traverse,
    TypeTree.referred, TypeKind.parts, h.canonTree_eq ht, hkind]

section Growth

variable (h : m.WellFormed) (h' : m'.WellFormed) (hgrow : m.GrowsTo m')

include h h' hgrow

/-- A type that is there stays written out as it is. -/
theorem WellFormed.tree_grows {t : TypeId} (ht : m.HasType t) : m'.tree t = m.tree t := by
  unfold tree
  rw [treeFrom_eq_ofNodes, treeFrom_eq_ofNodes]
  calc ofNodes m'.node m'.typeFuel t
      = ofNodes m'.node m.typeFuel t := ofNodes_congr (fun _ _ hp => (h'.node_parts hp).1)
          (Nat.lt_succ_of_lt (hgrow.hasType ht)) (Nat.lt_succ_of_lt ht)
    _ = ofNodes m.node m.typeFuel t := ofNodes_eq (fun _ hu => hgrow.node hu)
          (fun _ _ _ hp => (h.node_parts hp).2) _ ht

theorem WellFormed.canonTree_grows {t : TypeId} (ht : m.HasType t) :
    m'.canonTree t = m.canonTree t := by
  unfold canonTree
  calc ofNodes m'.desugared m'.typeFuel t
      = ofNodes m'.desugared m.typeFuel t := ofNodes_congr (fun _ _ hp => (h'.desugared_parts hp).1)
          (Nat.lt_succ_of_lt (hgrow.hasType ht)) (Nat.lt_succ_of_lt ht)
    _ = ofNodes m.desugared m.typeFuel t := ofNodes_eq (fun _ hu => h.desugared_grows hgrow h' hu)
          (fun _ _ _ hp => (h.desugared_parts hp).2) _ ht

end Growth

/-! ## Types without typedefs -/

/-- The type is written out as the tree, and no typedef in it is left to look through. -/
structure Written (m : Model) (T : TypeTree) (t : TypeId) : Prop where
  hasType : m.HasType t
  tree : m.tree t = T
  canonTree : m.canonTree t = T

theorem desugared_of_none {t : TypeId} (h : m.sugarStep? t = none) : m.desugared t = m.node t := by
  rw [desugared, desugarFrom_of_none h, Quals.none_union]

namespace Written

variable {S T : TypeTree} {s t : TypeId}

theorem grows (ht : m.Written T t) (h : m.WellFormed) (h' : m'.WellFormed)
    (hgrow : m.GrowsTo m') : m'.Written T t where
  hasType := hgrow.hasType ht.hasType
  tree := (h.tree_grows h' hgrow ht.hasType).trans ht.tree
  canonTree := (h.canonTree_grows h' hgrow ht.hasType).trans ht.canonTree

/-- Written out alike, types have one place. -/
theorem eq_iff (hs : m.Written S s) (ht : m.Written T t) (h : m.WellFormed) : s = t ↔ S = T := by
  rw [← hs.tree, ← ht.tree]
  refine ⟨fun heq => heq ▸ rfl, ?_⟩
  exact h.eq_of_treeFrom hs.hasType ht.hasType (Nat.lt_succ_of_lt hs.hasType)
    (Nat.lt_succ_of_lt ht.hasType)

/-- A typedef that is looked through is told from what it stands for by the shape. -/
theorem sugarStep?_eq_none (ht : m.Written T t) (h : m.WellFormed) : m.sugarStep? t = none := by
  have hshape : (m.node t).kind.shape = (m.kindOf t).shape := by
    have htree := ht.tree.trans ht.canonTree.symm
    rw [h.tree_eq ht.hasType, h.canonTree_eq ht.hasType] at htree
    exact (TypeTree.node.inj htree).1
  unfold sugarStep?
  split
  next d hkind =>
    rw [hkind] at hshape
    exact h.desugared_end ht.hasType (TypeKind.eq_typedef_of_shape_eq hshape.symm)
  next => rfl

theorem kindOf (ht : m.Written T t) (h : m.WellFormed) : m.kindOf t = (m.node t).kind :=
  congrArg TypeNode.kind (desugared_of_none (ht.sugarStep?_eq_none h))

theorem shape (ht : m.Written T t) (h : m.WellFormed) : T.shape = (m.node t).kind.shape := by
  rw [← ht.tree, h.tree_eq ht.hasType]
  rfl

/-- The parts of the type are written out as the parts of the tree. -/
theorem exists_parts (ht : m.Written T t) (h : m.WellFormed) :
    T = .node (m.node t).kind.shape (m.node t).quals ((m.node t).kind.parts.map m.tree) ∧
      ∀ p ∈ (m.node t).kind.parts, m.Written (m.tree p) p := by
  have htree := ht.tree.symm.trans (h.tree_eq ht.hasType)
  refine ⟨htree, fun p hp => ⟨(h.node_parts hp).2, rfl, ?_⟩⟩
  have hcanon := ht.canonTree.symm.trans (h.canonTree_eq ht.hasType)
  rw [htree, ht.kindOf h] at hcanon
  exact (List.map_inj_left.mp (TypeTree.node.inj hcanon).2.2 p hp).symm

/-- A type that is no typedef is written out if its parts are. -/
theorem of_parts {g : TypeId → TypeTree} (h : m.WellFormed) (ht : m.HasType t)
    (hsugar : m.sugarStep? t = none) {ps : List TypeId}
    (hparts : List.Forall₂ (fun p q => m.Written (g p) q) ps (m.node t).kind.parts) :
    m.Written (.node (m.node t).kind.shape (m.node t).quals (ps.map g)) t := by
  have hmap (f : TypeId → TypeTree) (hf : ∀ T q, m.Written T q → T = f q) :
      ps.map g = (m.node t).kind.parts.map f := by
    rw [← List.forall₂_eq_eq_eq, List.forall₂_map_left_iff, List.forall₂_map_right_iff]
    exact hparts.imp fun _ _ hq => hf _ _ hq
  refine ⟨ht, ?_, ?_⟩
  · rw [h.tree_eq ht, hmap m.tree fun _ _ hq => hq.tree.symm]
  · rw [h.canonTree_eq ht, Model.kindOf, desugared_of_none hsugar,
      hmap m.canonTree fun _ _ hq => hq.canonTree.symm]

end Written

/-! ## Building canonical types -/

theorem forall_mem_of_forall₂ {α β : Type} {R : α → β → Prop} {P : β → Prop} {l : List α}
    {k : List β} (h : List.Forall₂ R l k) (hP : ∀ a b, R a b → P b) : ∀ b ∈ k, P b := by
  induction h with
  | nil => exact fun _ hb => absurd hb List.not_mem_nil
  | cons hab _ ih => exact List.forall_mem_cons.mpr ⟨hP _ _ hab, ih⟩

/-- Computations on the elements of a list, with what each answers told by its element. -/
theorem Keeps.mapM_forall₂ {α β : Type} {f : α → ModelM β} {P : α → β → Model → Prop}
    (hlasting : ∀ {a b} {n n' : Model}, n.WellFormed → n'.WellFormed → n.GrowsTo n' → P a b n →
      P a b n') {l : List α} (h : m.WellFormed)
    (hf : ∀ a ∈ l, ∀ m', m'.WellFormed → m.GrowsTo m' → m'.Keeps (f a) (P a)) :
    m.Keeps (l.mapM f) fun bs m' => List.Forall₂ (fun a b => P a b m') l bs := by
  induction l generalizing m with
  | nil => exact Keeps.pure h .nil
  | cons a l ih =>
      rw [List.mapM_cons]
      refine (hf a List.mem_cons_self m h (GrowsTo.refl m)).bind fun b m₁ hwf₁ hgrow₁ hb => ?_
      refine Keeps.bind (ih hwf₁ fun c hc m' hwf hgrow =>
        hf c (List.mem_cons_of_mem a hc) m' hwf (hgrow₁.trans hgrow))
          fun bs m₂ hwf₂ hgrow₂ hbs => ?_
      exact Keeps.pure hwf₂ (.cons (hlasting hwf₁ hwf₂ hgrow₂ hb) hbs)

/-- Rebuilding a type of parts that are written out as `g` tells. -/
theorem traverse_written (h : m.WellFormed) {f : TypeId → ModelM TypeId} {g : TypeId → TypeTree}
    {k : TypeKind} (hf : ∀ p ∈ k.parts, ∀ m', m'.WellFormed → m.GrowsTo m' →
      m'.Keeps (f p) fun q m'' => m''.Written (g p) q) :
    m.Keeps (k.traverse f) fun k' m' =>
      k'.shape = k.shape ∧ List.Forall₂ (fun p q => m'.Written (g p) q) k.parts k'.parts := by
  have hone : ∀ t, k.parts = [t] → ∀ make : TypeId → TypeKind, (∀ u, (make u).parts = [u]) →
      (∀ u, (make u).shape = k.shape) → m.Keeps (do return make (← f t)) fun k' m' =>
        k'.shape = k.shape ∧ List.Forall₂ (fun p q => m'.Written (g p) q) k.parts k'.parts := by
    intro t hparts make hmake hshape
    refine (hf t (by simp [hparts]) m h (GrowsTo.refl m)).bind fun u m' hwf _ hu => ?_
    exact Keeps.pure hwf ⟨hshape u, by rw [hparts, hmake]; exact .cons hu .nil⟩
  cases k with
  | pointer t | lvalueReference t | rvalueReference t | incompleteArray t | complex t =>
      exact hone t rfl _ (fun _ => rfl) fun _ => rfl
  | constantArray t n => exact hone t rfl (.constantArray · n) (fun _ => rfl) fun _ => rfl
  | memberPointer pointee klass =>
      refine (hf pointee (by simp [TypeKind.parts]) m h (GrowsTo.refl m)).bind
        fun p m₁ hwf₁ hgrow₁ hp => ?_
      refine (hf klass (by simp [TypeKind.parts]) m₁ hwf₁ hgrow₁).bind fun c m₂ hwf₂ hgrow₂ hc => ?_
      exact Keeps.pure hwf₂ ⟨rfl, .cons (hp.grows hwf₁ hwf₂ hgrow₂) (.cons hc .nil)⟩
  | function proto =>
      refine (hf proto.ret (by simp [TypeKind.parts]) m h (GrowsTo.refl m)).bind
        fun ret m₁ hwf₁ hgrow₁ hret => ?_
      refine (Keeps.mapM_forall₂ (P := fun p q m' => m'.Written (g p) q)
        (fun hwf hwf' hgrow hq => hq.grows hwf hwf' hgrow) hwf₁ fun p hp m' hwf hgrow =>
          hf p (by simp [TypeKind.parts, hp]) m' hwf (hgrow₁.trans hgrow)).bind
        fun params m₂ hwf₂ hgrow₂ hparams => ?_
      refine Keeps.pure hwf₂ ⟨?_, .cons (hret.grows hwf₁ hwf₂ hgrow₂) hparams⟩
      simp [TypeKind.shape, TypeKind.traverse, List.map_const', hparams.length_eq]
  | void | builtin _ | record _ | enum _ | typedef _ | named _ => exact Keeps.pure h ⟨rfl, .nil⟩

/-- What the canonical form of a type is built as. -/
theorem canonicalFrom_written (h : m.WellFormed) (fuel : Nat) {t : TypeId} (ht : m.HasType t)
    (hfuel : t.index < fuel) :
    m.Keeps (canonicalFrom fuel t) fun u m' => m'.Written (m.canonTree t) u := by
  induction fuel generalizing m t with
  | zero => exact absurd hfuel (Nat.not_lt_zero _)
  | succ fuel ih =>
      refine Keeps.get_bind <| (lookThrough_keeps h [t]).bind fun _ m₁ hwf₁ hgrow₁ _ => ?_
      refine (traverse_written (g := m.canonTree) hwf₁ fun p hp m' hwf hgrow => ?_).bind
        fun k m₂ hwf₂ hgrow₂ ⟨hshape, hparts⟩ => ?_
      · obtain ⟨hlt, hex⟩ := h.desugared_parts hp
        have hgrown := hgrow₁.trans hgrow
        rw [← h.canonTree_grows hwf hgrown hex]
        exact ih hwf (hgrown.hasType hex) (by omega)
      · have hgrown := hgrow₁.trans hgrow₂
        have hexist := forall_mem_of_forall₂ hparts fun _ _ hq => hq.hasType
        refine (intern_keeps hwf₂ hexist fun d hd => ?_).weaken fun u m₃ hwf₃ hgrow₃ hu => ?_
        · rw [TypeKind.decl?_of_shape_eq hshape] at hd
          exact hgrown.hasDecl (h.desugared_decl? hd)
        · have hnode := node_of_get? hu
          -- what is left of the typedefs at the top is no typedef to look through
          have hsugar : m₃.sugarStep? u = none := by
            unfold sugarStep?
            rw [hnode]
            split
            next d hkind =>
              have hkind' : m.kindOf t = .typedef d :=
                TypeKind.eq_typedef_of_shape_eq (hshape.symm.trans (congrArg _ hkind))
              have hdecl : m.HasDecl d :=
                h.desugared_decl? (t := t) (by rw [show (m.desugared t).kind = _ from hkind']; rfl)
              rw [((hgrown.trans hgrow₃).decl hdecl).underlying?]
              exact h.desugared_end ht hkind'
            next => rfl
          have hparts₃ : List.Forall₂ (fun p q => m₃.Written (m.canonTree p) q)
              (m.kindOf t).parts (m₃.node u).kind.parts := by
            rw [hnode]
            exact hparts.imp fun _ _ hq => hq.grows hwf₂ hwf₃ hgrow₃
          have hwritten := Written.of_parts hwf₃ (hasType_of_get? hu) hsugar hparts₃
          rw [hnode, hshape, ← kindOf, ← h.canonTree_eq ht] at hwritten
          exact hwritten

theorem canonical_written (h : m.WellFormed) {t : TypeId} (ht : m.HasType t) :
    m.Keeps (canonical t) fun u m' => m'.Written (m.canonTree t) u :=
  Keeps.get_bind <| canonicalFrom_written h m.typeFuel ht (Nat.lt_succ_of_lt ht)

/-- Taking the qualifiers of a type away. -/
theorem unqualified_written (h : m.WellFormed) {T : TypeTree} {t : TypeId} (ht : m.Written T t) :
    m.Keeps (unqualified t) fun u m' => m'.Written T.unqualified u := by
  refine (withoutQuals_keeps h t .all).weaken fun u m' hwf hgrow hu => ?_
  have hnode := node_of_get? hu
  obtain ⟨htree, hparts⟩ := ht.exists_parts h
  have hsugar : m'.sugarStep? u = none := by
    have hold := (ht.grows h hwf hgrow).sugarStep?_eq_none hwf
    unfold sugarStep? at hold ⊢
    rw [hgrow.node ht.hasType] at hold
    rw [hnode]
    exact hold
  have hparts' : List.Forall₂ (fun p q => m'.Written (m.tree p) q)
      (m.node t).kind.parts (m'.node u).kind.parts := by
    rw [hnode]
    exact List.forall₂_same.mpr fun p hp => (hparts p hp).grows h hwf hgrow
  have hwritten := Written.of_parts hwf (hasType_of_get? hu) hsugar hparts'
  rw [hnode] at hwritten
  rw [htree]
  exact hwritten

end Model

end CppReflect
