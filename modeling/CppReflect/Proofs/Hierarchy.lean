import CppReflect.Proofs.Model.Amendment
import CppReflect.Proofs.Walks
import CppReflect.Query.Function
import Mathlib.Data.Finset.Card
import Mathlib.Logic.Relation

/-!
# Walks over base classes

The walks over the base classes of a class do not note where they have been: they end because no
class is a base of itself. The number of classes that are still ahead of a walk then falls at every
step, the bound that a walk carries is never used up, and any greater bound gives the same answer.
-/

namespace CppReflect.Model

variable {m m' : Model}

/-- The class names the other one as a direct base. -/
def Derives (m : Model) (derived base : DeclId) : Prop := base ∈ m.baseRecords derived

/-- No class is a base of itself, directly or not. -/
def Acyclic (m : Model) : Prop := ∀ d, ¬ Relation.TransGen m.Derives d d

/-- Where each class comes after its bases, no class is a base of itself. -/
theorem acyclic_of_lt (h : ∀ i < m.decls.size, ∀ b ∈ m.baseRecords ⟨i⟩, b.index < i) :
    m.Acyclic := by
  have hstep : ∀ {d b}, m.Derives d b → b.index < d.index := by
    intro d b hd
    by_cases hi : d.index < m.decls.size
    · exact h d.index hi b hd
    · -- there is no such declaration, so it has no bases
      rw [Derives, baseRecords, record?, decl?, Array.getElem?_eq_none (Nat.le_of_not_lt hi)] at hd
      exact absurd hd List.not_mem_nil
  have hbelow : ∀ {d b}, Relation.TransGen m.Derives d b → b.index < d.index := by
    intro d b hd
    induction hd with
    | single hd => exact hstep hd
    | tail _ hd ih => exact Nat.lt_trans (hstep hd) ih
  exact fun d hd => Nat.lt_irrefl _ (hbelow hd)

open Classical in
/-- The number of classes that a class is derived from. -/
noncomputable def ahead (m : Model) (d : DeclId) : Nat :=
  ((Finset.range m.decls.size).filter fun i => Relation.TransGen m.Derives d ⟨i⟩).card

theorem ahead_lt_declFuel (m : Model) (d : DeclId) : m.ahead d < m.declFuel := by
  classical
  unfold ahead declFuel
  refine Nat.lt_succ_of_le ((Finset.card_filter_le _ _).trans ?_)
  rw [Finset.card_range]

theorem Acyclic.ahead_lt (h : m.Acyclic) {d b : DeclId} (hb : m.HasDecl b) (hd : m.Derives d b) :
    m.ahead b < m.ahead d := by
  classical
  refine Finset.card_lt_card ⟨fun i hi => ?_, fun hsub => ?_⟩
  · rw [Finset.mem_filter] at hi ⊢
    exact ⟨hi.1, Relation.TransGen.head hd hi.2⟩
  · -- the base itself is ahead of the class, and not ahead of the base
    have hmem : b.index ∈ (Finset.range m.decls.size).filter fun i =>
        Relation.TransGen m.Derives d ⟨i⟩ :=
      Finset.mem_filter.mpr ⟨Finset.mem_range.mpr hb, .single hd⟩
    exact h b (Finset.mem_filter.mp (hsub hmem)).2

theorem WellFormed.baseRecord_hasDecl (h : m.WellFormed) {d b : DeclId} (hd : m.Derives d b) :
    m.HasDecl b := by
  obtain ⟨s, -, hs⟩ := List.mem_filterMap.mp hd
  unfold recordNamed? at hs
  split at hs
  next r hkind =>
    cases hs
    exact h.desugared_decl? (by rw [show (m.desugared s.type).kind = _ from hkind]; rfl)
  next => cases hs

theorem WellFormed.base_hasType (h : m.WellFormed) {d : DeclId} {b : BaseSpecifier}
    (hb : b ∈ m.basesOf d) : m.HasType b.type := by
  unfold basesOf at hb
  cases hd : m.decl? d with
  | none => simp [hd] at hb
  | some e =>
      rw [hd, Option.elim_some, Decl.bases, Decl.record?] at hb
      split at hb
      next info hkind =>
        refine h.types d e hd b.type ?_
        rw [hkind]
        exact List.mem_append_left _ (List.mem_map_of_mem hb)
      next => simp at hb

/-! ## Bounded walks -/

theorem mem_indexedBases {d b : DeclId} {i : Nat} (h : (i, b) ∈ m.indexedBases d) :
    m.Derives d b := by
  obtain ⟨⟨s, j⟩, hs, hb⟩ := List.mem_filterMap.mp h
  obtain ⟨c, hc, heq⟩ := Option.map_eq_some_iff.mp hb
  cases heq
  exact List.mem_filterMap.mpr ⟨s, (List.mem_zipIdx hs).2.2 ▸ List.getElem_mem _, hc⟩

theorem findSome?_congr {α β : Type} {f g : α → Option β} {l : List α}
    (h : ∀ a ∈ l, f a = g a) : l.findSome? f = l.findSome? g := by
  induction l with
  | nil => rfl
  | cons a l ih =>
      rw [List.findSome?_cons, List.findSome?_cons, h a List.mem_cons_self,
        ih fun b hb => h b (List.mem_cons_of_mem a hb)]

theorem firstNonempty_congr {α β : Type} {f g : α → List β} {l : List α}
    (h : ∀ a ∈ l, f a = g a) : firstNonempty f l = firstNonempty g l := by
  induction l with
  | nil => rfl
  | cons a l ih =>
      rw [firstNonempty, firstNonempty, h a List.mem_cons_self,
        ih fun b hb => h b (List.mem_cons_of_mem a hb)]

section Walks

variable (h : m.Acyclic) (hwf : m.WellFormed)

include h hwf

/-- A step to a base leaves enough of a bound that covers what was ahead. -/
theorem Acyclic.covers {d b : DeclId} {fuel : Nat} (hd : m.Derives d b)
    (hfuel : m.ahead d < fuel + 1) : m.ahead b < fuel :=
  Nat.lt_of_lt_of_le (h.ahead_lt (hwf.baseRecord_hasDecl hd) hd) (Nat.le_of_lt_succ hfuel)

theorem Acyclic.basePathFrom_congr (base : DeclId) {d : DeclId} {fuel fuel' : Nat}
    (hfuel : m.ahead d < fuel) (hfuel' : m.ahead d < fuel') :
    m.basePathFrom base fuel d = m.basePathFrom base fuel' d := by
  induction fuel generalizing d fuel' with
  | zero => exact absurd hfuel (Nat.not_lt_zero _)
  | succ fuel ih =>
      obtain ⟨fuel', rfl⟩ := Nat.exists_eq_succ_of_ne_zero (Nat.ne_zero_of_lt hfuel')
      unfold basePathFrom
      refine findSome?_congr ?_
      rintro ⟨i, b⟩ hb
      -- a base has fewer classes ahead, so what is left of the bounds covers it
      have hd := mem_indexedBases hb
      dsimp only
      rw [ih (h.covers hwf hd hfuel) (h.covers hwf hd hfuel')]

theorem Acyclic.lookupInFrom_congr (name : String) {d : DeclId} {fuel fuel' : Nat}
    (hfuel : m.ahead d < fuel) (hfuel' : m.ahead d < fuel') :
    m.lookupInFrom name fuel d = m.lookupInFrom name fuel' d := by
  induction fuel generalizing d fuel' with
  | zero => exact absurd hfuel (Nat.not_lt_zero _)
  | succ fuel ih =>
      obtain ⟨fuel', rfl⟩ := Nat.exists_eq_succ_of_ne_zero (Nat.ne_zero_of_lt hfuel')
      have hbases : firstNonempty (m.lookupInFrom name fuel) (m.baseRecords d) =
          firstNonempty (m.lookupInFrom name fuel') (m.baseRecords d) :=
        firstNonempty_congr fun b hd => ih (h.covers hwf hd hfuel) (h.covers hwf hd hfuel')
      unfold lookupInFrom
      rw [hbases]

theorem Acyclic.hasMemberNamedFrom_congr (name : String) {d : DeclId} {fuel fuel' : Nat}
    (hfuel : m.ahead d < fuel) (hfuel' : m.ahead d < fuel') :
    m.hasMemberNamedFrom name fuel d = m.hasMemberNamedFrom name fuel' d := by
  induction fuel generalizing d fuel' with
  | zero => exact absurd hfuel (Nat.not_lt_zero _)
  | succ fuel ih =>
      obtain ⟨fuel', rfl⟩ := Nat.exists_eq_succ_of_ne_zero (Nat.ne_zero_of_lt hfuel')
      unfold hasMemberNamedFrom
      refine congrArg _ ?_
      rw [Bool.eq_iff_iff, List.any_eq_true, List.any_eq_true]
      refine exists_congr fun b => and_congr_right fun hd => ?_
      rw [ih (h.covers hwf hd hfuel) (h.covers hwf hd hfuel')]

theorem Acyclic.operatorsFrom_congr (op : Operator) (arity : Arity) {d : DeclId}
    {fuel fuel' : Nat} (hfuel : m.ahead d < fuel) (hfuel' : m.ahead d < fuel') :
    Query.operatorsFrom m op arity fuel d = Query.operatorsFrom m op arity fuel' d := by
  induction fuel generalizing d fuel' with
  | zero => exact absurd hfuel (Nat.not_lt_zero _)
  | succ fuel ih =>
      obtain ⟨fuel', rfl⟩ := Nat.exists_eq_succ_of_ne_zero (Nat.ne_zero_of_lt hfuel')
      unfold Query.operatorsFrom
      rw [List.flatMap_def, List.flatMap_def]
      refine congrArg _ (congrArg List.flatten (List.map_congr_left fun b hd => ?_))
      exact ih (h.covers hwf hd hfuel) (h.covers hwf hd hfuel')

end Walks

/-- Every walk over base classes ends: no walk takes steps for ever, and the answer of a bounded
walk is the same for all bounds from the one that the queries carry. -/
structure HierarchyEnds (m : Model) : Prop where
  derives : WellFounded fun b d => m.Derives d b
  basePath : ∀ base d fuel, m.declFuel ≤ fuel → m.basePathFrom base fuel d = m.basePath? d base
  lookupIn : ∀ name d fuel, m.declFuel ≤ fuel → m.lookupInFrom name fuel d = m.lookupIn d name
  hasMemberNamed : ∀ name d fuel, m.declFuel ≤ fuel →
    m.hasMemberNamedFrom name fuel d = m.hasMemberNamed d name
  operators : ∀ op arity d fuel, m.declFuel ≤ fuel →
    Query.operatorsFrom m op arity fuel d = Query.operatorsFrom m op arity m.declFuel d

theorem Acyclic.hierarchyEnds (h : m.Acyclic) (hwf : m.WellFormed) : m.HierarchyEnds := by
  have hahead : ∀ {d fuel}, m.declFuel ≤ fuel → m.ahead d < fuel := fun hfuel =>
    Nat.lt_of_lt_of_le (m.ahead_lt_declFuel _) hfuel
  exact {
    derives := Subrelation.wf (fun hd => h.ahead_lt (hwf.baseRecord_hasDecl hd) hd)
      (measure m.ahead).wf
    basePath := fun base d fuel hfuel =>
      h.basePathFrom_congr hwf base (hahead hfuel) (hahead (Nat.le_refl _))
    lookupIn := fun name d fuel hfuel =>
      h.lookupInFrom_congr hwf name (hahead hfuel) (hahead (Nat.le_refl _))
    hasMemberNamed := fun name d fuel hfuel =>
      h.hasMemberNamedFrom_congr hwf name (hahead hfuel) (hahead (Nat.le_refl _))
    operators := fun op arity d fuel hfuel =>
      h.operatorsFrom_congr hwf op arity (hahead hfuel) (hahead (Nat.le_refl _)) }

/-! ## The same bases in a later model -/

section Growth

variable (h : m.WellFormed) (hgrow : m.GrowsTo m')

include h hgrow

theorem WellFormed.sugarStep?_grows {t : TypeId} (ht : m.HasType t) :
    m'.sugarStep? t = m.sugarStep? t := by
  unfold sugarStep?
  rw [hgrow.node ht]
  split
  next d hkind => exact (hgrow.decl (h.node_decl? (by rw [hkind]; rfl))).underlying?
  next => rfl

theorem WellFormed.desugarFrom_grows (fuel : Nat) {t : TypeId} (ht : m.HasType t) (quals : Quals) :
    m'.desugarFrom fuel quals t = m.desugarFrom fuel quals t := by
  induction fuel generalizing t quals with
  | zero => rw [desugarFrom, desugarFrom, hgrow.node ht]
  | succ fuel ih =>
      rw [desugarFrom, desugarFrom, h.sugarStep?_grows hgrow ht, hgrow.node ht]
      cases hstep : m.sugarStep? t with
      | none => rfl
      | some u => exact ih (h.sugarStep?_lt hstep).2 _

theorem WellFormed.desugared_grows (h' : m'.WellFormed) {t : TypeId} (ht : m.HasType t) :
    m'.desugared t = m.desugared t := by
  have hfuel : t.index ≤ m.typeFuel := Nat.le_of_lt (Nat.lt_succ_of_lt ht)
  have hfuel' : t.index ≤ m'.typeFuel :=
    Nat.le_of_lt (Nat.lt_succ_of_lt (hgrow.hasType ht))
  unfold desugared
  rw [h'.desugarFrom_congr hfuel' hfuel, h.desugarFrom_grows hgrow _ ht]

/-- A type stays what it is when typedefs are looked through. -/
theorem WellFormed.kindOf_grows (h' : m'.WellFormed) {t : TypeId} (ht : m.HasType t) :
    m'.kindOf t = m.kindOf t := congrArg TypeNode.kind (h.desugared_grows hgrow h' ht)

theorem WellFormed.nonReference_grows (h' : m'.WellFormed) {t : TypeId} (ht : m.HasType t) :
    m'.nonReference t = m.nonReference t := by
  unfold nonReference
  rw [h.kindOf_grows hgrow h' ht]

/-- The class that a type names stays the same. -/
theorem WellFormed.recordNamed?_grows (h' : m'.WellFormed) {t : TypeId} (ht : m.HasType t) :
    m'.recordNamed? t = m.recordNamed? t := by
  unfold recordNamed?
  rw [h.kindOf_grows hgrow h' ht]

/-- Where the base specifiers are the same, so are the base classes. -/
theorem WellFormed.baseRecords_grows (h' : m'.WellFormed) {d : DeclId}
    (hbases : m'.basesOf d = m.basesOf d) : m'.baseRecords d = m.baseRecords d := by
  rw [baseRecords_eq, baseRecords_eq, hbases]
  exact List.filterMap_congr fun b hb => h.recordNamed?_grows hgrow h' (h.base_hasType hb)

end Growth

theorem Acyclic.of_baseRecords (h : m.Acyclic) (hsame : ∀ d, m'.baseRecords d = m.baseRecords d) :
    m'.Acyclic := by
  have hderives : m'.Derives = m.Derives := by
    funext d b
    rw [Derives, Derives, hsame d]
  rw [Acyclic, hderives]
  exact h

end CppReflect.Model
