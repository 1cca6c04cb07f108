import CppReflect.Model.Size
import CppReflect.Proofs.Model.NormalForms
import CppReflect.Query.Type

/-!
# Typedefs are transparent

Two types are the same if their canonical forms are written out alike, whatever typedefs stand in
them. Types that are the same are of one kind, with the same qualifiers, and their parts are the
same again. A query looks through the typedefs of every type that it comes to, so it cannot tell the
two apart, and a type is the same as its canonical form.
-/

namespace CppReflect

/-- The kinds differ in their parts only, and those are related one by one. -/
inductive TypeKind.Matches (R : TypeId → TypeId → Prop) : TypeKind → TypeKind → Prop
  | same (k : TypeKind) (hparts : k.parts = []) : Matches R k k
  | pointer {p q : TypeId} (h : R p q) : Matches R (.pointer p) (.pointer q)
  | lvalueReference {p q : TypeId} (h : R p q) : Matches R (.lvalueReference p) (.lvalueReference q)
  | rvalueReference {p q : TypeId} (h : R p q) : Matches R (.rvalueReference p) (.rvalueReference q)
  | constantArray {p q : TypeId} (h : R p q) (n : UInt64) :
    Matches R (.constantArray p n) (.constantArray q n)
  | incompleteArray {p q : TypeId} (h : R p q) : Matches R (.incompleteArray p) (.incompleteArray q)
  | complex {p q : TypeId} (h : R p q) : Matches R (.complex p) (.complex q)
  | memberPointer {p q c d : TypeId} (h : R p q) (hklass : R c d) :
    Matches R (.memberPointer p c) (.memberPointer q d)
  | function {f g : FunctionProto} (hret : R f.ret g.ret)
    (hparams : List.Forall₂ R f.params g.params) : Matches R (.function f) (.function g)

namespace TypeKind

/-- Kinds of one shape match if their parts do. -/
theorem matches_of_shape {R : TypeId → TypeId → Prop} {k l : TypeKind} (hshape : k.shape = l.shape)
    (hparts : List.Forall₂ R k.parts l.parts) : Matches R k l := by
  cases k with
  | void | builtin _ | record _ | enum _ | typedef _ | named _ =>
      cases l <;> simp_all [shape, traverse, parts]
      all_goals exact .same _ rfl
  | pointer | lvalueReference | rvalueReference | constantArray | incompleteArray | complex
  | memberPointer | function =>
      cases l <;> simp_all [shape, traverse, parts]
      constructor <;> simp_all

end TypeKind

namespace Model

variable {m m' : Model} {s t : TypeId}

/-- The two types are the same once all typedefs in them are looked through. -/
structure Same (m : Model) (s t : TypeId) : Prop where
  left : m.HasType s
  right : m.HasType t
  canonTree : m.canonTree s = m.canonTree t

namespace Same

theorem quals (hst : m.Same s t) (h : m.WellFormed) :
    (m.desugared s).quals = (m.desugared t).quals := by
  have htree := hst.canonTree
  rw [h.canonTree_eq hst.left, h.canonTree_eq hst.right] at htree
  exact (TypeTree.node.inj htree).2.1

/-- Types that are the same are of one kind, and so are their parts. -/
theorem kinds (hst : m.Same s t) (h : m.WellFormed) :
    TypeKind.Matches m.Same (m.kindOf s) (m.kindOf t) := by
  have htree := hst.canonTree
  rw [h.canonTree_eq hst.left, h.canonTree_eq hst.right] at htree
  obtain ⟨hshape, -, hparts⟩ := TypeTree.node.inj htree
  refine TypeKind.matches_of_shape hshape ?_
  rw [← List.forall₂_eq_eq_eq, List.forall₂_map_left_iff, List.forall₂_map_right_iff] at hparts
  obtain ⟨hlength, hzip⟩ := List.forall₂_iff_zip.mp hparts
  refine List.forall₂_iff_zip.mpr ⟨hlength, fun hp => ?_⟩
  obtain ⟨hleft, hright⟩ := List.of_mem_zip hp
  exact ⟨(h.desugared_parts hleft).2, (h.desugared_parts hright).2, hzip hp⟩

end Same

/-- The type and its canonical form are the same, whatever is put into the table later. -/
theorem canonical_same (h : m.WellFormed) (ht : m.HasType t) (h' : m'.WellFormed)
    (hgrow : ((canonical t).run m).2.GrowsTo m') : m'.Same t ((canonical t).run m).1 := by
  have hkeeps := canonical_written h ht
  have hlater := hkeeps.answer.grows hkeeps.wellFormed h' hgrow
  have hgrown := hkeeps.grows.trans hgrow
  exact ⟨hgrown.hasType ht, hlater.hasType,
    (h.canonTree_grows h' hgrown ht).trans hlater.canonTree.symm⟩

/-! ## Queries -/

/-- The answers to questions about the kind of a type alone. -/
structure SameKind (m : Model) (s t : TypeId) : Prop where
  isVoid : m.isVoid s = m.isVoid t
  isBuiltin : m.isBuiltin s = m.isBuiltin t
  isEnum : m.isEnum s = m.isEnum t
  isRecord : m.isRecord s = m.isRecord t
  isPointer : m.isPointer s = m.isPointer t
  isReference : m.isReference s = m.isReference t
  isLvalueReference : m.isLvalueReference s = m.isLvalueReference t
  isRvalueReference : m.isRvalueReference s = m.isRvalueReference t
  isArray : m.isArray s = m.isArray t
  isMemberPointer : m.isMemberPointer s = m.isMemberPointer t

theorem SameKind.of_matches {R : TypeId → TypeId → Prop}
    (hkinds : TypeKind.Matches R (m.kindOf s) (m.kindOf t)) : m.SameKind s t := by
  constructor
  all_goals
    simp only [Model.isVoid, Model.isBuiltin, Model.isEnum, Model.isRecord, Model.isPointer,
      Model.isReference, Model.isLvalueReference, Model.isRvalueReference, Model.isArray,
      Model.isMemberPointer]
    generalize m.kindOf s = k, m.kindOf t = l at hkinds ⊢
    cases hkinds <;> rfl

namespace Same

variable (hst : m.Same s t) (h : m.WellFormed)

include hst h

theorem isFunction : (m.kindOf s).isFunction = (m.kindOf t).isFunction := by
  have hkinds := hst.kinds h
  generalize m.kindOf s = k, m.kindOf t = l at hkinds ⊢
  cases hkinds <;> rfl

theorem recordNamed? : m.recordNamed? s = m.recordNamed? t := by
  have hkinds := hst.kinds h
  unfold Model.recordNamed?
  generalize m.kindOf s = k, m.kindOf t = l at hkinds ⊢
  cases hkinds <;> rfl

theorem isFunctionPointer : m.isFunctionPointer s = m.isFunctionPointer t := by
  have hkinds := hst.kinds h
  unfold Model.isFunctionPointer
  generalize m.kindOf s = k, m.kindOf t = l at hkinds ⊢
  cases hkinds with
  | pointer hp => exact hp.isFunction h
  | _ => rfl

theorem recordOfType? : m.recordOfType? s = m.recordOfType? t := by
  have hkinds := hst.kinds h
  unfold Model.recordOfType?
  generalize m.kindOf s = k, m.kindOf t = l at hkinds ⊢
  cases hkinds with
  | pointer hp | lvalueReference hp | rvalueReference hp | constantArray hp _
  | incompleteArray hp => exact hp.recordNamed? h
  | _ => rfl

theorem isPodFrom (fuel : Nat) : m.isPodFrom fuel s = m.isPodFrom fuel t := by
  induction fuel generalizing s t with
  | zero => rfl
  | succ fuel ih =>
      have hkinds := hst.kinds h
      unfold Model.isPodFrom
      generalize m.kindOf s = k, m.kindOf t = l at hkinds ⊢
      cases hkinds with
      | constantArray he _ | incompleteArray he => exact ih he
      | _ => rfl

theorem staticSizeFrom (fuel : Nat) : m.staticSizeFrom fuel s = m.staticSizeFrom fuel t := by
  induction fuel generalizing s t with
  | zero => rfl
  | succ fuel ih =>
      have hkinds := hst.kinds h
      unfold Model.staticSizeFrom
      generalize m.kindOf s = k, m.kindOf t = l at hkinds ⊢
      cases hkinds with
      | memberPointer hp _ => simp only [hp.isFunction h]
      | constantArray he _ | complex he => simp only [ih he]
      | _ => rfl

theorem extentsFrom (fuel : Nat) : Query.extentsFrom m fuel s = Query.extentsFrom m fuel t := by
  induction fuel generalizing s t with
  | zero => rfl
  | succ fuel ih =>
      have hkinds := hst.kinds h
      unfold Query.extentsFrom
      generalize m.kindOf s = k, m.kindOf t = l at hkinds ⊢
      cases hkinds with
      | constantArray he _ | incompleteArray he => simp only [ih he]
      | _ => rfl

end Same

/-- No query on types tells the two types apart. -/
structure Indistinguishable (m : Model) (s t : TypeId) : Prop extends m.SameKind s t where
  isFunctionPointer : m.isFunctionPointer s = m.isFunctionPointer t
  isPod : m.isPod s = m.isPod t
  recordOfType? : m.recordOfType? s = m.recordOfType? t
  staticSizeOf : m.staticSizeOf s = m.staticSizeOf t
  /-- The queries that take handles. -/
  dimensions : ∀ a b, m.typeOfHandle? a = some s → m.typeOfHandle? b = some t →
    Query.dimensions m a = Query.dimensions m b
  valueKind : ∀ a b, m.typeOfHandle? a = some s → m.typeOfHandle? b = some t →
    Query.valueKind m a = Query.valueKind m b
  hasQuals : ∀ a b, m.typeOfHandle? a = some s → m.typeOfHandle? b = some t → ∀ mask,
    Query.hasQuals m a mask = Query.hasQuals m b mask

theorem Same.indistinguishable (hst : m.Same s t) (h : m.WellFormed) : m.Indistinguishable s t where
  toSameKind := .of_matches (hst.kinds h)
  isFunctionPointer := hst.isFunctionPointer h
  isPod := hst.isPodFrom h _
  recordOfType? := hst.recordOfType? h
  staticSizeOf := hst.staticSizeFrom h _
  dimensions a b ha hb := by
    simp only [Query.dimensions, ha, hb, hst.extentsFrom h]
  valueKind a b ha hb := by
    have hkinds := hst.kinds h
    simp only [Query.valueKind, ha, hb, Option.map_some]
    generalize m.kindOf s = k, m.kindOf t = l at hkinds ⊢
    cases hkinds <;> rfl
  hasQuals a b ha hb mask := by
    simp only [Query.hasQuals, Query.typeIs, ha, hb, Option.any_some, hst.quals h]

/-- In every reachable model no query tells a type from its canonical form, neither at once nor
later. -/
theorem Reachable.typedefs_transparent (hm : m.Reachable) (ht : m.HasType t) (hm' : m'.Reachable)
    (hgrow : ((canonical t).run m).2.GrowsTo m') :
    m'.Indistinguishable t ((canonical t).run m).1 :=
  (canonical_same hm.wellFormed ht hm'.wellFormed hgrow).indistinguishable hm'.wellFormed

/-- A qualified typedef of an array of typedefs of pointers to a typedef of a function. -/
theorem indistinguishable_array_typedef :
    let int := ((Request.intern ⟨.builtin .int, .none⟩).perform.run empty).2
    let function := ((Request.intern ⟨.function ⟨⟨0⟩, [], false, .none, .none⟩, .none⟩).perform.run
      int).2
    let callee := ((Request.declareTypedef root "F" ⟨1⟩).perform.run function).2
    let named := ((Request.typeOfDecl ⟨1⟩).perform.run callee).2
    let pointer := ((Request.intern ⟨.pointer ⟨2⟩, .none⟩).perform.run named).2
    let array := ((Request.intern ⟨.constantArray ⟨3⟩ 4, .none⟩).perform.run pointer).2
    let table := ((Request.declareTypedef root "T" ⟨4⟩).perform.run array).2
    let last := ((Request.intern ⟨.typedef ⟨2⟩, .const⟩).perform.run table).2
    let after := ((Request.canonical ⟨5⟩).perform.run last).2
    (last.HasType ⟨5⟩ ∧ after.Reachable ∧ ((canonical ⟨5⟩).run last).2.GrowsTo after) ∧
      (((canonical ⟨5⟩).run last).1 ≠ ⟨5⟩ ∧ after.isPod ⟨5⟩ = true ∧
        after.staticSizeOf ⟨5⟩ = .known 32 ∧ Query.dimensions after 6 = [4] ∧
        Query.hasQuals after 6 .const = true) ∧
      after.Indistinguishable ⟨5⟩ ((canonical ⟨5⟩).run last).1 := by
  intro int function callee named pointer array table last after
  have hint : int.Reachable := .step .empty _ ⟨by simp [TypeKind.parts], by simp [TypeKind.decl?]⟩
  have hfunction : function.Reachable := .step hint _
    ⟨by simp only [TypeKind.parts, List.forall_mem_singleton]; decide +kernel,
      by simp [TypeKind.decl?]⟩
  have hcallee : callee.Reachable := .step hfunction _ ⟨by decide +kernel, by decide +kernel⟩
  have hnamed : named.Reachable :=
    .step hcallee (.typeOfDecl ⟨1⟩) (by change callee.HasDecl ⟨1⟩; decide +kernel)
  have hpointer : pointer.Reachable := .step hnamed _
    ⟨by simp only [TypeKind.parts, List.forall_mem_singleton]; decide +kernel,
      by simp [TypeKind.decl?]⟩
  have harray : array.Reachable := .step hpointer _
    ⟨by simp only [TypeKind.parts, List.forall_mem_singleton]; decide +kernel,
      by simp [TypeKind.decl?]⟩
  have htable : table.Reachable := .step harray _ ⟨by decide +kernel, by decide +kernel⟩
  have hlast : last.Reachable :=
    .step htable _ ⟨by simp [TypeKind.parts], by rintro _ ⟨rfl⟩; decide +kernel⟩
  have ht : last.HasType ⟨5⟩ := by decide +kernel
  have hafter : after.Reachable := .step hlast (.canonical ⟨5⟩) ht
  refine ⟨⟨ht, hafter, GrowsTo.refl after⟩, by decide +kernel, ?_⟩
  exact Reachable.typedefs_transparent hlast ht hafter (GrowsTo.refl after)

end Model

end CppReflect
