import CppReflect.Model.Lookup
import CppReflect.Proofs.Hierarchy
import CppReflect.Proofs.Model.Extension

/-!
# Answers that more types leave as they are

Questions put types into the table on their way. What is asked of the declarations, and of types
that were there, has the same answer afterwards: the classes that a class is derived from, the text
of a type, and what a name means. A type that is new is printed by what it is made from.
-/

namespace CppReflect.Model

variable {m m' : Model}

/-! ## The same declarations -/

/-- The models differ in types and keys at most. -/
def SameDecls (m m' : Model) : Prop := m'.decls = m.decls

theorem Interned.sameDecls (h : m.Interned m') : m.SameDecls m' := h.decls

theorem Interned.growsTo (h : m.Interned m') : m.GrowsTo m' := h.extends.growsTo

theorem Interned.typeFuel_le (h : m.Interned m') : m.typeFuel ≤ m'.typeFuel := by
  have hle := h.types.length_le
  simp only [Array.length_toList] at hle
  exact Nat.succ_le_succ hle

/-- What is known of the model that is left, if nothing but types is put into it. -/
theorem Keeps.interned {α : Type} {x : ModelM α} {post : α → Model → Prop} (hx : m.Keeps x post)
    (hi : Interns x) : m.Keeps x fun a m' => post a m' ∧ m.Interned m' :=
  ⟨hx.wellFormed, hx.grows, hx.answer, hi m⟩

namespace SameDecls

variable (h : m.SameDecls m')

include h

theorem decl_eq (d : DeclId) : m'.decl d = m.decl d := by
  rw [decl, decl?, h]
  rfl

theorem record?_eq (d : DeclId) : m'.record? d = m.record? d := by
  rw [record?, decl?, h]
  rfl

theorem declFuel_eq : m'.declFuel = m.declFuel := by rw [declFuel, h, declFuel]

theorem templateArgs?_eq (d : DeclId) : m'.templateArgs? d = m.templateArgs? d := by
  unfold templateArgs?
  rw [h.decl_eq]

theorem ancestorsFrom_eq (fuel : Nat) (d : DeclId) :
    m'.ancestorsFrom fuel d = m.ancestorsFrom fuel d := by
  induction fuel generalizing d with
  | zero => rfl
  | succ fuel ih =>
      unfold ancestorsFrom
      rw [h.decl_eq]
      split
      next p _ => rw [ih p]
      next => rfl

theorem namedScopes_eq (d : DeclId) : m'.namedScopes d = m.namedScopes d := by
  simp only [namedScopes, isTranslationUnit, ancestors, h.declFuel_eq, h.ancestorsFrom_eq,
    h.decl_eq]

/-- Names with scopes around them are the same if those of the single scopes are. -/
theorem qualifiedBy_eq {name name' : DeclId → String} (hname : ∀ d, name' d = name d)
    (d : DeclId) : m'.qualifiedBy name' d = m.qualifiedBy name d := by
  obtain rfl := funext hname
  have hsegment : m'.scopeSegment? name' = m.scopeSegment? name' := by
    funext s
    simp only [scopeSegment?, h.decl_eq]
  unfold qualifiedBy qualifierText isTranslationUnit
  rw [hsegment, h.namedScopes_eq, h.decl_eq]

theorem qualifiedName_eq (d : DeclId) : m'.qualifiedName d = m.qualifiedName d :=
  h.qualifiedBy_eq (fun s => by rw [h.decl_eq]) d

theorem membersNamed_eq (scope : DeclId) (name : String) :
    m'.membersNamed scope name = m.membersNamed scope name := by
  have hfrom (fuel : Nat) : ∀ scope, m'.membersNamedFrom name fuel scope =
      m.membersNamedFrom name fuel scope := by
    induction fuel with
    | zero => exact fun _ => rfl
    | succ fuel ih =>
        intro scope
        simp only [membersNamedFrom, h.decl_eq, ih]
  rw [membersNamed, h.declFuel_eq, hfrom, membersNamed]

theorem specializationsOf_eq (ds : List DeclId) :
    m'.specializationsOf ds = m.specializationsOf ds := by
  simp only [specializationsOf, h.decl_eq]

end SameDecls

/-! ## The text of types -/

section Text

variable {argText argText' : TypeId → String}

/-- The arguments that specializations were made with are printed alike. -/
def SameArgTexts (m : Model) (argText argText' : TypeId → String) : Prop :=
  ∀ d args, m.templateArgs? d = some args → ∀ a ∈ args, argText' a.type = argText a.type

theorem argsTextWith_congr {args : List TemplateArg}
    (hargs : ∀ a ∈ args, argText' a.type = argText a.type) :
    argsTextWith argText' args = argsTextWith argText args := by
  unfold argsTextWith
  refine congrArg _ (List.map_congr_left fun a ha => ?_)
  split
  · rfl
  · exact hargs a ha

theorem SameDecls.qualifiedCompleteNameWith_eq (h : m.SameDecls m')
    (hargs : m.SameArgTexts argText argText') (d : DeclId) :
    m'.qualifiedCompleteNameWith argText' d = m.qualifiedCompleteNameWith argText d := by
  refine h.qualifiedBy_eq (fun s => ?_) d
  unfold completeNameWith
  rw [h.templateArgs?_eq, h.decl_eq]
  split
  next args hs => rw [argsTextWith_congr (hargs s args hs)]
  next => rfl

/-- Types with one node are printed alike if their parts are. -/
theorem SameDecls.printFrom_congr (h : m.SameDecls m') (hargs : m.SameArgTexts argText argText')
    {t t' : TypeId} (hnode : m'.node t' = m.node t) {fuel fuel' : Nat}
    (hparts : ∀ p ∈ (m.node t).kind.parts, (m'.node p).kind = (m.node p).kind ∧
      ∀ x, m'.printFrom argText' fuel' p x = m.printFrom argText fuel p x) (x : String) :
    m'.printFrom argText' (fuel' + 1) t' x = m.printFrom argText (fuel + 1) t x := by
  unfold printFrom
  rw [hnode]
  generalize m.node t = n at hparts
  obtain ⟨kind, quals⟩ := n
  cases kind with
  | pointer p | lvalueReference p | rvalueReference p | constantArray p _ | incompleteArray p
  | complex p =>
      obtain ⟨hkind, hprint⟩ := hparts p (by simp [TypeKind.parts])
      simp only [hkind, hprint]
  | memberPointer p klass =>
      obtain ⟨hkind, hprint⟩ := hparts p (by simp [TypeKind.parts])
      have hklass := (hparts klass (by simp [TypeKind.parts])).2
      simp only [hkind, hprint, hklass]
  | function p =>
      have hret := (hparts p.ret (by simp [TypeKind.parts])).2
      have hparams : p.params.map (fun u => m'.printFrom argText' fuel' u "") =
          p.params.map fun u => m.printFrom argText fuel u "" :=
        List.map_congr_left fun u hu => (hparts u (by simp [TypeKind.parts, hu])).2 ""
      simp only [hret, hparams]
  | record d => simp only [h.qualifiedCompleteNameWith_eq hargs]
  | enum d | typedef d => simp only [h.qualifiedName_eq]
  | void | builtin _ | named _ => rfl

theorem WellFormed.templateArg_hasType (hwf : m.WellFormed) {d : DeclId} {args : List TemplateArg}
    (hd : m.templateArgs? d = some args) {a : TemplateArg} (ha : a ∈ args) : m.HasType a.type := by
  have hex : m.HasDecl d := hasDecl_of_ne_rootDecl fun heq => by
    simp [templateArgs?, heq, rootDecl] at hd
  refine hwf.types d _ (decl?_eq_decl hex) a.type ?_
  unfold templateArgs? at hd
  split at hd
  next info hkind =>
    obtain ⟨s, hs, rfl⟩ := Option.map_eq_some_iff.mp hd
    rw [hkind, DeclKind.types, hs]
    exact List.mem_append_right _ (List.mem_flatMap.mpr ⟨a, ha, List.mem_singleton_self _⟩)
  next info hkind =>
    split at hd
    · cases hd
    · obtain rfl := Option.some.inj hd
      rw [hkind]
      exact List.mem_append_right _ (List.mem_flatMap.mpr ⟨a, ha, List.mem_singleton_self _⟩)
  next => cases hd

variable (h : m.Interned m') (hwf : m.WellFormed)

include h hwf

theorem Interned.printFrom_grows (hargs : m.SameArgTexts argText argText') {t : TypeId}
    (ht : m.HasType t) {fuel fuel' : Nat} (hfuel : t.index < fuel) (hfuel' : t.index < fuel')
    (x : String) : m'.printFrom argText' fuel' t x = m.printFrom argText fuel t x := by
  induction fuel generalizing t fuel' x with
  | zero => exact absurd hfuel (Nat.not_lt_zero _)
  | succ fuel ih =>
      obtain ⟨fuel', rfl⟩ := Nat.exists_eq_succ_of_ne_zero (Nat.ne_zero_of_lt hfuel')
      refine h.sameDecls.printFrom_congr hargs (h.growsTo.node ht) (fun p hp => ?_) x
      obtain ⟨hlt, hex⟩ := hwf.node_parts hp
      exact ⟨by rw [h.growsTo.node hex], fun x => ih hex (by omega) (by omega) x⟩

/-- What stands among template arguments is printed alike, to any depth of classes. -/
theorem Interned.argTextFrom_grows (fuel : Nat) {t : TypeId} (ht : m.HasType t) :
    m'.argTextFrom fuel t = m.argTextFrom fuel t := by
  induction fuel generalizing t with
  | zero => rfl
  | succ fuel ih =>
      have hfuel : t.index < m.typeFuel := Nat.lt_succ_of_lt ht
      exact h.printFrom_grows hwf
        (fun d args hd a ha => ih (hwf.templateArg_hasType hd ha)) ht hfuel
        (Nat.lt_of_lt_of_le hfuel h.typeFuel_le) ""

theorem Interned.sameArgTexts :
    m.SameArgTexts (m.argTextFrom m.declFuel) (m'.argTextFrom m'.declFuel) := by
  intro d args hd a ha
  rw [h.sameDecls.declFuel_eq]
  exact h.argTextFrom_grows hwf _ (hwf.templateArg_hasType hd ha)

theorem Interned.printType_grows {t : TypeId} (ht : m.HasType t) (x : String) :
    m'.printType t x = m.printType t x := by
  have hfuel : t.index < m.typeFuel := Nat.lt_succ_of_lt ht
  exact h.printFrom_grows hwf (h.sameArgTexts hwf) ht hfuel
    (Nat.lt_of_lt_of_le hfuel h.typeFuel_le) x

theorem Interned.typeText_grows {t : TypeId} (ht : m.HasType t) : m'.typeText t = m.typeText t :=
  h.printType_grows hwf ht ""

theorem Interned.argsText_grows {args : List TemplateArg} (hargs : ∀ a ∈ args, m.HasType a.type) :
    m'.argsText args = m.argsText args :=
  argsTextWith_congr fun a ha => h.typeText_grows hwf (hargs a ha)

/-- A type that is new in either model has the same text in both if it is made from the same types
of the model that they come from. -/
theorem Interned.typeText_of_node {m'' : Model} (h' : m.Interned m'') {t t' : TypeId}
    (hnode : m''.node t' = m'.node t) (hparts : ∀ p ∈ (m'.node t).kind.parts, m.HasType p) :
    m''.typeText t' = m'.typeText t := by
  have hdecls : m'.SameDecls m'' := h'.decls.trans h.decls.symm
  have hargs : m'.SameArgTexts (m'.argTextFrom m'.declFuel) (m''.argTextFrom m''.declFuel) := by
    intro d args hd a ha
    rw [h.sameDecls.templateArgs?_eq] at hd
    exact (h'.sameArgTexts hwf d args hd a ha).trans (h.sameArgTexts hwf d args hd a ha).symm
  refine hdecls.printFrom_congr hargs hnode (fun p hp => ?_) ""
  have hex := hparts p hp
  refine ⟨by rw [h'.growsTo.node hex, h.growsTo.node hex], fun x => ?_⟩
  calc m''.printFrom (m''.argTextFrom m''.declFuel) m''.types.size p x
      = m.printFrom (m.argTextFrom m.declFuel) m.types.size p x :=
        h'.printFrom_grows hwf (h'.sameArgTexts hwf) hex hex (h'.growsTo.hasType hex) x
    _ = m'.printFrom (m'.argTextFrom m'.declFuel) m'.types.size p x :=
        (h.printFrom_grows hwf (h.sameArgTexts hwf) hex hex (h.growsTo.hasType hex) x).symm

end Text

/-- The text of a type that is made from types that are there. -/
def nodeText (m : Model) (n : TypeNode) : String :=
  ((intern n).run m).2.typeText ((intern n).run m).1

theorem Interned.typeText_eq_nodeText (h : m.Interned m') (hwf : m.WellFormed) {n : TypeNode}
    (hparts : ∀ p ∈ n.kind.parts, m.HasType p) {t : TypeId} (ht : m'.types.get? t = some n) :
    m'.typeText t = m.nodeText n := by
  have hnew : ((intern n).run m).2.node ((intern n).run m).1 = n :=
    node_of_get? (TypeTable.get?_intern m.types n)
  exact (intern_interns n m).typeText_of_node hwf h (by rw [hnew, node_of_get? ht])
    (by rw [hnew]; exact hparts)

theorem Interned.nodeText_eq (h : m.Interned m') (hwf : m.WellFormed) {n : TypeNode}
    (hparts : ∀ p ∈ n.kind.parts, m.HasType p) : m'.nodeText n = m.nodeText n :=
  (h.trans (intern_interns n m')).typeText_eq_nodeText hwf hparts
    (TypeTable.get?_intern m'.types n)

/-! ## Classes and names -/

section Lookup

variable (h : m.Interned m') (hwf : m.WellFormed) (hwf' : m'.WellFormed)

include h hwf hwf'

theorem Interned.baseRecords_eq (d : DeclId) : m'.baseRecords d = m.baseRecords d :=
  hwf.baseRecords_grows h.growsTo hwf' (by rw [basesOf, decl?, h.decls, basesOf, decl?])

theorem Interned.indexedBases_eq (d : DeclId) : m'.indexedBases d = m.indexedBases d := by
  unfold indexedBases
  rw [h.sameDecls.record?_eq]
  refine List.filterMap_congr fun b hb => ?_
  have hbase : b.1 ∈ (m.record? d).elim [] RecordInfo.bases :=
    (List.mem_zipIdx hb).2.2 ▸ List.getElem_mem _
  have hbases : (m.record? d).elim [] RecordInfo.bases = m.basesOf d := by
    unfold record? basesOf
    cases m.decl? d <;> rfl
  rw [hwf.recordNamed?_grows h.growsTo hwf' (hwf.base_hasType (hbases ▸ hbase))]

theorem Interned.isDerivedFrom_eq (d b : DeclId) : m'.isDerivedFrom d b = m.isDerivedFrom d b := by
  have hfrom (fuel : Nat) : ∀ d, m'.basePathFrom b fuel d = m.basePathFrom b fuel d := by
    induction fuel with
    | zero => exact fun _ => rfl
    | succ fuel ih =>
        intro d
        simp only [basePathFrom, h.indexedBases_eq hwf hwf', ih]
  rw [isDerivedFrom, basePath?, h.sameDecls.declFuel_eq, hfrom, isDerivedFrom, basePath?]

theorem Interned.lookupIn_eq (scope : DeclId) (name : String) :
    m'.lookupIn scope name = m.lookupIn scope name := by
  have hfrom (fuel : Nat) : ∀ scope, m'.lookupInFrom name fuel scope =
      m.lookupInFrom name fuel scope := by
    induction fuel with
    | zero => exact fun _ => rfl
    | succ fuel ih =>
        intro scope
        simp only [lookupInFrom, h.sameDecls.membersNamed_eq, h.baseRecords_eq hwf hwf',
          h.sameDecls.decl_eq, funext ih]
  rw [lookupIn, h.sameDecls.declFuel_eq, hfrom, lookupIn]

theorem Interned.scopeTarget_eq (d : DeclId) : m'.scopeTarget d = m.scopeTarget d := by
  unfold scopeTarget
  rw [h.sameDecls.decl_eq]
  split
  next u hkind =>
    have hu : (m.decl d).underlying? = some u := by rw [Decl.underlying?, hkind]
    rw [hwf.kindOf_grows h.growsTo hwf' (hwf.underlying_hasType hu)]
  next => rfl

theorem Interned.lookupSegment_eq (scope : DeclId) (segment : String) :
    m'.lookupSegment scope segment = m.lookupSegment scope segment := by
  have hargs (s : DeclId) : m'.argsText ((m'.templateArgs? s).getD []) =
      m.argsText ((m.templateArgs? s).getD []) := by
    rw [h.sameDecls.templateArgs?_eq]
    cases hs : m.templateArgs? s with
    | none => rfl
    | some args => exact h.argsText_grows hwf fun a ha => hwf.templateArg_hasType hs ha
  simp only [lookupSegment, h.lookupIn_eq hwf hwf', h.sameDecls.specializationsOf_eq, hargs]

theorem Interned.lookupNamed_eq (name : String) (scope : DeclId) :
    m'.lookupNamed name scope = m.lookupNamed name scope := by
  have hsegments (segments : List String) : ∀ scope, m'.lookupSegments scope segments =
      m.lookupSegments scope segments := by
    induction segments with
    | nil => exact fun _ => rfl
    | cons segment rest ih =>
        intro scope
        cases rest with
        | nil => exact h.lookupSegment_eq hwf hwf' scope segment
        | cons next rest =>
            simp only [lookupSegments, h.lookupSegment_eq hwf hwf', h.scopeTarget_eq hwf hwf', ih]
  simp only [lookupNamed, hsegments]

end Lookup

end CppReflect.Model
