import CppReflect.Proofs.Model.CanonicalTypes
import CppReflect.Proofs.Model.MoreTypes
import CppReflect.Proofs.Operation.Rehearsed

/-!
# Conversions of arguments

An argument is converted to a parameter by what their types are when references, typedefs and
qualifiers around them are taken off. The types that are looked at on the way are put into the
table, and make no difference: which conversion there is, and what it costs, is told by the two
types written out in full.

A pointer to a class is converted to pointers to its base classes whatever the qualifiers behind the
pointers are, but to a pointer to the class itself only with the same qualifiers.
-/

namespace CppReflect

namespace TypeTree

/-- A builtin type, or a name that speaks of complex numbers. -/
def isBuiltin (T : TypeTree) : Bool :=
  match T.shape with
  | .builtin _ | .complex _ => true
  | .named spelling => Text.contains "complex" spelling
  | _ => false

def isEnum (T : TypeTree) : Bool :=
  match T.shape with
  | .enum _ => true
  | _ => false

def isPointer (T : TypeTree) : Bool :=
  match T.shape with
  | .pointer _ => true
  | _ => false

/-- The class, if the type is one. -/
def record? : TypeTree → Option DeclId
  | .node (.record d) _ _ => some d
  | _ => none

/-- The class that a class type or a pointer to one names. -/
def class? : TypeTree → Option DeclId
  | .node (.pointer _) _ [pointee] => pointee.value.record?
  | T => T.record?

end TypeTree

namespace Model

variable {m : Model}

namespace Written

variable {T : TypeTree} {t : TypeId}

theorem isBuiltin_eq (ht : m.Written T t) (h : m.WellFormed) : m.isBuiltin t = T.isBuiltin := by
  unfold Model.isBuiltin TypeTree.isBuiltin
  rw [ht.kindOf h, ht.shape h]
  cases (m.node t).kind <;> rfl

theorem isEnum_eq (ht : m.Written T t) (h : m.WellFormed) : m.isEnum t = T.isEnum := by
  unfold Model.isEnum TypeTree.isEnum
  rw [ht.kindOf h, ht.shape h]
  cases (m.node t).kind <;> rfl

theorem isPointer_eq (ht : m.Written T t) (h : m.WellFormed) : m.isPointer t = T.isPointer := by
  unfold Model.isPointer TypeTree.isPointer
  rw [ht.kindOf h, ht.shape h]
  cases (m.node t).kind <;> rfl

theorem record?_eq (ht : m.Written T t) (h : m.WellFormed) :
    T.record? = match (m.node t).kind with
      | .record d => some d
      | _ => none := by
  rw [(ht.exists_parts h).1]
  cases (m.node t).kind <;> rfl

end Written

end Model

namespace Overload

open Model (Keeps)

variable {m m' : Model}

theorem valueType_written (h : m.WellFormed) {t : TypeId} (ht : m.HasType t) :
    m.Keeps (valueType t) fun u m' => m'.Written (m.canonTree t).value u := by
  refine (Model.askAlong_keeps h _ _).bind fun r m₁ hwf₁ hgrow₁ hr => ?_
  subst hr
  have hex := h.nonReference_hasType ht
  refine (Model.canonical_written hwf₁ (hgrow₁.hasType hex)).bind fun u m₂ hwf₂ _ hu => ?_
  rw [h.canonTree_grows hwf₁ hgrow₁ hex, h.canonTree_nonReference ht] at hu
  exact Model.unqualified_written hwf₂ hu

theorem classBehind?_written (h : m.WellFormed) {T : TypeTree} {t : TypeId} (ht : m.Written T t) :
    m.Keeps (classBehind? t) fun d _ => d = T.class? := by
  have hclass {u : TypeId} {S : TypeTree} {n : Model} (hn : n.WellFormed) (hu : n.Written S u) :
      n.Keeps (do match ((← get).node u).kind with
        | .record d => return some d
        | _ => return none) fun d _ => d = S.record? := by
    rw [hu.record?_eq hn]
    refine Keeps.get_bind ?_
    split <;> exact Keeps.pure hn rfl
  obtain ⟨htree, hparts⟩ := ht.exists_parts h
  refine Keeps.get_bind ?_
  split
  next p hkind =>
    rw [hkind] at htree hparts
    have hp := hparts p (List.mem_singleton_self p)
    refine (valueType_written h hp.hasType).bind fun u m₁ hwf₁ _ hu => ?_
    rw [hp.canonTree] at hu
    rw [htree]
    exact hclass hwf₁ hu
  next hother =>
    have hself : m.Keeps (pure t) fun u m' => m'.Written T u := Keeps.pure h ht
    refine hself.bind fun u m₁ hwf₁ _ hu => ?_
    have hclass? : T.class? = T.record? := by
      rw [htree]
      cases hkind : (m.node t).kind <;> first | rfl | exact absurd hkind (hother _)
    rw [hclass?]
    exact hclass hwf₁ hu

open Classical in
/-- The conversion of values of one type to another, both written out. -/
noncomputable def conversionOf (m : Model) (arg param : TypeTree) : Option Conversion :=
  if arg = param then some .exact
  else if (arg.isBuiltin || arg.isEnum) && param.isBuiltin then some .arithmetic
  else
    match arg.class?, param.class? with
    | some derived, some base =>
      if arg.isPointer == param.isPointer && m.isDerivedFrom derived base then some .derivedToBase
      else none
    | _, _ => none

/-- The conversion depends on nothing but the two types written out, and on the base classes. -/
theorem conversion?_keeps (h : m.WellFormed) {arg param : TypeId} (harg : m.HasType arg)
    (hparam : m.HasType param) : m.Keeps (conversion? arg param) fun c _ =>
      c = conversionOf m (m.canonTree arg).value (m.canonTree param).value := by
  refine ((valueType_written h harg).interned (valueType_interns arg)).bind
    fun a m₁ hwf₁ hgrow₁ ⟨ha, hi₁⟩ => ?_
  refine ((valueType_written hwf₁ (hgrow₁.hasType hparam)).interned (valueType_interns param)).bind
    fun p m₂ hwf₂ hgrow₂ ⟨hp, hi₂⟩ => Keeps.get_bind ?_
  rw [h.canonTree_grows hwf₁ hgrow₁ hparam] at hp
  replace ha := ha.grows hwf₁ hwf₂ hgrow₂
  unfold conversionOf
  rw [ha.isBuiltin_eq hwf₂, ha.isEnum_eq hwf₂, hp.isBuiltin_eq hwf₂]
  generalize (m.canonTree arg).value = A at *
  generalize (m.canonTree param).value = P at *
  by_cases hexact : a = p
  · rw [if_pos hexact, if_pos ((ha.eq_iff hp hwf₂).mp hexact)]
    exact Keeps.pure hwf₂ rfl
  rw [if_neg hexact, if_neg (mt (ha.eq_iff hp hwf₂).mpr hexact)]
  by_cases harith : (A.isBuiltin || A.isEnum) && P.isBuiltin
  · rw [if_pos harith, if_pos harith]
    exact Keeps.pure hwf₂ rfl
  rw [if_neg harith, if_neg harith]
  refine ((classBehind?_written hwf₂ ha).interned (classBehind?_interns a)).bind
    fun derived m₃ hwf₃ hgrow₃ ⟨hderived, hi₃⟩ => ?_
  rw [← hderived]
  cases derived with
  | none => exact Keeps.pure hwf₃ rfl
  | some derived =>
      replace ha := ha.grows hwf₂ hwf₃ hgrow₃
      replace hp := hp.grows hwf₂ hwf₃ hgrow₃
      refine ((classBehind?_written hwf₃ hp).interned (classBehind?_interns p)).bind
        fun base m₄ hwf₄ hgrow₄ ⟨hbase, hi₄⟩ => ?_
      rw [← hbase]
      cases base with
      | none => exact Keeps.pure hwf₄ rfl
      | some base =>
          have hi := ((hi₁.trans hi₂).trans hi₃).trans hi₄
          refine Keeps.get_bind (Keeps.pure hwf₄ ?_)
          rw [(ha.grows hwf₃ hwf₄ hgrow₄).isPointer_eq hwf₄,
            (hp.grows hwf₃ hwf₄ hgrow₄).isPointer_eq hwf₄, hi.isDerivedFrom_eq h hwf₄]

/-! ## Costs -/

/-- The cost of converting arguments to parameters. -/
noncomputable def costOf? (m : Model) : List TypeId → List TypeId → Option Nat
  | param :: params, arg :: args =>
    (conversionOf m (m.canonTree arg).value (m.canonTree param).value).bind fun c =>
      (costOf? m params args).map (c.cost + ·)
  | _, _ => some 0

theorem conversionOf_eq (hi : m.Interned m') (h : m.WellFormed) (h' : m'.WellFormed) :
    conversionOf m' = conversionOf m := by
  funext arg param
  simp only [conversionOf, hi.isDerivedFrom_eq h h']

theorem costOf?_eq (hi : m.Interned m') (h : m.WellFormed) (h' : m'.WellFormed)
    {params args : List TypeId} (hparams : ∀ p ∈ params, m.HasType p)
    (hargs : ∀ a ∈ args, m.HasType a) : costOf? m' params args = costOf? m params args := by
  induction params generalizing args with
  | nil => rfl
  | cons param params ih =>
      cases args with
      | nil => rfl
      | cons arg args =>
          rw [List.forall_mem_cons] at hparams hargs
          simp only [costOf?, conversionOf_eq hi h h', h.canonTree_grows h' hi.growsTo hparams.1,
            h.canonTree_grows h' hi.growsTo hargs.1, ih hparams.2 hargs.2]

theorem conversionCost?_keeps (h : m.WellFormed) {params args : List TypeId}
    (hparams : ∀ p ∈ params, m.HasType p) (hargs : ∀ a ∈ args, m.HasType a) :
    m.Keeps (conversionCost? params args) fun c _ => c = costOf? m params args := by
  induction params generalizing m args with
  | nil => exact Keeps.pure h rfl
  | cons param params ih =>
      cases args with
      | nil => exact Keeps.pure h rfl
      | cons arg args =>
          rw [List.forall_mem_cons] at hparams hargs
          refine ((conversion?_keeps h hargs.1 hparams.1).interned
            (conversion?_interns arg param)).bind fun c m₁ hwf₁ hgrow₁ ⟨hc, hi₁⟩ => ?_
          rw [costOf?, ← hc, ← costOf?_eq hi₁ h hwf₁ hparams.2 hargs.2]
          cases c with
          | none => exact Keeps.pure hwf₁ rfl
          | some c =>
              refine (ih hwf₁ (fun p hp => hgrow₁.hasType (hparams.2 p hp))
                fun a ha => hgrow₁.hasType (hargs.2 a ha)).bind fun rest m₂ hwf₂ _ hrest => ?_
              exact Keeps.pure hwf₂ (by rw [hrest]; rfl)

theorem param_hasType (h : m.WellFormed) {func : DeclId} {info : FunctionInfo}
    (hfunc : m.function? func = some info) : ∀ p ∈ info.params.map ParamInfo.type, m.HasType p := by
  obtain ⟨e, he, hinfo⟩ := Option.bind_eq_some_iff.mp hfunc
  intro p hp
  refine h.types func e he p ?_
  unfold Decl.function? at hinfo
  split at hinfo
  next i hkind =>
    obtain rfl := Option.some.inj hinfo
    rw [hkind]
    exact List.mem_cons_of_mem _ (List.mem_append_left _ hp)
  next => cases hinfo

/-- The cost of a call. -/
noncomputable def callCost? (m : Model) (args : List TypeId) (func : DeclId) : Option Nat :=
  (m.function? func).bind fun info =>
    if acceptsCount info args.length then costOf? m (info.params.map ParamInfo.type) args else none

theorem cost?_keeps (h : m.WellFormed) {args : List TypeId} (hargs : ∀ a ∈ args, m.HasType a)
    (func : DeclId) : m.Keeps (cost? args func) fun c _ => c = callCost? m args func := by
  refine Keeps.get_bind ?_
  unfold callCost?
  cases hfunc : m.function? func with
  | none => exact Keeps.pure h rfl
  | some info =>
      dsimp only [Option.bind_some]
      split
      · exact conversionCost?_keeps h (param_hasType h hfunc) hargs
      · exact Keeps.pure h rfl

/-- More types make no difference to what a call costs. -/
theorem callCost?_eq (hi : m.Interned m') (h : m.WellFormed) (h' : m'.WellFormed)
    {args : List TypeId} (hargs : ∀ a ∈ args, m.HasType a) (func : DeclId) :
    callCost? m' args func = callCost? m args func := by
  unfold callCost?
  rw [hi.function?_eq]
  cases hfunc : m.function? func with
  | none => rfl
  | some info =>
      dsimp only [Option.bind_some]
      rw [costOf?_eq hi h h' (param_hasType h hfunc) hargs]

end Overload

/-! ## Pointers to classes -/

/-- A pointer to a class: the class and the qualifiers behind the pointer, and what is left of those
of the pointer when the usual ones are taken away. -/
structure ClassPointer where
  klass : DeclId
  klassQuals : Quals
  quals : Quals

/-- The pointer written out. -/
def ClassPointer.tree (c : ClassPointer) : TypeTree :=
  .node (.pointer default) c.quals [.node (.record c.klass) c.klassQuals []]

/-- Values of the type are such pointers: the type may be a reference and name the pointer and the
class by typedefs. -/
def Model.PointsTo (m : Model) (t : TypeId) (c : ClassPointer) : Prop :=
  ∃ p, m.kindOf (m.nonReference t) = .pointer p ∧
    (m.desugared (m.nonReference t)).quals.without .all = c.quals ∧
    m.desugared p = ⟨.record c.klass, c.klassQuals⟩

theorem Model.WellFormed.pointsTo_iff {m : Model} (h : m.WellFormed) {t : TypeId}
    (ht : m.HasType t) {c : ClassPointer} : m.PointsTo t c ↔ (m.canonTree t).value = c.tree := by
  have hex := h.nonReference_hasType ht
  rw [Model.PointsTo, TypeTree.value, ← h.canonTree_nonReference ht, h.canonTree_eq hex]
  generalize m.nonReference t = r
  have hpointee {p : TypeId} (hp : m.kindOf r = .pointer p) : m.HasType p :=
    (h.desugared_parts (show p ∈ (m.kindOf r).parts by rw [hp]; exact List.mem_singleton_self p)).2
  simp only [TypeTree.unqualified, ClassPointer.tree, TypeTree.node.injEq]
  constructor
  · rintro ⟨p, hp, hquals, hclass⟩
    refine ⟨by rw [hp]; rfl, hquals, ?_⟩
    rw [hp, TypeKind.parts, List.map_singleton, h.canonTree_eq (hpointee hp), Model.kindOf, hclass]
    rfl
  · rintro ⟨hshape, hquals, hparts⟩
    cases hp : m.kindOf r with
    | pointer p =>
        rw [hp, TypeKind.parts, List.map_singleton, h.canonTree_eq (hpointee hp),
          List.singleton_inj, TypeTree.node.injEq] at hparts
        have hclass : m.kindOf p = .record c.klass := by
          cases hkind : m.kindOf p <;>
            simp_all [TypeKind.shape, TypeKind.traverse]
        exact ⟨p, rfl, hquals, congrArg₂ TypeNode.mk hclass hparts.2.1⟩
    | _ => simp [hp, TypeKind.shape, TypeKind.traverse] at hshape

theorem Model.WellFormed.isPointer_value {m : Model} (h : m.WellFormed) {t : TypeId}
    (ht : m.HasType t) : (m.canonTree t).value.isPointer = m.isPointer (m.nonReference t) := by
  rw [TypeTree.value, ← h.canonTree_nonReference ht, h.canonTree_eq (h.nonReference_hasType ht)]
  unfold Model.isPointer TypeTree.isPointer
  cases hkind : m.kindOf (m.nonReference t) <;> rfl

namespace Overload

variable {m : Model}

/-- The conversion of a pointer to a class to another type that names a class. -/
theorem conversionOf_pointer {c : ClassPointer} {P : TypeTree} {base : DeclId}
    (hclass : P.class? = some base) (hne : P ≠ c.tree) :
    conversionOf m c.tree P =
      if P.isPointer && m.isDerivedFrom c.klass base then some .derivedToBase else none := by
  have hkind : ¬((c.tree.isBuiltin || c.tree.isEnum) && P.isBuiltin) := by
    rw [show c.tree.isBuiltin = false from rfl, show c.tree.isEnum = false from rfl]
    exact Bool.false_ne_true
  rw [conversionOf, if_neg (Ne.symm hne), if_neg hkind, hclass,
    show c.tree.class? = some c.klass from rfl, show c.tree.isPointer = true from rfl]
  dsimp only
  rw [Bool.true_beq]

/-- Pointers to a class derived from the class that a parameter names are taken by the parameter as
pointers to a base exactly if it is a pointer, whatever the qualifiers are. Pointers to the class
itself are taken exactly if the parameter is a pointer to it with the same qualifiers, and not at
all otherwise: no class is derived from itself. -/
theorem class_pointers_convert (h : m.WellFormed) {a b p : TypeId} (ha : m.HasType a)
    (hb : m.HasType b) (hp : m.HasType p) {x y : ClassPointer} (hax : m.PointsTo a x)
    (hby : m.PointsTo b y) (hderived : m.isDerivedFrom x.klass y.klass = true)
    (hnames : ((do classBehind? (← valueType p)).run m).1 = some y.klass) :
    (((conversion? a p).run m).1 = some .derivedToBase ↔ m.isPointer (m.nonReference p) = true) ∧
      (((conversion? b p).run m).1 = some .exact ↔ m.PointsTo p y) ∧
      (¬m.PointsTo p y → ((conversion? b p).run m).1 = none) := by
  have hclass : (m.canonTree p).value.class? = some y.klass := by
    have hkeeps := (valueType_written h hp).bind fun u m₁ hwf₁ _ hu => classBehind?_written hwf₁ hu
    rw [← hnames]
    exact hkeeps.answer.symm
  have hself : m.isDerivedFrom y.klass y.klass = false := by
    rw [Model.isDerivedFrom, bne_self_eq_false, Bool.false_and]
  rw [(conversion?_keeps h ha hp).answer, (conversion?_keeps h hb hp).answer,
    (h.pointsTo_iff ha).mp hax, (h.pointsTo_iff hb).mp hby, h.pointsTo_iff hp,
    ← h.isPointer_value hp]
  generalize (m.canonTree p).value = P at hclass
  have hsame (hne : P ≠ y.tree) : conversionOf m y.tree P = none := by
    rw [conversionOf_pointer hclass hne, hself, Bool.and_false, if_neg Bool.false_ne_true]
  refine ⟨?_, ⟨fun hexact => ?_, fun heq => ?_⟩, hsame⟩
  · have hne : P ≠ x.tree := by
      rintro rfl
      obtain heq : x.klass = y.klass := Option.some.inj hclass
      rw [heq, hself] at hderived
      cases hderived
    rw [conversionOf_pointer hclass hne, hderived, Bool.and_true]
    cases P.isPointer <;> simp
  · by_contra hne
    rw [hsame hne] at hexact
    cases hexact
  · rw [conversionOf, if_pos heq.symm]

/-- A pointer to a derived class is taken as a pointer to the constant base class, and a pointer to
the base class is not. -/
theorem class_pointers_convert_const :
    let klass (name : String) (m : Model) :=
      ((Request.declareRecord Model.root name .struct true).perform.run m).2
    let intern (n : TypeNode) (m : Model) := ((Request.intern n).perform.run m).2
    let bare := klass "D" (klass "B" .empty)
    let classes := ((Request.addBase ⟨2⟩ ⟨1⟩ .pub false).perform.run bare).2
    let named := intern ⟨.record ⟨1⟩, .const⟩ (intern ⟨.record ⟨2⟩, .none⟩ classes)
    let m := intern ⟨.pointer ⟨2⟩, .none⟩ (intern ⟨.pointer ⟨0⟩, .none⟩
      (intern ⟨.pointer ⟨1⟩, .none⟩ named))
    (m.PointsTo ⟨3⟩ ⟨⟨2⟩, .none, .none⟩ ∧ m.PointsTo ⟨4⟩ ⟨⟨1⟩, .none, .none⟩ ∧
      m.PointsTo ⟨5⟩ ⟨⟨1⟩, .const, .none⟩) ∧
    ((conversion? ⟨3⟩ ⟨5⟩).run m).1 = some .derivedToBase ∧
      ((conversion? ⟨4⟩ ⟨5⟩).run m).1 = none := by
  intro klass intern bare classes named m
  have hB : (klass "B" .empty).Reachable :=
    .step .empty (.declareRecord Model.root "B" .struct true)
      (by change Model.empty.HasDecl Model.root; decide)
  have hbare : bare.Reachable :=
    .step hB (.declareRecord Model.root "D" .struct true)
      (by change Model.HasDecl _ Model.root; decide +kernel)
  have hclasses : classes.Reachable :=
    .step hbare (.addBase ⟨2⟩ ⟨1⟩ .pub false) ⟨by decide +kernel, by decide +kernel⟩
  have hintern {n : Model} (hn : n.Reachable) (node : TypeNode)
      (hparts : ∀ p ∈ node.kind.parts, n.HasType p) (hdecl : ∀ d ∈ node.kind.decl?, n.HasDecl d) :
      (intern node n).Reachable := .step hn (.intern node) ⟨hparts, hdecl⟩
  have hnamed : named.Reachable :=
    hintern (hintern hclasses _ (by decide +kernel) (by decide +kernel)) _ (by decide +kernel)
      (by decide +kernel)
  have hm : m.Reachable :=
    hintern (hintern (hintern hnamed _ (by decide +kernel) (by decide +kernel)) _
      (by decide +kernel) (by decide +kernel)) _ (by decide +kernel) (by decide +kernel)
  have hD : m.PointsTo ⟨3⟩ ⟨⟨2⟩, .none, .none⟩ :=
    ⟨⟨1⟩, by decide +kernel, by decide +kernel, by decide +kernel⟩
  have hB : m.PointsTo ⟨4⟩ ⟨⟨1⟩, .none, .none⟩ :=
    ⟨⟨0⟩, by decide +kernel, by decide +kernel, by decide +kernel⟩
  have hconst : m.PointsTo ⟨5⟩ ⟨⟨1⟩, .const, .none⟩ :=
    ⟨⟨2⟩, by decide +kernel, by decide +kernel, by decide +kernel⟩
  have hother : ¬m.PointsTo ⟨5⟩ ⟨⟨1⟩, .none, .none⟩ := by
    rw [hm.wellFormed.pointsTo_iff (by decide +kernel),
      (hm.wellFormed.pointsTo_iff (by decide +kernel)).mp hconst]
    intro heq
    cases heq
  obtain ⟨hderived, -, hnone⟩ := class_pointers_convert hm.wellFormed (a := ⟨3⟩) (b := ⟨4⟩)
    (p := ⟨5⟩) (by decide +kernel) (by decide +kernel) (by decide +kernel) hD hB
    (by decide +kernel) (by decide +kernel)
  exact ⟨⟨hD, hB, hconst⟩, hderived.mpr (by decide +kernel), hnone hother⟩

end Overload

end CppReflect
