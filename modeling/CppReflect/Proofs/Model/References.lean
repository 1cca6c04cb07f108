import CppReflect.Proofs.Model.NormalForms

/-!
# References to references

A reference to a reference refers to what the inner one refers to. Which of the two sorts of
reference comes out is told by the type as it is written, and for this the two constructors differ:
lvalue references are the same over a typedef as over what it stands for, but an rvalue reference
over a typedef of an lvalue reference is an rvalue reference, and over the lvalue reference itself
it is that lvalue reference.
-/

namespace CppReflect

namespace TypeTree

/-- The type is an lvalue reference. -/
def isLvalueReference : TypeTree → Bool
  | .node (.lvalueReference _) _ _ => true
  | _ => false

/-- The type is a reference. -/
def isReference (T : TypeTree) : Bool := T.shape.referee?.isSome

theorem referred_of_not_isReference {T : TypeTree} (h : T.isReference = false) : T.referred = T := by
  obtain ⟨shape, quals, parts⟩ := T
  cases shape <;> first | rfl | cases h

theorem isLvalueReference_of_not_isReference {T : TypeTree} (h : T.isReference = false) :
    T.isLvalueReference = false := by
  obtain ⟨shape, quals, parts⟩ := T
  cases shape <;> first | rfl | cases h

/-- The type of references to what the type, if it is a reference, refers to. -/
def referenced (make : TypeId → TypeKind) (T : TypeTree) : TypeTree :=
  .node (make default).shape .none [T.referred]

/-- The type that is made of a type by writing `&&` behind it: lvalue references win. -/
def collapsed (T : TypeTree) : TypeTree :=
  if T.isLvalueReference then T else T.referenced .rvalueReference

end TypeTree

namespace Model

variable {m : Model}

/-- What makes a reference out of the place of its referee. -/
structure MakesReference (make : TypeId → TypeKind) : Prop where
  parts : ∀ r, (make r).parts = [r]
  shape : ∀ r, (make r).shape = (make default).shape
  decl? : ∀ r, (make r).decl? = none

theorem makesReference_lvalue : MakesReference .lvalueReference :=
  ⟨fun _ => rfl, fun _ => rfl, fun _ => rfl⟩

theorem makesReference_rvalue : MakesReference .rvalueReference :=
  ⟨fun _ => rfl, fun _ => rfl, fun _ => rfl⟩

/-- The type of references to what the type, if it is a reference, refers to. -/
def reference (make : TypeId → TypeKind) (t : TypeId) : ModelM TypeId := do
  internKind (make (← askAlong (fun _ => [t]) (·.nonReference t)))

theorem sugarStep?_of_decl? {t : TypeId} (h : (m.node t).kind.decl? = none) :
    m.sugarStep? t = none := by
  unfold sugarStep?
  split
  next d hkind => simp [hkind, TypeKind.decl?] at h
  next => rfl

/-- The canonical form of a type that refers to no declaration is made of those of its parts. -/
theorem WellFormed.canonTree_of_get? (h : m.WellFormed) {t : TypeId} {k : TypeKind} {q : Quals}
    (ht : m.types.get? t = some ⟨k, q⟩) (hdecl : k.decl? = none) :
    m.canonTree t = .node k.shape q (k.parts.map m.canonTree) := by
  have hnode := node_of_get? ht
  have hsugar : m.sugarStep? t = none := sugarStep?_of_decl? (by rw [hnode]; exact hdecl)
  rw [h.canonTree_eq (hasType_of_get? ht), kindOf, desugared_of_none hsugar, hnode]

theorem internKind_canonTree (h : m.WellFormed) {k : TypeKind} (hparts : ∀ p ∈ k.parts, m.HasType p)
    (hdecl : k.decl? = none) :
    m.Keeps (internKind k) fun u m' => m'.types.get? u = some ⟨k, .none⟩ ∧
      m'.canonTree u = .node k.shape .none (k.parts.map m.canonTree) := by
  refine (internKind_keeps h hparts (by simp [hdecl])).weaken fun u m' hwf hgrow hu => ⟨hu, ?_⟩
  rw [hwf.canonTree_of_get? hu hdecl]
  exact congrArg _ (List.map_congr_left fun p hp => h.canonTree_grows hwf hgrow (hparts p hp))

/-- What a canonical reference refers to is canonical. -/
theorem Written.nonReference {T : TypeTree} {t : TypeId} (ht : m.Written T t) (h : m.WellFormed) :
    m.Written T.referred (m.nonReference t) := by
  have hcanon := h.canonTree_nonReference ht.hasType
  rw [ht.canonTree] at hcanon
  refine ⟨h.nonReference_hasType ht.hasType, ?_, hcanon⟩
  rw [← hcanon]
  unfold Model.nonReference
  rw [ht.kindOf h]
  cases href : (m.node t).kind.referee? with
  | none => exact ht.tree.trans ht.canonTree.symm
  | some r => exact ((ht.exists_parts h).2 r (mem_parts_of_referee? href)).canonTree.symm

namespace MakesReference

variable {make : TypeId → TypeKind} (hmake : MakesReference make) (h : m.WellFormed)

include hmake h

/-- Whatever is referred to, a reference is made to its canonical form. -/
theorem canonTree_keeps {t : TypeId} (ht : m.HasType t) :
    m.Keeps (reference make t) fun u m' => m'.types.get? u = some ⟨make (m.nonReference t), .none⟩ ∧
      m'.canonTree u = (m.canonTree t).referenced make := by
  have hex := h.nonReference_hasType ht
  refine (askAlong_keeps h _ _).bind fun r m₁ hwf₁ hgrow₁ hr => ?_
  subst hr
  refine (internKind_canonTree hwf₁ (by simpa [hmake.parts] using hgrow₁.hasType hex)
    (hmake.decl? _)).weaken fun u m₂ _ _ hu => ⟨hu.1, ?_⟩
  rw [hu.2, hmake.parts, hmake.shape, List.map_singleton, h.canonTree_grows hwf₁ hgrow₁ hex,
    h.canonTree_nonReference ht, TypeTree.referenced]

/-- A reference over a canonical type is canonical. -/
theorem written_keeps {T : TypeTree} {t : TypeId} (ht : m.Written T t) :
    m.Keeps (reference make t) fun u m' => m'.Written (T.referenced make) u := by
  refine (hmake.canonTree_keeps h ht.hasType).weaken fun u m' hwf hgrow hu => ?_
  have hex := hasType_of_get? hu.1
  refine ⟨hex, ?_, ht.canonTree ▸ hu.2⟩
  rw [hwf.tree_eq hex, node_of_get? hu.1, hmake.parts, hmake.shape, List.map_singleton,
    ((ht.nonReference h).grows h hwf hgrow).tree, TypeTree.referenced]

end MakesReference

/-! ## Lvalue references -/

theorem WellFormed.canonical_lvalueReference (h : m.WellFormed) {t : TypeId} (ht : m.HasType t) :
    m.Builds (lvalueReference t >>= canonical) ((m.canonTree t).referenced .lvalueReference) := by
  intro m₁ hwf₁ hgrow₁
  refine (makesReference_lvalue.canonTree_keeps hwf₁ (hgrow₁.hasType ht)).bind
    fun u m₂ hwf₂ _ hu => ?_
  rw [← h.canonTree_grows hwf₁ hgrow₁ ht, ← hu.2]
  exact canonical_written hwf₂ (hasType_of_get? hu.1)

theorem Written.lvalueReference_keeps {T : TypeTree} {t : TypeId} (ht : m.Written T t)
    (h : m.WellFormed) :
    m.Keeps (lvalueReference t) fun u m' => m'.Written (T.referenced .lvalueReference) u :=
  makesReference_lvalue.written_keeps h ht

/-! ## Rvalue references -/

/-- The type is written as an lvalue reference, and not as a typedef of one. -/
def WrittenAsLvalueReference (m : Model) (t : TypeId) : Prop :=
  ∃ r, (m.node t).kind = .lvalueReference r

/-- What a computation does at a model is all that matters. -/
theorem Keeps.of_run {α : Type} {x y : ModelM α} {post : α → Model → Prop} (hx : m.Keeps x post)
    (hrun : y.run m = x.run m) : m.Keeps y post := by
  obtain ⟨hwf, hgrow, hanswer⟩ := hx
  rw [← hrun] at hwf hgrow hanswer
  exact ⟨hwf, hgrow, hanswer⟩

theorem run_get_bind {α : Type} (f : Model → ModelM α) : (get >>= f).run m = (f m).run m := rfl

theorem rvalueReference_run_of_written {t : TypeId} (ht : m.WrittenAsLvalueReference t) :
    (rvalueReference t).run m = (pure t : ModelM TypeId).run m := by
  obtain ⟨r, hkind⟩ := ht
  unfold rvalueReference
  rw [run_get_bind, hkind]

theorem rvalueReference_run_of_not_written {t : TypeId} (ht : ¬m.WrittenAsLvalueReference t) :
    (rvalueReference t).run m = (reference .rvalueReference t).run m := by
  unfold rvalueReference
  rw [run_get_bind]
  split
  next r hkind => exact absurd ⟨r, hkind⟩ ht
  next => rfl

theorem WellFormed.isReference_canonTree (h : m.WellFormed) {t : TypeId} (ht : m.HasType t) :
    (m.canonTree t).isReference = (m.kindOf t).referee?.isSome := by
  rw [h.canonTree_eq ht]
  cases m.kindOf t <;> rfl

theorem WellFormed.isLvalueReference_canonTree (h : m.WellFormed) {t : TypeId} (ht : m.HasType t) :
    (m.canonTree t).isLvalueReference = m.isLvalueReference t := by
  rw [h.canonTree_eq ht, isLvalueReference]
  cases m.kindOf t <;> rfl

theorem isLvalueReference_of_written {t : TypeId} (ht : m.WrittenAsLvalueReference t) :
    m.isLvalueReference t = true := by
  obtain ⟨r, hkind⟩ := ht
  have hsugar : m.sugarStep? t = none := sugarStep?_of_decl? (by rw [hkind]; rfl)
  rw [isLvalueReference, kindOf, desugared_of_none hsugar, hkind]

/-- A canonical type is an lvalue reference only if it is written as one. -/
theorem Written.writtenAsLvalueReference_iff {T : TypeTree} {t : TypeId} (ht : m.Written T t)
    (h : m.WellFormed) : m.WrittenAsLvalueReference t ↔ T.isLvalueReference = true := by
  refine ⟨fun hwritten => ?_, fun hlvalue => ?_⟩
  · rw [← ht.canonTree, h.isLvalueReference_canonTree ht.hasType]
    exact isLvalueReference_of_written hwritten
  · rw [← ht.canonTree, h.isLvalueReference_canonTree ht.hasType, isLvalueReference,
      ht.kindOf h] at hlvalue
    split at hlvalue
    next r hkind => exact ⟨r, hkind⟩
    next => exact absurd hlvalue Bool.false_ne_true

theorem Written.rvalueReference_keeps {T : TypeTree} {t : TypeId} (ht : m.Written T t)
    (h : m.WellFormed) :
    m.Keeps (rvalueReference t) fun u m' => m'.Written T.collapsed u := by
  unfold TypeTree.collapsed
  split
  next hlvalue =>
    refine Keeps.of_run (Keeps.pure h ht) (rvalueReference_run_of_written ?_)
    exact (ht.writtenAsLvalueReference_iff h).mpr hlvalue
  next hother =>
    refine (makesReference_rvalue.written_keeps h ht).of_run
      (rvalueReference_run_of_not_written ?_)
    rwa [ht.writtenAsLvalueReference_iff h]

/-- The canonical form of an rvalue reference is told by the type as it is written. -/
theorem WellFormed.canonical_rvalueReference (h : m.WellFormed) {t : TypeId} (ht : m.HasType t) :
    (m.WrittenAsLvalueReference t →
      m.Builds (rvalueReference t >>= canonical) (m.canonTree t)) ∧
    (¬m.WrittenAsLvalueReference t →
      m.Builds (rvalueReference t >>= canonical)
        ((m.canonTree t).referenced .rvalueReference)) := by
  have hwritten : ∀ {m₁ : Model}, m.GrowsTo m₁ →
      (m₁.WrittenAsLvalueReference t ↔ m.WrittenAsLvalueReference t) := fun hgrow => by
    unfold WrittenAsLvalueReference
    rw [hgrow.node ht]
  refine ⟨fun hlvalue m₁ hwf₁ hgrow₁ => ?_, fun hother m₁ hwf₁ hgrow₁ => ?_⟩
  · have hself : m₁.Keeps (pure t) fun u m' => u = t ∧ m' = m₁ := Keeps.pure hwf₁ ⟨rfl, rfl⟩
    refine (hself.of_run (rvalueReference_run_of_written ((hwritten hgrow₁).mpr hlvalue))).bind ?_
    rintro _ _ _ _ ⟨rfl, rfl⟩
    exact canonical_builds h ht _ hwf₁ hgrow₁
  · refine ((makesReference_rvalue.canonTree_keeps hwf₁ (hgrow₁.hasType ht)).of_run
      (rvalueReference_run_of_not_written (mt (hwritten hgrow₁).mp hother))).bind
        fun u m₂ hwf₂ _ hu => ?_
    rw [← h.canonTree_grows hwf₁ hgrow₁ ht, ← hu.2]
    exact canonical_written hwf₂ (hasType_of_get? hu.1)

/-- Rvalue references are the same over a typedef as over what it stands for, but for typedefs of
lvalue references. -/
theorem Reachable.rvalueReference_agree_iff (hm : m.Reachable) {t : TypeId} (ht : m.HasType t) :
    m.Agree (rvalueReference t >>= canonical) (canonical t >>= rvalueReference) ↔
      (m.isLvalueReference t = true → m.WrittenAsLvalueReference t) := by
  have h := hm.wellFormed
  obtain ⟨hwritten, hother⟩ := h.canonical_rvalueReference ht
  have hright : m.Builds (canonical t >>= rvalueReference) (m.canonTree t).collapsed :=
    (canonical_builds h ht).bind fun _ _ hwf hu => hu.rvalueReference_keeps hwf
  have hlvalue := h.isLvalueReference_canonTree ht
  by_cases hspelled : m.WrittenAsLvalueReference t
  · have htree : (m.canonTree t).collapsed = m.canonTree t :=
      if_pos (hlvalue.trans (isLvalueReference_of_written hspelled))
    exact iff_of_true ((hwritten hspelled).agree (htree ▸ hright)) fun _ => hspelled
  · have hleft := hother hspelled
    by_cases href : m.isLvalueReference t = true
    · refine iff_of_false (fun hagree => ?_) fun himp => hspelled (himp href)
      rw [TypeTree.collapsed, if_pos (hlvalue.trans href)] at hright
      -- run behind the left side, the right one builds another type and finds another place
      have hfirst := hleft m h (GrowsTo.refl m)
      have hmid := (rvalueReference_keeps h ht)
      have hlater : ((rvalueReference t >>= canonical).run m).2.Reachable :=
        .step (.step hm (.rvalueReference t) ht) (.canonical _) hmid.answer
      have hsecond := hright _ hlater.wellFormed hfirst.grows
      have hsame := (hagree m _ hm hlater (GrowsTo.refl m)).1 (GrowsTo.refl _)
      have htrees := (hsecond.answer.eq_iff
        (hfirst.answer.grows hlater.wellFormed hsecond.wellFormed hsecond.grows)
        hsecond.wellFormed).mp hsame
      rw [h.canonTree_eq ht] at htrees
      rw [isLvalueReference] at href
      cases hkind : m.kindOf t <;>
        simp_all [TypeTree.referenced, TypeKind.shape, TypeKind.traverse]
    · have htree : (m.canonTree t).collapsed = (m.canonTree t).referenced .rvalueReference :=
        if_neg (by rw [hlvalue]; exact href)
      exact iff_of_true (hleft.agree (htree ▸ hright)) fun hpos => absurd hpos href

/-! ## Together -/

/-- How the constructors of references deal with typedefs. -/
structure ReferenceLaws (m : Model) : Prop where
  lvalue : ∀ t, m.HasType t →
    m.Agree (lvalueReference t >>= canonical) (canonical t >>= lvalueReference)
  rvalue : ∀ t, m.HasType t →
    (m.Agree (rvalueReference t >>= canonical) (canonical t >>= rvalueReference) ↔
      (m.isLvalueReference t = true → m.WrittenAsLvalueReference t))
  spelled : ∀ t, m.WrittenAsLvalueReference t → (rvalueReference t).run m = (t, m)
  /-- Any other type is referred to by an rvalue reference, typedefs of lvalue references
  included. -/
  unspelled : ∀ t, m.HasType t → ¬m.WrittenAsLvalueReference t →
    ((rvalueReference t).run m).2.node ((rvalueReference t).run m).1 =
      ⟨.rvalueReference (m.nonReference t), .none⟩

/-- In every reachable model lvalue references look through typedefs, and rvalue references do so
but for typedefs of lvalue references. -/
theorem Reachable.referenceLaws (hm : m.Reachable) : m.ReferenceLaws where
  lvalue t ht := by
    have h := hm.wellFormed
    exact (h.canonical_lvalueReference ht).agree
      ((canonical_builds h ht).bind fun _ _ hwf hu => hu.lvalueReference_keeps hwf)
  rvalue t ht := hm.rvalueReference_agree_iff ht
  spelled t hspelled := rvalueReference_run_of_written hspelled
  unspelled t ht hspelled :=
    node_of_get? ((makesReference_rvalue.canonTree_keeps hm.wellFormed ht).of_run
      (rvalueReference_run_of_not_written hspelled)).answer.1

/-- An lvalue reference, and a typedef of it: of the two only the typedef can be told from its
canonical form by an rvalue reference over it. -/
theorem referenceLaws_typedef :
    let int := ((Request.intern ⟨.builtin .int, .none⟩).perform.run empty).2
    let reference := ((Request.lvalueReference ⟨0⟩).perform.run int).2
    let declared := ((Request.declareTypedef root "R" ⟨1⟩).perform.run reference).2
    let last := ((Request.typeOfDecl ⟨1⟩).perform.run declared).2
    (last.node ⟨1⟩ = ⟨.lvalueReference ⟨0⟩, .none⟩ ∧ last.node ⟨2⟩ = ⟨.typedef ⟨1⟩, .none⟩) ∧
      last.Agree (rvalueReference ⟨1⟩ >>= canonical) (canonical ⟨1⟩ >>= rvalueReference) ∧
      ¬last.Agree (rvalueReference ⟨2⟩ >>= canonical) (canonical ⟨2⟩ >>= rvalueReference) ∧
      last.ReferenceLaws := by
  intro int reference declared last
  have hint : int.Reachable := .step .empty _ ⟨by simp [TypeKind.parts], by simp [TypeKind.decl?]⟩
  have hreference : reference.Reachable :=
    .step hint (.lvalueReference ⟨0⟩) (by change int.HasType ⟨0⟩; decide +kernel)
  have hdeclared : declared.Reachable := .step hreference _ ⟨by decide +kernel, by decide +kernel⟩
  have hlast : last.Reachable :=
    .step hdeclared (.typeOfDecl ⟨1⟩) (by change declared.HasDecl ⟨1⟩; decide +kernel)
  have hlaws := Reachable.referenceLaws hlast
  have hnodes : last.node ⟨1⟩ = ⟨.lvalueReference ⟨0⟩, .none⟩ ∧
      last.node ⟨2⟩ = ⟨.typedef ⟨1⟩, .none⟩ := by decide +kernel
  refine ⟨hnodes, (hlaws.rvalue ⟨1⟩ (by decide +kernel)).mpr fun _ => ⟨⟨0⟩, ?_⟩, ?_, hlaws⟩
  · rw [hnodes.1]
  · rw [hlaws.rvalue ⟨2⟩ (by decide +kernel)]
    intro himp
    obtain ⟨r, hr⟩ := himp (by decide +kernel)
    rw [hnodes.2] at hr
    cases hr

end Model

end CppReflect
