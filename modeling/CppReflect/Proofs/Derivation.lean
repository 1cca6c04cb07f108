import CppReflect.Proofs.Hierarchy
import CppReflect.Proofs.Operation.Handles

/-!
# Derivation of classes

A class is derived from another one exactly if the walk over its bases comes to it. The search for a
way to a base class goes depth first and gives a branch up when it ends, so what it finds is a chain
of base specifiers, and it finds one wherever there is any. Where no class is a base of itself, the
classes are ordered by derivation.
-/

namespace CppReflect.Model

variable {m : Model} {d b c : DeclId}

/-- The base specifier at a place of a class names the other class, through typedefs if need be. -/
def NamesBase (m : Model) (d : DeclId) (i : Nat) (b : DeclId) : Prop :=
  ∃ s, ((m.record? d).elim [] RecordInfo.bases)[i]? = some s ∧ m.recordNamed? s.type = some b

/-- The steps lead from a class to a base class: the base specifier of each step names the class of
the next one, and that of the last step the base class. -/
inductive BaseChain (m : Model) (b : DeclId) : DeclId → List (DeclId × Nat) → Prop
  | last {d : DeclId} {i : Nat} (hbase : m.NamesBase d i b) : BaseChain m b d [(d, i)]
  | step {d c : DeclId} {i : Nat} {rest : List (DeclId × Nat)} (hbase : m.NamesBase d i c)
    (hrest : BaseChain m b c rest) : BaseChain m b d ((d, i) :: rest)

theorem mem_indexedBases_iff {i : Nat} : (i, b) ∈ m.indexedBases d ↔ m.NamesBase d i b := by
  simp only [indexedBases, NamesBase, List.mem_filterMap, Prod.exists, Option.map_eq_some_iff,
    Prod.mk.injEq, List.mem_zipIdx_iff_getElem?]
  constructor
  · rintro ⟨s, j, hs, e, he, rfl, rfl⟩
    exact ⟨s, hs, he⟩
  · rintro ⟨s, hs, hb⟩
    exact ⟨s, i, hs, b, hb, rfl, rfl⟩

theorem derives_iff : m.Derives d b ↔ ∃ i, m.NamesBase d i b := by
  rw [Derives, baseRecords, List.mem_filterMap]
  constructor
  · rintro ⟨s, hs, hb⟩
    obtain ⟨i, hi⟩ := List.getElem?_of_mem hs
    exact ⟨i, s, hi, hb⟩
  · rintro ⟨i, s, hi, hb⟩
    exact ⟨s, List.mem_of_getElem? hi, hb⟩

theorem BaseChain.transGen {steps : List (DeclId × Nat)} (h : m.BaseChain b d steps) :
    Relation.TransGen m.Derives d b := by
  induction h with
  | last hbase => exact .single (derives_iff.mpr ⟨_, hbase⟩)
  | step hbase _ ih => exact .head (derives_iff.mpr ⟨_, hbase⟩) ih

/-! ## The search -/

/-- What is found is a chain, however deep the search goes. -/
theorem baseChain_of_basePathFrom {fuel : Nat} {steps : List (DeclId × Nat)}
    (h : m.basePathFrom b fuel d = some steps) : m.BaseChain b d steps := by
  induction fuel generalizing d steps with
  | zero => cases h
  | succ fuel ih =>
      obtain ⟨⟨i, direct⟩, hmem, hfound⟩ := List.exists_of_findSome?_eq_some h
      have hbase := mem_indexedBases_iff.mp hmem
      dsimp only at hfound
      split at hfound
      next heq =>
        obtain rfl := Option.some.inj hfound
        exact .last (heq ▸ hbase)
      next =>
        obtain ⟨rest, hrest, rfl⟩ := Option.map_eq_some_iff.mp hfound
        exact .step hbase (ih hrest)

/-- A search that goes deep enough finds every class that the walk over bases comes to. -/
theorem Acyclic.basePathFrom_isSome (h : m.Acyclic) (hwf : m.WellFormed)
    (hreach : Relation.TransGen m.Derives d b) {fuel : Nat} (hfuel : m.ahead d < fuel) :
    (m.basePathFrom b fuel d).isSome := by
  induction hreach using Relation.TransGen.head_induction_on generalizing fuel with
  | single hd =>
      obtain ⟨fuel, rfl⟩ := Nat.exists_eq_succ_of_ne_zero (Nat.ne_zero_of_lt hfuel)
      obtain ⟨i, hbase⟩ := derives_iff.mp hd
      refine List.findSome?_isSome_iff.mpr ⟨(i, b), mem_indexedBases_iff.mpr hbase, ?_⟩
      dsimp only
      rw [if_pos rfl, Option.isSome_some]
  | @head d c hd _ ih =>
      obtain ⟨fuel, rfl⟩ := Nat.exists_eq_succ_of_ne_zero (Nat.ne_zero_of_lt hfuel)
      obtain ⟨i, hbase⟩ := derives_iff.mp hd
      refine List.findSome?_isSome_iff.mpr ⟨(i, c), mem_indexedBases_iff.mpr hbase, ?_⟩
      dsimp only
      split
      · exact Option.isSome_some
      · -- the base has fewer classes ahead, so what is left of the bound is enough for it
        rw [Option.isSome_map]
        exact ih (h.covers hwf hd hfuel)

theorem Acyclic.basePath?_isSome_iff (h : m.Acyclic) (hwf : m.WellFormed) :
    (m.basePath? d b).isSome ↔ Relation.TransGen m.Derives d b := by
  constructor
  · intro hpath
    obtain ⟨steps, hsteps⟩ := Option.isSome_iff_exists.mp hpath
    exact (baseChain_of_basePathFrom hsteps).transGen
  · exact fun hreach => h.basePathFrom_isSome hwf hreach (m.ahead_lt_declFuel d)

theorem Acyclic.isDerivedFrom_iff (h : m.Acyclic) (hwf : m.WellFormed) :
    m.isDerivedFrom d b = true ↔ Relation.TransGen m.Derives d b := by
  rw [isDerivedFrom, Bool.and_eq_true, bne_iff_ne, h.basePath?_isSome_iff hwf]
  refine ⟨And.right, fun hreach => ⟨?_, hreach⟩⟩
  rintro rfl
  exact h d hreach

/-! ## Subclasses -/

/-- The handle names a class. -/
def IsRecordHandle (m : Model) (x : Handle) : Prop := (Query.recordAt? m x).isSome

theorem recordAt?_eq_some_iff {x : Handle} {info : RecordInfo} :
    Query.recordAt? m x = some (d, info) ↔
      m.declOfHandle? x = some d ∧ m.record? d = some info := by
  simp only [Query.recordAt?, Option.bind_eq_bind, Option.bind_eq_some_iff, Option.pure_def,
    Option.some.injEq, Prod.mk.injEq]
  constructor
  · rintro ⟨e, he, i, hi, rfl, rfl⟩
    exact ⟨he, hi⟩
  · rintro ⟨hd, hinfo⟩
    exact ⟨d, hd, info, hinfo, rfl, rfl⟩

theorem IsRecordHandle.exists_decl {x : Handle} (hx : m.IsRecordHandle x) :
    ∃ d info, m.declOfHandle? x = some d ∧ Query.recordAt? m x = some (d, info) := by
  obtain ⟨⟨d, info⟩, hd⟩ := Option.isSome_iff_exists.mp hx
  exact ⟨d, info, (recordAt?_eq_some_iff.mp hd).1, hd⟩

/-- A class is a subclass of itself and of the classes that the walk over its bases comes to. -/
theorem Acyclic.isSubclass_iff (h : m.Acyclic) (hwf : m.WellFormed) {x y : Handle}
    {dinfo binfo : RecordInfo} (hx : Query.recordAt? m x = some (d, dinfo))
    (hy : Query.recordAt? m y = some (b, binfo)) :
    Query.isSubclass m x y = true ↔ Relation.ReflTransGen m.Derives d b := by
  have hxd := (recordAt?_eq_some_iff.mp hx).1
  have hyb := (recordAt?_eq_some_iff.mp hy).1
  rw [Relation.reflTransGen_iff_eq_or_transGen]
  unfold Query.isSubclass
  split
  next hsame =>
    rw [hsame.1, hyb] at hxd
    exact ⟨fun _ => .inl (Option.some.inj hxd), fun _ => rfl⟩
  next hother =>
    have hne : b ≠ d := by
      rintro rfl
      have hhandle := (m.guardsHandles.decl x b hxd).1
      refine hother ⟨hhandle.symm.trans (m.guardsHandles.decl y b hyb).1, ?_⟩
      rw [← hhandle]
      exact Nat.succ_ne_zero _
    simp only [hx, hy]
    rw [h.isDerivedFrom_iff hwf]
    exact ⟨.inr, fun hreach => hreach.resolve_left hne⟩

/-- Derivation is what the walk over base classes comes to, and it orders the classes. -/
structure DerivationReaches (m : Model) : Prop where
  path : ∀ d b, (m.basePath? d b).isSome ↔ Relation.TransGen m.Derives d b
  chain : ∀ d b steps, m.basePath? d b = some steps → m.BaseChain b d steps
  reflexive : ∀ x, m.IsRecordHandle x → Query.isSubclass m x x = true
  transitive : ∀ x y z, m.IsRecordHandle x → m.IsRecordHandle y → m.IsRecordHandle z →
    Query.isSubclass m x y = true → Query.isSubclass m y z = true → Query.isSubclass m x z = true
  antisymmetric : ∀ x y, m.IsRecordHandle x → m.IsRecordHandle y →
    Query.isSubclass m x y = true → Query.isSubclass m y x = true → x = y

/-- Where no class is a base of itself, the search for base classes finds exactly the classes that
the walk comes to, by a chain of base specifiers, and subclasses are partially ordered. -/
theorem Acyclic.derivation_reaches (h : m.Acyclic) (hwf : m.WellFormed) : m.DerivationReaches where
  path _ _ := h.basePath?_isSome_iff hwf
  chain _ _ _ hsteps := baseChain_of_basePathFrom hsteps
  reflexive x hx := by
    obtain ⟨d, info, -, hd⟩ := hx.exists_decl
    exact (h.isSubclass_iff hwf hd hd).mpr .refl
  transitive x y z hx hy hz hxy hyz := by
    obtain ⟨d, _, -, hd⟩ := hx.exists_decl
    obtain ⟨c, _, -, hc⟩ := hy.exists_decl
    obtain ⟨b, _, -, hb⟩ := hz.exists_decl
    exact (h.isSubclass_iff hwf hd hb).mpr
      (((h.isSubclass_iff hwf hd hc).mp hxy).trans ((h.isSubclass_iff hwf hc hb).mp hyz))
  antisymmetric x y hx hy hxy hyx := by
    obtain ⟨d, _, hxd, hd⟩ := hx.exists_decl
    obtain ⟨b, _, hyb, hb⟩ := hy.exists_decl
    have hdown := (h.isSubclass_iff hwf hd hb).mp hxy
    have hup := (h.isSubclass_iff hwf hb hd).mp hyx
    -- two classes that are bases of each other are one: no class is a base of itself
    rcases Relation.reflTransGen_iff_eq_or_transGen.mp hdown with rfl | hreach
    · rw [← (m.guardsHandles.decl x _ hxd).1, (m.guardsHandles.decl y _ hyb).1]
    · exact absurd (hreach.trans_left hup) (h d)

/-- A class with two bases that have a base in common: the way through the first one is found. -/
theorem derivation_reaches_diamond :
    let klass (name : String) (m : Model) :=
      ((Request.declareRecord root name .struct true).perform.run m).2
    let derive (d b : DeclId) (m : Model) :=
      ((Request.addBase d b .pub false).perform.run m).2
    let bare := klass "D" (klass "C" (klass "B" (klass "A" empty)))
    let diamond := derive ⟨4⟩ ⟨3⟩ (derive ⟨4⟩ ⟨2⟩ (derive ⟨3⟩ ⟨1⟩ (derive ⟨2⟩ ⟨1⟩ bare)))
    (diamond.WellFormed ∧ diamond.Acyclic) ∧
      diamond.basePath? ⟨4⟩ ⟨1⟩ = some [(⟨4⟩, 0), (⟨2⟩, 0)] ∧ diamond.DerivationReaches := by
  intro klass derive bare diamond
  have hA : (klass "A" empty).Reachable :=
    .step .empty (.declareRecord root "A" .struct true) (by change empty.HasDecl root; decide)
  have hB : (klass "B" (klass "A" empty)).Reachable :=
    .step hA (.declareRecord root "B" .struct true) (by change Model.HasDecl _ root; decide +kernel)
  have hC : (klass "C" (klass "B" (klass "A" empty))).Reachable :=
    .step hB (.declareRecord root "C" .struct true) (by change Model.HasDecl _ root; decide +kernel)
  have hbare : bare.Reachable :=
    .step hC (.declareRecord root "D" .struct true) (by change Model.HasDecl _ root; decide +kernel)
  have hfirst : (derive ⟨2⟩ ⟨1⟩ bare).Reachable :=
    .step hbare (.addBase ⟨2⟩ ⟨1⟩ .pub false) ⟨by decide +kernel, by decide +kernel⟩
  have hsecond : (derive ⟨3⟩ ⟨1⟩ (derive ⟨2⟩ ⟨1⟩ bare)).Reachable :=
    .step hfirst (.addBase ⟨3⟩ ⟨1⟩ .pub false) ⟨by decide +kernel, by decide +kernel⟩
  have hthird : (derive ⟨4⟩ ⟨2⟩ (derive ⟨3⟩ ⟨1⟩ (derive ⟨2⟩ ⟨1⟩ bare))).Reachable :=
    .step hsecond (.addBase ⟨4⟩ ⟨2⟩ .pub false) ⟨by decide +kernel, by decide +kernel⟩
  have hdiamond : diamond.Reachable :=
    .step hthird (.addBase ⟨4⟩ ⟨3⟩ .pub false) ⟨by decide +kernel, by decide +kernel⟩
  have hacyclic : diamond.Acyclic := acyclic_of_lt (by decide +kernel)
  exact ⟨⟨hdiamond.wellFormed, hacyclic⟩, by decide +kernel,
    Acyclic.derivation_reaches hacyclic hdiamond.wellFormed⟩

end CppReflect.Model
