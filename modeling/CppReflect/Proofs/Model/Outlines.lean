import CppReflect.Proofs.Model.NormalForms
import CppReflect.Proofs.Model.Printed
import CppReflect.Proofs.Spelling.Outlines

/-!
# Outlines of types in a model

A type without any name in it is printed as its outline. What an outline leaves open are the
qualifiers of arrays and functions: no declarator is written with them, but a typedef of an array or
a function can be qualified, and then its canonical form has them.
-/

namespace CppReflect

/-- The type of arrays of a type, with an extent or without. -/
def TypeKind.arrayOf (element : TypeId) : Option UInt64 → TypeKind
  | some n => .constantArray element n
  | none => .incompleteArray element

namespace Model

open Spelling (Outline Sigil)
open Spelling.Outline (AllSound)

variable {m : Model} {argText : TypeId → String}

mutual

/-- The type is made as the outline says. Arrays and functions may have any qualifiers besides. -/
def HasOutline (m : Model) : Outline → TypeId → Prop
  | .base b q, t => m.BaseMeans q t b
  | .sigil σ q a, t => ∃ p, m.HasOutline a p ∧ m.types.get? t = some ⟨σ.kind p, q⟩
  | .array n a, t => ∃ e quals, m.HasOutline a e ∧ m.types.get? t = some ⟨.arrayOf e n, quals⟩
  | .function r ps v q ref, t => ∃ result params quals, m.HasOutline r result ∧
      m.HaveOutlines ps params ∧ m.types.get? t = some ⟨.function ⟨result, params, v, q, ref⟩, quals⟩

/-- The types are made as the outlines say. -/
def HaveOutlines (m : Model) : List Outline → List TypeId → Prop
  | [], ts => ts = []
  | a :: rest, ts => ∃ t us, ts = t :: us ∧ m.HasOutline a t ∧ m.HaveOutlines rest us

end

/-! ## What is printed -/

theorem needsParens_arrayOf (e : TypeId) (n : Option UInt64) :
    needsParens (.arrayOf e n) = true := by
  cases n <;> rfl

theorem HasOutline.needsParens {a : Outline} {t : TypeId} (h : m.HasOutline a t) :
    Model.needsParens (m.node t).kind = a.needsParens := by
  cases a with
  | base => exact BaseMeans.needsParens h
  | sigil σ q a =>
      obtain ⟨p, -, h⟩ := h
      rw [node_of_get? h]
      cases σ <;> rfl
  | array n a =>
      obtain ⟨e, quals, -, h⟩ := h
      rw [node_of_get? h]
      exact needsParens_arrayOf e n
  | function =>
      obtain ⟨result, params, quals, -, -, h⟩ := h
      rw [node_of_get? h]
      rfl

theorem HasOutline.hasType {a : Outline} {t : TypeId} (h : m.HasOutline a t) : m.HasType t := by
  cases a with
  | base => exact BaseMeans.hasType h
  | sigil => exact hasType_of_get? h.choose_spec.2
  | array =>
      obtain ⟨e, quals, -, h⟩ := h
      exact hasType_of_get? h
  | function =>
      obtain ⟨result, params, quals, -, -, h⟩ := h
      exact hasType_of_get? h

mutual

/-- A type without any name is printed as its outline. -/
theorem printFrom_outline (hwf : m.WellFormed) : (a : Outline) → a.Sound → {t : TypeId} →
    m.HasOutline a t → {fuel : Nat} → t.index < fuel → (x : String) →
    m.printFrom argText fuel t x = a.print x
  | .base b q, ha, t, ht, fuel, hfuel, x =>
    printFrom_base hwf (fun n hn => absurd hn (ha.1 n)) ht hfuel x
  | .sigil σ q a, ha, t, ⟨p, hp, ht⟩, fuel, hfuel, x => by
    obtain ⟨fuel, rfl⟩ : ∃ n, fuel = n + 1 := ⟨fuel - 1, by omega⟩
    have hbelow := hwf.partsBelow t _ ht p (by cases σ <;> simp [Sigil.kind, TypeKind.parts])
    have hprint : ∀ y, m.printFrom argText fuel p y = a.print y :=
      printFrom_outline hwf a ha.2.2 hp (by omega)
    rw [Outline.print, ← hprint, ← hp.needsParens]
    conv => lhs; unfold printFrom
    rw [node_of_get? ht]
    cases σ <;> rfl
  | .array n a, ha, t, ⟨e, quals, he, ht⟩, fuel, hfuel, x => by
    obtain ⟨fuel, rfl⟩ : ∃ n, fuel = n + 1 := ⟨fuel - 1, by omega⟩
    have hbelow := hwf.partsBelow t _ ht e (by cases n <;> simp [TypeKind.arrayOf, TypeKind.parts])
    have hprint : ∀ y, m.printFrom argText fuel e y = a.print y :=
      printFrom_outline hwf a ha he (by omega)
    rw [Outline.print, ← hprint]
    conv => lhs; unfold printFrom
    rw [node_of_get? ht]
    cases n with
    | none => rfl
    | some n => simp only [TypeKind.arrayOf, Spelling.printSuffix, String.append_assoc]
  | .function r ps v q ref, ha, t, ⟨result, params, quals, hr, hps, ht⟩, fuel, hfuel, x => by
    obtain ⟨fuel, rfl⟩ : ∃ n, fuel = n + 1 := ⟨fuel - 1, by omega⟩
    have hbelow := hwf.partsBelow t _ ht
    have hresult := hbelow result (by simp [TypeKind.parts])
    have hprint : ∀ y, m.printFrom argText fuel result y = r.print y :=
      printFrom_outline hwf r ha.2.1 hr (by omega)
    have hparams := printFrom_outlines hwf ps ha.2.2 hps fuel fun p hp =>
      Nat.lt_of_lt_of_le (hbelow p (List.mem_cons_of_mem _ hp)) (Nat.le_of_lt_succ hfuel)
    rw [Outline.print, ← hprint]
    conv => lhs; unfold printFrom
    rw [node_of_get? ht]
    simp only [hparams, Spelling.Outline.functionSuffix, String.append_assoc]

theorem printFrom_outlines (hwf : m.WellFormed) : (ps : List Outline) → AllSound ps →
    {ts : List TypeId} → m.HaveOutlines ps ts → (fuel : Nat) → (∀ p ∈ ts, p.index < fuel) →
    ts.map (fun p => m.printFrom argText fuel p "") = Outline.printAll ps
  | [], _, ts, hts, fuel, _ => by
    unfold HaveOutlines at hts
    rw [hts]
    rfl
  | a :: rest, h, ts, hts, fuel, hfuel => by
    unfold AllSound at h
    unfold HaveOutlines at hts
    obtain ⟨t, us, rfl, ht, hus⟩ := hts
    rw [List.map_cons, Outline.printAll,
      printFrom_outline hwf a h.1 ht (hfuel t List.mem_cons_self) "",
      printFrom_outlines hwf rest h.2 hus fuel fun p hp => hfuel p (List.mem_cons_of_mem _ hp)]

end

/-! ## What the text tells -/

/-- No array and no function in the type, nor the type itself if it is one, has qualifiers. -/
def Unqualified (m : Model) (t : TypeId) : Prop :=
  ∀ u, m.Within t u → needsParens (m.node u).kind = true → (m.node u).quals = .none

/-- What holds inside a type holds of it and inside its parts. -/
theorem forall_within_iff {P : TypeId → Prop} {t : TypeId} :
    (∀ u, m.Within t u → P u) ↔
      P t ∧ ∀ p ∈ (m.node t).kind.parts, ∀ u, m.Within p u → P u := by
  refine ⟨fun h => ⟨h t .refl, fun p hp u hu => h u (.head hp hu)⟩, fun h u hu => ?_⟩
  rcases hu.cases_head with rfl | ⟨p, hp, hu⟩
  · exact h.1
  · exact h.2 p hp u hu

theorem unqualified_iff {t : TypeId} :
    m.Unqualified t ↔ (needsParens (m.node t).kind = true → (m.node t).quals = .none) ∧
      ∀ p ∈ (m.node t).kind.parts, m.Unqualified p :=
  forall_within_iff

theorem Unqualified.part {t p : TypeId} (h : m.Unqualified t) (hp : p ∈ (m.node t).kind.parts) :
    m.Unqualified p :=
  (unqualified_iff.mp h).2 p hp

theorem Unqualified.quals {t : TypeId} {k : TypeKind} {q : Quals} (h : m.Unqualified t)
    (ht : m.types.get? t = some ⟨k, q⟩) (hk : needsParens k = true) : q = .none := by
  have hquals := (unqualified_iff.mp h).1
  rw [node_of_get? ht] at hquals
  exact hquals hk

theorem mem_parts_of_get? {t p : TypeId} {n : TypeNode} (ht : m.types.get? t = some n)
    (hp : p ∈ n.kind.parts) : p ∈ (m.node t).kind.parts := by
  rwa [node_of_get? ht]

mutual

/-- An outline leaves open no more than the qualifiers of arrays and functions. -/
theorem HasOutline.unique (hwf : m.WellFormed) : (a : Outline) → {s t : TypeId} →
    m.HasOutline a s → m.HasOutline a t → m.Unqualified s → m.Unqualified t → s = t
  | .base b q, s, t, hs, ht, _, _ => BaseMeans.unique hwf hs ht
  | .sigil σ q a, s, t, ⟨p, hp, hs⟩, ⟨r, hr, ht⟩, hus, hut => by
    have hpart : ∀ u, u ∈ (σ.kind u).parts := fun u => by
      cases σ <;> simp [Sigil.kind, TypeKind.parts]
    obtain rfl := HasOutline.unique hwf a hp hr (hus.part (mem_parts_of_get? hs (hpart p)))
      (hut.part (mem_parts_of_get? ht (hpart r)))
    exact hwf.get?_inj hs ht
  | .array n a, s, t, ⟨e, q, he, hs⟩, ⟨f, r, hf, ht⟩, hus, hut => by
    have hpart : ∀ u, u ∈ (TypeKind.arrayOf u n).parts := fun u => by
      cases n <;> simp [TypeKind.arrayOf, TypeKind.parts]
    obtain rfl := HasOutline.unique hwf a he hf (hus.part (mem_parts_of_get? hs (hpart e)))
      (hut.part (mem_parts_of_get? ht (hpart f)))
    obtain rfl := hus.quals hs (needsParens_arrayOf e n)
    obtain rfl := hut.quals ht (needsParens_arrayOf e n)
    exact hwf.get?_inj hs ht
  | .function r ps v q ref, s, t, ⟨result, params, _, hr, hps, hs⟩,
      ⟨result', params', _, hr', hps', ht⟩, hus, hut => by
    have hparts := fun {p} hp => hus.part (mem_parts_of_get? (p := p) hs hp)
    have hparts' := fun {p} hp => hut.part (mem_parts_of_get? (p := p) ht hp)
    obtain rfl := HasOutline.unique hwf r hr hr' (hparts List.mem_cons_self)
      (hparts' List.mem_cons_self)
    obtain rfl := HaveOutlines.unique hwf ps hps hps'
      (fun p hp => hparts (List.mem_cons_of_mem _ hp))
      (fun p hp => hparts' (List.mem_cons_of_mem _ hp))
    obtain rfl := hus.quals hs rfl
    obtain rfl := hut.quals ht rfl
    exact hwf.get?_inj hs ht

theorem HaveOutlines.unique (hwf : m.WellFormed) : (ps : List Outline) → {ss ts : List TypeId} →
    m.HaveOutlines ps ss → m.HaveOutlines ps ts → (∀ s ∈ ss, m.Unqualified s) →
    (∀ t ∈ ts, m.Unqualified t) → ss = ts
  | [], ss, ts, hss, hts, _, _ => by
    unfold HaveOutlines at hss hts
    rw [hss, hts]
  | a :: rest, ss, ts, hss, hts, huss, huts => by
    unfold HaveOutlines at hss hts
    obtain ⟨s, ss, rfl, hs, hss⟩ := hss
    obtain ⟨t, ts, rfl, ht, hts⟩ := hts
    obtain ⟨hus, huss⟩ := List.forall_mem_cons.mp huss
    obtain ⟨hut, huts⟩ := List.forall_mem_cons.mp huts
    rw [HasOutline.unique hwf a hs ht hus hut, HaveOutlines.unique hwf rest hss hts huss huts]

end

theorem HasOutline.typeText {a : Outline} {t : TypeId} (ht : m.HasOutline a t)
    (h : m.WellFormed) (ha : a.Sound) : m.typeText t = a.print "" :=
  printFrom_outline h a ha ht (Nat.lt_succ_of_lt ht.hasType) ""

end Model

end CppReflect
