import CppReflect.Proofs.Model.Meaning

/-!
# Types are printed as they are spelled

Printing a type goes from its last operator to its base, while the printed spelling is put together
from the base to the last operator. Both write the same text, with parentheses where an array or a
function is made from inside of an operator in front of the declarator.
-/

namespace CppReflect.Model

open Spelling (print printOps printSuffix printAll opensWithPrefix sigil opQuals Sound OpsSound
  OpSound AllSound)

variable {m : Model} {argText : TypeId → String}

theorem baseText_nil (base : String) : baseText base .none "" = base := rfl

/-- What is printed for a name. -/
theorem printFrom_name {n : QualifiedName} (h : n.Settled) {t : TypeId} {q : Quals}
    (ht : m.types.get? t = some ⟨n.kind, q⟩) (fuel : Nat) (x : String) :
    m.printFrom argText (fuel + 1) t x = baseText n.text q x := by
  unfold printFrom
  rw [node_of_get? ht]
  unfold QualifiedName.kind
  split
  next hnull =>
    rcases hnull with hnull | hnull
    · rw [hnull]
      rfl
    · unfold QualifiedName.Settled QualifiedName.canon at h
      rw [if_pos hnull] at h
      rw [← h] at hnull
      exact absurd hnull (by decide)
  next => rfl

theorem printFrom_base (hwf : m.WellFormed) {base : Spelling.Base}
    (h : ∀ n, base = .name n → n.Settled) {t : TypeId} {q : Quals} (ht : m.BaseMeans q t base)
    {fuel : Nat} (hfuel : t.index < fuel) (x : String) :
    m.printFrom argText fuel t x = baseText base.text q x := by
  obtain ⟨fuel, rfl⟩ : ∃ n, fuel = n + 1 := ⟨fuel - 1, by omega⟩
  cases base with
  | void | builtin =>
      unfold printFrom
      rw [node_of_get? ht]
      rfl
  | complex b =>
      obtain ⟨e, he, ht⟩ := ht
      have hbelow := hwf.partsBelow t _ ht e (by simp [TypeKind.parts])
      obtain ⟨fuel, rfl⟩ : ∃ n, fuel = n + 1 := ⟨fuel - 1, by omega⟩
      have helement : m.printFrom argText (fuel + 1) e "" = b.spelling := by
        unfold printFrom
        rw [node_of_get? he]
        rfl
      unfold printFrom
      rw [node_of_get? ht]
      simp only [helement]
      rfl
  | name n => exact printFrom_name (h n rfl) ht fuel x

theorem BaseMeans.needsParens {base : Spelling.Base} {q : Quals} {t : TypeId}
    (h : m.BaseMeans q t base) : needsParens (m.node t).kind = false := by
  cases base with
  | void | builtin =>
      rw [node_of_get? h]
      rfl
  | complex b =>
      obtain ⟨e, _, h⟩ := h
      rw [node_of_get? h]
      rfl
  | name n =>
      rw [node_of_get? h]
      unfold QualifiedName.kind
      split <;> rfl

/-- What is printed for operators around a declarator, in parentheses if they are printed inside an
array or a function. -/
def printAround (m : Model) (t : TypeId) (ops : List DeclaratorOp) (x : String) : String :=
  if opensWithPrefix ops && needsParens (m.node t).kind then "(" ++ printOps ops x ++ ")"
  else printOps ops x

/-- An operator in front of a declarator is printed around what the operators outside it print. -/
theorem printFrom_prefix {t v : TypeId} {o : DeclaratorOp} {ops : List DeclaratorOp} {x : String}
    {fuel : Nat} (ho : o.isPrefix = true) (hv : needsParens (m.node v).kind = false)
    (hprint : ∀ y, m.printFrom argText (fuel + 1) v y =
      m.printFrom argText fuel t (if needsParens (m.node t).kind then
        "(" ++ operatorText (sigil o) (opQuals o) y ++ ")"
      else operatorText (sigil o) (opQuals o) y)) :
    m.printFrom argText (fuel + 1) v (m.printAround v ops x) =
      m.printFrom argText fuel t (m.printAround t (o :: ops) x) := by
  have houter : m.printAround v ops x = printOps ops x := by
    unfold printAround
    rw [hv, Bool.and_false, if_neg (by simp)]
  have hinner : printOps (o :: ops) x = operatorText (sigil o) (opQuals o) (printOps ops x) := by
    conv => lhs; unfold printOps
    rw [if_pos ho]
  rw [houter, hprint]
  unfold printAround
  rw [hinner, show opensWithPrefix (o :: ops) = true from ho, Bool.true_and]

/-- An array or function suffix is printed behind what the operators outside it print. -/
theorem printFrom_suffix {t v : TypeId} {o : DeclaratorOp} {ops : List DeclaratorOp} {x : String}
    {fuel : Nat} (ho : o.isPrefix = false) (hv : needsParens (m.node v).kind = true)
    (hprint : ∀ y, m.printFrom argText (fuel + 1) v y =
      m.printFrom argText fuel t (y ++ printSuffix o)) :
    m.printFrom argText (fuel + 1) v (m.printAround v ops x) =
      m.printFrom argText fuel t (m.printAround t (o :: ops) x) := by
  have hinner : printOps (o :: ops) x = m.printAround v ops x ++ printSuffix o := by
    conv => lhs; unfold printOps
    unfold printAround
    rw [if_neg (by simp [ho]), hv, Bool.and_true]
  rw [hprint, ← hinner]
  unfold printAround
  rw [show opensWithPrefix (o :: ops) = false from ho, Bool.false_and, if_neg (by simp)]

mutual

/-- A type is printed as the spelling that means it. -/
theorem printFrom_means (hwf : m.WellFormed) : (s : Spelling) →
    Sound QualifiedName.Settled s → {t : TypeId} → m.Means s t → {fuel : Nat} → t.index < fuel →
    (x : String) →
    m.printFrom argText fuel t x = print s x
  | .mk base quals ops, h, t, ht, fuel, hfuel, x => by
    unfold Sound at h
    unfold Means at ht
    obtain ⟨b, hb, hops⟩ := ht
    obtain ⟨fuel', hfuel', hprint⟩ := printFrom_ops hwf ops h.2.2 hops hfuel x
    have haround : m.printAround b ops x = printOps ops x := by
      unfold printAround
      rw [hb.needsParens, Bool.and_false, if_neg (by simp)]
    have hname : ∀ n, base = .name n → n.Settled := fun n hn => by
      subst hn
      exact h.1
    rw [hprint, printFrom_base hwf hname hb hfuel', haround]
    unfold print
    rfl

theorem printFrom_ops (hwf : m.WellFormed) : (ops : List DeclaratorOp) →
    OpsSound QualifiedName.Settled ops → {t u : TypeId} → m.OpsMean t ops u → {fuel : Nat} →
    u.index < fuel → (x : String) →
    ∃ fuel', t.index < fuel' ∧
      m.printFrom argText fuel u x = m.printFrom argText fuel' t (m.printAround t ops x)
  | [], _, t, u, hu, fuel, hfuel, x => by
    unfold OpsMean at hu
    subst hu
    refine ⟨fuel, hfuel, ?_⟩
    unfold printAround printOps
    rfl
  | o :: ops, h, t, u, hu, fuel, hfuel, x => by
    unfold OpsMean at hu
    obtain ⟨v, hv, hu⟩ := hu
    obtain ⟨fuel', hfuel', hprint⟩ := printFrom_ops hwf ops h.2 hu hfuel x
    obtain ⟨fuel', rfl⟩ : ∃ n, fuel' = n + 1 := ⟨fuel' - 1, by omega⟩
    obtain ⟨hbelow, hstep⟩ := printFrom_op hwf o h.1 hv (Nat.le_of_lt_succ hfuel') ops x
    exact ⟨fuel', Nat.lt_of_lt_of_le hbelow (Nat.le_of_lt_succ hfuel'), hprint.trans hstep⟩

theorem printFrom_op (hwf : m.WellFormed) : (o : DeclaratorOp) → OpSound QualifiedName.Settled o →
    {t v : TypeId} → m.OpMeans t o v → {fuel : Nat} → v.index ≤ fuel → (ops : List DeclaratorOp) →
    (x : String) → t.index < v.index ∧
      m.printFrom argText (fuel + 1) v (m.printAround v ops x) =
        m.printFrom argText fuel t (m.printAround t (o :: ops) x)
  | .pointer quals, h, t, v, hv, fuel, hfuel, ops, x => by
    unfold OpMeans at hv
    have hnode := node_of_get? hv
    refine ⟨hwf.partsBelow v _ hv t (by simp [TypeKind.parts]), ?_⟩
    refine printFrom_prefix rfl (by rw [hnode]; rfl) fun y => ?_
    conv => lhs; unfold printFrom
    rw [hnode]
    rfl
  | .lvalueReference, h, t, v, hv, fuel, hfuel, ops, x
  | .rvalueReference, h, t, v, hv, fuel, hfuel, ops, x => by
    unfold OpMeans at hv
    have hnode := node_of_get? hv
    refine ⟨hwf.partsBelow v _ hv t (by simp [TypeKind.parts]), ?_⟩
    refine printFrom_prefix rfl (by rw [hnode]; rfl) fun y => ?_
    conv => lhs; unfold printFrom
    rw [hnode]
    rfl
  | .memberPointer klass quals, h, t, v, hv, fuel, hfuel, ops, x => by
    unfold OpMeans at hv
    unfold OpSound at h
    obtain ⟨c, hc, hv⟩ := hv
    have hnode := node_of_get? hv
    have hclass := hwf.partsBelow v _ hv c (by simp [TypeKind.parts])
    refine ⟨hwf.partsBelow v _ hv t (by simp [TypeKind.parts]), ?_⟩
    refine printFrom_prefix rfl (by rw [hnode]; rfl) fun y => ?_
    obtain ⟨fuel, rfl⟩ : ∃ n, fuel = n + 1 := ⟨fuel - 1, by omega⟩
    have hname : m.printFrom argText (fuel + 1) c "" = klass.text := by
      rw [printFrom_name h.1 hc, baseText_nil]
    conv => lhs; unfold printFrom
    rw [hnode]
    simp only [hname]
    rfl
  | .array (some n), h, t, v, hv, fuel, hfuel, ops, x => by
    unfold OpMeans at hv
    have hnode := node_of_get? hv
    refine ⟨hwf.partsBelow v _ hv t (by simp [TypeKind.parts]), ?_⟩
    refine printFrom_suffix rfl (by rw [hnode]; rfl) fun y => ?_
    conv => lhs; unfold printFrom
    rw [hnode]
    unfold printSuffix
    simp only [String.append_assoc]
  | .array none, h, t, v, hv, fuel, hfuel, ops, x => by
    unfold OpMeans at hv
    have hnode := node_of_get? hv
    refine ⟨hwf.partsBelow v _ hv t (by simp [TypeKind.parts]), ?_⟩
    refine printFrom_suffix rfl (by rw [hnode]; rfl) fun y => ?_
    conv => lhs; unfold printFrom
    rw [hnode]
    unfold printSuffix
    rfl
  | .function params variadic quals ref, h, t, v, hv, fuel, hfuel, ops, x => by
    unfold OpMeans at hv
    unfold OpSound at h
    obtain ⟨ts, hts, hv⟩ := hv
    have hnode := node_of_get? hv
    have hbelow := hwf.partsBelow v _ hv
    refine ⟨hbelow t (by simp [TypeKind.parts]), ?_⟩
    have hparams := printFrom_all hwf params h.1 hts fuel fun p hp =>
      Nat.lt_of_lt_of_le (hbelow p (List.mem_cons_of_mem _ hp)) hfuel
    refine printFrom_suffix rfl (by rw [hnode]; rfl) fun y => ?_
    conv => lhs; unfold printFrom
    rw [hnode]
    unfold printSuffix
    simp only [hparams, String.append_assoc]

theorem printFrom_all (hwf : m.WellFormed) : (params : List Spelling) →
    AllSound QualifiedName.Settled params → {ts : List TypeId} → m.AllMean params ts →
    (fuel : Nat) → (∀ p ∈ ts, p.index < fuel) →
    ts.map (fun p => m.printFrom argText fuel p "") = printAll params
  | [], _, ts, hts, fuel, _ => by
    unfold AllMean at hts
    unfold printAll
    rw [hts]
    rfl
  | s :: rest, h, ts, hts, fuel, hfuel => by
    unfold AllSound at h
    unfold AllMean at hts
    unfold printAll
    obtain ⟨t, us, rfl, ht, hus⟩ := hts
    rw [List.map_cons, printFrom_means hwf s h.1 ht (hfuel t List.mem_cons_self) "",
      printFrom_all hwf rest h.2 hus fuel fun p hp => hfuel p (List.mem_cons_of_mem _ hp)]

end

/-- The type that a sound spelling means is printed as its canonical spelling. -/
theorem printType_means (hwf : m.WellFormed) {s : Spelling}
    (h : Sound QualifiedName.Settled s) {t : TypeId} (hex : m.HasType t)
    (ht : m.Means s t) (x : String) : m.printType t x = print s x :=
  printFrom_means hwf s h ht (Nat.lt_succ_of_lt hex) x

end CppReflect.Model
