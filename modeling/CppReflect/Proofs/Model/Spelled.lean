import CppReflect.Proofs.Model.Meaning

/-!
# A type has one canonical spelling

The last operator of a spelling can be read off the type that it means, and so can the base of one
without operators. So two canonical spellings that mean the same type differ at most in how their
names are cut into segments.
-/

namespace CppReflect

/-- The type that a type is made of by its last operator. -/
def TypeKind.operand? : TypeKind → Option TypeId
  | .pointer t | .lvalueReference t | .rvalueReference t | .constantArray t _
  | .incompleteArray t | .memberPointer t _ => some t
  | .function proto => some proto.ret
  | .void | .builtin _ | .record _ | .enum _ | .typedef _ | .complex _ | .named _ => none

theorem TypeKind.mem_parts_of_operand? {k : TypeKind} {t : TypeId} (h : k.operand? = some t) :
    t ∈ k.parts := by
  cases k <;> simp_all [operand?, parts]

theorem QualifiedName.Settled.text_ne {n : QualifiedName} (h : n.Settled) :
    n.text ≠ "nullptr_t" := by
  intro hnull
  unfold Settled canon at h
  rw [if_pos hnull] at h
  rw [← h] at hnull
  exact absurd hnull (by decide)

theorem QualifiedName.kind_cases (n : QualifiedName) :
    n.kind = .builtin .nullPtr ∨ n.kind = .named n.text := by
  unfold kind
  split
  · exact Or.inl rfl
  · exact Or.inr rfl

/-- The name in one segment. -/
def QualifiedName.flat (n : QualifiedName) : QualifiedName := ⟨false, [n.text]⟩

namespace Spelling

/-- The base with its name in one segment. -/
def Base.flat : Base → Base
  | .name n => .name n.flat
  | b => b

mutual

/-- The spelling with each name in one segment. -/
def flat : Spelling → Spelling
  | .mk base quals ops => .mk base.flat quals (flatOps ops)

/-- The operators with each name in one segment. -/
def flatOps : List DeclaratorOp → List DeclaratorOp
  | [] => []
  | o :: ops => flatOp o :: flatOps ops

/-- The operator with each name in one segment. -/
def flatOp : DeclaratorOp → DeclaratorOp
  | .memberPointer klass quals => .memberPointer klass.flat quals
  | .function params variadic quals ref => .function (flatAll params) variadic quals ref
  | o => o

/-- The parameters with each name in one segment. -/
def flatAll : List Spelling → List Spelling
  | [] => []
  | s :: rest => flat s :: flatAll rest

end

theorem flatOps_append (ops ops' : List DeclaratorOp) :
    flatOps (ops ++ ops') = flatOps ops ++ flatOps ops' := by
  induction ops with
  | nil => simp [flatOps]
  | cons o ops ih => simp [flatOps, ih]

end Spelling

namespace Model

open Spelling

variable {m : Model}

mutual

/-- What a spelling means depends on the texts of its names alone. -/
theorem means_flat : (s : Spelling) → {t : TypeId} → m.Means s.flat t ↔ m.Means s t
  | .mk base quals ops, t => by
    unfold flat Means
    have hbase : ∀ b, m.BaseMeans quals b base.flat ↔ m.BaseMeans quals b base := by
      intro b
      cases base <;> exact Iff.rfl
    exact exists_congr fun b => and_congr (hbase b) (opsMean_flat ops)

theorem opsMean_flat : (ops : List DeclaratorOp) → {t u : TypeId} →
    (m.OpsMean t (flatOps ops) u ↔ m.OpsMean t ops u)
  | [], t, u => by
    unfold flatOps
    exact Iff.rfl
  | o :: ops, t, u => by
    unfold flatOps OpsMean
    exact exists_congr fun v => and_congr (opMeans_flat o) (opsMean_flat ops)

theorem opMeans_flat : (o : DeclaratorOp) → {t u : TypeId} →
    (m.OpMeans t (flatOp o) u ↔ m.OpMeans t o u)
  | .memberPointer klass quals, t, u => by
    unfold flatOp OpMeans
    exact Iff.rfl
  | .function params variadic quals ref, t, u => by
    unfold flatOp OpMeans
    exact exists_congr fun ts => and_congr (allMean_flat params) Iff.rfl
  | .pointer _, t, u | .lvalueReference, t, u | .rvalueReference, t, u | .array _, t, u => by
    unfold flatOp
    exact Iff.rfl

theorem allMean_flat : (params : List Spelling) → {ts : List TypeId} →
    (m.AllMean (flatAll params) ts ↔ m.AllMean params ts)
  | [], ts => by
    unfold flatAll
    exact Iff.rfl
  | s :: rest, ts => by
    unfold flatAll AllMean
    exact exists_congr fun t => exists_congr fun us =>
      and_congr Iff.rfl (and_congr (means_flat s) (allMean_flat rest))

end

/-- The last operator is applied last. -/
theorem opsMean_concat {ops : List DeclaratorOp} {o : DeclaratorOp} {t u : TypeId} :
    m.OpsMean t (ops ++ [o]) u ↔ ∃ v, m.OpsMean t ops v ∧ m.OpMeans v o u := by
  induction ops generalizing t with
  | nil =>
      simp only [List.nil_append, OpsMean]
      constructor
      · rintro ⟨v, hv, rfl⟩
        exact ⟨t, rfl, hv⟩
      · rintro ⟨_, rfl, hv⟩
        exact ⟨u, hv, rfl⟩
  | cons o' ops ih =>
      simp only [List.cons_append, OpsMean, ih]
      constructor
      · rintro ⟨v, hv, w, hw, hu⟩
        exact ⟨w, ⟨v, hv, hw⟩, hu⟩
      · rintro ⟨w, ⟨v, hv, hw⟩, hu⟩
        exact ⟨v, hv, w, hw, hu⟩

/-! ## The spelling read off a type -/

theorem OpMeans.node {o : DeclaratorOp} {t u : TypeId} (h : m.OpMeans t o u) :
    ∃ k q, m.types.get? u = some ⟨k, q⟩ ∧ k.operand? = some t := by
  cases o with
  | pointer | lvalueReference | rvalueReference =>
      unfold OpMeans at h
      exact ⟨_, _, h, rfl⟩
  | memberPointer klass quals =>
      unfold OpMeans at h
      obtain ⟨c, _, h⟩ := h
      exact ⟨_, _, h, rfl⟩
  | array extent =>
      cases extent <;> unfold OpMeans at h <;> exact ⟨_, _, h, rfl⟩
  | function params variadic quals ref =>
      unfold OpMeans at h
      obtain ⟨ts, _, h⟩ := h
      exact ⟨_, _, h, rfl⟩

theorem BaseMeans.node {base : Spelling.Base} {q : Quals} {t : TypeId} (h : m.BaseMeans q t base) :
    ∃ k, m.types.get? t = some ⟨k, q⟩ ∧ k.operand? = none := by
  cases base with
  | void | builtin => exact ⟨_, h, rfl⟩
  | complex b =>
      obtain ⟨e, _, h⟩ := h
      exact ⟨_, h, rfl⟩
  | name n =>
      refine ⟨_, h, ?_⟩
      rcases n.kind_cases with hkind | hkind <;> rw [hkind] <;> rfl

/-- A type without an operator has no spelling with one. -/
theorem BaseMeans.not_opMeans {base : Spelling.Base} {q : Quals} {o : DeclaratorOp} {t u : TypeId}
    (h : m.BaseMeans q u base) (ho : m.OpMeans t o u) : False := by
  obtain ⟨k, hk, hnone⟩ := h.node
  obtain ⟨k', q', hk', hsome⟩ := OpMeans.node ho
  rw [hk, Option.some.injEq, TypeNode.mk.injEq] at hk'
  rw [← hk'.1, hnone] at hsome
  cases hsome

/-- The type in front of the last operator is determined. -/
theorem OpMeans.operand_unique {o o' : DeclaratorOp} {t t' u : TypeId} (h : m.OpMeans t o u)
    (h' : m.OpMeans t' o' u) : t = t' := by
  obtain ⟨k, q, hk, hsome⟩ := OpMeans.node h
  obtain ⟨k', q', hk', hsome'⟩ := OpMeans.node h'
  rw [hk, Option.some.injEq, TypeNode.mk.injEq] at hk'
  rw [hk'.1] at hsome
  exact Option.some.inj (hsome.symm.trans hsome')

theorem OpMeans.operand_below (hwf : m.WellFormed) {o : DeclaratorOp} {t u : TypeId}
    (h : m.OpMeans t o u) : t.index < u.index := by
  obtain ⟨k, q, hk, hsome⟩ := OpMeans.node h
  exact hwf.partsBelow u _ hk t (TypeKind.mem_parts_of_operand? hsome)

/-- A name that is printed as it is written is known by its kind up to its segments. -/
theorem flat_of_kind {n n' : QualifiedName} (hn : n.Settled) (hn' : n'.Settled)
    (h : n.kind = n'.kind) : n.flat = n'.flat := by
  have htext : n.text = n'.text := by
    have hne := hn.text_ne
    have hne' := hn'.text_ne
    unfold QualifiedName.kind at h
    split at h <;> split at h <;> simp_all
  unfold QualifiedName.flat
  rw [htext]

/-- Only a name is spelled like a name. -/
theorem BaseMeans.eq_name {base : Spelling.Base} {n : QualifiedName} {q q' : Quals} {t : TypeId}
    (hs : base.Sound QualifiedName.Settled) (h : m.BaseMeans q t (.name n))
    (h' : m.BaseMeans q' t base) : ∃ n', base = .name n' ∧ n.kind = n'.kind ∧ q = q' := by
  unfold BaseMeans at h
  have hkind := n.kind_cases
  cases base with
  | name n' =>
      rw [BaseMeans, h, Option.some.injEq, TypeNode.mk.injEq] at h'
      exact ⟨n', rfl, h'⟩
  | void =>
      rw [BaseMeans, h, Option.some.injEq, TypeNode.mk.injEq] at h'
      simp [h'.1] at hkind
  | builtin b =>
      rw [BaseMeans, h, Option.some.injEq, TypeNode.mk.injEq] at h'
      exact absurd (by simpa [h'.1] using hkind) hs
  | complex b =>
      obtain ⟨e, _, h'⟩ := h'
      rw [h, Option.some.injEq, TypeNode.mk.injEq] at h'
      simp [h'.1] at hkind

theorem BaseMeans.flat_unique {base base' : Spelling.Base} {q q' : Quals} {t : TypeId}
    (hs : base.Sound QualifiedName.Settled) (hs' : base'.Sound QualifiedName.Settled)
    (h : m.BaseMeans q t base) (h' : m.BaseMeans q' t base') : base.flat = base'.flat ∧ q = q' := by
  by_cases hname : ∃ n, base = .name n
  · obtain ⟨n, rfl⟩ := hname
    obtain ⟨n', rfl, hkind, rfl⟩ := h.eq_name hs' h'
    exact ⟨congrArg Spelling.Base.name (flat_of_kind hs hs' hkind), rfl⟩
  · have hname' : ∀ n', base' ≠ .name n' := by
      rintro n' rfl
      obtain ⟨n, rfl, _⟩ := h'.eq_name hs h
      exact hname ⟨n, rfl⟩
    cases base <;> cases base' <;> simp_all [BaseMeans]
    obtain ⟨e, he, ht⟩ := h
    obtain ⟨e', he', ht'⟩ := h'
    simp_all

/-- Types that are spelled in one way each are spelled in one way together. -/
theorem flatAll_unique {ts : List TypeId} : (params params' : List Spelling) →
    (∀ p ∈ ts, ∀ s s', Sound QualifiedName.Settled s → Sound QualifiedName.Settled s' →
      m.Means s p → m.Means s' p → flat s = flat s') →
    AllSound QualifiedName.Settled params → AllSound QualifiedName.Settled params' →
    m.AllMean params ts → m.AllMean params' ts → flatAll params = flatAll params' := by
  induction ts with
  | nil =>
      intro params params' _ _ _ h h'
      cases params <;> cases params' <;> simp_all [AllMean]
  | cons t ts ih =>
      intro params params' hunique hs hs' h h'
      cases params with
      | nil => simp [AllMean] at h
      | cons s rest =>
        cases params' with
        | nil => simp [AllMean] at h'
        | cons s' rest' =>
          unfold AllMean at h h'
          unfold AllSound at hs hs'
          obtain ⟨_, _, heq, hmeans, hrest⟩ := h
          obtain ⟨_, _, heq', hmeans', hrest'⟩ := h'
          obtain ⟨rfl, rfl⟩ := List.cons.inj heq
          obtain ⟨rfl, rfl⟩ := List.cons.inj heq'
          unfold flatAll
          rw [hunique t (by simp) s s' hs.1 hs'.1 hmeans hmeans',
            ih rest rest' (fun p hp => hunique p (List.mem_cons_of_mem _ hp)) hs.2 hs'.2 hrest hrest']

/-- The last operator of a type is determined if the spellings of the types below are. -/
theorem OpMeans.flat_unique (hwf : m.WellFormed) {o o' : DeclaratorOp} {t u : TypeId}
    (hs : OpSound QualifiedName.Settled o) (hs' : OpSound QualifiedName.Settled o')
    (h : m.OpMeans t o u) (h' : m.OpMeans t o' u)
    (hbelow : ∀ p, p.index < u.index → ∀ s s', Sound QualifiedName.Settled s →
      Sound QualifiedName.Settled s' → m.Means s p → m.Means s' p → flat s = flat s') :
    flatOp o = flatOp o' := by
  cases o with
  | pointer q =>
      cases o' with
      | array extent => cases extent <;> simp_all [OpMeans]
      | _ => simp_all [OpMeans]
  | lvalueReference =>
      cases o' with
      | array extent => cases extent <;> simp_all [OpMeans]
      | _ => simp_all [OpMeans]
  | rvalueReference =>
      cases o' with
      | array extent => cases extent <;> simp_all [OpMeans]
      | _ => simp_all [OpMeans]
  | array extent =>
      cases extent <;> cases o' with
      | array extent' => cases extent' <;> simp_all [OpMeans]
      | _ => simp_all [OpMeans]
  | memberPointer klass q =>
      unfold OpMeans at h
      obtain ⟨c, hc, h⟩ := h
      cases o' with
      | memberPointer klass' q' =>
          unfold OpMeans at h'
          obtain ⟨c', hc', h'⟩ := h'
          simp only [h, Option.some.injEq, TypeNode.mk.injEq, TypeKind.memberPointer.injEq,
            true_and] at h'
          obtain ⟨rfl, rfl⟩ := h'
          rw [hc, Option.some.injEq, TypeNode.mk.injEq] at hc'
          unfold flatOp
          rw [flat_of_kind hs.1 hs'.1 hc'.1]
      | array extent => cases extent <;> simp_all [OpMeans]
      | _ => simp_all [OpMeans]
  | function params variadic q ref =>
      unfold OpMeans at h
      obtain ⟨ts, hts, h⟩ := h
      cases o' with
      | function params' variadic' q' ref' =>
          unfold OpMeans at h'
          obtain ⟨ts', hts', h'⟩ := h'
          simp only [h, Option.some.injEq, TypeNode.mk.injEq, TypeKind.function.injEq,
            FunctionProto.mk.injEq, true_and, and_true] at h'
          obtain ⟨rfl, rfl, rfl, rfl⟩ := h'
          unfold OpSound at hs hs'
          have hparts : ∀ p ∈ ts, p.index < u.index := fun p hp =>
            hwf.partsBelow u _ h p (List.mem_cons_of_mem _ hp)
          unfold flatOp
          rw [flatAll_unique params params' (fun p hp => hbelow p (hparts p hp)) hs.1 hs'.1 hts hts']
      | array extent => cases extent <;> simp_all [OpMeans]
      | _ => simp_all [OpMeans]

/-- A type has one canonical spelling, up to the segments of the names in it. -/
theorem flat_unique (hwf : m.WellFormed) {t : TypeId} {s s' : Spelling}
    (hs : Sound QualifiedName.Settled s) (hs' : Sound QualifiedName.Settled s')
    (h : m.Means s t) (h' : m.Means s' t) : flat s = flat s' := by
  -- a spelling without its last operator is one of a type below, and so are the parameters
  induction hn : t.index using Nat.strongRecOn generalizing t s s' with
  | ind n ih =>
    subst hn
    obtain ⟨base, q, ops⟩ := s
    obtain ⟨base', q', ops'⟩ := s'
    unfold Means at h h'
    obtain ⟨b, hb, hops⟩ := h
    obtain ⟨b', hb', hops'⟩ := h'
    unfold Sound at hs hs'
    have hsplit : ∀ ops : List DeclaratorOp, ops = [] ∨ ∃ front o, ops = front ++ [o] := fun ops => by
      simpa only [List.concat_eq_append] using ops.eq_nil_or_concat
    rcases hsplit ops with rfl | ⟨ops, o, rfl⟩ <;> rcases hsplit ops' with rfl | ⟨ops', o', rfl⟩
    · unfold OpsMean at hops hops'
      subst hops hops'
      obtain ⟨hbase, rfl⟩ := hb.flat_unique hs.1 hs'.1 hb'
      simp only [flat, hbase]
    · unfold OpsMean at hops
      subst hops
      obtain ⟨v, _, ho⟩ := opsMean_concat.mp hops'
      exact (hb.not_opMeans ho).elim
    · unfold OpsMean at hops'
      subst hops'
      obtain ⟨v, _, ho⟩ := opsMean_concat.mp hops
      exact (hb'.not_opMeans ho).elim
    · obtain ⟨v, hv, ho⟩ := opsMean_concat.mp hops
      obtain ⟨v', hv', ho'⟩ := opsMean_concat.mp hops'
      obtain rfl := OpMeans.operand_unique ho ho'
      obtain ⟨hbase, hq, hops, hlast, _⟩ := by simpa only [opsSound_append] using hs
      obtain ⟨hbase', hq', hops', hlast', _⟩ := by simpa only [opsSound_append] using hs'
      have hlast := OpMeans.flat_unique hwf hlast hlast' ho ho' fun p hp s s' hs hs' h h' =>
        ih p.index hp hs hs' h h' rfl
      have hfront : flat (.mk base q ops) = flat (.mk base' q' ops') := by
        refine ih v.index (OpMeans.operand_below hwf ho) ?_ ?_ ?_ ?_ rfl
        · exact ⟨hbase, hq, hops⟩
        · exact ⟨hbase', hq', hops'⟩
        · exact ⟨b, hb, hv⟩
        · exact ⟨b', hb', hv'⟩
      unfold flat at hfront ⊢
      rw [Spelling.mk.injEq] at hfront
      rw [hfront.1, hfront.2.1, flatOps_append, flatOps_append, hfront.2.2]
      simp only [flatOps, hlast]

end Model

end CppReflect
