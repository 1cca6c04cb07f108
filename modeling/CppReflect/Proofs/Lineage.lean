import CppReflect.Proofs.Derivation
import Mathlib.Data.Set.Card

/-!
# The lineage of a class

A walk over base classes meets a class in front of its bases, and the bases from left to right. The
classes that it meets in this order are the lineage of a class. Nothing notes where the walk has
been, so a base that two base classes have in common stands in the lineage twice: a class stands
there exactly as often as there are ways to it over base specifiers.
-/

namespace CppReflect.Model

variable {m : Model} {c d : DeclId}

/-- The class and its bases in the order of a depth-first walk from left to right, to the depth
`fuel`. -/
def lineageFrom (m : Model) : Nat → DeclId → List DeclId
  | 0, _ => []
  | fuel + 1, d => d :: (m.baseRecords d).flatMap (m.lineageFrom fuel)

/-- The class and its bases in the order of a depth-first walk from left to right. -/
def lineage (m : Model) (d : DeclId) : List DeclId := m.lineageFrom m.declFuel d

theorem reach_of_mem_lineageFrom {fuel : Nat} (hc : c ∈ m.lineageFrom fuel d) :
    Relation.ReflTransGen m.Derives d c := by
  induction fuel generalizing d with
  | zero => exact absurd hc List.not_mem_nil
  | succ fuel ih =>
      rcases List.mem_cons.mp hc with rfl | hbases
      · exact .refl
      · obtain ⟨b, hb, hcb⟩ := List.mem_flatMap.mp hbases
        exact .head hb (ih hcb)

section Acyclic

variable (h : m.Acyclic) (hwf : m.WellFormed)

include h hwf

theorem Acyclic.lineageFrom_congr {fuel fuel' : Nat} (hfuel : m.ahead d < fuel)
    (hfuel' : m.ahead d < fuel') : m.lineageFrom fuel d = m.lineageFrom fuel' d := by
  induction fuel generalizing d fuel' with
  | zero => exact absurd hfuel (Nat.not_lt_zero _)
  | succ fuel ih =>
      obtain ⟨fuel', rfl⟩ := Nat.exists_eq_succ_of_ne_zero (Nat.ne_zero_of_lt hfuel')
      rw [lineageFrom, lineageFrom]
      congr 1
      apply List.flatMap_congr
      intro b hd
      exact ih (h.covers hwf hd hfuel) (h.covers hwf hd hfuel')

/-- The lineage is the class and behind it the lineages of its bases, whatever bound is carried. -/
theorem Acyclic.lineage_eq (d : DeclId) :
    m.lineage d = d :: (m.baseRecords d).flatMap m.lineage := by
  rw [lineage, declFuel, lineageFrom]
  congr 1
  apply List.flatMap_congr
  intro b hd
  exact h.lineageFrom_congr hwf (h.covers hwf hd (m.ahead_lt_declFuel d)) (m.ahead_lt_declFuel b)

theorem Acyclic.mem_lineage_iff : c ∈ m.lineage d ↔ Relation.ReflTransGen m.Derives d c := by
  constructor
  · exact reach_of_mem_lineageFrom
  · intro hreach
    induction hreach using Relation.ReflTransGen.head_induction_on with
    | refl =>
        rw [h.lineage_eq hwf]
        exact List.mem_cons_self
    | head hd _ ih =>
        rw [h.lineage_eq hwf]
        exact List.mem_cons_of_mem _ (List.mem_flatMap.mpr ⟨_, hd, ih⟩)

end Acyclic

/-! ## Ways -/

/-- The steps lead from a class to itself, where there are none, or to a base class. -/
def IsWay (m : Model) (d c : DeclId) (steps : List (DeclId × Nat)) : Prop :=
  (steps = [] ∧ d = c) ∨ m.BaseChain c d steps

/-- The ways to a class, to the depth `fuel`. -/
def waysFrom (m : Model) (c : DeclId) : Nat → DeclId → List (List (DeclId × Nat))
  | 0, _ => []
  | fuel + 1, d =>
    (if d = c then [[]] else []) ++
      (m.indexedBases d).flatMap fun b => (m.waysFrom c fuel b.2).map ((d, b.1) :: ·)

theorem isWay_nil_iff : m.IsWay d c [] ↔ d = c := by
  constructor
  · rintro (⟨-, heq⟩ | hchain)
    · exact heq
    · cases hchain
  · intro heq
    exact .inl ⟨rfl, heq⟩

theorem isWay_cons_iff {e : DeclId} {i : Nat} {rest : List (DeclId × Nat)} :
    m.IsWay d c ((e, i) :: rest) ↔ e = d ∧ ∃ b, m.NamesBase d i b ∧ m.IsWay b c rest := by
  constructor
  · rintro (⟨hnil, -⟩ | hchain)
    · cases hnil
    · cases hchain with
      | last hbase => exact ⟨rfl, c, hbase, .inl ⟨rfl, rfl⟩⟩
      | step hbase hrest => exact ⟨rfl, _, hbase, .inr hrest⟩
  · rintro ⟨rfl, b, hbase, ⟨rfl, rfl⟩ | hrest⟩
    · exact .inr (.last hbase)
    · exact .inr (.step hbase hrest)

theorem mem_waysFrom_nil_iff {fuel : Nat} : [] ∈ m.waysFrom c (fuel + 1) d ↔ d = c := by
  rw [waysFrom, List.mem_append]
  constructor
  · rintro (hhere | hbases)
    · by_contra hne
      rw [if_neg hne] at hhere
      exact absurd hhere List.not_mem_nil
    · obtain ⟨b, -, hb⟩ := List.mem_flatMap.mp hbases
      obtain ⟨rest, -, hrest⟩ := List.mem_map.mp hb
      exact absurd hrest (List.cons_ne_nil _ _)
  · intro heq
    rw [if_pos heq]
    exact .inl List.mem_cons_self

theorem mem_waysFrom_cons_iff {fuel : Nat} {e : DeclId} {i : Nat} {rest : List (DeclId × Nat)} :
    (e, i) :: rest ∈ m.waysFrom c (fuel + 1) d ↔
      e = d ∧ ∃ b, m.NamesBase d i b ∧ rest ∈ m.waysFrom c fuel b := by
  rw [waysFrom, List.mem_append]
  constructor
  · rintro (hhere | hbases)
    · split at hhere
      · exact absurd (List.mem_singleton.mp hhere) (List.cons_ne_nil _ _)
      · exact absurd hhere List.not_mem_nil
    · obtain ⟨⟨j, b⟩, hb, hsteps⟩ := List.mem_flatMap.mp hbases
      obtain ⟨rest', hrest, heq⟩ := List.mem_map.mp hsteps
      cases heq
      exact ⟨rfl, b, mem_indexedBases_iff.mp hb, hrest⟩
  · rintro ⟨rfl, b, hbase, hrest⟩
    right
    apply List.mem_flatMap.mpr
    exact ⟨(i, b), mem_indexedBases_iff.mpr hbase, List.mem_map_of_mem hrest⟩

theorem Acyclic.mem_waysFrom_iff (h : m.Acyclic) (hwf : m.WellFormed) {fuel : Nat}
    (hfuel : m.ahead d < fuel) {steps : List (DeclId × Nat)} :
    steps ∈ m.waysFrom c fuel d ↔ m.IsWay d c steps := by
  induction fuel generalizing d steps with
  | zero => exact absurd hfuel (Nat.not_lt_zero _)
  | succ fuel ih =>
      cases steps with
      | nil => rw [mem_waysFrom_nil_iff, isWay_nil_iff]
      | cons step rest =>
          rw [mem_waysFrom_cons_iff, isWay_cons_iff]
          apply and_congr_right
          intro _
          apply exists_congr
          intro b
          apply and_congr_right
          intro hbase
          exact ih (h.covers hwf (derives_iff.mpr ⟨_, hbase⟩) hfuel)

theorem indexedBases_pairwise (m : Model) (d : DeclId) :
    (m.indexedBases d).Pairwise fun a b => a.1 ≠ b.1 := by
  have hplaces : (((m.record? d).elim [] RecordInfo.bases).zipIdx.map Prod.snd).Nodup := by
    rw [List.zipIdx_map_snd]
    exact List.nodup_range'
  rw [indexedBases, List.pairwise_filterMap]
  apply (List.pairwise_map.mp hplaces).imp
  intro s s' hne a ha b hb
  obtain ⟨_, -, rfl⟩ := Option.map_eq_some_iff.mp ha
  obtain ⟨_, -, rfl⟩ := Option.map_eq_some_iff.mp hb
  exact hne

/-- No way is listed twice: two ways over different base specifiers differ in their first step. -/
theorem waysFrom_nodup (m : Model) (c : DeclId) (fuel : Nat) (d : DeclId) :
    (m.waysFrom c fuel d).Nodup := by
  induction fuel generalizing d with
  | zero => exact List.nodup_nil
  | succ fuel ih =>
      rw [waysFrom, List.nodup_append]
      refine ⟨?_, ?_, ?_⟩
      · split
        · exact List.nodup_singleton _
        · exact List.nodup_nil
      · rw [List.nodup_flatMap]
        constructor
        · intro b _
          exact (ih b.2).map List.cons_injective
        · apply (m.indexedBases_pairwise d).imp
          intro a b hne steps ha hb
          obtain ⟨_, -, rfl⟩ := List.mem_map.mp ha
          obtain ⟨_, -, heq⟩ := List.mem_map.mp hb
          exact hne (congrArg Prod.snd (List.cons.inj heq).1).symm
      · intro steps hhere steps' hbases
        obtain ⟨b, -, hb⟩ := List.mem_flatMap.mp hbases
        obtain ⟨rest, -, rfl⟩ := List.mem_map.mp hb
        split at hhere
        · rw [List.mem_singleton.mp hhere]
          exact (List.cons_ne_nil _ _).symm
        · exact absurd hhere List.not_mem_nil

theorem baseRecords_eq_map (m : Model) (d : DeclId) :
    m.baseRecords d = (m.indexedBases d).map Prod.snd := by
  rw [baseRecords, indexedBases, List.map_filterMap]
  conv_lhs => rw [← List.zipIdx_map_fst 0 ((m.record? d).elim [] RecordInfo.bases)]
  rw [List.filterMap_map]
  apply List.filterMap_congr
  intro b _
  rw [Option.map_map]
  exact Option.map_id'.symm

theorem count_lineageFrom (m : Model) (c : DeclId) (fuel : Nat) (d : DeclId) :
    (m.lineageFrom fuel d).count c = (m.waysFrom c fuel d).length := by
  induction fuel generalizing d with
  | zero => rfl
  | succ fuel ih =>
      have hbases : ((m.baseRecords d).flatMap (m.lineageFrom fuel)).count c =
          ((m.indexedBases d).flatMap fun b =>
            (m.waysFrom c fuel b.2).map ((d, b.1) :: ·)).length := by
        rw [List.count_flatMap, List.length_flatMap, baseRecords_eq_map, List.map_map]
        congr 1
        apply List.map_congr_left
        intro b _
        rw [List.length_map]
        exact ih b.2
      rw [lineageFrom, waysFrom, List.count_cons, List.length_append, hbases, Nat.add_comm]
      congr 1
      by_cases heq : d = c
      · rw [if_pos heq, if_pos (beq_iff_eq.mpr heq)]
        rfl
      · rw [if_neg heq, if_neg (mt beq_iff_eq.mp heq)]
        rfl

section Acyclic

variable (h : m.Acyclic) (hwf : m.WellFormed)

include h hwf

theorem Acyclic.coe_waysFrom_toFinset [DecidableEq (List (DeclId × Nat))] (d c : DeclId) :
    ((m.waysFrom c m.declFuel d).toFinset : Set (List (DeclId × Nat))) =
      {steps | m.IsWay d c steps} := by
  ext steps
  rw [Finset.mem_coe, List.mem_toFinset]
  exact h.mem_waysFrom_iff hwf (m.ahead_lt_declFuel d)

/-- A class stands in the lineage as often as there are ways to it. -/
theorem Acyclic.count_lineage (d c : DeclId) :
    (m.lineage d).count c = {steps | m.IsWay d c steps}.ncard := by
  classical
  rw [← h.coe_waysFrom_toFinset hwf, Set.ncard_coe_finset,
    List.toFinset_card_of_nodup (m.waysFrom_nodup c _ d)]
  exact m.count_lineageFrom c m.declFuel d

theorem Acyclic.ncard_ways_le_one_iff (d c : DeclId) :
    {steps | m.IsWay d c steps}.ncard ≤ 1 ↔ {steps | m.IsWay d c steps}.Subsingleton := by
  classical
  rw [← h.coe_waysFrom_toFinset hwf]
  exact Set.ncard_le_one_iff_subsingleton

end Acyclic

/-! ## A diamond -/

/-- Class `D` is derived from `B` and `C`, which are both derived from `A`. -/
def diamond : Model :=
  let klass (name : String) (m : Model) :=
    ((Request.declareRecord root name .struct true).perform.run m).2
  let derive (d b : DeclId) (m : Model) := ((Request.addBase d b .pub false).perform.run m).2
  let bare := klass "D" (klass "C" (klass "B" (klass "A" empty)))
  derive ⟨4⟩ ⟨3⟩ (derive ⟨4⟩ ⟨2⟩ (derive ⟨3⟩ ⟨1⟩ (derive ⟨2⟩ ⟨1⟩ bare)))

theorem diamond_reachable : diamond.Reachable := by
  have klass {m : Model} (h : m.Reachable) (name : String) (hroot : m.HasDecl root) :
      ((Request.declareRecord root name .struct true).perform.run m).2.Reachable :=
    .step h (.declareRecord root name .struct true) hroot
  have derive {m : Model} (h : m.Reachable) (d b : DeclId) (hd : m.HasDecl d) (hb : m.HasDecl b) :
      ((Request.addBase d b .pub false).perform.run m).2.Reachable :=
    .step h (.addBase d b .pub false) ⟨hd, hb⟩
  have hA := klass .empty "A" (by decide)
  have hB := klass hA "B" (by decide +kernel)
  have hC := klass hB "C" (by decide +kernel)
  have hbare := klass hC "D" (by decide +kernel)
  have hleft := derive hbare ⟨2⟩ ⟨1⟩ (by decide +kernel) (by decide +kernel)
  have hright := derive hleft ⟨3⟩ ⟨1⟩ (by decide +kernel) (by decide +kernel)
  have hfirst := derive hright ⟨4⟩ ⟨2⟩ (by decide +kernel) (by decide +kernel)
  exact derive hfirst ⟨4⟩ ⟨3⟩ (by decide +kernel) (by decide +kernel)

/-- The common base stands in the lineage once behind each of the two classes derived from it. -/
example : diamond.lineage ⟨4⟩ = [⟨4⟩, ⟨2⟩, ⟨1⟩, ⟨3⟩, ⟨1⟩] := by decide +kernel

end CppReflect.Model
