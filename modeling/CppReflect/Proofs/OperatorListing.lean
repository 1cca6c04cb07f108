import CppReflect.Proofs.Lineage

/-!
# Operators of a class and its bases

The operators of a class are listed along its lineage, those of a class in the order of their
declaration. What is listed is what the class and its bases declare. A base that is reached in two
ways contributes its operators twice, so that no operator is listed twice only if none of those that
match is declared in such a base.
-/

namespace CppReflect.Model

variable {m : Model} {c d f : DeclId} {op : Operator} {arity : Arity}

/-- The function declares the operator, and its operand count meets `arity`. -/
def Overloads (m : Model) (op : Operator) (arity : Arity) (f : DeclId) : Prop :=
  ∃ info count, m.function? f = some info ∧ info.special = .operator op ∧
    m.operatorArity? f = some count ∧ count.accepts arity = true

theorem declaresOperator_iff :
    Query.declaresOperator m op arity f = true ↔ m.Overloads op arity f := by
  simp only [Query.declaresOperator, Overloads, Bool.and_eq_true, Option.any_eq_true,
    decide_eq_true_eq]
  constructor
  · rintro ⟨⟨info, hinfo, hop⟩, count, hcount, haccepts⟩
    exact ⟨info, count, hinfo, hop, hcount, haccepts⟩
  · rintro ⟨info, count, hinfo, hop, hcount, haccepts⟩
    exact ⟨⟨info, hinfo, hop⟩, count, hcount, haccepts⟩

/-- The operators are listed class by class along the lineage. -/
theorem operatorsFrom_eq_flatMap (m : Model) (op : Operator) (arity : Arity) (fuel : Nat)
    (d : DeclId) :
    Query.operatorsFrom m op arity fuel d = (m.lineageFrom fuel d).flatMap fun c =>
      (m.decl c).members.filter (Query.declaresOperator m op arity) := by
  induction fuel generalizing d with
  | zero => rfl
  | succ fuel ih =>
      rw [Query.operatorsFrom, lineageFrom, List.flatMap_cons, List.flatMap_assoc]
      congr 1
      apply List.flatMap_congr
      intro b _
      exact ih b

theorem operators_eq_flatMap {x : Handle} (hx : m.declOfHandle? x = some d) (hop : op ≠ .none)
    (arity : Arity) :
    Query.operators m x op arity = (m.lineage d).flatMap fun c =>
      (m.decl c).members.filter (Query.declaresOperator m op arity) := by
  rw [Query.operators, hx, Option.elim_some]
  · exact m.operatorsFrom_eq_flatMap op arity m.declFuel d
  · exact hop

theorem WellFormed.members_lists (h : m.WellFormed) (c : DeclId) :
    m.Lists c (m.decl c).members := by
  cases hc : m.decl? c with
  | none =>
      -- where nothing is declared, nothing is listed
      rw [decl, hc]
      exact ⟨List.Pairwise.nil, fun d hd => absurd hd List.not_mem_nil⟩
  | some e =>
      rw [decl, hc]
      exact h.members c e hc

/-- A declaration is listed in no scope but its own, and there once. -/
theorem WellFormed.count_members (h : m.WellFormed) (hf : f ∈ (m.decl d).members) (c : DeclId) :
    (m.decl c).members.count f = if c = d then 1 else 0 := by
  split
  next heq =>
    subst heq
    have hnodup : (m.decl c).members.Nodup :=
      (h.members_lists c).sorted.imp fun hlt heq => Nat.ne_of_lt hlt (congrArg DeclId.index heq)
    exact List.count_eq_one_of_mem hnodup hf
  next hne =>
    apply List.count_eq_zero_of_not_mem
    intro hc
    obtain ⟨e, he, hparent⟩ := (h.members_lists c).parent f hc
    obtain ⟨e', he', hparent'⟩ := (h.members_lists d).parent f hf
    cases he.symm.trans he'
    exact hne (Option.some.inj (hparent.symm.trans hparent'))

/-- Along any list of scopes a declaration is met as often as its own scope. -/
theorem WellFormed.count_flatMap_members (h : m.WellFormed) (hf : f ∈ (m.decl d).members)
    {p : DeclId → Bool} (hp : p f = true) (scopes : List DeclId) :
    (scopes.flatMap fun c => (m.decl c).members.filter p).count f = scopes.count d := by
  induction scopes with
  | nil => rfl
  | cons c scopes ih =>
      rw [List.flatMap_cons, List.count_append, List.count_filter hp, h.count_members hf, ih,
        List.count_cons, Nat.add_comm]
      congr 1
      by_cases heq : c = d
      · rw [if_pos heq, if_pos (beq_iff_eq.mpr heq)]
      · rw [if_neg heq, if_neg (mt beq_iff_eq.mp heq)]

/-- What is listed as the operators of a scope: those of the scope and of the classes that it is
derived from, each as often as there are ways to the class that declares it. -/
structure ListsOperators (m : Model) (op : Operator) (arity : Arity) (d : DeclId)
    (listed : List DeclId) : Prop where
  mem_iff : ∀ f, f ∈ listed ↔ m.Overloads op arity f ∧
    ∃ c, Relation.ReflTransGen m.Derives d c ∧ f ∈ (m.decl c).members
  count_eq : ∀ c f, f ∈ (m.decl c).members → m.Overloads op arity f →
    listed.count f = {steps | m.IsWay d c steps}.ncard
  nodup_iff : listed.Nodup ↔ ∀ c f, f ∈ (m.decl c).members → m.Overloads op arity f →
    {steps | m.IsWay d c steps}.Subsingleton

/-- Where no class is a base of itself, the operators of a scope are those that it and its bases
declare. One that is declared in a base is listed once for each way to that base. -/
theorem Acyclic.lists_operators (h : m.Acyclic) (hwf : m.WellFormed) {x : Handle}
    (hx : m.declOfHandle? x = some d) (hop : op ≠ .none) (arity : Arity) :
    m.ListsOperators op arity d (Query.operators m x op arity) := by
  have hmem (f : DeclId) : f ∈ Query.operators m x op arity ↔ m.Overloads op arity f ∧
      ∃ c, Relation.ReflTransGen m.Derives d c ∧ f ∈ (m.decl c).members := by
    simp only [operators_eq_flatMap hx hop, List.mem_flatMap, List.mem_filter,
      h.mem_lineage_iff hwf, declaresOperator_iff]
    constructor
    · rintro ⟨c, hreach, hf, hoverloads⟩
      exact ⟨hoverloads, c, hreach, hf⟩
    · rintro ⟨hoverloads, c, hreach, hf⟩
      exact ⟨c, hreach, hf, hoverloads⟩
  have hcount (c f : DeclId) (hf : f ∈ (m.decl c).members) (hoverloads : m.Overloads op arity f) :
      (Query.operators m x op arity).count f = {steps | m.IsWay d c steps}.ncard := by
    rw [operators_eq_flatMap hx hop,
      hwf.count_flatMap_members hf (declaresOperator_iff.mpr hoverloads)]
    exact h.count_lineage hwf d c
  refine ⟨hmem, hcount, ?_⟩
  rw [List.nodup_iff_count_le_one]
  constructor
  · intro hle c f hf hoverloads
    rw [← h.ncard_ways_le_one_iff hwf, ← hcount c f hf hoverloads]
    exact hle f
  · intro hways f
    by_cases hf : f ∈ Query.operators m x op arity
    · obtain ⟨hoverloads, c, -, hmember⟩ := (hmem f).mp hf
      rw [hcount c f hmember hoverloads, h.ncard_ways_le_one_iff hwf]
      exact hways c f hmember hoverloads
    · rw [List.count_eq_zero_of_not_mem hf]
      exact Nat.zero_le 1

/-- The operator of the common base of a diamond is listed twice, once for each way to it. -/
theorem lists_operators_diamond :
    let typed := ((Request.intern ⟨.void, .none⟩).perform.run diamond).2
    let m := ((Request.declareFunction (.function ⟨1⟩ "operator+" ⟨0⟩) []).perform.run typed).2
    (m.WellFormed ∧ m.Acyclic ∧ m.declOfHandle? 5 = some ⟨4⟩) ∧
      Query.operators m 5 .plus .both = [⟨5⟩, ⟨5⟩] ∧
      m.ListsOperators .plus .both ⟨4⟩ (Query.operators m 5 .plus .both) := by
  intro typed m
  have htyped : typed.Reachable := .step diamond_reachable (.intern ⟨.void, .none⟩)
    ⟨fun p hp => absurd hp List.not_mem_nil, fun d hd => absurd hd (Option.not_mem_none d)⟩
  have hm : m.Reachable := .step htyped (.declareFunction (.function ⟨1⟩ "operator+" ⟨0⟩) [])
    ⟨⟨by decide +kernel, by decide +kernel⟩, fun edit hedit => absurd hedit List.not_mem_nil⟩
  have hacyclic : m.Acyclic := acyclic_of_lt (by decide +kernel)
  have hx : m.declOfHandle? 5 = some ⟨4⟩ := by decide +kernel
  exact ⟨⟨hm.wellFormed, hacyclic, hx⟩, by decide +kernel,
    Acyclic.lists_operators hacyclic hm.wellFormed hx (by decide) .both⟩

end CppReflect.Model
