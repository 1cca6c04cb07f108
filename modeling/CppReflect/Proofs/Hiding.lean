import CppReflect.Proofs.Lineage

/-!
# Hiding

A member hides the members of the same name in the bases of its class. A name that is looked up in a
class means the members of the first class in the lineage that has some of that name, however many
classes behind it have others. Nominated namespaces count only once the bases are done, so classes
without using-directives are looked up along their lineage alone.
-/

namespace CppReflect.Model

variable {m : Model} {r : DeclId} {name : String}

/-! ## The first answer -/

section FirstNonempty

variable {α β γ : Type} {f : β → List γ}

theorem firstNonempty_cons_of_eq_nil {b : β} {l : List β} (hb : f b = []) :
    firstNonempty f (b :: l) = firstNonempty f l := by
  rw [firstNonempty, hb]
  rfl

theorem firstNonempty_cons_of_ne_nil {b : β} {l : List β} (hb : f b ≠ []) :
    firstNonempty f (b :: l) = f b := by
  rw [firstNonempty, if_neg (mt List.isEmpty_iff.mp hb)]

theorem firstNonempty_append (l l' : List β) :
    firstNonempty f (l ++ l') =
      if (firstNonempty f l).isEmpty then firstNonempty f l' else firstNonempty f l := by
  induction l with
  | nil => rfl
  | cons b l ih =>
      rw [List.cons_append]
      by_cases hb : f b = []
      · rw [firstNonempty_cons_of_eq_nil hb, firstNonempty_cons_of_eq_nil hb, ih]
      · rw [firstNonempty_cons_of_ne_nil hb, firstNonempty_cons_of_ne_nil hb,
          if_neg (mt List.isEmpty_iff.mp hb)]

/-- The first answer along lists that stand in a row is the first of their first answers. -/
theorem firstNonempty_flatMap (g : α → List β) (l : List α) :
    firstNonempty f (l.flatMap g) = firstNonempty (fun a => firstNonempty f (g a)) l := by
  induction l with
  | nil => rfl
  | cons a l ih => rw [List.flatMap_cons, firstNonempty_append, ih, firstNonempty]

theorem firstNonempty_eq_nil {l : List β} (h : ∀ b ∈ l, f b = []) : firstNonempty f l = [] := by
  induction l with
  | nil => rfl
  | cons b l ih =>
      rw [firstNonempty_cons_of_eq_nil (h b List.mem_cons_self)]
      exact ih fun b' hb' => h b' (List.mem_cons_of_mem b hb')

/-- What gives the first answer stands behind what gives none. -/
theorem firstNonempty_append_cons {before after : List β} {b : β} (hbefore : ∀ a ∈ before, f a = [])
    (hb : f b ≠ []) : firstNonempty f (before ++ b :: after) = f b := by
  rw [firstNonempty_append, firstNonempty_eq_nil hbefore, firstNonempty_cons_of_ne_nil hb]
  rfl

theorem firstNonempty_ne_nil_iff {l : List β} : firstNonempty f l ≠ [] ↔ ∃ b ∈ l, f b ≠ [] := by
  constructor
  · intro hne
    by_contra hnone
    push Not at hnone
    exact hne (firstNonempty_eq_nil hnone)
  · rintro ⟨b, hb, hne⟩
    induction l with
    | nil => exact absurd hb List.not_mem_nil
    | cons a l ih =>
        by_cases ha : f a = []
        · rw [firstNonempty_cons_of_eq_nil ha]
          apply ih
          rcases List.mem_cons.mp hb with rfl | hmem
          · exact absurd ha hne
          · exact hmem
        · rw [firstNonempty_cons_of_ne_nil ha]
          exact ha

end FirstNonempty

/-! ## Along the lineage -/

/-- Neither the class nor a base of it has using-directives. -/
def NominatesNothing (m : Model) (r : DeclId) : Prop :=
  ∀ c, Relation.ReflTransGen m.Derives r c → (m.decl c).usingDirectives = []

theorem NominatesNothing.base {b : DeclId} (h : m.NominatesNothing r) (hb : m.Derives r b) :
    m.NominatesNothing b := fun c hreach => h c (.head hb hreach)

theorem lookupInFrom_eq_firstNonempty (hplain : m.NominatesNothing r) (name : String) (fuel : Nat) :
    m.lookupInFrom name fuel r =
      firstNonempty (fun c => m.membersNamed c name) (m.lineageFrom fuel r) := by
  induction fuel generalizing r with
  | zero => rfl
  | succ fuel ih =>
      have hbases : firstNonempty (m.lookupInFrom name fuel) (m.baseRecords r) =
          firstNonempty (fun c => m.membersNamed c name)
            ((m.baseRecords r).flatMap (m.lineageFrom fuel)) := by
        rw [firstNonempty_flatMap]
        apply firstNonempty_congr
        intro b hb
        exact ih (hplain.base hb)
      have hnone :
          firstNonempty (fun s => m.membersNamed s name) (m.decl r).usingDirectives = [] := by
        rw [hplain r .refl]
        rfl
      rw [lookupInFrom, lineageFrom, hbases, hnone, firstNonempty]
      cases hdirect : m.membersNamed r name with
      | cons x xs => rfl
      | nil =>
          -- what the bases answer, or else nothing
          cases hinherited : firstNonempty (fun c => m.membersNamed c name)
              ((m.baseRecords r).flatMap (m.lineageFrom fuel)) with
          | nil => rfl
          | cons x xs => rfl

theorem hasMemberNamedFrom_eq_any (m : Model) (name : String) (fuel : Nat) (r : DeclId) :
    m.hasMemberNamedFrom name fuel r =
      (m.lineageFrom fuel r).any fun c => !(m.membersNamed c name).isEmpty := by
  induction fuel generalizing r with
  | zero => rfl
  | succ fuel ih =>
      rw [hasMemberNamedFrom, lineageFrom, List.any_cons, List.any_flatMap]
      congr 2
      funext b
      exact ih b

theorem hasMemberNamed_iff :
    m.hasMemberNamed r name = true ↔ ∃ c ∈ m.lineage r, m.membersNamed c name ≠ [] := by
  rw [hasMemberNamed, hasMemberNamedFrom_eq_any, List.any_eq_true]
  apply exists_congr
  intro c
  rw [Bool.not_eq_true', ← Bool.not_eq_true, List.isEmpty_iff]
  rfl

/-- A name means the members of the first class in the lineage that has some of that name. The
lineage is the class and behind it the lineages of its bases from left to right. -/
structure FindsFirst (m : Model) (r : DeclId) (name : String) : Prop where
  order : ∀ c, m.lineage c = c :: (m.baseRecords c).flatMap m.lineage
  mem : ∀ c, c ∈ m.lineage r ↔ Relation.ReflTransGen m.Derives r c
  first : ∀ before c after, m.lineage r = before ++ c :: after →
    (∀ b ∈ before, m.membersNamed b name = []) → m.membersNamed c name ≠ [] →
    m.lookupIn r name = m.membersNamed c name
  nothing : (∀ c ∈ m.lineage r, m.membersNamed c name = []) → m.lookupIn r name = []
  nonempty_iff : m.lookupIn r name ≠ [] ↔ m.hasMemberNamed r name = true

/-- Where no class is a base of itself and no using-directive stands in the class or a base of it,
the look-up finds the members that no class in front of theirs hides. -/
theorem Acyclic.findsFirst (h : m.Acyclic) (hwf : m.WellFormed) (hplain : m.NominatesNothing r)
    (name : String) : m.FindsFirst r name := by
  have hlookup : m.lookupIn r name =
      firstNonempty (fun c => m.membersNamed c name) (m.lineage r) :=
    lookupInFrom_eq_firstNonempty hplain name m.declFuel
  exact {
    order := fun c => h.lineage_eq hwf c
    mem := fun c => h.mem_lineage_iff hwf
    first := fun before c after hsplit hbefore hc => by
      rw [hlookup, hsplit]
      exact firstNonempty_append_cons hbefore hc
    nothing := fun hnone => hlookup.trans (firstNonempty_eq_nil hnone)
    nonempty_iff := by rw [hlookup, firstNonempty_ne_nil_iff, hasMemberNamed_iff] }

/-- The common base of a diamond has a member that the second class derived from it hides: it is met
through the first one, in front of the member that hides it. -/
theorem findsFirst_diamond :
    let shown := ((Request.declareRecord ⟨1⟩ "x" .struct true).perform.run diamond).2
    let m := ((Request.declareRecord ⟨3⟩ "x" .struct true).perform.run shown).2
    (m.WellFormed ∧ m.Acyclic ∧ m.NominatesNothing ⟨4⟩) ∧
      m.membersNamed ⟨3⟩ "x" = [⟨6⟩] ∧ m.lookupIn ⟨4⟩ "x" = [⟨5⟩] ∧ m.FindsFirst ⟨4⟩ "x" := by
  intro shown m
  have hshown : shown.Reachable := .step diamond_reachable (.declareRecord ⟨1⟩ "x" .struct true)
    (by change diamond.HasDecl ⟨1⟩; decide +kernel)
  have hm : m.Reachable := .step hshown (.declareRecord ⟨3⟩ "x" .struct true)
    (by change shown.HasDecl ⟨3⟩; decide +kernel)
  have hacyclic : m.Acyclic := acyclic_of_lt (by decide +kernel)
  have hplain : m.NominatesNothing ⟨4⟩ := by
    have hlineage : ∀ c ∈ m.lineage ⟨4⟩, (m.decl c).usingDirectives = [] := by decide +kernel
    intro c hreach
    exact hlineage c ((hacyclic.mem_lineage_iff hm.wellFormed).mpr hreach)
  exact ⟨⟨hm.wellFormed, hacyclic, hplain⟩, by decide +kernel, by decide +kernel,
    Acyclic.findsFirst hacyclic hm.wellFormed hplain "x"⟩

end CppReflect.Model
