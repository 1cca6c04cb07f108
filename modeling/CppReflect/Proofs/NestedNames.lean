import CppReflect.Proofs.Addresses
import CppReflect.Proofs.Pieces
import CppReflect.Query.Scope

/-!
# Names inside specializations

What is declared inside a specialization of a class template has the specialization among the scopes
around it. Of a class or an enumeration the qualified complete name tells the arguments of the
specialization, however deep the declaration lies in it, and the arguments tell the specializations
of a template apart. The names of functions, variables, typedefs and templates are put together
without arguments, and those of one name in two specializations are called the same.
-/

namespace CppReflect

/-- Where brackets match in two texts and both are closed once more, the texts are the same. -/
theorem Name.Balanced.eq_of_append_closing {cs ds rest rest' : List Char} {c : Char}
    (hclose : closes c = true) (hcs : Balanced cs) (hds : Balanced ds)
    (heq : cs ++ c :: rest = ds ++ c :: rest') : cs = ds := by
  -- the longer text would close a bracket behind the shorter one that was not opened
  have hstop {front behind : List Char} (hfront : Balanced front) :
      ¬Balanced (front ++ c :: behind) := by
    intro hall
    rw [Balanced, levelBehind?_append, hfront, Option.bind_some, levelBehind?,
      if_pos ⟨rfl, hclose⟩] at hall
    cases hall
  rcases List.append_eq_append_iff.mp heq with ⟨more, rfl, hmore⟩ | ⟨more, rfl, hmore⟩
  · cases more with
    | nil => rw [List.append_nil]
    | cons e more =>
        cases hmore
        exact absurd hds (hstop hcs)
  · cases more with
    | nil => rw [List.append_nil]
    | cons e more =>
        cases hmore
        exact absurd hcs (hstop hds)

namespace Model

variable {m : Model} {d s : DeclId} {front behind : List DeclId}

/-- The name with the names of those scopes around it that are listed, the nearest first. -/
def nameWithin (m : Model) (name : DeclId → String) (scopes : List DeclId) (d : DeclId) : String :=
  String.join ((scopes.filterMap (m.scopeSegment? name)).reverse.map (· ++ "::")) ++ name d

theorem Reachable.namedScopes_split (h : m.Reachable) (hd : m.ancestors d = front ++ s :: behind)
    (hs : m.isTranslationUnit s = false) : m.namedScopes d = front ++ s :: m.namedScopes s := by
  obtain rfl := h.wellFormed.ancestors_behind hd
  have hfront : ∀ a ∈ front, (!m.isTranslationUnit a) = true := by
    intro a ha
    obtain ⟨inner, outer, rfl⟩ := List.append_of_mem ha
    rw [List.append_assoc, List.cons_append] at hd
    -- the scope `s` lies around each scope in front of it
    have hbehind := h.wellFormed.ancestors_behind hd
    rw [Bool.not_eq_true']
    apply h.isTranslationUnit_of_ancestors
    rw [← hbehind]
    exact List.append_ne_nil_of_right_ne_nil _ (List.cons_ne_nil _ _)
  rw [namedScopes, hd, List.takeWhile_append_of_pos hfront, List.takeWhile_cons, hs]
  rfl

/-- The name of a declaration in a class starts with the name of the class. -/
theorem Reachable.qualifiedBy_eq (h : m.Reachable) (name : DeclId → String) {info : RecordInfo}
    (hs : (m.decl s).kind = .record info) (hd : m.ancestors d = front ++ s :: behind) :
    m.qualifiedBy name d =
      m.qualifierText name s ++ name s ++ "::" ++ m.nameWithin name front d := by
  have hscope : m.isTranslationUnit s = false := by rw [isTranslationUnit, hs]; rfl
  have hunit : m.isTranslationUnit d = false := by
    apply h.isTranslationUnit_of_ancestors
    rw [hd]
    exact List.append_ne_nil_of_right_ne_nil _ (List.cons_ne_nil _ _)
  have hsegment : m.scopeSegment? name s = some (name s) := by rw [scopeSegment?, hs]
  rw [qualifiedBy, hunit, if_neg Bool.false_ne_true, qualifierText, h.namedScopes_split hd hscope,
    List.filterMap_append, List.filterMap_cons_some hsegment, List.reverse_append,
    List.reverse_cons, List.map_append, List.map_append, String.join_append, String.join_append,
    nameWithin, qualifierText]
  simp only [List.map_cons, List.map_nil, String.join_cons, String.join_nil, String.append_empty,
    String.append_assoc]

/-- The class is a specialization of a class template with the arguments. -/
def IsSpecialization (m : Model) (s : DeclId) (args : List TemplateArg) : Prop :=
  ∃ info specialization, (m.decl s).kind = .record info ∧
    info.specialization = some specialization ∧ specialization.args = args

theorem IsSpecialization.completeName_eq {args : List TemplateArg}
    (h : m.IsSpecialization s args) :
    m.completeName s = (m.decl s).name ++ "<" ++ m.argsText args ++ ">" := by
  obtain ⟨info, specialization, hkind, hspecialization, rfl⟩ := h
  apply completeName_of_args
  rw [templateArgs?, hkind]
  simp only [hspecialization, Option.map_some]

/-- A declaration that lies, at any depth, in a specialization of a class template. -/
structure Nested (m : Model) where
  handle : Handle
  decl : DeclId
  /-- The scopes between the declaration and the specialization, the nearest first. -/
  between : List DeclId
  klass : DeclId
  args : List TemplateArg
  named : m.declOfHandle? handle = some decl
  inside : ∃ behind, m.ancestors decl = between ++ klass :: behind
  specializes : m.IsSpecialization klass args

/-- The classes are declared under one name in one scope, as the specializations of a template
are. -/
def Beside (m : Model) (s t : DeclId) : Prop :=
  (m.decl s).parent = (m.decl t).parent ∧ (m.decl s).name = (m.decl t).name

/-- The name without template arguments. -/
def bareName (m : Model) (d : DeclId) : String := (m.decl d).name

namespace Nested

theorem qualifiedCompleteName_eq (n : m.Nested) :
    Query.qualifiedCompleteName m n.handle =
      if Query.isTag m n.decl then m.qualifiedCompleteName n.decl else m.qualifiedName n.decl := by
  rw [Query.qualifiedCompleteName, Query.nameBy, n.named]
  dsimp only
  split
  next hunit =>
    rw [qualifiedCompleteName, qualifiedCompleteNameWith, qualifiedName, qualifiedBy, qualifiedBy,
      if_pos hunit, if_pos hunit, ite_self]
  next => rfl

theorem tag_eq (n : m.Nested) (h : m.Reachable) (htag : Query.isTag m n.decl = true) :
    Query.qualifiedCompleteName m n.handle =
      m.qualifierText m.completeName n.klass ++ m.bareName n.klass ++ "<" ++ m.argsText n.args ++
        ">" ++ "::" ++ m.nameWithin m.completeName n.between n.decl := by
  obtain ⟨behind, hinside⟩ := n.inside
  obtain ⟨info, -, hkind, -⟩ := n.specializes
  rw [n.qualifiedCompleteName_eq, if_pos htag]
  refine (h.qualifiedBy_eq m.completeName hkind hinside).trans ?_
  rw [n.specializes.completeName_eq, bareName]
  simp only [String.append_assoc]

theorem other_eq (n : m.Nested) (h : m.Reachable) (hother : Query.isTag m n.decl = false) :
    Query.qualifiedCompleteName m n.handle =
      m.qualifierText m.bareName n.klass ++ m.bareName n.klass ++ "::" ++
        m.nameWithin m.bareName n.between n.decl := by
  obtain ⟨behind, hinside⟩ := n.inside
  obtain ⟨info, -, hkind, -⟩ := n.specializes
  rw [n.qualifiedCompleteName_eq, hother, if_neg Bool.false_ne_true]
  exact h.qualifiedBy_eq m.bareName hkind hinside

end Nested

/-- Scopes that lie in the same scope have the same names around them. -/
theorem WellFormed.qualifierText_congr (h : m.WellFormed) (name : DeclId → String) {t : DeclId}
    (hparent : (m.decl s).parent = (m.decl t).parent) :
    m.qualifierText name s = m.qualifierText name t := by
  have hancestors : m.ancestors s = m.ancestors t := by
    cases hs : (m.decl s).parent with
    | none => rw [ancestors_of_root hs, ancestors_of_root (hparent.symm.trans hs)]
    | some p => rw [h.ancestors_eq hs, h.ancestors_eq (hparent.symm.trans hs)]
  rw [qualifierText, qualifierText, namedScopes, namedScopes, hancestors]

/-- What the qualified complete names of the declarations in specializations tell: the arguments of
the specialization where a class or an enumeration is named, and else nothing of them. -/
structure NamesNested (m : Model) : Prop where
  tag : ∀ n : m.Nested, Query.isTag m n.decl = true → Query.qualifiedCompleteName m n.handle =
    m.qualifierText m.completeName n.klass ++ m.bareName n.klass ++ "<" ++ m.argsText n.args ++
      ">" ++ "::" ++ m.nameWithin m.completeName n.between n.decl
  other : ∀ n : m.Nested, Query.isTag m n.decl = false → Query.qualifiedCompleteName m n.handle =
    m.qualifierText m.bareName n.klass ++ m.bareName n.klass ++ "::" ++
      m.nameWithin m.bareName n.between n.decl
  apart : ∀ n n' : m.Nested, Query.isTag m n.decl = true → Query.isTag m n'.decl = true →
    m.Beside n.klass n'.klass → Name.Balanced (m.argsText n.args).toList →
    Name.Balanced (m.argsText n'.args).toList → m.argsText n.args ≠ m.argsText n'.args →
    Query.qualifiedCompleteName m n.handle ≠ Query.qualifiedCompleteName m n'.handle
  alike : ∀ n n' : m.Nested, Query.isTag m n.decl = false → Query.isTag m n'.decl = false →
    m.Beside n.klass n'.klass →
    m.nameWithin m.bareName n.between n.decl = m.nameWithin m.bareName n'.between n'.decl →
    Query.qualifiedCompleteName m n.handle = Query.qualifiedCompleteName m n'.handle

/-- In every reachable model the qualified complete name of a class or an enumeration carries the
arguments of each specialization that it lies in, which tells it from what lies in another one. The
name of anything else carries none, and does not. -/
theorem Reachable.names_nested (h : m.Reachable) : m.NamesNested where
  tag n htag := n.tag_eq h htag
  other n hother := n.other_eq h hother
  apart n n' htag htag' hbeside hargs hargs' hne heq := by
    rw [n.tag_eq h htag, n'.tag_eq h htag', h.wellFormed.qualifierText_congr _ hbeside.1, bareName,
      bareName, hbeside.2] at heq
    simp only [String.append_assoc] at heq
    have hbehind := congrArg String.toList
      (String.append_right_inj _ |>.mp (String.append_right_inj _ |>.mp
        (String.append_right_inj _ |>.mp heq)))
    simp only [String.toList_append] at hbehind
    exact hne (String.toList_injective (hargs.eq_of_append_closing (by decide) hargs' hbehind))
  alike n n' hother hother' hbeside hinner := by
    rw [n.other_eq h hother, n'.other_eq h hother', h.wellFormed.qualifierText_congr _ hbeside.1,
      bareName, bareName, hbeside.2, hinner]

/-- A class and a variable in two specializations of a class template in a namespace. -/
theorem names_nested_specializations :
    let intern (b : Builtin) (m : Model) :=
      ((Request.intern ⟨.builtin b, .none⟩).perform.run m).2
    let specialize (t : TypeId) (m : Model) :=
      ((Request.declareSpecialization ⟨2⟩ [.ofType t]).perform.run m).2
    let types := intern .double (intern .int empty)
    let space := ((Request.declareNamespace root "N").perform.run types).2
    let template := ((Request.declareClassTemplate ⟨1⟩ "V" ["T"]).perform.run space).2
    let classes := specialize ⟨1⟩ (specialize ⟨0⟩ template)
    let nested := ((Request.declareRecord ⟨4⟩ "S" .struct true).perform.run classes).2
    let first := ((Request.declareVariable ⟨4⟩ "x" ⟨0⟩).perform.run nested).2
    let m := ((Request.declareVariable ⟨5⟩ "x" ⟨1⟩).perform.run first).2
    Query.qualifiedCompleteName m 7 = "N::V<int>::S" ∧ Query.qualifiedCompleteName m 8 = "N::V::x" ∧
      Query.qualifiedCompleteName m 9 = "N::V::x" ∧ m.NamesNested := by
  intro intern specialize types space template classes nested first m
  have hint : (intern .int empty).Reachable :=
    .step .empty _ ⟨by simp [TypeKind.parts], by simp [TypeKind.decl?]⟩
  have htypes : types.Reachable := .step hint _ ⟨by simp [TypeKind.parts], by simp [TypeKind.decl?]⟩
  have hspace : space.Reachable := .step htypes (.declareNamespace root "N")
    (by change types.HasDecl root; decide)
  have htemplate : template.Reachable := .step hspace (.declareClassTemplate ⟨1⟩ "V" ["T"])
    (by change space.HasDecl ⟨1⟩; decide +kernel)
  have hints : (specialize ⟨0⟩ template).Reachable :=
    .step htemplate (.declareSpecialization ⟨2⟩ [.ofType ⟨0⟩])
      ⟨by decide +kernel, by decide +kernel⟩
  have hclasses : classes.Reachable := .step hints (.declareSpecialization ⟨2⟩ [.ofType ⟨1⟩])
    ⟨by decide +kernel, by decide +kernel⟩
  have hnested : nested.Reachable := .step hclasses (.declareRecord ⟨4⟩ "S" .struct true)
    (by change classes.HasDecl ⟨4⟩; decide +kernel)
  have hfirst : first.Reachable := .step hnested _ ⟨by decide +kernel, by decide +kernel⟩
  have hm : m.Reachable := .step hfirst _ ⟨by decide +kernel, by decide +kernel⟩
  exact ⟨by decide +kernel, by decide +kernel, by decide +kernel, Reachable.names_nested hm⟩

end Model

end CppReflect
