import CppReflect.Model.Lookup
import CppReflect.Proofs.Listing
import CppReflect.Proofs.Segments
import CppReflect.Proofs.Walks

/-!
# Qualified names lead back

The qualified name of a declaration is made of the names of its scopes, and looking it up goes from
scope to scope through these names. It ends at the declaration if each name on the way tells what it
names from everything else in its scope, and no scope on the way is a typedef: lookup goes on in
what a typedef stands for.
-/

namespace CppReflect.Model

variable {m : Model} {d s : DeclId}

/-! ## The scopes around a declaration -/

theorem WellFormed.ancestors_eq (h : m.WellFormed) {p : DeclId}
    (hp : (m.decl d).parent = some p) : m.ancestors d = p :: m.ancestors p := by
  have hlt := h.parent_lt hp
  have hsize : d.index < m.decls.size := hasDecl_of_parent hp
  rw [ancestors, declFuel, ancestorsFrom, hp]
  exact congrArg _ (h.ancestorsFrom_congr (by omega) (by unfold declFuel; omega))

theorem ancestors_of_root (hp : (m.decl d).parent = none) : m.ancestors d = [] := by
  rw [ancestors, declFuel, ancestorsFrom, hp]

/-- Behind a scope stand the scopes around it. -/
theorem WellFormed.ancestors_behind (h : m.WellFormed) {front behind : List DeclId}
    (hd : m.ancestors d = front ++ s :: behind) : behind = m.ancestors s := by
  -- Each step goes from a declaration to the scope that stands first in front.
  induction front generalizing d with
  | nil =>
      cases hp : (m.decl d).parent with
      | none => simp [ancestors_of_root hp] at hd
      | some p =>
          rw [h.ancestors_eq hp, List.nil_append] at hd
          obtain ⟨rfl, rfl⟩ := List.cons.inj hd
          rfl
  | cons a front ih =>
      cases hp : (m.decl d).parent with
      | none => simp [ancestors_of_root hp] at hd
      | some p =>
          rw [h.ancestors_eq hp, List.cons_append] at hd
          obtain ⟨-, hrest⟩ := List.cons.inj hd
          exact ih hrest

/-- The declaration is an enumeration whose enumerators belong to the scope around it. -/
def isUnscopedEnum (m : Model) (d : DeclId) : Bool :=
  match (m.decl d).kind with
  | .enum info => !info.isScoped
  | _ => false

theorem semanticParent?_eq (m : Model) (d : DeclId) :
    m.semanticParent? d = (m.ancestors d).find? fun p => !m.isUnscopedEnum p := by
  unfold semanticParent? isUnscopedEnum
  congr 1
  funext p
  cases (m.decl p).kind <;> simp

/-- Between a declaration and the scope that it belongs to are only unscoped enumerations. -/
theorem WellFormed.ancestors_split (h : m.WellFormed) (hs : m.semanticParent? d = some s) :
    m.isUnscopedEnum s = false ∧
      ∃ enums, m.ancestors d = enums ++ s :: m.ancestors s ∧ ∀ e ∈ enums, m.isUnscopedEnum e := by
  rw [semanticParent?_eq, List.find?_eq_some_iff_append] at hs
  obtain ⟨hscope, enums, behind, hd, henums⟩ := hs
  refine ⟨by simpa using hscope, enums, ?_, fun e he => by simpa using henums e he⟩
  rw [hd, h.ancestors_behind hd]

/-! ## The names on the way -/

/-- The complete names of the scopes around a declaration, the outermost first. -/
def scopeNames (m : Model) (d : DeclId) : List String :=
  ((m.namedScopes d).filterMap (m.scopeSegment? m.completeName)).reverse

/-- The complete names on the way to a declaration, its own last. -/
def pathNames (m : Model) (d : DeclId) : List String :=
  if m.isTranslationUnit d then [] else m.scopeNames d ++ [m.completeName d]

theorem qualifiedCompleteName_eq (hd : m.isTranslationUnit d = false) :
    m.qualifiedCompleteName d =
      String.join ((m.scopeNames d).map (· ++ "::")) ++ m.completeName d := by
  rw [qualifiedCompleteName, qualifiedCompleteNameWith, qualifiedBy, hd]
  rfl

theorem scopeSegment?_of_unscopedEnum (name : DeclId → String) (hs : m.isUnscopedEnum s = true) :
    m.scopeSegment? name s = none := by
  unfold isUnscopedEnum at hs
  unfold scopeSegment?
  split at hs
  next info hkind => simp_all
  next => cases hs

theorem scopeSegment?_of_named (name : DeclId → String) (hs : m.isUnscopedEnum s = false)
    (hname : (m.decl s).name ≠ "") : m.scopeSegment? name s = some (name s) := by
  unfold isUnscopedEnum at hs
  unfold scopeSegment?
  split
  next info hkind => simp_all
  next => simp_all
  next => rfl

/-- The way to a declaration goes through the scope that it belongs to. -/
theorem WellFormed.scopeNames_eq (h : m.WellFormed) (hs : m.semanticParent? d = some s)
    (hname : m.isTranslationUnit s = false → (m.decl s).name ≠ "") :
    m.scopeNames d = m.pathNames s := by
  obtain ⟨hscope, enums, hancestors, henums⟩ := h.ancestors_split hs
  have hnamed : ∀ e ∈ enums, (!m.isTranslationUnit e) = true := by
    intro e he
    have hunscoped := henums e he
    unfold isUnscopedEnum at hunscoped
    split at hunscoped
    next info hkind => simp [isTranslationUnit, hkind]
    next => cases hunscoped
  have hnone : enums.filterMap (m.scopeSegment? m.completeName) = [] :=
    List.filterMap_eq_nil_iff.mpr fun e he => scopeSegment?_of_unscopedEnum _ (henums e he)
  unfold scopeNames namedScopes pathNames
  rw [hancestors, List.takeWhile_append_of_pos hnamed, List.filterMap_append, hnone,
    List.nil_append, List.takeWhile_cons]
  cases hunit : m.isTranslationUnit s with
  | true => rfl
  | false =>
      simp only [Bool.not_false, if_true, Bool.false_eq_true, if_false]
      rw [List.filterMap_cons_some (scopeSegment?_of_named _ hscope (hname hunit)),
        List.reverse_cons]
      rfl

/-! ## Telling names -/

/-- The complete name of a declaration tells it from everything else in a scope. -/
inductive Distinct (m : Model) (s d : DeclId) : Prop
  /-- It is the only member of its name. -/
  | member (hlisted : d ∈ m.membersNamed s (m.decl d).name)
    (honly : ∀ c ∈ m.membersNamed s (m.decl d).name, c = d)
  /-- It is the only specialization with its arguments, blanks aside, of the templates that have its
  name. -/
  | specialization {args : List TemplateArg} (hargs : m.templateArgs? d = some args)
    (hbalanced : Name.Balanced (m.argsText args).toList)
    (hlisted : d ∈ m.specializationsOf (m.membersNamed s (m.decl d).name))
    (honly : ∀ c ∈ m.specializationsOf (m.membersNamed s (m.decl d).name),
      Text.squashed (m.argsText ((m.templateArgs? c).getD [])) =
        Text.squashed (m.argsText args) → c = d)

/-- Each name on the way to the declaration is plain, and tells in its scope what it names. -/
inductive Addressed (m : Model) : DeclId → Prop
  | inUnit {d : DeclId} (hscope : m.semanticParent? d = some root)
    (hname : Name.IsPlainName (m.decl d).name) (hdistinct : m.Distinct root d) : Addressed m d
  | inScope {s d : DeclId} (hs : Addressed m s) (hscope : m.semanticParent? d = some s)
    (hname : Name.IsPlainName (m.decl d).name) (hdistinct : m.Distinct s d) : Addressed m d

/-- A name finds a member that has it, and what it finds among the members of a transparent one. -/
theorem mem_membersNamedFrom_succ {name : String} {fuel : Nat} :
    d ∈ m.membersNamedFrom name (fuel + 1) s ↔
      (d ∈ (m.decl s).members ∧ (m.decl d).name = name ∧ isInjectedName (m.decl d) = false) ∨
        ∃ c ∈ (m.decl s).members, (m.decl c).isTransparent = true ∧
          d ∈ m.membersNamedFrom name fuel c := by
  rw [membersNamedFrom, List.mem_flatMap]
  constructor
  · rintro ⟨c, hc, hd⟩
    rcases List.mem_append.mp hd with hd | hd
    · split at hd
      next hhit =>
        obtain rfl := List.mem_singleton.mp hd
        exact .inl ⟨hc, hhit⟩
      next => exact absurd hd List.not_mem_nil
    · split at hd
      next htransparent => exact .inr ⟨c, hc, htransparent, hd⟩
      next => exact absurd hd List.not_mem_nil
  · rintro (⟨hd, hhit⟩ | ⟨c, hc, htransparent, hd⟩)
    · exact ⟨d, hd, List.mem_append_left _ (by rw [if_pos hhit]; exact List.mem_singleton.mpr rfl)⟩
    · exact ⟨c, hc, List.mem_append_right _ (by rw [if_pos htransparent]; exact hd)⟩

/-- What a name finds among members has this name and is a member of some declaration. -/
theorem found_of_mem_membersNamed {name : String} (hd : d ∈ m.membersNamed s name) :
    (m.decl d).name = name ∧ ∃ p, d ∈ (m.decl p).members := by
  unfold membersNamed at hd
  generalize m.declFuel = fuel at hd
  induction fuel generalizing s with
  | zero => exact absurd hd List.not_mem_nil
  | succ fuel ih =>
      rcases mem_membersNamedFrom_succ.mp hd with ⟨hmem, hname, -⟩ | ⟨c, -, -, hd⟩
      · exact ⟨hname, s, hmem⟩
      · exact ih hd

/-- A member was made with no template arguments. -/
theorem Orderly.templateArgs?_of_member (h : m.Orderly) {name : String}
    (hd : d ∈ m.membersNamed s name) : m.templateArgs? d = none := by
  obtain ⟨p, hmem⟩ := (found_of_mem_membersNamed hd).2
  obtain ⟨x, hx, hargs⟩ := h.listed p _ d (decl?_eq_decl (hasDecl_of_mem_members hmem)) hmem
  rw [templateArgs?_eq, decl, hx]
  exact hargs

/-- A member is named without template arguments. -/
theorem Orderly.completeName_of_member (h : m.Orderly) {name : String}
    (hd : d ∈ m.membersNamed s name) : m.completeName d = (m.decl d).name := by
  rw [completeName, completeNameWith, h.templateArgs?_of_member hd]

theorem completeName_of_args {args : List TemplateArg} (hargs : m.templateArgs? d = some args) :
    m.completeName d = (m.decl d).name ++ "<" ++ m.argsText args ++ ">" := by
  rw [completeName, completeNameWith, hargs, argsText]

theorem Distinct.isSegment (h : m.Orderly) (hname : Name.IsPlainName (m.decl d).name)
    (hdistinct : m.Distinct s d) : Name.IsSegment (m.completeName d) := by
  cases hdistinct with
  | member hlisted _ =>
      rw [h.completeName_of_member hlisted]
      exact hname.isSegment
  | specialization hargs hbalanced _ _ =>
      rw [completeName_of_args hargs]
      exact hname.isSegment_args hbalanced

theorem lookupIn_of_members {name : String} (hne : m.membersNamed s name ≠ []) :
    m.lookupIn s name = m.membersNamed s name := by
  unfold lookupIn declFuel lookupInFrom
  simp [hne]

theorem squashed_trimmed (s : String) : Text.squashed (Text.trimmed s) = Text.squashed s := by
  rw [Text.squashed, Text.trimmed, String.toList_ofList, Name.squash_trim, Text.squashed]

theorem find?_of_only {α : Type} {p : α → Bool} {l : List α} {a : α} (ha : a ∈ l) (hp : p a = true)
    (honly : ∀ b ∈ l, p b = true → b = a) : l.find? p = some a := by
  cases hfind : l.find? p with
  | none => exact absurd hp (List.find?_eq_none.mp hfind a ha)
  | some b => rw [honly b (List.mem_of_find?_eq_some hfind) (List.find?_some hfind)]

/-- A segment with template arguments finds the first instance with arguments of their text. -/
theorem lookupSegment_args {name : String} (hname : Name.IsPlainName name) (s : DeclId)
    (args : String) : m.lookupSegment s (name ++ "<" ++ args ++ ">") =
      ((m.specializationsOf (m.lookupIn s name)).find? fun c =>
        Text.squashed (m.argsText ((m.templateArgs? c).getD [])) == Text.squashed args).elim
          .notFound .found := by
  simp only [lookupSegment, hname.templateId_args, squashed_trimmed]

/-- A segment without template arguments finds the only member of its name. -/
theorem lookupSegment_of_only {name : String} (hname : Name.templateId name = (name, none))
    (hlisted : d ∈ m.membersNamed s name) (honly : ∀ c ∈ m.membersNamed s name, c = d) :
    m.lookupSegment s name = .found d := by
  simp only [lookupSegment, hname]
  rw [lookupIn_of_members (List.ne_nil_of_mem hlisted)]
  cases hmembers : m.membersNamed s name with
  | nil => simp [hmembers] at hlisted
  | cons first rest =>
      rw [hmembers] at honly
      obtain rfl := honly first List.mem_cons_self
      have hrest : rest.all (· == first) = true :=
        List.all_eq_true.mpr fun c hc => beq_iff_eq.mpr (honly c (List.mem_cons_of_mem _ hc))
      exact if_pos hrest

/-- The complete name finds what it tells. -/
theorem Distinct.lookupSegment_eq (h : m.Orderly) (hname : Name.IsPlainName (m.decl d).name)
    (hdistinct : m.Distinct s d) : m.lookupSegment s (m.completeName d) = .found d := by
  cases hdistinct with
  | member hlisted honly =>
      rw [h.completeName_of_member hlisted]
      exact lookupSegment_of_only hname.templateId_self hlisted honly
  | specialization hargs _ hlisted honly =>
      have hmembers : m.membersNamed s (m.decl d).name ≠ [] := by
        intro hnil
        simp [hnil, specializationsOf] at hlisted
      rw [completeName_of_args hargs, lookupSegment_args hname, lookupIn_of_members hmembers,
        find?_of_only hlisted]
      · rfl
      · simp [hargs]
      · exact fun c hc heq => honly c hc (beq_iff_eq.mp heq)

/-! ## Whole names -/

/-- A segment that finds a scope goes on there. -/
theorem lookupSegments_cons {segment : String} {rest : List String} (hrest : rest ≠ [])
    (hd : m.lookupSegment s segment = .found d) :
    m.lookupSegments s (segment :: rest) = m.lookupSegments (m.scopeTarget d) rest := by
  cases rest with
  | nil => exact absurd rfl hrest
  | cons next rest => simp only [lookupSegments, hd]

/-- A name that is put together from segments is looked up segment by segment. -/
theorem lookupNamed_join {scopes : List String} {last : String}
    (hscopes : ∀ n ∈ scopes, Name.IsSegment n)
    (hlast : Name.segments last.toList = [last.toList]) (hbare : Name.Bare last.toList)
    (scope : DeclId) :
    m.lookupNamed (String.join (scopes.map (· ++ "::")) ++ last) scope =
      m.lookupSegments scope (scopes ++ [last]) := by
  have hbare := Name.bare_join hscopes hbare
  rw [lookupNamed, hbare.trim_eq, hbare.afterStart?_colons]
  exact congrArg _ (Name.segments_join hscopes hlast)

/-- There is no scope around the translation unit. -/
theorem Reachable.isTranslationUnit_of_ancestors (h : m.Reachable) (hne : m.ancestors d ≠ []) :
    m.isTranslationUnit d = false := by
  refine decide_eq_false fun hunit => hne (ancestors_of_root ?_)
  cases he : m.decl? d with
  | none => rw [decl, he]; rfl
  | some e =>
      have hroot := h.orderly.unit d e he (by rwa [decl, he] at hunit)
      exact hroot ▸ h.wellFormed.translationUnit.2.2

/-- Only the translation unit belongs to no scope. -/
theorem Reachable.isTranslationUnit_eq (h : m.Reachable) (hs : m.semanticParent? d = some s) :
    m.isTranslationUnit d = false := by
  obtain ⟨-, enums, hancestors, -⟩ := h.wellFormed.ancestors_split hs
  apply h.isTranslationUnit_of_ancestors
  rw [hancestors]
  exact List.append_ne_nil_of_right_ne_nil _ (List.cons_ne_nil _ _)

namespace Addressed

theorem isPlainName (h : m.Addressed d) : Name.IsPlainName (m.decl d).name := by
  cases h with
  | inUnit _ hname _ => exact hname
  | inScope _ _ hname _ => exact hname

theorem isTranslationUnit_eq (hd : m.Addressed d) (h : m.Reachable) :
    m.isTranslationUnit d = false := by
  cases hd with
  | inUnit hscope _ _ => exact h.isTranslationUnit_eq hscope
  | inScope _ hscope _ _ => exact h.isTranslationUnit_eq hscope

theorem isSegment (hd : m.Addressed d) (h : m.Reachable) :
    Name.IsSegment (m.completeName d) := by
  cases hd with
  | inUnit _ hname hdistinct => exact hdistinct.isSegment h.orderly hname
  | inScope _ _ hname hdistinct => exact hdistinct.isSegment h.orderly hname

end Addressed

theorem Reachable.scopeNames_inUnit (h : m.Reachable) (hscope : m.semanticParent? d = some root) :
    m.scopeNames d = [] := by
  have hunit : m.isTranslationUnit root = true := decide_eq_true h.wellFormed.translationUnit.2.1
  rw [h.wellFormed.scopeNames_eq hscope fun hnot => by simp [hunit] at hnot, pathNames,
    if_pos hunit]

theorem Reachable.scopeNames_inScope (h : m.Reachable) (hs : m.Addressed s)
    (hscope : m.semanticParent? d = some s) :
    m.scopeNames d = m.scopeNames s ++ [m.completeName s] := by
  rw [h.wellFormed.scopeNames_eq hscope fun _ => hs.isPlainName.nonempty, pathNames,
    hs.isTranslationUnit_eq h, if_neg Bool.false_ne_true]

/-- The names of the scopes are segments. -/
theorem Addressed.isSegment_scopes (hd : m.Addressed d) (h : m.Reachable) :
    ∀ n ∈ m.scopeNames d, Name.IsSegment n := by
  induction hd with
  | inUnit hscope _ _ =>
      rw [h.scopeNames_inUnit hscope]
      exact fun n hn => absurd hn List.not_mem_nil
  | inScope hs hscope _ _ ih =>
      rw [h.scopeNames_inScope hs hscope]
      intro n hn
      rcases List.mem_append.mp hn with hn | hn
      · exact ih n hn
      · exact List.mem_singleton.mp hn ▸ hs.isSegment h

/-- The names of the scopes lead to the scope that the declaration belongs to, where its own name
tells it. -/
theorem Addressed.lookupSegments_scopes (hd : m.Addressed d) (h : m.Reachable)
    (htargets : ∀ s ∈ m.ancestors d, m.scopeTarget s = s) :
    ∃ s, m.Distinct s d ∧ ∀ rest ≠ [],
      m.lookupSegments root (m.scopeNames d ++ rest) = m.lookupSegments s rest := by
  induction hd with
  | inUnit hscope _ hdistinct =>
      refine ⟨root, hdistinct, fun rest _ => ?_⟩
      rw [h.scopeNames_inUnit hscope, List.nil_append]
  | @inScope s d hs hscope _ hdistinct ih =>
      -- The scopes around `s` are around `d` too, and `s` is one more.
      obtain ⟨-, enums, hancestors, -⟩ := h.wellFormed.ancestors_split hscope
      rw [hancestors] at htargets
      obtain ⟨t, hdistinct', hlead⟩ := ih fun c hc =>
        htargets c (List.mem_append_right _ (List.mem_cons_of_mem _ hc))
      refine ⟨s, hdistinct, fun rest hrest => ?_⟩
      have hfound := hdistinct'.lookupSegment_eq h.orderly hs.isPlainName
      calc m.lookupSegments root (m.scopeNames d ++ rest)
          = m.lookupSegments root (m.scopeNames s ++ m.completeName s :: rest) := by
            rw [h.scopeNames_inScope hs hscope, List.append_assoc, List.singleton_append]
        _ = m.lookupSegments t (m.completeName s :: rest) := hlead _ (List.cons_ne_nil _ _)
        _ = m.lookupSegments (m.scopeTarget s) rest := lookupSegments_cons hrest hfound
        _ = m.lookupSegments s rest := by
            rw [htargets s (List.mem_append_right _ List.mem_cons_self)]

/-- In every reachable model the qualified name of a declaration, with template arguments, is found
to mean it, if every name on the way tells what it names and no scope on the way is a typedef of a
class or enumeration. -/
theorem Reachable.lookupNamed_qualifiedCompleteName (h : m.Reachable) (hd : m.Addressed d)
    (htargets : ∀ s ∈ m.ancestors d, m.scopeTarget s = s) :
    m.lookupNamed (m.qualifiedCompleteName d) root = .found d := by
  obtain ⟨s, hdistinct, hlead⟩ := hd.lookupSegments_scopes h htargets
  calc m.lookupNamed (m.qualifiedCompleteName d) root
      = m.lookupSegments root (m.scopeNames d ++ [m.completeName d]) := by
        rw [qualifiedCompleteName_eq (hd.isTranslationUnit_eq h),
          lookupNamed_join (hd.isSegment_scopes h) (Name.segments_last (hd.isSegment h))
            (hd.isSegment h).bare]
    _ = m.lookupSegment s (m.completeName d) := hlead _ (List.cons_ne_nil _ _)
    _ = .found d := hdistinct.lookupSegment_eq h.orderly hd.isPlainName

/-- A static member of a specialization of a class template in a namespace. -/
theorem qualifiedCompleteName_leads_specialization :
    let int := ((Request.intern ⟨.builtin .int, .none⟩).perform.run empty).2
    let space := ((Request.declareNamespace root "N").perform.run int).2
    let template := ((Request.declareClassTemplate ⟨1⟩ "V" ["T"]).perform.run space).2
    let ints := ((Request.declareSpecialization ⟨2⟩ [.ofType ⟨0⟩]).perform.run template).2
    let member := ((Request.declareVariable ⟨4⟩ "x" ⟨0⟩).perform.run ints).2
    member.qualifiedCompleteName ⟨5⟩ = "N::V<int>::x" ∧
      member.lookupNamed (member.qualifiedCompleteName ⟨5⟩) root = .found ⟨5⟩ := by
  intro int space template ints member
  have hint : int.Reachable := .step .empty _ ⟨by simp [TypeKind.parts], by simp [TypeKind.decl?]⟩
  have hspace : space.Reachable := .step hint (.declareNamespace root "N")
    (by change int.HasDecl root; decide)
  have htemplate : template.Reachable := .step hspace (.declareClassTemplate ⟨1⟩ "V" ["T"])
    (by change space.HasDecl ⟨1⟩; decide +kernel)
  have hints : ints.Reachable := .step htemplate (.declareSpecialization ⟨2⟩ [.ofType ⟨0⟩])
    ⟨by decide +kernel, by decide +kernel⟩
  have hmember : member.Reachable := .step hints _ ⟨by decide +kernel, by decide +kernel⟩
  have hN : member.Addressed ⟨1⟩ := .inUnit (by decide +kernel)
    ⟨by decide +kernel, by decide +kernel, by decide +kernel⟩
    (.member (by decide +kernel) (by decide +kernel))
  have hargs : member.templateArgs? ⟨4⟩ = some [.ofType ⟨0⟩] := by decide +kernel
  have hV : member.Addressed ⟨4⟩ := .inScope hN (by decide +kernel)
    ⟨by decide +kernel, by decide +kernel, by decide +kernel⟩
    (.specialization hargs (by decide +kernel) (by decide +kernel) (by decide +kernel))
  have hx : member.Addressed ⟨5⟩ := .inScope hV (by decide +kernel)
    ⟨by decide +kernel, by decide +kernel, by decide +kernel⟩
    (.member (by decide +kernel) (by decide +kernel))
  exact ⟨by decide +kernel,
    Reachable.lookupNamed_qualifiedCompleteName hmember hx (by decide +kernel)⟩

/-- A variable in a typedef of a class: the lookup of its name goes on in the class. -/
theorem qualifiedCompleteName_lost_in_typedef :
    let klass := ((Request.declareRecord root "A" .struct true).perform.run empty).2
    let named := ((Request.typeOfDecl ⟨1⟩).perform.run klass).2
    let typedef := ((Request.declareTypedef root "T" ⟨0⟩).perform.run named).2
    let int := ((Request.intern ⟨.builtin .int, .none⟩).perform.run typedef).2
    let member := ((Request.declareVariable ⟨2⟩ "x" ⟨1⟩).perform.run int).2
    (member.Reachable ∧ member.Addressed ⟨3⟩) ∧
      member.lookupNamed (member.qualifiedCompleteName ⟨3⟩) root = .notFound := by
  intro klass named typedef int member
  have hklass : klass.Reachable := .step .empty (.declareRecord root "A" .struct true)
    (by change Model.empty.HasDecl root; decide)
  have hnamed : named.Reachable := .step hklass (.typeOfDecl ⟨1⟩)
    (by change klass.HasDecl ⟨1⟩; decide +kernel)
  have htypedef : typedef.Reachable := .step hnamed _ ⟨by decide +kernel, by decide +kernel⟩
  have hint : int.Reachable := .step htypedef _ ⟨by simp [TypeKind.parts], by simp [TypeKind.decl?]⟩
  have hmember : member.Reachable := .step hint _ ⟨by decide +kernel, by decide +kernel⟩
  have hT : member.Addressed ⟨2⟩ := .inUnit (by decide +kernel)
    ⟨by decide +kernel, by decide +kernel, by decide +kernel⟩
    (.member (by decide +kernel) (by decide +kernel))
  have hx : member.Addressed ⟨3⟩ := .inScope hT (by decide +kernel)
    ⟨by decide +kernel, by decide +kernel, by decide +kernel⟩
    (.member (by decide +kernel) (by decide +kernel))
  exact ⟨⟨hmember, hx⟩, by decide +kernel⟩

end CppReflect.Model
