import CppReflect.Proofs.Addresses
import CppReflect.Proofs.Trampoline.Arguments

/-!
# The scopes that trampolines name

A call names the class or namespace around its function. Unnamed namespaces and unscoped
enumerations are passed over, since their members can be named without them, and the text leads back
to the nearest scope that has a name. For a class it is the spelling of a type, which passes over no
unnamed namespace: the text of a class in one leads nowhere.
-/

namespace CppReflect

open Spelling (Identifier)

/-! ## Scopes with names -/

namespace Model

variable {m : Model} {d s : DeclId}

/-- The declaration is a namespace without a name. -/
def isUnnamedSpace (m : Model) (d : DeclId) : Bool :=
  match (m.decl d).kind with
  | .namespaceDecl _ => (m.decl d).name.isEmpty
  | _ => false

/-- Members of the scope are named without it. -/
def isPassedOver (m : Model) (d : DeclId) : Bool := m.isUnscopedEnum d || m.isUnnamedSpace d

/-- The nearest scope around a declaration that names of its members go through. -/
def namedScope? (m : Model) (d : DeclId) : Option DeclId :=
  (m.ancestors d).find? fun s => !m.isPassedOver s

/-- What is passed over is neither the translation unit nor made from a template. -/
theorem of_isPassedOver (hd : m.isPassedOver d = true) :
    m.isTranslationUnit d = false ∧ m.templateArgs? d = none := by
  unfold isPassedOver isUnscopedEnum isUnnamedSpace at hd
  unfold isTranslationUnit templateArgs?
  cases hkind : (m.decl d).kind <;> simp_all

/-- The scopes around a declaration are those that are passed over, the nearest one that is not,
and the scopes around that. -/
theorem WellFormed.ancestors_around (h : m.WellFormed) (hs : m.namedScope? d = some s) :
    m.isPassedOver s = false ∧
      ∃ inner, m.ancestors d = inner ++ s :: m.ancestors s ∧ ∀ c ∈ inner, m.isPassedOver c := by
  rw [namedScope?, List.find?_eq_some_iff_append] at hs
  obtain ⟨hnamed, inner, behind, hd, hinner⟩ := hs
  refine ⟨by simpa using hnamed, inner, ?_, fun c hc => by simpa using hinner c hc⟩
  rw [hd, h.ancestors_behind hd]

/-- The declaration is what its name finds in a scope, and nothing else is. -/
structure SoleMember (m : Model) (s d : DeclId) : Prop where
  listed : d ∈ m.membersNamed s (m.decl d).name
  only : ∀ c ∈ m.membersNamed s (m.decl d).name, c = d

/-- The name of a scope is an identifier that finds it alone in the next scope with a name, and so
are the names of the scopes around it that are not passed over. -/
inductive Signposted (m : Model) : DeclId → Prop
  | inUnit {d : DeclId} (hscope : m.namedScope? d = some root)
    (hname : Identifier (m.decl d).name) (hsole : m.SoleMember root d) : Signposted m d
  | inScope {s d : DeclId} (hs : Signposted m s) (hscope : m.namedScope? d = some s)
    (hname : Identifier (m.decl d).name) (hsole : m.SoleMember s d) : Signposted m d

theorem ancestors_root (h : m.WellFormed) : m.ancestors root = [] :=
  ancestors_of_root h.translationUnit.2.2

namespace SoleMember

variable (hsole : m.SoleMember s d) (h : m.Orderly)

include hsole h

theorem completeName_eq : m.completeName d = (m.decl d).name :=
  h.completeName_of_member hsole.listed

theorem templateArgs?_eq : m.templateArgs? d = none :=
  h.templateArgs?_of_member hsole.listed

theorem lookupSegment_eq (hname : Identifier (m.decl d).name) :
    m.lookupSegment s (m.completeName d) = .found d := by
  rw [hsole.completeName_eq h]
  exact lookupSegment_of_only hname.templateId hsole.listed hsole.only

end SoleMember

namespace Signposted

variable (hd : m.Signposted d)

include hd

theorem identifier : Identifier (m.decl d).name := by
  cases hd with
  | inUnit _ hname _ => exact hname
  | inScope _ _ hname _ => exact hname

theorem exists_soleMember : ∃ s, m.namedScope? d = some s ∧ m.SoleMember s d := by
  cases hd with
  | inUnit hscope _ hsole => exact ⟨root, hscope, hsole⟩
  | @inScope s _ _ hscope _ hsole => exact ⟨s, hscope, hsole⟩

/-- The translation unit has no name to be found by. -/
theorem ne_root (h : m.WellFormed) : d ≠ root := by
  rintro rfl
  obtain ⟨s, hscope, -⟩ := hd.exists_soleMember
  rw [namedScope?, ancestors_root h] at hscope
  cases hscope

theorem isTranslationUnit_eq (h : m.Reachable) : m.isTranslationUnit d = false := by
  refine decide_eq_false fun hunit => ?_
  cases he : m.decl? d with
  | none =>
      have hname := hd.identifier.ne_empty
      rw [decl, he] at hname
      exact hname rfl
  | some e =>
      rw [decl, he] at hunit
      exact hd.ne_root h.wellFormed (h.orderly.unit d e he hunit)

/-- Neither the declaration nor a scope around it is made from a template. -/
theorem templateArgs?_eq (h : m.Reachable) :
    ∀ c ∈ d :: m.ancestors d, m.templateArgs? c = none := by
  have hroot : m.templateArgs? root = none := by
    rw [templateArgs?, h.wellFormed.translationUnit.2.1]
  induction hd with
  | inUnit hscope _ hsole =>
      obtain ⟨-, inner, hancestors, hinner⟩ := h.wellFormed.ancestors_around hscope
      rw [hancestors, ancestors_root h.wellFormed]
      simp only [List.mem_cons, List.mem_append, List.not_mem_nil, or_false]
      rintro c (rfl | hc | rfl)
      · exact hsole.templateArgs?_eq h.orderly
      · exact (of_isPassedOver (hinner c hc)).2
      · exact hroot
  | inScope _ hscope _ hsole ih =>
      obtain ⟨-, inner, hancestors, hinner⟩ := h.wellFormed.ancestors_around hscope
      rw [hancestors]
      intro c hc
      rcases List.mem_cons.mp hc with rfl | hc
      · exact hsole.templateArgs?_eq h.orderly
      rcases List.mem_append.mp hc with hc | hc
      · exact (of_isPassedOver (hinner c hc)).2
      · exact ih c hc

end Signposted

end Model

namespace Trampoline

open Model (root)

variable {m m' : Model} {d s func : DeclId} {info : FunctionInfo}

/-! ## The names of the scopes -/

/-- The names that functions in a scope are named through, the outermost first. -/
def outerNames (m : Model) (d : DeclId) : List String :=
  ((m.namedScopes d).filterMap (scopePart? m)).reverse

theorem scopePart?_eq (m : Model) (s : DeclId) :
    scopePart? m s = if m.isPassedOver s then none else some (m.completeName s) := by
  unfold scopePart? Model.isPassedOver Model.isUnscopedEnum Model.isUnnamedSpace
  cases hkind : (m.decl s).kind with
  | enum info => cases hscoped : info.isScoped <;> simp [hscoped]
  | namespaceDecl isInline => simp
  | _ => rfl

/-- Scopes that are passed over add no name. -/
theorem filterMap_scopePart?_eq_nil {inner : List DeclId} (h : ∀ c ∈ inner, m.isPassedOver c) :
    inner.filterMap (scopePart? m) = [] := by
  apply List.filterMap_eq_nil_iff.mpr
  intro c hc
  rw [scopePart?_eq, if_pos (h c hc)]

/-- Scopes that are passed over do not end the way to the translation unit. -/
theorem outerNames_of_ancestors {inner behind : List DeclId}
    (hancestors : m.ancestors d = inner ++ behind) (h : ∀ c ∈ inner, m.isPassedOver c) :
    outerNames m d =
      ((behind.takeWhile fun p => !m.isTranslationUnit p).filterMap (scopePart? m)).reverse := by
  have hnamed : ∀ c ∈ inner, (!m.isTranslationUnit c) = true := by
    intro c hc
    rw [(Model.of_isPassedOver (h c hc)).1]
    rfl
  rw [outerNames, Model.namedScopes, hancestors, List.takeWhile_append_of_pos hnamed,
    List.filterMap_append, filterMap_scopePart?_eq_nil h, List.nil_append]

/-- The way to a declaration goes through the nearest scope that has a name. -/
theorem outerNames_eq (h : m.WellFormed) (hs : m.namedScope? d = some s) :
    outerNames m d =
      if m.isTranslationUnit s then [] else outerNames m s ++ [m.completeName s] := by
  obtain ⟨hnamed, inner, hancestors, hinner⟩ := h.ancestors_around hs
  rw [outerNames_of_ancestors hancestors hinner, List.takeWhile_cons]
  cases hunit : m.isTranslationUnit s with
  | true => rfl
  | false =>
      have hpart : scopePart? m s = some (m.completeName s) := by
        rw [scopePart?_eq, if_neg (by simp [hnamed])]
      simp only [Bool.not_false, if_true, Bool.false_eq_true, if_false]
      rw [List.filterMap_cons_some hpart, List.reverse_cons]
      rfl

theorem outerNames_inUnit (h : m.WellFormed) (hs : m.namedScope? d = some root) :
    outerNames m d = [] := by
  have hunit : m.isTranslationUnit root = true := decide_eq_true h.translationUnit.2.1
  rw [outerNames_eq h hs, if_pos hunit]

theorem outerNames_inScope (h : m.Reachable) (hsign : m.Signposted s)
    (hs : m.namedScope? d = some s) :
    outerNames m d = outerNames m s ++ [m.completeName s] := by
  rw [outerNames_eq h.wellFormed hs, hsign.isTranslationUnit_eq h, if_neg Bool.false_ne_true]

/-! ## The way back -/

theorem isSegment_outerNames (hd : m.Signposted d) (h : m.Reachable) :
    ∀ n ∈ outerNames m d ++ [m.completeName d], Name.IsSegment n := by
  induction hd with
  | inUnit hscope hname hsole =>
      rw [outerNames_inUnit h.wellFormed hscope, List.nil_append, List.forall_mem_singleton,
        hsole.completeName_eq h.orderly]
      exact hname.isSegment
  | inScope hs hscope hname hsole ih =>
      rw [outerNames_inScope h hs hscope]
      intro n hn
      rcases List.mem_append.mp hn with hn | hn
      · exact ih n hn
      · rw [List.mem_singleton.mp hn, hsole.completeName_eq h.orderly]
        exact hname.isSegment

/-- The names of the scopes around a declaration lead to the one in which its own name is found. -/
theorem lookupSegments_outerNames (hd : m.Signposted d) (h : m.Reachable)
    (htargets : ∀ c ∈ m.ancestors d, m.scopeTarget c = c) :
    ∃ s, m.SoleMember s d ∧ ∀ rest ≠ [],
      m.lookupSegments root (outerNames m d ++ rest) = m.lookupSegments s rest := by
  induction hd with
  | inUnit hscope _ hsole =>
      refine ⟨root, hsole, fun rest _ => ?_⟩
      rw [outerNames_inUnit h.wellFormed hscope, List.nil_append]
  | @inScope s d hs hscope _ hsole ih =>
      -- The scopes around `s` are around `d` too, and `s` is one more.
      obtain ⟨-, inner, hancestors, -⟩ := h.wellFormed.ancestors_around hscope
      rw [hancestors] at htargets
      obtain ⟨t, hsole', hlead⟩ := ih fun c hc =>
        htargets c (List.mem_append_right _ (List.mem_cons_of_mem _ hc))
      refine ⟨s, hsole, fun rest hrest => ?_⟩
      have hfound := hsole'.lookupSegment_eq h.orderly hs.identifier
      calc m.lookupSegments root (outerNames m d ++ rest)
          = m.lookupSegments root (outerNames m s ++ m.completeName s :: rest) := by
            rw [outerNames_inScope h hs hscope, List.append_assoc, List.singleton_append]
        _ = m.lookupSegments t (m.completeName s :: rest) := hlead _ (List.cons_ne_nil _ _)
        _ = m.lookupSegments (m.scopeTarget s) rest := Model.lookupSegments_cons hrest hfound
        _ = m.lookupSegments s rest := by
            rw [htargets s (List.mem_append_right _ List.mem_cons_self)]

theorem joined_append_singleton (names : List String) (last : String) :
    Text.joined "::" (names ++ [last]) = String.join (names.map (· ++ "::")) ++ last := by
  induction names with
  | nil => simp [Text.joined]
  | cons name names ih =>
      rw [List.cons_append, Text.joined_cons (by simp), ih, List.map_cons, String.join_cons]
      simp only [String.append_assoc]

/-- A scope is found by its name behind the names of the scopes around it that are not passed
over. -/
theorem lookupNamed_outerNames (hd : m.Signposted d) (h : m.Reachable)
    (htargets : ∀ c ∈ m.ancestors d, m.scopeTarget c = c) :
    m.lookupNamed (Text.joined "::" (outerNames m d ++ [m.completeName d])) root = .found d := by
  obtain ⟨s, hsole, hlead⟩ := lookupSegments_outerNames hd h htargets
  obtain ⟨hscopes, hlast⟩ := List.forall_mem_append.mp (isSegment_outerNames hd h)
  have hown : Name.IsSegment (m.completeName d) := hlast _ (List.mem_singleton_self _)
  calc m.lookupNamed (Text.joined "::" (outerNames m d ++ [m.completeName d])) root
      = m.lookupSegments root (outerNames m d ++ [m.completeName d]) := by
        rw [joined_append_singleton,
          Model.lookupNamed_join hscopes (Name.segments_last hown) hown.bare]
    _ = m.lookupSegment s (m.completeName d) := hlead _ (List.cons_ne_nil _ _)
    _ = .found d := hsole.lookupSegment_eq h.orderly hd.identifier

/-! ## Drafting the scope -/

/-- Without unnamed namespaces around it, a class is spelled by the names that lead to it. -/
theorem qualifiedCompleteNameWith_eq (hd : m.Signposted d) (h : m.Reachable)
    (hnamed : ∀ c ∈ m.ancestors d, m.isUnnamedSpace c = false) (print : TypeId → String) :
    m.qualifiedCompleteNameWith print d =
      Text.joined "::" (outerNames m d ++ [m.completeName d]) := by
  have hbare := hd.templateArgs?_eq h
  have hname : ∀ c ∈ d :: m.ancestors d, m.completeNameWith print c = m.completeName c := by
    intro c hc
    simp only [Model.completeName, Model.completeNameWith, hbare c hc]
  have hparts : (m.namedScopes d).filterMap (m.scopeSegment? (m.completeNameWith print)) =
      (m.namedScopes d).filterMap (scopePart? m) := by
    apply List.filterMap_congr
    intro c hc
    have haround : c ∈ m.ancestors d := List.takeWhile_subset _ hc
    rw [scopePart?_eq, Model.isPassedOver, hnamed c haround, Bool.or_false]
    by_cases hunscoped : m.isUnscopedEnum c = true
    · rw [Model.scopeSegment?_of_unscopedEnum _ hunscoped, if_pos hunscoped]
    · rw [if_neg hunscoped, ← hname c (List.mem_cons_of_mem _ haround)]
      have hspace := hnamed c haround
      unfold Model.isUnscopedEnum at hunscoped
      unfold Model.isUnnamedSpace at hspace
      unfold Model.scopeSegment?
      cases hkind : (m.decl c).kind <;> simp_all
  rw [Model.qualifiedCompleteNameWith, Model.qualifiedBy, hd.isTranslationUnit_eq h,
    if_neg Bool.false_ne_true, Model.qualifierText, hparts, hname d List.mem_cons_self,
    joined_append_singleton]
  rfl

/-- A class is spelled by its name. -/
theorem nodeText_record (h : m.WellFormed) (d : DeclId) :
    m.nodeText ⟨.record d, .none⟩ = m.qualifiedCompleteNameWith (m.argTextFrom m.declFuel) d := by
  have hinterned := Model.intern_interns ⟨.record d, .none⟩ m
  have hnode : ((Model.intern ⟨.record d, .none⟩).run m).2.node
      ((Model.intern ⟨.record d, .none⟩).run m).1 = ⟨.record d, .none⟩ :=
    Model.node_of_get? (TypeTable.get?_intern m.types _)
  rw [Model.nodeText, Model.typeText, Model.printType, Model.typeFuel, Model.printFrom, hnode]
  exact (Model.baseText_nil _).trans
    (hinterned.sameDecls.qualifiedCompleteNameWith_eq (hinterned.sameArgTexts h) d)

theorem completeName_interned (hi : m.Interned m') (h : m.WellFormed) (d : DeclId) :
    m'.completeName d = m.completeName d := by
  unfold Model.completeName Model.completeNameWith
  rw [hi.sameDecls.templateArgs?_eq, hi.sameDecls.decl_eq]
  cases hargs : m.templateArgs? d with
  | none => rfl
  | some args =>
      have htypes : ∀ a ∈ args, m.HasType a.type := fun _ ha => h.templateArg_hasType hargs ha
      exact congrArg (fun text => _ ++ "<" ++ text ++ ">") (hi.argsText_grows h htypes)

theorem ancestors_interned (hi : m.Interned m') (d : DeclId) : m'.ancestors d = m.ancestors d := by
  rw [Model.ancestors, hi.sameDecls.declFuel_eq, hi.sameDecls.ancestorsFrom_eq, Model.ancestors]

theorem scopePart?_interned (hi : m.Interned m') (h : m.WellFormed) :
    scopePart? m' = scopePart? m := by
  funext s
  simp only [scopePart?, hi.sameDecls.decl_eq, completeName_interned hi h]

/-- The scope that a function belongs to is the nearest one with a name, unless it is an unnamed
namespace. -/
theorem namedScope?_of_semanticParent? (h : m.WellFormed) (hs : m.semanticParent? func = some s)
    (hspace : m.isUnnamedSpace s = false) : m.namedScope? func = some s := by
  obtain ⟨hscope, enums, hancestors, henums⟩ := h.ancestors_split hs
  rw [Model.namedScope?, List.find?_eq_some_iff_append]
  refine ⟨by simp [Model.isPassedOver, hscope, hspace], enums, _, hancestors, fun e he => ?_⟩
  simp [Model.isPassedOver, henums e he]

/-- A function is named through the scopes around it that are not passed over. A class that it
belongs to must have no unnamed namespace around it. -/
theorem run_scopeSpelling (h : m.Reachable) (hi : m.Interned m') (hs : m.namedScope? func = some s)
    (hsign : s = root ∨ m.Signposted s)
    (hclass : m.semanticParent? func = some s → (m.decl s).isRecord = true →
      ∀ c ∈ m.ancestors s, m.isUnnamedSpace c = false) :
    ((scopeSpelling func).run m').1 = Text.joined "::" (outerNames m func) := by
  have hsemantic : m'.semanticParent? func = m.semanticParent? func := by
    simp only [Model.semanticParent?, ancestors_interned hi, hi.sameDecls.decl_eq]
  unfold scopeSpelling
  rw [StateT.run_bind, StateT.run_get, pure_bind]
  simp only [hsemantic, hi.sameDecls.decl_eq]
  cases hparent : m.semanticParent? func with
  | none =>
      -- Then only unscoped enumerations are around the function.
      rw [Model.semanticParent?_eq, List.find?_eq_none] at hparent
      have hpassed := List.find?_some hs
      have hmem := List.mem_of_find?_eq_some hs
      have hunscoped : m.isUnscopedEnum s = true := by simpa using hparent s hmem
      simp [Model.isPassedOver, hunscoped] at hpassed
  | some parent =>
      simp only
      split_ifs with hrecord
      · have hspace : m.isUnnamedSpace parent = false := by
          unfold Model.isUnnamedSpace
          cases hkind : (m.decl parent).kind <;> simp_all [Decl.isRecord, Decl.record?]
        have hscope := namedScope?_of_semanticParent? h.wellFormed hparent hspace
        obtain rfl : parent = s := Option.some.inj (hscope.symm.trans hs)
        have hparentSign : m.Signposted parent := by
          refine hsign.resolve_left ?_
          rintro rfl
          simp [Decl.isRecord, Decl.record?, h.wellFormed.translationUnit.2.1] at hrecord
        calc m'.nodeText ⟨.record parent, .none⟩
            = m.nodeText ⟨.record parent, .none⟩ :=
              hi.nodeText_eq h.wellFormed (by simp [TypeKind.parts])
          _ = m.qualifiedCompleteNameWith (m.argTextFrom m.declFuel) parent :=
              nodeText_record h.wellFormed parent
          _ = Text.joined "::" (outerNames m parent ++ [m.completeName parent]) :=
              qualifiedCompleteNameWith_eq hparentSign h (hclass hparent hrecord) _
          _ = Text.joined "::" (outerNames m func) := by
              rw [outerNames_inScope h hparentSign hs]
      · obtain ⟨-, enums, hancestors, henums⟩ := h.wellFormed.ancestors_split hparent
        have hpassed : ∀ e ∈ enums, m.isPassedOver e = true := by
          intro e he
          rw [Model.isPassedOver, henums e he, Bool.true_or]
        have hunit : m'.isTranslationUnit = m.isTranslationUnit := by
          funext c
          rw [Model.isTranslationUnit, hi.sameDecls.decl_eq, Model.isTranslationUnit]
        rw [outerNames_of_ancestors hancestors hpassed, scopePart?_interned hi h.wellFormed,
          ancestors_interned hi, hunit]
        rfl

/-- What is asked of the model for a call puts nothing but types into it. -/
theorem scopeSpelling_interns (func : DeclId) : Model.Interns (scopeSpelling func) := by
  apply Model.Interns.get.bind
  intro m
  split
  · exact .pure _
  · split
    · exact (Model.intern_interns _).bind fun _ => Model.Interns.get.bind fun _ => .pure _
    · exact .pure _

theorem target_interns (func : DeclId) (info : FunctionInfo) :
    Model.Interns (target func info) := by
  apply (Model.Interns.mapM fun t _ => Model.canonical_interns t).bind
  intro params
  apply Model.Interns.get.bind
  intro m
  apply (scopeSpelling_interns func).bind
  intro scope
  exact (Model.canonical_interns info.returnType).bind fun _ => .pure _

/-- The target of a call has the name of the function, and the scope as it is spelled once the types
of the parameters are known. -/
theorem target_names (m : Model) (func : DeclId) (info : FunctionInfo) :
    ∃ m', m.Interned m' ∧ ((target func info).run m).1.name = m'.completeName func ∧
      ((target func info).run m).1.scope = ((scopeSpelling func).run m').1 := by
  have hparams : Model.Interns ((info.params.map ParamInfo.type).mapM Model.canonical) :=
    .mapM fun t _ => Model.canonical_interns t
  exact ⟨_, hparams m, rfl, rfl⟩

/-! ## Paths of calls -/

/-- The ways to name a function, or the class that it constructs, by a name in a scope. -/
inductive NamedIn (name scope : String) : String → Prop
  | alone (hscope : scope = "") : NamedIn name scope name
  | behindScope (hscope : scope ≠ "") : NamedIn name scope (scope ++ "::" ++ name)
  | onObject : NamedIn name scope ("((" ++ scope ++ "*)obj)->" ++ name)
  | onConstObject : NamedIn name scope ("((const " ++ scope ++ "*)obj)->" ++ name)
  | constructing {placement : String} (hplacement : placement ∈ ["(obj) ", ""]) :
      NamedIn name scope ("new " ++ placement ++ scope)

variable {t : Target} {n : Nat}

theorem Target.path_namedIn (t : Target) : NamedIn t.name t.scope t.path := by
  unfold Target.path
  split
  · exact .onConstObject
  · exact .onObject
  · split_ifs with hscope
    · exact .alone (String.isEmpty_iff.mp hscope)
    · exact .behindScope fun hempty => hscope (String.isEmpty_iff.mpr hempty)

/-- The call of a block names what it calls in the scope of the target. -/
def Block.NamedBy (t : Target) (b : Block) : Prop := NamedIn t.name t.scope b.call.path

theorem call_namedIn (m : Model) (ret : String) :
    Yields (call m t ret n) fun r => NamedIn t.name t.scope r.1.path :=
  Yields.bind_any fun _ => Yields.pure t.path_namedIn

theorem construction_namedIn (m : Model) {placement : String}
    (hplacement : placement ∈ ["(obj) ", ""]) :
    Yields (construction m t placement n) fun r => NamedIn t.name t.scope r.1.path :=
  Yields.bind_any fun _ => Yields.pure (.constructing hplacement)

theorem droppingBlock_namedBy (m : Model) : Yields (droppingBlock m t n) (Block.NamedBy t) := by
  unfold droppingBlock
  extract_lets finished
  have hfinished : ∀ r, Yields (finished r) (Block.NamedBy t) := by
    rintro ⟨ret, typedefs⟩
    exact (call_namedIn m ret).bind fun _ hr => Yields.pure hr
  split_ifs
  · exact hfinished ("", [])
  · exact Yields.bind_any fun result => hfinished (result.1.castName, result.2)

theorem body_namedBy (m : Model) :
    Yields (body m t n) fun b => ∀ block ∈ b.blocks, block.NamedBy t := by
  apply body_blocks
  · exact (construction_namedIn m (by decide)).bind fun _ hr => Yields.pure hr
  · intro before
    exact (construction_namedIn m (by decide)).bind fun _ hr => Yields.pure hr
  · exact (call_namedIn m "void").bind fun _ hr => Yields.pure hr
  · apply Yields.bind_any
    intro result
    exact (call_namedIn m result.1.castName).bind fun _ hr => Yields.pure hr
  · exact droppingBlock_namedBy m

theorem wrapperOf_namedBy (m : Model) (t : Target) (required : Nat) :
    Yields (wrapperOf m t required) fun w =>
      ∀ c ∈ w.clauses, ∀ b ∈ c.body.blocks, b.NamedBy t :=
  Yields.bind_any fun _ => (clauses_bodies (fun _ _ => body_namedBy m) required).bind
    fun _ hcs => Yields.pure hcs.2

/-! ## Scopes that are found -/

/-- Every function of a reachable model has a trampoline, and all calls in it name the function
through one and the same text for its scope. In the global scope, and in unnamed namespaces of it,
there is no text. Otherwise the text is found, before and after drafting, to mean the nearest scope
around the function that is neither an unnamed namespace nor an unscoped enumeration: if the names
of the scopes are identifiers and find nothing else, and a class that the function belongs to has no
unnamed namespace around it. -/
theorem scopes_lead_back (h : m.Reachable) (hfunc : m.function? func = some info)
    (hs : m.namedScope? func = some s) (hsign : s = root ∨ m.Signposted s)
    (htargets : ∀ c ∈ m.ancestors s, m.scopeTarget c = c)
    (hclass : m.semanticParent? func = some s → (m.decl s).isRecord = true →
      ∀ c ∈ m.ancestors s, m.isUnnamedSpace c = false) (serial : UInt64) :
    ∃ w next text, ((wrapper? func serial).run m).1 = some (w, next) ∧
      (∀ c ∈ w.clauses, ∀ b ∈ c.body.blocks,
        NamedIn (m.completeName func) text b.call.path) ∧
      (s = root → text = "") ∧
      (s ≠ root → text ≠ "" ∧ m.lookupNamed text root = .found s ∧
        ((wrapper? func serial).run m).2.lookupNamed text root = .found s) := by
  obtain ⟨m', hi, hname, hscope⟩ := target_names m func info
  rw [completeName_interned hi h.wellFormed] at hname
  rw [run_scopeSpelling h hi hs hsign hclass] at hscope
  have hpaths := wrapperOf_namedBy ((target func info).run m).2 ((target func info).run m).1
    info.minRequiredArgs serial
  unfold Block.NamedBy at hpaths
  rw [hname, hscope] at hpaths
  rw [run_wrapper? hfunc]
  refine ⟨_, _, _, rfl, hpaths, ?_, ?_⟩
  · rintro rfl
    rw [outerNames_inUnit h.wellFormed hs]
    rfl
  · intro hne
    have hd := hsign.resolve_left hne
    have hfound := lookupNamed_outerNames hd h htargets
    rw [outerNames_inScope h hd hs]
    refine ⟨?_, hfound, ?_⟩
    · intro hempty
      rw [joined_append_singleton, String.append_eq_empty_iff] at hempty
      obtain ⟨t, -, hsole⟩ := hd.exists_soleMember
      rw [hsole.completeName_eq h.orderly] at hempty
      exact hd.identifier.ne_empty hempty.2
    · have hdrafted := target_interns func info m
      have hwf := (target_describes h.wellFormed hfunc).wellFormed
      rw [hdrafted.lookupNamed_eq h.wellFormed hwf]
      exact hfound

/-- A model with an unnamed namespace and the class `C` in the namespace `N`. -/
def tourScopes : Model :=
  [Request.intern ⟨.void, .none⟩, .declareNamespace root "N", .declareNamespace ⟨1⟩ "",
    .declareRecord ⟨1⟩ "C" .struct true].foldl (fun m request => (request.perform.run m).2) .empty

/-- The model with the function `g` in the unnamed namespace and the method `m` of the class. -/
def tourModel : Model :=
  [Request.declareFunction (.function ⟨2⟩ "g" ⟨0⟩) [],
    .declareFunction (.function ⟨3⟩ "m" ⟨0⟩) []].foldl
    (fun m request => (request.perform.run m).2) tourScopes

theorem tourModel_reachable : tourModel.Reachable := by
  have hvoid := Model.Reachable.step .empty (.intern ⟨.void, .none⟩)
    ⟨by simp [TypeKind.parts], by simp [TypeKind.decl?]⟩
  have hspace := hvoid.step (.declareNamespace root "N") hvoid.wellFormed.translationUnit.1
  have hunnamed := hspace.step (.declareNamespace ⟨1⟩ "")
    (show Model.HasDecl _ _ by decide +kernel)
  have hscopes : tourScopes.Reachable := hunnamed.step (.declareRecord ⟨1⟩ "C" .struct true)
    (show Model.HasDecl _ _ by decide +kernel)
  have hfunction := hscopes.step (.declareFunction (.function ⟨2⟩ "g" ⟨0⟩) [])
    ⟨⟨by decide +kernel, by decide +kernel⟩, List.forall_mem_nil _⟩
  exact hfunction.step (.declareFunction (.function ⟨3⟩ "m" ⟨0⟩) [])
    ⟨⟨by decide +kernel, by decide +kernel⟩, List.forall_mem_nil _⟩

theorem tourModel_signposted : tourModel.Signposted ⟨1⟩ ∧ tourModel.Signposted ⟨3⟩ := by
  have hN : tourModel.Signposted ⟨1⟩ := .inUnit (by decide +kernel)
    ⟨'N', [], by decide +kernel, by decide +kernel, List.forall_mem_nil _⟩ ⟨by decide +kernel, by decide +kernel⟩
  exact ⟨hN, .inScope hN (by decide +kernel)
    ⟨'C', [], by decide +kernel, by decide +kernel, List.forall_mem_nil _⟩ ⟨by decide +kernel, by decide +kernel⟩⟩

/-- The call of `g` names `N`, and the call of `m` names `N::C`. -/
theorem scopes_lead_back_tour :
    (∃ w next text, ((wrapper? ⟨4⟩ 0).run tourModel).1 = some (w, next) ∧
      (∀ c ∈ w.clauses, ∀ b ∈ c.body.blocks, NamedIn "g" text b.call.path) ∧
      tourModel.lookupNamed text root = .found ⟨1⟩) ∧
    (∃ w next text, ((wrapper? ⟨5⟩ 0).run tourModel).1 = some (w, next) ∧
      (∀ c ∈ w.clauses, ∀ b ∈ c.body.blocks, NamedIn "m" text b.call.path) ∧
      tourModel.lookupNamed text root = .found ⟨3⟩) := by
  obtain ⟨hN, hC⟩ := tourModel_signposted
  have hg : ∃ info, tourModel.function? ⟨4⟩ = some info :=
    Option.isSome_iff_exists.mp (by decide +kernel)
  have hm : ∃ info, tourModel.function? ⟨5⟩ = some info :=
    Option.isSome_iff_exists.mp (by decide +kernel)
  obtain ⟨g, hg⟩ := hg
  obtain ⟨m, hm⟩ := hm
  have hnames : tourModel.completeName ⟨4⟩ = "g" ∧ tourModel.completeName ⟨5⟩ = "m" := by
    decide +kernel
  constructor
  · obtain ⟨w, next, text, hw, hpaths, -, hfound⟩ := scopes_lead_back tourModel_reachable hg
      (by decide +kernel) (.inr hN) (by decide +kernel) (by decide +kernel) 0
    rw [hnames.1] at hpaths
    exact ⟨w, next, text, hw, hpaths, (hfound (by decide)).2.1⟩
  · obtain ⟨w, next, text, hw, hpaths, -, hfound⟩ := scopes_lead_back tourModel_reachable hm
      (by decide +kernel) (.inr hC) (by decide +kernel) (by decide +kernel) 0
    rw [hnames.2] at hpaths
    exact ⟨w, next, text, hw, hpaths, (hfound (by decide)).2.1⟩

/-- A method of a class in an unnamed namespace: the text for the class is not found, though the
name of the class is. -/
theorem scopes_lost_in_unnamed :
    let void := ((Request.intern ⟨.void, .none⟩).perform.run .empty).2
    let unnamed := ((Request.declareNamespace root "").perform.run void).2
    let klass := ((Request.declareRecord ⟨1⟩ "C" .struct true).perform.run unnamed).2
    let method := ((Request.declareFunction (.function ⟨2⟩ "m" ⟨0⟩) []).perform.run klass).2
    (method.Reachable ∧ method.Signposted ⟨2⟩) ∧
      (∃ w next, ((wrapper? ⟨3⟩ 0).run method).1 = some (w, next) ∧
        ∀ c ∈ w.clauses, ∀ b ∈ c.body.blocks,
          b.call.path = "(((anonymous namespace)::C*)obj)->m") ∧
      method.lookupNamed "(anonymous namespace)::C" root = .notFound ∧
      method.lookupNamed "C" root = .found ⟨2⟩ := by
  intro void unnamed klass method
  have hvoid : void.Reachable := .step .empty _ ⟨by simp [TypeKind.parts], by simp [TypeKind.decl?]⟩
  have hunnamed : unnamed.Reachable := hvoid.step (.declareNamespace root "")
    hvoid.wellFormed.translationUnit.1
  have hklass : klass.Reachable := hunnamed.step (.declareRecord ⟨1⟩ "C" .struct true)
    (show Model.HasDecl _ _ by decide +kernel)
  have hmethod : method.Reachable := hklass.step (.declareFunction (.function ⟨2⟩ "m" ⟨0⟩) [])
    ⟨⟨by decide +kernel, by decide +kernel⟩, List.forall_mem_nil _⟩
  have hC : method.Signposted ⟨2⟩ := .inUnit (by decide +kernel)
    ⟨'C', [], by decide +kernel, by decide +kernel, List.forall_mem_nil _⟩ ⟨by decide +kernel, by decide +kernel⟩
  have hw : ∃ r, ((wrapper? ⟨3⟩ 0).run method).1 = some r :=
    Option.isSome_iff_exists.mp (by decide +kernel)
  obtain ⟨⟨w, next⟩, hw⟩ := hw
  have hpath : ∀ c ∈ (((wrapper? ⟨3⟩ 0).run method).1.getD default).1.clauses,
      ∀ b ∈ c.body.blocks, b.call.path = "(((anonymous namespace)::C*)obj)->m" := by
    decide +kernel
  rw [hw] at hpath
  exact ⟨⟨hmethod, hC⟩, ⟨w, next, hw, hpath⟩, by decide +kernel, by decide +kernel⟩

end Trampoline

end CppReflect
