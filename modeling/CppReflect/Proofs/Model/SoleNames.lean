import CppReflect.Proofs.Instances
import CppReflect.Proofs.Model.NormalForms
import CppReflect.Proofs.Spelling.Front
import CppReflect.Proofs.Spelling.Plain

/-!
# Names that one declaration has

A name that a single declaration has is found from everywhere, if the declaration is listed in the
translation unit: whatever a scope on the way finds under the name is that declaration. A typedef
under a fresh name is such a declaration, and the name spells what it stands for.
-/

namespace CppReflect

open Spelling (Identifier Reserved Plain ReadsFront)

/-! ## Identifiers as names -/

theorem Name.isPlain_of_continuesWord {c : Char} (h : Spelling.Token.continuesWord c = true) :
    isPlain c = true := by
  have hspace := Spelling.Token.not_isSpace_of_continuesWord h
  have hne : ∀ d : Char, Spelling.Token.continuesWord d = false → c ≠ d := by
    rintro d hd rfl
    rw [h] at hd
    cases hd
  simp [isPlain, closes, hspace, hne ':' (by decide), hne '<' (by decide), hne '(' (by decide),
    hne '[' (by decide), hne '>' (by decide), hne ')' (by decide), hne ']' (by decide)]

namespace Spelling

variable {name : String}

theorem Identifier.continuesWord (h : Identifier name) :
    ∀ c ∈ name.toList, Token.continuesWord c = true := by
  obtain ⟨c, cs, hname, hc, hcs⟩ := h
  rw [hname]
  exact List.forall_mem_cons.mpr ⟨Token.continuesWord_of_startsWord hc, hcs⟩

theorem Identifier.isPlain (h : Identifier name) : name.toList.all Name.isPlain = true :=
  List.all_eq_true.mpr fun c hc => Name.isPlain_of_continuesWord (h.continuesWord c hc)

theorem getLast?_append_ne {c : Char} {cs ds : List Char} (hcs : cs.getLast? ≠ some c)
    (hds : ds.getLast? ≠ some c) : (cs ++ ds).getLast? ≠ some c := by
  rw [List.getLast?_append]
  cases hlast : ds.getLast? with
  | none => simpa using hcs
  | some d => simpa [hlast] using hds

/-- A reference sign behind an identifier stands for itself. -/
theorem Identifier.getLast?_ne (h : Identifier name) : name.toList.getLast? ≠ some '&' := by
  intro hlast
  exact absurd (h.continuesWord _ (List.mem_of_getLast? hlast)) (by decide)

theorem Identifier.ne_empty (h : Identifier name) : name ≠ "" := by
  obtain ⟨c, cs, hname, -⟩ := h
  rintro rfl
  cases hname

theorem Identifier.isSegment (h : Identifier name) : Name.IsSegment name where
  solid := Name.Solid.of_plain h.isPlain
  bare := by
    have hplain := List.all_eq_true.mp h.isPlain
    obtain ⟨c, cs, hname, -⟩ := h
    have hc := hplain c (hname ▸ List.mem_cons_self)
    exact ⟨⟨c, cs, hname, Name.isSpace_of_plain hc, Name.ne_colon_of_plain hc⟩,
      fun d hd => Name.isSpace_of_plain (hplain d (List.mem_of_getLast? hd))⟩

theorem Identifier.templateId (h : Identifier name) : Name.templateId name = (name, none) := by
  have hopen : ∀ c ∈ name.toList, (c == '<') = false := by
    intro c hc
    refine beq_false_of_ne ?_
    rintro rfl
    exact absurd (List.all_eq_true.mp h.isPlain _ hc) (by decide)
  simp [Name.templateId, Name.cutAt_eq_none hopen]

/-- The name that consists of one word. -/
def word (w : String) : QualifiedName := ⟨false, [w]⟩

theorem text_word (w : String) : (word w).text = w := String.empty_append

theorem Identifier.plain (h : Identifier name) (hfree : ¬Reserved name) : Plain (word name) :=
  { nonempty := by simp [word]
    words := by simpa [word] using h
    unreserved := by simpa [word] using hfree }

/-- A plain name is read from its text. -/
theorem Plain.readsFront {n : QualifiedName} (h : Plain n) :
    ReadsFront n.text (.name n) .none [] := by
  have hlegible : LegibleBase (.name n) [] := by
    refine ⟨qualifiedName_text h.toOfWords, ?_, ⟨rfl, rfl⟩, trivial⟩
    rw [textTokens_text h.toOfWords]
    exact h.beginsName
  have hnone : Quals.none.Valid := by decide
  have hsound : Base.Sound (fun _ => True) (.name n) := trivial
  have hread := declSpecifiers_tokens hsound hnone hlegible
  rw [List.append_nil] at hread
  exact ⟨[], hread, rfl⟩

/-- A reference sign behind a name of words stands for itself. -/
theorem OfWords.getLast?_ne {n : QualifiedName} (h : OfWords n) :
    n.text.toList.getLast? ≠ some '&' := by
  have hjoined : ∀ ws : List String, (∀ w ∈ ws, Identifier w) →
      (Text.joined "::" ws).toList.getLast? ≠ some '&' := by
    intro ws hws
    induction ws with
    | nil => simp [Text.joined]
    | cons w rest ih =>
        obtain ⟨hw, hrest⟩ := List.forall_mem_cons.mp hws
        by_cases hnil : rest = []
        · subst hnil
          exact hw.getLast?_ne
        · rw [Text.joined_cons hnil, String.toList_append]
          exact getLast?_append_ne (by simp) (ih hrest)
  unfold QualifiedName.text
  rw [String.toList_append]
  exact getLast?_append_ne (by split <;> decide) (hjoined _ h.words)

end Spelling

namespace Model

variable {m m' : Model} {d : DeclId} {name : String}

/-- The declaration is found in the translation unit, and no other one has its name. -/
structure SoleName (m : Model) (d : DeclId) (name : String) : Prop where
  listed : d ∈ m.membersNamed root name
  only : ∀ c, m.HasDecl c → (m.decl c).name = name → c = d

namespace SoleName

/-- Wherever the name is looked up, nothing else is found. -/
theorem eq_of_mem_lookupIn (h : m.SoleName d name) (hname : name ≠ "") {s c : DeclId}
    (hc : c ∈ m.lookupIn s name) : c = d := by
  have hentry := name_of_mem_lookupIn hc
  refine h.only c ?_ hentry
  cases hdecl : m.decl? c with
  | none =>
      rw [decl, hdecl] at hentry
      exact absurd hentry.symm hname
  | some e => exact hasDecl_iff.mpr ⟨e, hdecl⟩

theorem lookupSegment_eq (h : m.SoleName d name) (hname : Identifier name) (s : DeclId) :
    m.lookupSegment s name = if m.lookupIn s name = [] then .notFound else .found d := by
  simp only [lookupSegment, hname.templateId]
  have honly := fun {c} => h.eq_of_mem_lookupIn (s := s) (c := c) hname.ne_empty
  cases hfound : m.lookupIn s name with
  | nil => rfl
  | cons first rest =>
      rw [hfound] at honly
      obtain rfl := honly List.mem_cons_self
      have hrest : rest.all (· == first) = true :=
        List.all_eq_true.mpr fun c hc => beq_iff_eq.mpr (honly (List.mem_cons_of_mem _ hc))
      simp [hrest]

/-- The name is found from every scope, in that scope or in one around it. -/
theorem resolveTypeName?_eq (h : m.SoleName d name) (hwf : m.WellFormed)
    (hname : Identifier name) (htype : m.isTypeDecl d = true) {context : DeclId}
    (hcontext : m.HasDecl context) : m.resolveTypeName? name context = some d := by
  have hlookup : ∀ s, m.lookupNamed name s =
      if m.lookupIn s name = [] then .notFound else .found d := by
    intro s
    have hnone : ∀ n ∈ ([] : List String), Name.IsSegment n := by simp
    have hjoin := m.lookupNamed_join hnone (Name.segments_last hname.isSegment)
      hname.isSegment.bare s
    rw [List.map_nil, String.join_nil, String.empty_append, List.nil_append] at hjoin
    rw [hjoin, lookupSegments, h.lookupSegment_eq hname]
  have hroot : root ∈ context :: m.ancestors context :=
    List.mem_of_getLast? <| hwf.ancestorsFrom_end hcontext <|
      Nat.le_of_lt (Nat.lt_succ_of_lt hcontext)
  have hunit : m.lookupIn root name ≠ [] := by
    rw [lookupIn_of_members (List.ne_nil_of_mem h.listed)]
    exact List.ne_nil_of_mem h.listed
  unfold resolveTypeName?
  cases hfind : (context :: m.ancestors context).findSome? _ with
  | none =>
      have hmiss := List.findSome?_eq_none_iff.mp hfind root hroot
      rw [hlookup, if_neg hunit] at hmiss
      simp [htype] at hmiss
  | some c =>
      obtain ⟨s, -, hs⟩ := List.exists_of_findSome?_eq_some hfind
      rw [hlookup] at hs
      split at hs
      next e hfound =>
        split at hfound
        next => cases hfound
        next =>
          obtain rfl := Lookup.found.inj hfound
          rw [if_pos htype] at hs
          exact hs.symm
      next => cases hs

end SoleName

/-- A name that finds a typedef means that typedef. -/
theorem resolveName_typedef (h : m.WellFormed) {n : QualifiedName} {context : DeclId} {u : TypeId}
    (hfound : m.resolveTypeName? n.text (if n.global then root else context) = some d)
    (hu : (m.decl d).underlying? = some u) :
    m.Keeps (resolveName n context) fun t m' => m'.types.get? t = some ⟨.typedef d, .none⟩ := by
  have hex := hasDecl_of_isTypeDecl (isTypeDecl_of_resolveTypeName? hfound)
  refine Keeps.get_bind ?_
  rw [hfound]
  unfold Decl.underlying? at hu
  split at hu
  next hkind =>
    simp only [hkind]
    exact internKind_keeps h (by simp [TypeKind.parts]) (by rintro _ ⟨rfl⟩; exact hex)
  next => cases hu

namespace SoleName

/-- The sole name of a typedef means what the typedef stands for. -/
theorem parseType_keeps (h : m.SoleName d name) (hwf : m.WellFormed) (hname : Identifier name)
    (hfree : ¬Reserved name) {u : TypeId} (hu : (m.decl d).underlying? = some u)
    {context : DeclId} (hcontext : m.HasDecl context) :
    m.Keeps (parseType name context) fun t m' =>
      m'.HasType t ∧ m'.canonTree t = m.canonTree u := by
  have htype : m.isTypeDecl d = true := by
    unfold Decl.underlying? at hu
    split at hu
    next hkind => simp [isTypeDecl, hkind]
    next => cases hu
  have hread := (hname.plain hfree).readsFront.read
  rw [Spelling.text_word] at hread
  have hfound := h.resolveTypeName?_eq hwf hname htype hcontext
  have hex := hwf.underlying_hasType hu
  unfold parseType
  rw [hread]
  simp only [resolve, resolveOps, bind_pure, resolveBase]
  refine (resolveName_typedef hwf (n := Spelling.word name) ?_ hu).bind fun t m₁ hwf₁ hgrow₁ ht => ?_
  · rwa [Spelling.text_word]
  refine (withQuals_keeps hwf₁ t .none).weaken fun t' m₂ hwf₂ hgrow₂ ht' => ?_
  have hgrow := hgrow₁.trans hgrow₂
  rw [node_of_get? ht, Quals.none_union] at ht'
  refine ⟨hasType_of_get? ht', ?_⟩
  have hd : m.HasDecl d := hasDecl_of_isTypeDecl htype
  rw [hwf₂.canonTree_typedef (hasType_of_get? ht') (node_of_get? ht')
    ((hgrow.decl hd).underlying?.trans hu), hwf.canonTree_grows hwf₂ hgrow hex]

end SoleName

/-- A declaration that is added stands behind the others, and its scope lists it. -/
theorem addDecl_new (h : m.WellFormed) {parent : DeclId} (hparent : m.HasDecl parent)
    (name : String) (access : Access) {kind : DeclKind} (htypes : ∀ t ∈ kind.types, m.HasType t) :
    m.Keeps (addDecl parent name access kind) fun d m' =>
      m'.decl d = { name, kind, parent := some parent, access } ∧ d ∈ (m'.decl parent).members ∧
        ∀ c, m'.HasDecl c → m.HasDecl c ∨ c = d := by
  have hkeeps := addDecl_keeps h hparent name access htypes
  obtain ⟨scope, hscope⟩ := hasDecl_iff.mp hparent
  have hne : (⟨m.decls.size⟩ : DeclId) ≠ parent := by
    rintro rfl
    exact Nat.lt_irrefl _ hparent
  refine ⟨hkeeps.wellFormed, hkeeps.grows, ?_, ?_, ?_⟩
  · have hentry := decl?_modify_of_decl? (d := parent) (m := { m with decls := m.decls.push _ })
      (decl?_append_self (e := { name, kind, parent := some parent, access }))
      fun e => { e with members := e.members ++ [⟨m.decls.size⟩] }
    rw [if_neg hne] at hentry
    exact congrArg (Option.getD · rootDecl) hentry
  · have hlists := decl?_modify_of_decl? (d := parent) (m := { m with decls := m.decls.push _ })
      (decl?_append_of_decl? (e := { name, kind, parent := some parent, access }) hscope)
      fun e => { e with members := e.members ++ [⟨m.decls.size⟩] }
    rw [if_pos rfl] at hlists
    have hmembers := congrArg (fun e => (Option.getD e rootDecl).members) hlists
    change (((addDecl parent name access kind).run m).2.decl parent).members = _ at hmembers
    rw [hmembers]
    exact List.mem_append_right _ (List.mem_singleton.mpr rfl)
  · intro c hc
    obtain ⟨x, hx⟩ := hasDecl_iff.mp hc
    obtain ⟨e, he, -⟩ := decl?_modify_cases hx
    rcases decl?_append_cases he with hold | ⟨hindex, -⟩
    · exact .inl (hasDecl_iff.mpr ⟨e, hold⟩)
    · exact .inr (congrArg DeclId.mk hindex)

/-- A typedef under a fresh name is the only declaration of this name. -/
theorem declareTypedef_soleName (h : m.WellFormed) {u : TypeId} (hu : m.HasType u)
    (hfresh : ∀ c, m.HasDecl c → (m.decl c).name ≠ name) :
    m.Keeps (declareTypedef root name u) fun d m' =>
      m'.SoleName d name ∧ (m'.decl d).underlying? = some u := by
  refine Keeps.get_bind <| (addDecl_new h h.translationUnit.1 name (m.memberAccess root)
    (by simpa [DeclKind.types] using hu)).weaken fun d m' hwf hgrow hnew => ?_
  obtain ⟨hentry, hlisted, hold⟩ := hnew
  refine ⟨⟨?_, ?_⟩, by rw [hentry]; rfl⟩
  · unfold membersNamed declFuel
    refine mem_membersNamedFrom_succ.mpr (.inl ⟨hlisted, by rw [hentry], ?_⟩)
    simp [hentry, isInjectedName]
  · intro c hc hname
    rcases hold c hc with hc | rfl
    · exact absurd ((hgrow.decl hc).name ▸ hname) (hfresh c hc)
    · rfl

end Model

end CppReflect
