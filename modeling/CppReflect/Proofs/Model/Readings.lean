import CppReflect.Proofs.Model.Interning
import CppReflect.Proofs.Model.MoreTypes
import CppReflect.Proofs.Model.Outlines
import CppReflect.Proofs.Model.References
import CppReflect.Proofs.Model.SoleNames

/-!
# What texts denote

A text denotes a type if reading it answers one whose canonical form is that type, whatever types
are in the table besides. A text of a base and operators in front of a declarator can be continued:
what it denotes then is made of what it denoted by the operators that are written behind it.
-/

namespace CppReflect

open Spelling (Halts ReadsFront ReadsOps readBehind textTokens)

/-- A reference sign does not touch what stands in front of it, unless that is one too. -/
theorem Spelling.separate_ampersand {text : String} (hends : text.toList.getLast? ≠ some '&')
    (rest : List Char) : Token.Separate text.toList ('&' :: rest) := by
  rintro l hl _ ⟨rfl⟩
  refine ⟨Or.inr (by decide), fun hsame => hends ?_⟩
  rw [← hsame.1]
  exact hl

namespace TypeTree

/-- The type of pointers to the type, with the qualifiers. -/
def pointed (T : TypeTree) (q : Quals) : TypeTree := .node (TypeKind.pointer default).shape q [T]

/-- The type of pointers to members of a class that have the type, with the qualifiers. -/
def memberPointed (T klass : TypeTree) (q : Quals) : TypeTree :=
  .node (TypeKind.memberPointer default default).shape q [T, klass]

/-- The type of arrays of the type. -/
def arrayed (extent : Option UInt64) (T : TypeTree) : TypeTree :=
  .node (TypeKind.arrayOf default extent).shape .none [T]

/-- The type of functions with the result. -/
def called (result : TypeTree) (params : List TypeTree) (variadic : Bool) (quals : Quals)
    (ref : RefQualifier) : TypeTree :=
  .node (TypeKind.function ⟨default, params.map fun _ => default, variadic, quals, ref⟩).shape .none
    (result :: params)

end TypeTree

namespace Model

variable {m m₁ : Model} {context : DeclId} {S T : TypeTree}

/-- Whatever types are put into the table first, the computation answers one with this canonical
form, and adds nothing but types. -/
structure Denotes (m : Model) (x : ModelM TypeId) (T : TypeTree) : Prop where
  interns : Interns x
  keeps : ∀ m₁ : Model, m₁.WellFormed → m.Interned m₁ →
    m₁.Keeps x fun t m' => m'.HasType t ∧ m'.canonTree t = T

/-- The operators make the second type of the first one. -/
def Makes (m : Model) (context : DeclId) (ops : List DeclaratorOp) (S T : TypeTree) : Prop :=
  ∀ m₁ : Model, m₁.WellFormed → m.Interned m₁ → ∀ t, m₁.HasType t → m₁.canonTree t = S →
    m₁.Keeps (resolveOps context t ops) fun u m' => m'.HasType u ∧ m'.canonTree u = T

/-- At most one type is denoted. -/
theorem Denotes.unique {x : ModelM TypeId} (h : m.Denotes x S) (h' : m.Denotes x T)
    (hwf : m.WellFormed) : S = T :=
  (h.keeps m hwf (Interned.refl m)).answer.2.symm.trans (h'.keeps m hwf (Interned.refl m)).answer.2

/-- Operators behind a type that is denoted. -/
theorem Denotes.resolveOps {x : ModelM TypeId} (h : m.Denotes x S) {ops : List DeclaratorOp}
    (hops : m.Makes context ops S T) : m.Denotes (x >>= (resolveOps context · ops)) T where
  interns := h.interns.bind fun t => resolveOps_interns context t ops
  keeps m₁ hwf₁ hmore :=
    ((h.keeps m₁ hwf₁ hmore).interned h.interns).bind fun t m₂ hwf₂ _ ht =>
      hops m₂ hwf₂ (hmore.trans ht.2) t ht.1.1 ht.1.2

/-! ## Operators -/

/-- Qualifiers that are added to a type are added to its canonical form. -/
theorem withQuals_canonTree (h : m.WellFormed) {t : TypeId} (ht : m.HasType t) (q : Quals) :
    m.Keeps (withQuals t q) fun u m' =>
      m'.HasType u ∧ m'.canonTree u = (m.canonTree t).qualified q := by
  refine (withQuals_keeps h t q).weaken fun u m' hwf hgrow hu => ⟨hasType_of_get? hu, ?_⟩
  have hnode : m'.node u = ⟨(m'.node t).kind, (m'.node t).quals ∪ q⟩ := by
    rw [node_of_get? hu, hgrow.node ht]
  rw [hwf.canonTree_of_node (hasType_of_get? hu) (hgrow.hasType ht) hnode,
    h.canonTree_grows hwf hgrow ht]

/-- Qualifiers that are added to a type are added to what is denoted. -/
theorem Denotes.qualified {x : ModelM TypeId} (h : m.Denotes x T) (q : Quals) :
    m.Denotes (x >>= (withQuals · q)) (T.qualified q) where
  interns := h.interns.bind fun t => withQuals_interns t q
  keeps m₁ hwf₁ hmore := (h.keeps m₁ hwf₁ hmore).bind fun _ _ hwf₂ _ ht =>
    ht.2 ▸ withQuals_canonTree hwf₂ ht.1 q

theorem resolve_base (context : DeclId) (base : Spelling.Base) (q : Quals) :
    resolve context (.mk base q []) = resolveBase base context >>= (withQuals · q) := by
  simp [resolve, resolveOps]

/-- A type that refers to no declaration, with qualifiers. -/
theorem internQualified_keeps (h : m.WellFormed) {k : TypeKind} (hparts : ∀ p ∈ k.parts, m.HasType p)
    (hdecl : k.decl? = none) (q : Quals) :
    m.Keeps (internKind k >>= (withQuals · q)) fun u m' =>
      m'.HasType u ∧ m'.canonTree u = .node k.shape q (k.parts.map m.canonTree) := by
  refine (internKind_canonTree h hparts hdecl).bind fun p m₁ hwf₁ _ hp => ?_
  refine (withQuals_canonTree hwf₁ (hasType_of_get? hp.1) q).weaken fun u m₂ _ _ hu => ⟨hu.1, ?_⟩
  rw [hu.2, hp.2, TypeTree.qualified, Quals.none_union]

theorem array_keeps (h : m.WellFormed) {t : TypeId} (ht : m.HasType t) (context : DeclId)
    (extent : Option UInt64) :
    m.Keeps (resolveOp context t (.array extent)) fun u m' =>
      m'.HasType u ∧ m'.canonTree u = (m.canonTree t).arrayed extent := by
  have hop : resolveOp context t (.array extent) = internKind (.arrayOf t extent) := by
    cases extent <;> (unfold resolveOp; rfl)
  have hdecl : (TypeKind.arrayOf t extent).decl? = none := by cases extent <;> rfl
  have hparts : (TypeKind.arrayOf t extent).parts = [t] := by cases extent <;> rfl
  rw [hop]
  refine (internKind_canonTree h (by simpa [hparts] using ht) hdecl).weaken
    fun u m' _ _ hu => ⟨hasType_of_get? hu.1, ?_⟩
  rw [hu.2, hparts]
  cases extent <;> rfl

namespace Makes

variable {ops ops' : List DeclaratorOp} {U : TypeTree}

theorem nil (m : Model) (context : DeclId) (T : TypeTree) : m.Makes context [] T T := by
  intro m₁ hwf₁ _ t ht htree
  unfold resolveOps
  exact Keeps.pure hwf₁ ⟨ht, htree⟩

theorem append (h : m.Makes context ops S T) (h' : m.Makes context ops' T U) :
    m.Makes context (ops ++ ops') S U := by
  intro m₁ hwf₁ hmore t ht htree
  rw [resolveOps_append]
  refine ((h m₁ hwf₁ hmore t ht htree).interned (resolveOps_interns _ _ _)).bind
    fun u m₂ hwf₂ _ hu => ?_
  exact h' m₂ hwf₂ (hmore.trans hu.2) u hu.1.1 hu.1.2

theorem of_op {o : DeclaratorOp} (h : ∀ m₁ : Model, m₁.WellFormed → m.Interned m₁ → ∀ t,
      m₁.HasType t → m₁.canonTree t = S →
      m₁.Keeps (resolveOp context t o) fun u m' => m'.HasType u ∧ m'.canonTree u = T) :
    m.Makes context [o] S T := by
  intro m₁ hwf₁ hmore t ht htree
  simp only [resolveOps, bind_pure]
  exact h m₁ hwf₁ hmore t ht htree

theorem pointer (m : Model) (context : DeclId) (q : Quals) (T : TypeTree) :
    m.Makes context [.pointer q] T (T.pointed q) := by
  refine of_op fun m₁ hwf₁ _ t ht htree => ?_
  unfold resolveOp
  refine (internQualified_keeps hwf₁ (by simpa [TypeKind.parts] using ht) rfl q).weaken
    fun u m₂ _ _ hu => ⟨hu.1, ?_⟩
  rw [hu.2, TypeTree.pointed, ← htree]
  rfl

theorem lvalueReference (m : Model) (context : DeclId) (T : TypeTree) :
    m.Makes context [.lvalueReference] T (T.referenced .lvalueReference) := by
  refine of_op fun m₁ hwf₁ _ t ht htree => ?_
  unfold resolveOp
  exact (makesReference_lvalue.canonTree_keeps hwf₁ ht).weaken fun u m₂ _ _ hu =>
    ⟨hasType_of_get? hu.1, htree ▸ hu.2⟩

theorem rvalueReference (m : Model) (context : DeclId) (hT : T.isLvalueReference = false) :
    m.Makes context [.rvalueReference] T (T.referenced .rvalueReference) := by
  refine of_op fun m₁ hwf₁ _ t ht htree => ?_
  unfold resolveOp
  have hother : ¬m₁.WrittenAsLvalueReference t := by
    intro hwritten
    have hlvalue := isLvalueReference_of_written hwritten
    rw [← hwf₁.isLvalueReference_canonTree ht, htree, hT] at hlvalue
    cases hlvalue
  refine ((makesReference_rvalue.canonTree_keeps hwf₁ ht).of_run
    (rvalueReference_run_of_not_written hother)).weaken fun u m₂ _ _ hu =>
      ⟨hasType_of_get? hu.1, htree ▸ hu.2⟩

theorem array (m : Model) (context : DeclId) (extent : Option UInt64) (T : TypeTree) :
    m.Makes context [.array extent] T (T.arrayed extent) :=
  of_op fun _ hwf₁ _ _ ht htree => htree ▸ array_keeps hwf₁ ht context extent

end Makes

/-- Spellings that denote types are resolved one after the other. -/
theorem resolveAll_keeps_trees {params : List Spelling} {trees : List TypeTree}
    (hparams : List.Forall₂ (fun s T => m.Denotes (resolve context s) T) params trees)
    (hwf₁ : m₁.WellFormed) (hmore : m.Interned m₁) :
    m₁.Keeps (resolveAll context params) fun ts m' =>
      (∀ t ∈ ts, m'.HasType t) ∧ ts.map m'.canonTree = trees := by
  induction hparams generalizing m₁ with
  | nil =>
      unfold resolveAll
      exact Keeps.pure hwf₁ ⟨by simp, rfl⟩
  | cons hs _ ih =>
      unfold resolveAll
      refine ((hs.keeps m₁ hwf₁ hmore).interned hs.interns).bind fun t m₂ hwf₂ _ ht => ?_
      refine (ih hwf₂ (hmore.trans ht.2)).bind fun ts m₃ hwf₃ hgrow₃ hts => ?_
      refine Keeps.pure hwf₃ ⟨?_, ?_⟩
      · exact List.forall_mem_cons.mpr ⟨hgrow₃.hasType ht.1.1, hts.1⟩
      · rw [List.map_cons, hts.2, hwf₂.canonTree_grows hwf₃ hgrow₃ ht.1.1, ht.1.2]

/-- The class of a member pointer is told by what its name denotes. -/
theorem Denotes.makes_memberPointer {klass : QualifiedName} {C : TypeTree}
    (hklass : m.Denotes (resolveName klass context) C) (q : Quals) (T : TypeTree) :
    m.Makes context [.memberPointer klass q] T (T.memberPointed C q) := by
  refine Makes.of_op fun m₁ hwf₁ hmore t ht htree => ?_
  unfold resolveOp
  refine (hklass.keeps m₁ hwf₁ hmore).bind fun c m₂ hwf₂ hgrow₂ hc => ?_
  refine (internQualified_keeps hwf₂ ?_ rfl q).weaken fun u m₃ _ _ hu => ⟨hu.1, ?_⟩
  · exact List.forall_mem_cons.mpr ⟨hgrow₂.hasType ht, by simpa using hc.1⟩
  · rw [hu.2, TypeTree.memberPointed, ← hc.2, ← htree, ← hwf₁.canonTree_grows hwf₂ hgrow₂ ht]
    rfl

theorem Makes.function {params : List Spelling} {trees : List TypeTree}
    (hparams : List.Forall₂ (fun s T => m.Denotes (resolve context s) T) params trees)
    (variadic : Bool) (quals : Quals) (ref : RefQualifier) (T : TypeTree) :
    m.Makes context [.function params variadic quals ref] T
      (T.called trees variadic quals ref) := by
  refine of_op fun m₁ hwf₁ hmore t ht htree => ?_
  unfold resolveOp
  refine (resolveAll_keeps_trees hparams hwf₁ hmore).bind fun ts m₂ hwf₂ hgrow₂ hts => ?_
  refine (internKind_canonTree hwf₂ ?_ rfl).weaken fun u m₃ _ _ hu => ⟨hasType_of_get? hu.1, ?_⟩
  · exact List.forall_mem_cons.mpr ⟨hgrow₂.hasType ht, hts.1⟩
  · rw [hu.2, TypeTree.called, ← hts.2, ← htree]
    simp [TypeKind.parts, TypeKind.shape, TypeKind.traverse,
      hwf₁.canonTree_grows hwf₂ hgrow₂ ht]

/-! ## Texts -/

/-- The text is a base and operators in front of a declarator, and denotes the type. -/
structure Fronts (m : Model) (context : DeclId) (text : String) (T : TypeTree) : Prop where
  reads : ∃ base quals ops, ReadsFront text base quals ops
  denotes : m.Denotes (parseType text context) T

namespace Fronts

variable {text text' : String} {behind rest : List Spelling.Token} {ops more : List DeclaratorOp}

/-- What operators in front and behind make of the type is denoted by the text that goes on with
them. -/
theorem denotes_append (h : m.Fronts context text S)
    (htokens : textTokens text' = textTokens text ++ behind) (hbehind : Halts behind)
    (hops : ReadsOps behind ops rest)
    (hmore : ∀ fuel, 6 * behind.length + 1 ≤ fuel → readBehind fuel rest = .ok (more, []))
    (hmakes : m.Makes context (ops ++ more) S T) : m.Denotes (parseType text' context) T := by
  obtain ⟨⟨base, quals, front, hfront⟩, hdenotes⟩ := h
  have hparse : parseType text' context =
      parseType text context >>= (resolveOps context · (ops ++ more)) := by
    unfold parseType
    rw [hfront.read_append htokens hbehind hops hmore, hfront.read, List.append_assoc]
    exact resolve_append context base quals front (ops ++ more)
  rw [hparse]
  exact hdenotes.resolveOps hmakes

theorem append (h : m.Fronts context text S)
    (htokens : textTokens text' = textTokens text ++ behind) (hbehind : Halts behind)
    (hops : ReadsOps behind ops []) (hmakes : m.Makes context ops S T) :
    m.Fronts context text' T where
  reads := by
    obtain ⟨base, quals, front, hfront⟩ := h.reads
    exact ⟨base, quals, front ++ ops, hfront.append htokens hbehind hops⟩
  denotes := by
    refine h.denotes_append htokens hbehind hops (fun fuel hfuel => ?_) (by rwa [List.append_nil])
    exact Spelling.readBehind_nil (Nat.le_trans (Nat.le_add_left 1 _) hfuel)

/-- The text of an operator behind a text that it does not touch. -/
theorem operator {sigil : String} {o : DeclaratorOp} (h : m.Fronts context text S)
    (hsigil : textTokens sigil = [.punct sigil])
    (hhalts : Halts [.punct sigil]) (hop : ReadsOps [.punct sigil] [o] [])
    (hseparate : Spelling.Token.Separate text.toList sigil.toList)
    (hmakes : m.Makes context [o] S T) : m.Fronts context (text ++ sigil) T := by
  refine h.append ?_ hhalts hop hmakes
  rw [← hsigil]
  unfold textTokens
  rw [String.toList_append]
  exact Spelling.Token.scan_append hseparate

theorem star (h : m.Fronts context text T) : m.Fronts context (text ++ "*") (T.pointed .none) := by
  refine h.operator (o := .pointer .none) rfl ⟨rfl, rfl⟩ ?_
    (Spelling.separate_of_lone_right (by decide) _ _) (.pointer m context .none T)
  intro fuel hfuel
  obtain ⟨fuel, rfl⟩ : ∃ n, fuel = n + 1 := ⟨fuel - 1, by simp at hfuel; omega⟩
  cases fuel <;> rfl

theorem stars (h : m.Fronts context text T) :
    m.Fronts context (text ++ "**") ((T.pointed .none).pointed .none) := by
  have hstars := h.star.star
  rwa [String.append_assoc] at hstars

section References

variable (h : m.Fronts context text T) (hends : text.toList.getLast? ≠ some '&')

include h hends

theorem ampersand : m.Fronts context (text ++ "&") (T.referenced .lvalueReference) := by
  refine h.operator (o := .lvalueReference) rfl ⟨rfl, rfl⟩ ?_ (Spelling.separate_ampersand hends [])
    (.lvalueReference m context T)
  intro fuel hfuel
  obtain ⟨fuel, rfl⟩ : ∃ n, fuel = n + 1 := ⟨fuel - 1, by simp at hfuel; omega⟩
  cases fuel <;> rfl

theorem ampersands (hT : T.isLvalueReference = false) :
    m.Fronts context (text ++ "&&") (T.referenced .rvalueReference) := by
  refine h.operator (o := .rvalueReference) rfl ⟨rfl, rfl⟩ ?_
    (Spelling.separate_ampersand hends ['&'])
    (.rvalueReference m context hT)
  intro fuel hfuel
  obtain ⟨fuel, rfl⟩ : ∃ n, fuel = n + 1 := ⟨fuel - 1, by simp at hfuel; omega⟩
  cases fuel <;> rfl

end References

end Fronts

/-! ## Bases -/

/-- A type without parts that refers to no declaration. -/
theorem denotes_internKind (m : Model) {k : TypeKind} (hparts : k.parts = [])
    (hdecl : k.decl? = none) :
    m.Denotes (internKind k) (.node k.shape .none []) where
  interns := intern_interns _
  keeps _ hwf₁ _ := (internKind_canonTree hwf₁ (by simp [hparts]) hdecl).weaken
    fun _ _ _ _ ht => ⟨hasType_of_get? ht.1, by simpa [hparts] using ht.2⟩

theorem Fronts.void (m : Model) (context : DeclId) :
    m.Fronts context "void" (.node .void .none []) := by
  have hfront : ReadsFront "void" .void .none [] := ⟨[], rfl, rfl⟩
  have hbase : m.Denotes (resolveBase .void context) (.node .void .none []) :=
    denotes_internKind m rfl rfl
  refine ⟨⟨_, _, _, hfront⟩, ?_⟩
  unfold parseType
  rw [hfront.read]
  simp only [resolve_base]
  exact hbase.qualified .none

/-! ## Names of classes -/

theorem WellFormed.canonTree_record (h : m.WellFormed) {t : TypeId} {d : DeclId} {q : Quals}
    (ht : m.types.get? t = some ⟨.record d, q⟩) : m.canonTree t = .node (.record d) q [] := by
  have hsugar : m.sugarStep? t = none := by rw [sugarStep?, node_of_get? ht]
  rw [h.canonTree_eq (hasType_of_get? ht), kindOf, desugared_of_none hsugar, node_of_get? ht]
  rfl

theorem Interned.resolveTypeName?_eq (h : m.Interned m₁) (hwf : m.WellFormed) (hwf₁ : m₁.WellFormed)
    (name : String) (context : DeclId) :
    m₁.resolveTypeName? name context = m.resolveTypeName? name context := by
  have hancestors : m₁.ancestors context = m.ancestors context := by
    rw [ancestors, h.sameDecls.declFuel_eq, h.sameDecls.ancestorsFrom_eq, ancestors]
  have htype : m₁.isTypeDecl = m.isTypeDecl := by
    funext d
    rw [isTypeDecl, h.sameDecls.decl_eq, isTypeDecl]
  simp only [resolveTypeName?, hancestors, h.lookupNamed_eq hwf hwf₁, htype]

/-- A name that finds a class denotes it. -/
theorem denotes_resolveName (h : m.WellFormed) {n : QualifiedName} {d : DeclId} {info : RecordInfo}
    (hfound : m.resolveTypeName? n.text (if n.global then root else context) = some d)
    (hrecord : (m.decl d).kind = .record info) :
    m.Denotes (resolveName n context) (.node (.record d) .none []) where
  interns := resolveName_interns n context
  keeps m₁ hwf₁ hmore := by
    have hex := hmore.growsTo.hasDecl (hasDecl_of_isTypeDecl (isTypeDecl_of_resolveTypeName? hfound))
    refine Keeps.get_bind ?_
    rw [hmore.resolveTypeName?_eq h hwf₁, hfound]
    simp only [hmore.sameDecls.decl_eq, hrecord]
    refine (internKind_keeps hwf₁ (by simp [TypeKind.parts]) (by rintro _ ⟨rfl⟩; exact hex)).weaken
      fun t m₂ hwf₂ _ ht => ⟨hasType_of_get? ht, hwf₂.canonTree_record ht⟩

/-! ## Names of typedefs -/

theorem SoleName.interned {d : DeclId} {name : String} (h : m.SoleName d name)
    (hmore : m.Interned m₁) : m₁.SoleName d name where
  listed := by
    rw [hmore.sameDecls.membersNamed_eq]
    exact h.listed
  only c hc hname := by
    rw [hmore.sameDecls.decl_eq] at hname
    refine h.only c ?_ hname
    unfold HasDecl at hc ⊢
    rwa [← hmore.decls]

/-- The sole name of a typedef denotes what the typedef stands for, and operators may follow it. -/
theorem SoleName.fronts {d : DeclId} {name : String} (h : m.SoleName d name) (hwf : m.WellFormed)
    (hname : Spelling.Identifier name) (hfree : ¬Spelling.Reserved name) {u : TypeId}
    (hu : (m.decl d).underlying? = some u) (hcontext : m.HasDecl context) :
    m.Fronts context name (m.canonTree u) where
  reads := by
    have hread := (hname.plain hfree).readsFront
    rw [Spelling.text_word] at hread
    exact ⟨_, _, _, hread⟩
  denotes := by
    refine ⟨parseType_interns name context, fun m₁ hwf₁ hmore => ?_⟩
    have hu₁ : (m₁.decl d).underlying? = some u := by rw [hmore.sameDecls.decl_eq, hu]
    have hkeeps := (h.interned hmore).parseType_keeps hwf₁ hname hfree hu₁
      (hmore.growsTo.hasDecl hcontext)
    rwa [hwf.canonTree_grows hwf₁ hmore.growsTo (hwf.underlying_hasType hu)] at hkeeps

end Model

end CppReflect
