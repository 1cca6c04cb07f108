import CppReflect.Proofs.Model.Readings
import CppReflect.Proofs.ScopePaths
import CppReflect.Proofs.Spelling.Paths
import CppReflect.Query.Type

/-!
# Types by their names

A type is asked for by a name in two ways. The one looks the name up as it is written, the other one
reads it as a spelling and looks up what the reader writes back. A path means the same both ways
however it is spaced, since template arguments are compared up to blanks, and what is put into the
table is the same type.
-/

namespace CppReflect

open Spelling (Identifier Reserved WrittenSegment ReadAs pathChars pathName textTokens ReadsFront)

/-! ## Segments taken apart -/

namespace Spelling

/-- What has no blank, no bracket and no colon in it begins a word with something behind it only
where it begins the word. -/
theorem isPrefixOf_word {start : List Char} (hstart : ∀ c ∈ start, Name.isPlain c = true)
    (cs : List Char) {rest : List Char} (hrest : PartsFromWord rest) :
    start.isPrefixOf (cs ++ rest) = start.isPrefixOf cs := by
  induction start generalizing cs with
  | nil => simp
  | cons s start ih =>
      obtain ⟨hs, hstart⟩ := List.forall_mem_cons.mp hstart
      cases cs with
      | cons c cs => simp [List.isPrefixOf, ih hstart]
      | nil =>
          cases rest with
          | nil => rfl
          | cons f rest =>
              have hne : (s == f) = false := by
                apply beq_false_of_ne
                rintro rfl
                rcases hrest s rfl with hspace | rfl | rfl
                · simp [Name.isPlain, hspace] at hs
                · exact absurd hs (by decide)
                · exact absurd hs (by decide)
              simp [List.isPrefixOf, hne]

namespace WrittenSegment

variable (s : WrittenSegment)

/-- The word begins as those of operators do, which are looked up as they stand. -/
def IsOperator : Prop := Text.startsWith "operator" s.word = true

theorem startsWith_operator :
    Text.startsWith "operator" s.text = Text.startsWith "operator" s.word := by
  have hargs := s.partsFromWord_argsPart partsFromWord_nil
  rw [List.append_nil] at hargs
  have htext : s.text.toList = s.word.toList ++ s.argsPart := String.toList_ofList
  rw [Text.startsWith, Text.startsWith, htext]
  exact isPrefixOf_word (List.all_eq_true.mp (by decide)) _ hargs

theorem templateId_none (hargs : s.args = none) : Name.templateId s.text = (s.word, none) := by
  have htext : s.text = s.word := by
    rw [text, bare, argsPart, hargs, Option.elim_none, List.append_nil, String.ofList_toList]
  rw [htext]
  exact s.isWord.templateId

theorem templateId_args {cs : List Char} (hargs : s.args = some cs) (hword : ¬s.IsOperator) :
    Name.templateId s.text = (s.word, some (String.ofList (Text.trim cs))) := by
  have hopen : ∀ c ∈ s.word.toList ++ s.gap, (c == '<') = false := by
    intro c hc
    apply beq_false_of_ne
    rintro rfl
    rcases List.mem_append.mp hc with hc | hc
    · exact absurd (List.all_eq_true.mp s.isWord.isPlain _ hc) (by decide)
    · exact absurd (s.blankGap _ hc) (by decide)
  have hbare : s.bare = (s.word.toList ++ s.gap) ++ '<' :: (cs ++ ['>']) := by
    rw [bare, argsPart, hargs, Option.elim_some, List.append_assoc]
  have hcut := Name.cutAt_append hopen (beq_self_eq_true '<') (cs ++ ['>'])
  have hlast := Name.cutAtLast_append (p := (· == '>')) (beq_self_eq_true '>') cs
  have hname : Text.trim (s.word.toList ++ s.gap) = s.word.toList := by
    rw [Text.trim_append_blank s.blankGap]
    exact s.isWord.isSegment.bare.trim_eq
  have hstart : Text.startsWith "operator" s.text = false :=
    s.startsWith_operator.trans (Bool.eq_false_of_not_eq_true hword)
  unfold Name.templateId
  simp only [hstart, Bool.false_eq_true, if_false]
  rw [text, String.toList_ofList, hbare, hcut]
  simp only [hlast, hname, String.ofList_toList]

/-- The segment is written as the reader writes it back. -/
def AsRead : Prop := nameSegment (Token.scan s.bare) = .ok (s.text, [])

theorem ReadAs.text_eq {s t : WrittenSegment} (h : s.ReadAs t) (hs : s.AsRead) :
    s.text = t.text := by
  have hread := h.reads [] rfl
  rw [List.append_nil] at hread
  rw [AsRead, s.scan_bare, hread] at hs
  exact (Prod.mk.inj (Except.ok.inj hs)).1.symm

/-- Template arguments behind a word that begins with `operator` are spaced as the reader does. -/
def Regular : Prop := s.IsOperator → s.args ≠ none → s.AsRead

variable {s}

theorem Regular.of_word (h : ¬s.IsOperator) : s.Regular := fun hword => absurd hword h

end WrittenSegment

theorem ReadAs.noBlanks {p q : List WrittenSegment} (h : ReadAs p q) :
    ∀ t ∈ q, t.chars = t.bare := by
  induction h with
  | nil => exact fun t ht => absurd ht List.not_mem_nil
  | cons hs _ ih => exact List.forall_mem_cons.mpr ⟨hs.noBlanks, ih⟩

end Spelling

/-! ## Paths looked up -/

namespace Model

variable {m : Model} {p q : List WrittenSegment}

/-- A segment means what the segment means that it is read as. -/
theorem lookupSegment_readAs {s t : WrittenSegment} (h : s.ReadAs t) (hs : s.Regular)
    (scope : DeclId) : m.lookupSegment scope s.text = m.lookupSegment scope t.text := by
  cases hargs : s.args with
  | none =>
      have hargs' : t.args = none := by
        have hmap := h.args
        rw [hargs] at hmap
        exact Option.map_eq_none_iff.mp hmap
      rw [lookupSegment, lookupSegment, s.templateId_none hargs, t.templateId_none hargs', h.word]
  | some cs =>
      by_cases hword : s.IsOperator
      · rw [h.text_eq (hs hword (by rw [hargs]; exact Option.some_ne_none cs))]
      · obtain ⟨ds, hargs', hsquash⟩ :
            ∃ ds, t.args = some ds ∧ Text.squash ds = Text.squash cs := by
          have hmap := h.args
          rw [hargs] at hmap
          exact Option.map_eq_some_iff.mp hmap
        have hword' : ¬t.IsOperator := by
          rw [WrittenSegment.IsOperator, h.word]
          exact hword
        have hsame : Text.squashed (String.ofList (Text.trim cs)) =
            Text.squashed (String.ofList (Text.trim ds)) := by
          rw [Text.squashed, Text.squashed, String.toList_ofList, String.toList_ofList,
            Name.squash_trim, Name.squash_trim, hsquash]
        rw [lookupSegment, lookupSegment, s.templateId_args hargs hword,
          t.templateId_args hargs' hword', h.word]
        simp only [hsame]

theorem lookupSegments_readAs (h : ReadAs p q) (hp : ∀ s ∈ p, s.Regular) (scope : DeclId) :
    m.lookupSegments scope (p.map WrittenSegment.text) =
      m.lookupSegments scope (q.map WrittenSegment.text) := by
  induction h generalizing scope with
  | nil => rfl
  | @cons s t p q hs hrest ih =>
      obtain ⟨hregular, hp⟩ := List.forall_mem_cons.mp hp
      have hsegment := lookupSegment_readAs hs hregular (m := m) scope
      cases hrest with
      | nil => exact hsegment
      | cons hs' hrest =>
          simp only [List.map_cons, lookupSegments] at ih ⊢
          rw [hsegment]
          cases m.lookupSegment scope _ with
          | found d => exact ih hp (m.scopeTarget d)
          | notFound | ambiguous => rfl

/-- In the translation unit a path is looked up segment by segment. -/
theorem lookupNamed_path {name : String} (hne : p ≠ []) (hname : name.toList = pathChars p) :
    m.lookupNamed name root = m.lookupSegments root (p.map WrittenSegment.text) := by
  have hsegments : Name.segments (Text.trim name.toList) = p.map WrittenSegment.bare := by
    rw [Name.segments_trim, hname, Spelling.segments_pathChars hne]
  have hmark : Text.afterStart? [':', ':'] (Text.trim name.toList) = none := by
    apply Option.eq_none_iff_forall_ne_some.mpr
    intro rest hrest
    rw [Text.afterStart?_eq_some_iff.mp hrest] at hsegments
    cases p with
    | nil => exact hne rfl
    | cons s p =>
        -- what is read in front of a `::` has no text, but a segment has its word
        obtain ⟨c, cs, hbare, -⟩ := s.bare_bare.first
        have hfirst : [] = s.bare := (List.cons.inj hsegments).1
        rw [hbare] at hfirst
        cases hfirst
  rw [lookupNamed_root, Query.pathSegments]
  simp only [hmark, Option.getD_none, hsegments, List.map_map]
  rfl

theorem text_pathName (hne : q ≠ []) (h : ∀ t ∈ q, t.chars = t.bare) :
    (pathName q).text.toList = pathChars q := by
  have hjoined : (Text.joined "::" (q.map WrittenSegment.text)).toList = pathChars q := by
    fun_induction pathChars q with
    | case1 => exact absurd rfl hne
    | case2 t => rw [h t List.mem_cons_self]; exact String.toList_ofList
    | case3 s t rest ih =>
        obtain ⟨hs, hrest⟩ := List.forall_mem_cons.mp h
        rw [List.map_cons, Text.joined_cons (by simp), String.toList_append,
          String.toList_append, ih (List.cons_ne_nil t rest) hrest, hs, WrittenSegment.text,
          String.toList_ofList, List.append_assoc]
        rfl
  rw [QualifiedName.text, pathName]
  simpa using hjoined

/-- A path means the same as it is written and as it is read. -/
theorem lookupNamed_readAs {name : String} (hne : p ≠ []) (hname : name.toList = pathChars p)
    (h : ReadAs p q) (hp : ∀ s ∈ p, s.Regular) :
    m.lookupNamed name root = m.lookupNamed (pathName q).text root := by
  have hneq : q ≠ [] := by
    rintro rfl
    cases h
    exact hne rfl
  rw [lookupNamed_path hne hname, lookupSegments_readAs h hp,
    lookupNamed_path hneq (text_pathName hneq h.noBlanks)]

end Model

/-! ## Builtin types read -/

namespace Spelling

/-- The text is of words that make up builtin types, in whatever order, and they name one: there are
such words, and `void` is not among them together with `_Complex`. -/
structure BuiltinName (name : String) (words : List String) : Prop where
  tokens : textTokens name = words.map Token.word
  builtin : ∀ w ∈ words, w ∈ builtinWords
  nonempty : words ≠ []
  notComplexVoid : ¬("void" ∈ words ∧ "_Complex" ∈ words)

theorem Specifiers.turn_builtin {s : Specifiers} (hs : s.name = none) {w : String}
    (hw : w ∈ builtinWords) : s.turn (.word w) = .goOn { s with words := s.words ++ [w] } := by
  have hother : ∀ w ∈ builtinWords,
      Quals.ofWord? w = none ∧ w ∉ elaboratedWords := by decide
  obtain ⟨hqual, helaborated⟩ := hother w hw
  simp [turn, hqual, helaborated, hs, hw]

theorem specifiersFrom_builtin {words : List String} (hwords : ∀ w ∈ words, w ∈ builtinWords)
    {s : Specifiers} (hs : s.name = none) :
    specifiersFrom words.length s (words.map Token.word) =
      .ok ({ s with words := s.words ++ words }, []) := by
  induction words generalizing s with
  | nil => simp [specifiersFrom]
  | cons w words ih =>
      obtain ⟨hw, hwords⟩ := List.forall_mem_cons.mp hwords
      rw [List.map_cons, List.length_cons, specifiersFrom_cons, Specifiers.turn_builtin hs hw]
      have hrest := ih hwords (s := { s with words := s.words ++ [w] }) hs
      simpa using hrest

namespace BuiltinName

variable {name : String} {words : List String}

theorem exists_base (h : BuiltinName name words) : ∃ base, Base.ofWords? words = some base := by
  rw [← Option.ne_none_iff_exists']
  intro hnone
  have hskip {c : Prop} [Decidable c] {base : Base} {x : Option Base}
      (hx : (if c then some base else x) = none) : ¬c ∧ x = none := by
    by_cases hc : c
    · rw [if_pos hc] at hx
      cases hx
    · exact ⟨hc, by rwa [if_neg hc] at hx⟩
  unfold Base.ofWords? at hnone
  simp only [List.contains_iff_mem, Bool.or_eq_true, gt_iff_lt] at hnone
  by_cases hvoid : "void" ∈ words
  · have hcomplex : "_Complex" ∉ words := fun hcomplex => h.notComplexVoid ⟨hvoid, hcomplex⟩
    rw [if_pos hvoid, if_neg hcomplex] at hnone
    cases hnone
  -- where no word is said to make a base, none of the words is there
  rw [if_neg hvoid] at hnone
  obtain ⟨hbool, hnone⟩ := hskip hnone
  obtain ⟨hfloat, hnone⟩ := hskip hnone
  obtain ⟨hdouble, hnone⟩ := hskip hnone
  obtain ⟨hwchar, hnone⟩ := hskip hnone
  obtain ⟨hchar8, hnone⟩ := hskip hnone
  obtain ⟨hchar16, hnone⟩ := hskip hnone
  obtain ⟨hchar32, hnone⟩ := hskip hnone
  obtain ⟨hchar, hnone⟩ := hskip hnone
  obtain ⟨hint128, hnone⟩ := hskip hnone
  obtain ⟨hshort, hnone⟩ := hskip hnone
  obtain ⟨hlongs, hnone⟩ := hskip hnone
  obtain ⟨hlong, hnone⟩ := hskip hnone
  obtain ⟨hint, hnone⟩ := hskip hnone
  obtain ⟨hcomplex, -⟩ := hskip hnone
  have hcount : "long" ∉ words := by
    intro hmem
    have hpos := List.count_pos_iff.mpr hmem
    omega
  have hall : ∀ w ∈ builtinWords, w ∉ words := by
    simp only [not_or] at hbool hint
    simp [builtinWords, hbool, hint, hfloat, hdouble, hvoid, hwchar, hchar8, hchar16, hchar32,
      hchar, hint128, hshort, hcount, hcomplex]
  obtain ⟨w, hw⟩ := List.exists_mem_of_ne_nil words h.nonempty
  exact hall w (h.builtin w hw) hw

theorem readsFront (h : BuiltinName name words) {base : Base}
    (hbase : Base.ofWords? words = some base) : ReadsFront name base .none [] := by
  have hread := specifiersFrom_builtin h.builtin (s := {}) rfl
  refine ⟨[], ?_, rfl⟩
  rw [h.tokens, declSpecifiers, List.length_map, hread]
  simp only [ok_bind, List.nil_append, hbase]

theorem readBuiltin?_eq (h : BuiltinName name words) :
    readBuiltin? name = Base.ofWords? words := by
  have hall : words.filterMap (fun w => if builtinWords.contains w = true then some w else none) =
      words := by
    apply (List.filterMap_congr _).trans List.filterMap_some
    intro w hw
    exact if_pos (List.contains_iff_mem.mpr (h.builtin w hw))
  have hne : (words.map Token.word).isEmpty = false := by simpa using h.nonempty
  have htokens : Token.scan name.toList = words.map Token.word := h.tokens
  rw [readBuiltin?]
  simp only [htokens, List.filterMap_map, Function.comp_def, hall, hne, List.length_map]
  exact if_neg (by simp)

end BuiltinName

/-- A path names no builtin type if its first word has no other meaning. -/
theorem readBuiltin?_path {name : String} {s : WrittenSegment} {p : List WrittenSegment}
    (hname : name.toList = pathChars (s :: p)) (hfree : ¬Reserved s.word) :
    readBuiltin? name = none := by
  obtain ⟨rest, htokens⟩ := nextIs_pathTokens (s := s) (p := p)
  have hword : s.word ∉ builtinWords := fun hw =>
    hfree (.inr (.inr (List.contains_iff_mem.mpr hw)))
  rw [readBuiltin?, hname, scan_pathChars, htokens]
  simp only [List.filterMap_cons, List.contains_iff_mem, hword, if_false]
  apply if_pos
  simp only [List.isEmpty_cons, Bool.false_or, decide_eq_true_eq, List.length_cons]
  exact (Nat.lt_succ_of_le (List.length_filterMap_le _ rest)).ne

end Spelling

/-! ## The same type both ways -/

namespace Model

variable {m m₁ : Model} {name : String} {n : QualifiedName} {context : DeclId}

theorem WellFormed.run_intern_of_get? (h : m.WellFormed) {node : TypeNode} {t : TypeId}
    (ht : m.types.get? t = some node) : (intern node).run m = (t, m) := by
  change ((m.types.intern node).1, { m with types := (m.types.intern node).2 }) = (t, m)
  rw [TypeTable.intern_of_get? h.nodup ht]

theorem WellFormed.run_withQuals_none (h : m.WellFormed) {k : TypeKind} {t : TypeId}
    (ht : m.types.get? t = some ⟨k, .none⟩) : (withQuals t .none).run m = (t, m) := by
  change (intern ⟨(m.node t).kind, (m.node t).quals ∪ .none⟩).run m = (t, m)
  rw [node_of_get? ht, Quals.none_union]
  exact h.run_intern_of_get? ht

/-- A type is at its place without qualifiers, and the computation that put it there finds it there
and changes nothing. -/
def PutBy (x : ModelM TypeId) (t : TypeId) (m : Model) : Prop :=
  (∃ k, m.types.get? t = some ⟨k, .none⟩) ∧ x.run m = (t, m)

theorem internKind_putBy (h : m.WellFormed) {k : TypeKind} (hparts : ∀ p ∈ k.parts, m.HasType p)
    (hdecl : ∀ d ∈ k.decl?, m.HasDecl d) : m.Keeps (internKind k) (PutBy (internKind k)) :=
  (internKind_keeps h hparts hdecl).weaken fun _ _ hwf _ ht => ⟨⟨k, ht⟩, hwf.run_intern_of_get? ht⟩

/-! ### Names -/

/-- The kind of the type that a name means. -/
def kindNamed (m : Model) (n : QualifiedName) (context : DeclId) : TypeKind :=
  match m.resolveTypeName? n.text (if n.global then root else context) with
  | some d =>
    match (m.decl d).kind with
    | .record _ => .record d
    | .enum _ => .enum d
    | _ => .typedef d
  | none =>
    if n.text = "std::nullptr_t" ∨ n.text = "nullptr_t" then .builtin .nullPtr else .named n.text

theorem run_resolveName (m : Model) (n : QualifiedName) (context : DeclId) :
    (resolveName n context).run m = (internKind (m.kindNamed n context)).run m := by
  rw [resolveName, run_get_bind, kindNamed]
  cases m.resolveTypeName? n.text (if n.global then root else context) with
  | some d =>
      dsimp only
      cases (m.decl d).kind <;> rfl
  | none =>
      dsimp only
      split <;> rfl

theorem kindNamed_parts : (m.kindNamed n context).parts = [] := by
  unfold kindNamed
  split
  · split <;> rfl
  · split <;> rfl

theorem hasDecl_of_kindNamed {d : DeclId} (hd : d ∈ (m.kindNamed n context).decl?) :
    m.HasDecl d := by
  unfold kindNamed at hd
  split at hd
  next d' hfound =>
    have hex := hasDecl_of_isTypeDecl (isTypeDecl_of_resolveTypeName? hfound)
    split at hd <;> exact Option.some.inj hd ▸ hex
  next => split at hd <;> exact absurd hd (Option.not_mem_none d)

theorem Interned.kindNamed_eq (h : m.Interned m₁) (hwf : m.WellFormed) (hwf₁ : m₁.WellFormed) :
    m₁.kindNamed n context = m.kindNamed n context := by
  have hdecl : m₁.decl = m.decl := funext h.sameDecls.decl_eq
  rw [kindNamed, h.resolveTypeName?_eq hwf hwf₁, hdecl, kindNamed]

theorem resolveName_putBy (h : m.WellFormed) (n : QualifiedName) (context : DeclId) :
    m.Keeps (resolveName n context) (PutBy (resolveName n context)) := by
  have hput := internKind_putBy h (k := m.kindNamed n context) (by simp [kindNamed_parts])
    fun _ hd => hasDecl_of_kindNamed hd
  refine ((hput.interned (intern_interns _)).of_run (run_resolveName m n context)).weaken
    fun t m₁ hwf₁ _ ht => ⟨ht.1.1, ?_⟩
  rw [run_resolveName, ht.2.kindNamed_eq h hwf₁]
  exact ht.1.2

/-! ### Bases -/

theorem resolveBase_putBy (h : m.WellFormed) (base : Spelling.Base) (context : DeclId) :
    m.Keeps (resolveBase base context) (PutBy (resolveBase base context)) := by
  cases base with
  | void | builtin b =>
      exact internKind_putBy h (by simp [TypeKind.parts]) (by simp [TypeKind.decl?])
  | complex b =>
      apply (internKind_keeps h (k := .builtin b) (by simp [TypeKind.parts])
        (by simp [TypeKind.decl?])).bind
      intro t m₁ hwf₁ _ ht
      refine (internKind_keeps hwf₁ (k := .complex t)
        (by simpa [TypeKind.parts] using hasType_of_get? ht) (by simp [TypeKind.decl?])).weaken
        fun u m₂ hwf₂ hgrow hu => ⟨⟨_, hu⟩, ?_⟩
      have hpart : (builtin b).run m₂ = (t, m₂) :=
        hwf₂.run_intern_of_get? (hgrow.types _ _ ht)
      change (internKind (.complex ((builtin b).run m₂).1)).run ((builtin b).run m₂).2 = (u, m₂)
      rw [hpart]
      exact hwf₂.run_intern_of_get? hu
  | name n => exact resolveName_putBy h n context

/-- A text that is read as nothing but a base means what the base means. -/
theorem run_parseType_base (h : m.WellFormed) {base : Spelling.Base}
    (hread : ReadsFront name base .none []) (context : DeclId) :
    (parseType name context).run m = (resolveBase base context).run m := by
  have hput := resolveBase_putBy h base context
  obtain ⟨k, hk⟩ := hput.answer.1
  rw [parseType, hread.read]
  dsimp only
  rw [resolve_base, StateT.run_bind]
  exact hput.wellFormed.run_withQuals_none hk

/-! ### Asked for by the name -/

theorem run_typeNamed_builtin {base : Spelling.Base} (h : Spelling.readBuiltin? name = some base)
    (hbase : ∀ n, base ≠ .name n) (m : Model) :
    (Query.typeNamed name).run m = (TypeId.handle <$> resolveBase base root).run m := by
  rw [Query.typeNamed, h]
  cases base with
  | void | builtin | complex => rfl
  | name n => exact absurd rfl (hbase n)

/-- A name that finds a declaration of a type means it. -/
theorem resolveTypeName?_of_lookupNamed {text : String} {d : DeclId}
    (hd : (m.lookupNamed text context).found? = some d) (htype : m.isTypeDecl d = true) :
    m.resolveTypeName? text context = some d := by
  have hlookup : m.lookupNamed text context = .found d := by
    cases hlookup : m.lookupNamed text context with
    | found d' => rw [hlookup] at hd; rw [Option.some.inj hd]
    | notFound | ambiguous => rw [hlookup] at hd; cases hd
  simp [resolveTypeName?, hlookup, htype]

theorem run_typeOfDecl?_of_isTypeDecl {d : DeclId} (htype : m.isTypeDecl d = true)
    (hd : m.resolveTypeName? n.text (if n.global then root else context) = some d) :
    (typeOfDecl? d).run m = (some <$> internKind (m.kindNamed n context)).run m := by
  rw [kindNamed, hd]
  unfold isTypeDecl at htype
  simp only [typeOfDecl?, StateT.run_bind, StateT.run_get, pure_bind]
  cases hkind : (m.decl d).kind <;> simp_all

/-- A name that names no builtin type is looked up as it is written. -/
theorem typeNamed_of_none (hnone : Spelling.readBuiltin? name = none) :
    Query.typeNamed name = get >>= fun m =>
      match (m.lookupNamed name root).found?.filter m.isTypeDecl with
      | some d => typeHandleOf <$> typeOfDecl? d
      | none => pure 0 := by
  rw [Query.typeNamed, hnone]
  apply bind_congr
  intro m
  cases (m.lookupNamed name root).found?.filter m.isTypeDecl <;> rfl

theorem run_typeNamed_name (hnone : Spelling.readBuiltin? name = none)
    (hlookup : m.lookupNamed name root = m.lookupNamed n.text root)
    (hfound : ((Query.typeNamed name).run m).1 ≠ 0) :
    (Query.typeNamed name).run m = (TypeId.handle <$> resolveBase (.name n) root).run m := by
  rw [typeNamed_of_none hnone, run_get_bind] at hfound ⊢
  cases hdecl : (m.lookupNamed name root).found?.filter m.isTypeDecl with
  | none =>
      rw [hdecl] at hfound
      exact absurd rfl hfound
  | some d =>
      obtain ⟨hd, htype⟩ := Option.filter_eq_some_iff.mp hdecl
      rw [hlookup] at hd
      have hmeans : m.resolveTypeName? n.text (if n.global then root else root) = some d := by
        rw [ite_self]
        exact resolveTypeName?_of_lookupNamed hd htype
      dsimp only
      rw [resolveBase, StateT.run_map, run_typeOfDecl?_of_isTypeDecl htype hmeans, StateT.run_map,
        StateT.run_map, run_resolveName]
      rfl

/-- Texts that can name a type: the words of a builtin type, and paths that begin with a word that
means nothing else. -/
inductive TypeName (name : String) : Prop where
  | builtin (words : List String) (h : Spelling.BuiltinName name words)
  | path (s : WrittenSegment) (p : List WrittenSegment) (chars : name.toList = pathChars (s :: p))
    (free : ¬Reserved s.word) (regular : ∀ t ∈ s :: p, t.Regular)

/-- Asking for the type of the name answers the type that is read from it and leaves the same
types, and what is read behind that is the same type again. -/
structure AgreesOn (m : Model) (name : String) : Prop where
  alike : (Query.typeNamed name).run m = (TypeId.handle <$> parseType name root).run m
  again : (parseType name root).run ((Query.typeNamed name).run m).2 = (parseType name root).run m

/-- Where a text is read as a base, and asking for it answers what the base means, the type is the
same. -/
theorem WellFormed.agreesOn (h : m.WellFormed) {base : Spelling.Base}
    (hread : ReadsFront name base .none [])
    (hnamed : (Query.typeNamed name).run m = (TypeId.handle <$> resolveBase base root).run m) :
    m.AgreesOn name := by
  have hparse := run_parseType_base h hread root
  have hput := resolveBase_putBy h base root
  have halike : (Query.typeNamed name).run m = (TypeId.handle <$> parseType name root).run m := by
    rw [hnamed, StateT.run_map, StateT.run_map, hparse]
  refine ⟨halike, ?_⟩
  have hmodel : ((Query.typeNamed name).run m).2 = ((resolveBase base root).run m).2 := by
    rw [hnamed]
    rfl
  rw [hmodel, run_parseType_base hput.wellFormed hread, hput.answer.2, hparse, Prod.eta]

/-- In every reachable model a name that names a type, however it is spaced, is read as a spelling
of the same type, if what stands in brackets behind a word that begins as the names of operators do
is spaced as the reader does. -/
theorem Reachable.typeNamed_agrees (h : m.Reachable) (hname : TypeName name)
    (hfound : ((Query.typeNamed name).run m).1 ≠ 0) : m.AgreesOn name := by
  cases hname with
  | builtin words hbuiltin =>
      obtain ⟨base, hbase⟩ := hbuiltin.exists_base
      have hread := hbuiltin.readBuiltin?_eq.trans hbase
      have hsound : base.Sound fun _ => False := Spelling.Base.sound_ofWords? hbase
      apply h.wellFormed.agreesOn (hbuiltin.readsFront hbase)
      apply run_typeNamed_builtin hread
      rintro n rfl
      exact hsound
  | path s p hchars hfree hregular =>
      obtain ⟨q, hq⟩ := Spelling.exists_readAs (s :: p)
      have hlookup := lookupNamed_readAs (m := m) (List.cons_ne_nil s p) hchars hq hregular
      apply h.wellFormed.agreesOn (Spelling.readsFront_path hchars hfree hq)
      exact run_typeNamed_name (Spelling.readBuiltin?_path hchars hfree) hlookup hfound

/-- A class in a specialization in a namespace, asked for by a path with blanks that the reader does
not write, and a builtin type by words out of order. -/
theorem typeNamed_agrees_specialization :
    let int := ((Request.intern ⟨.builtin .int, .none⟩).perform.run empty).2
    let space := ((Request.declareNamespace root "N").perform.run int).2
    let template := ((Request.declareClassTemplate ⟨1⟩ "V" ["T"]).perform.run space).2
    let klass := ((Request.declareSpecialization ⟨2⟩ [.ofType ⟨0⟩]).perform.run template).2
    let m := ((Request.declareRecord ⟨4⟩ "S" .struct true).perform.run klass).2
    ((Query.typeNamed " N::V < int>:: S").run m).1 = 2 ∧ m.AgreesOn " N::V < int>:: S" ∧
      m.AgreesOn "int long  unsigned" := by
  intro int space template klass m
  have hint : int.Reachable :=
    .step .empty _ ⟨by simp [TypeKind.parts], by simp [TypeKind.decl?]⟩
  have hspace : space.Reachable := .step hint (.declareNamespace root "N")
    (by change int.HasDecl root; decide)
  have htemplate : template.Reachable := .step hspace (.declareClassTemplate ⟨1⟩ "V" ["T"])
    (by change space.HasDecl ⟨1⟩; decide +kernel)
  have hklass : klass.Reachable := .step htemplate (.declareSpecialization ⟨2⟩ [.ofType ⟨0⟩])
    ⟨by decide +kernel, by decide +kernel⟩
  have hm : m.Reachable := .step hklass (.declareRecord ⟨4⟩ "S" .struct true)
    (by change klass.HasDecl ⟨4⟩; decide +kernel)
  have hblank : Text.IsBlank [' '] := fun c hc => List.mem_singleton.mp hc ▸ rfl
  have hnone : Text.IsBlank [] := fun c hc => absurd hc List.not_mem_nil
  have hnothing : ∀ cs ∈ (none : Option (List Char)), Name.Balanced cs :=
    fun _ h => absurd h (Option.not_mem_none _)
  have hwordN : Identifier "N" := ⟨'N', [], rfl, by decide, List.all_eq_true.mp rfl⟩
  have hwordV : Identifier "V" := ⟨'V', [], rfl, by decide, List.all_eq_true.mp rfl⟩
  have hwordS : Identifier "S" := ⟨'S', [], rfl, by decide, List.all_eq_true.mp rfl⟩
  let N : WrittenSegment := ⟨"N", none, [' '], [], [], hwordN, hnothing, hblank, hnone, hnone⟩
  let V : WrittenSegment := ⟨"V", some [' ', 'i', 'n', 't'], [], [' '], [], hwordV,
    fun _ h => Option.some.inj h ▸ by decide, hnone, hblank, hnone⟩
  let S : WrittenSegment := ⟨"S", none, [' '], [], [], hwordS, hnothing, hblank, hnone, hnone⟩
  have hregular : ∀ s ∈ [N, V, S], s.Regular := by
    simp only [List.forall_mem_cons]
    refine ⟨.of_word ?_, .of_word ?_, .of_word ?_, by simp⟩
    · change ¬Text.startsWith "operator" "N" = true
      decide
    · change ¬Text.startsWith "operator" "V" = true
      decide
    · change ¬Text.startsWith "operator" "S" = true
      decide
  refine ⟨by decide +kernel, hm.typeNamed_agrees ?_ (by decide +kernel),
    hm.typeNamed_agrees ?_ (by decide +kernel)⟩
  · have hchars : " N::V < int>:: S".toList = pathChars [N, V, S] := by
      simp [pathChars, WrittenSegment.chars, WrittenSegment.bare, WrittenSegment.argsPart, N, V, S]
    exact .path N [V, S] hchars (by change ¬Reserved "N"; decide) hregular
  · exact .builtin ["int", "long", "unsigned"]
      ⟨by decide +kernel, by decide, by decide, by decide⟩

/-- Classes that are named by words of builtin types that name none, and by a word that begins with
`operator` and template arguments with blanks that the reader does not write. -/
theorem typeNamed_disagrees :
    let first := ((Request.declareRecord root "void _Complex" .struct true).perform.run empty).2
    let m := ((Request.declareRecord root "operatorX< int >" .struct true).perform.run first).2
    let read (name : String) := (parseType name root).run ((Query.typeNamed name).run m).2
    m.Reachable ∧
    (textTokens "void _Complex" = ["void", "_Complex"].map .word ∧
      (∀ w ∈ ["void", "_Complex"], w ∈ Spelling.builtinWords) ∧
      ((Query.typeNamed "void _Complex").run m).1 = 1 ∧
      (read "void _Complex").1.handle = 2) ∧
    (∃ s : WrittenSegment, "operatorX< int >".toList = pathChars [s] ∧ ¬Reserved s.word ∧
      ((Query.typeNamed "operatorX< int >").run m).1 = 1 ∧
      (read "operatorX< int >").1.handle = 2) := by
  intro first m read
  have hfirst : first.Reachable := .step .empty (.declareRecord root _ .struct true)
    (by change empty.HasDecl root; decide)
  have hm : m.Reachable := .step hfirst (.declareRecord root _ .struct true)
    hfirst.wellFormed.translationUnit.1
  have hnone : Text.IsBlank [] := fun c hc => absurd hc List.not_mem_nil
  have hword : Identifier "operatorX" :=
    ⟨'o', _, rfl, by decide, List.all_eq_true.mp (by decide)⟩
  let s : WrittenSegment := ⟨"operatorX", some [' ', 'i', 'n', 't', ' '], [], [], [], hword,
    fun _ h => Option.some.inj h ▸ by decide, hnone, hnone, hnone⟩
  have hchars : "operatorX< int >".toList = pathChars [s] := by
    simp [pathChars, WrittenSegment.chars, WrittenSegment.bare, WrittenSegment.argsPart, s]
  refine ⟨hm, ⟨by decide +kernel, by decide, by decide +kernel, by decide +kernel⟩, s, hchars,
    by change ¬Reserved "operatorX"; decide, by decide +kernel, by decide +kernel⟩

end Model

end CppReflect
