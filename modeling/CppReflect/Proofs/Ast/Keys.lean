import CppReflect.Proofs.Ast.Sparing

/-!
# The keys of declarations

A key says in which scope and of what sort the declaration under it is. No dump puts a declaration
of another sort under a key, or a declaration under two keys, so a later node of the declaration
finds what an earlier one has declared.
-/

namespace CppReflect

/-- The words that the keys of such declarations begin with. -/
def DeclKind.keyWords : DeclKind → List String
  | .translationUnit => []
  | .namespaceDecl _ => ["ns:"]
  | .record _ => ["rec:", "pattern", "spec:<"]
  | .enum _ => ["enum:"]
  | .enumConstant .. => ["const:"]
  | .variableDecl _ => ["field:", "var:"]
  | .function _ => ["fn:", "pattern", "spec:<"]
  | .typedef _ => ["typedef:"]
  | .classTemplate _ => ["tmpl:"]
  | .functionTemplate _ => ["ftmpl:"]

theorem DeclKind.Continues.keyWords {k k' : DeclKind} (h : k.Continues k') :
    k'.keyWords = k.keyWords := by
  cases k <;> cases k' <;> first | rfl | exact absurd h id

namespace Ast

open Model (Interns)

/-! ## What keys say -/

/-- The key is one of such a declaration. -/
def Fits (key : String) (k : DeclKind) : Prop :=
  ∃ scope word rest, word ∈ k.keyWords ∧ key = keyIn scope (word ++ rest)

/-- One of the words begins with the other. -/
def meet (word word' : String) : Bool :=
  word.toList.isPrefixOf word'.toList || word'.toList.isPrefixOf word.toList

/-- A key begins with one word of a declaration only. -/
theorem Fits.meet {scope : DeclId} {word rest : String} {k : DeclKind}
    (h : Fits (keyIn scope (word ++ rest)) k) : k.keyWords.any (Ast.meet word) = true := by
  obtain ⟨scope', word', rest', hword, hkey⟩ := h
  refine List.any_eq_true.mpr ⟨word', hword, ?_⟩
  have hwhat := congrArg String.toList (keyIn_inj hkey)
  rw [String.toList_append, String.toList_append] at hwhat
  unfold Ast.meet
  rw [Bool.or_eq_true, List.isPrefixOf_iff_prefix, List.isPrefixOf_iff_prefix]
  exact List.prefix_or_prefix_of_prefix ⟨_, hwhat⟩ (List.prefix_append _ _)

end Ast

namespace Model

/-! ## Models whose keys fit -/

/-- Every key is one of the declaration under it, and no declaration is under two keys. -/
structure WellKeyed (m : Model) : Prop where
  fits : ∀ key d, m.keyed? key = some d → ∃ e, m.decl? d = some e ∧ Ast.Fits key e.kind
  apart : m.KeysApart

namespace WellKeyed

variable {m m' : Model}

theorem empty : WellKeyed .empty := ⟨nofun, nofun⟩

theorem declared (h : m.WellKeyed) : m.KeysDeclared := by
  intro key d hd
  obtain ⟨e, he, -⟩ := h.fits key d hd
  exact hasDecl_iff.mpr ⟨e, he⟩

/-- No key is bound. -/
theorem of_keys (h : m.WellKeyed) (hext : m.Extends m') (hkeys : m'.keys = m.keys) :
    m'.WellKeyed := by
  refine ⟨fun key d hd => ?_, h.apart.of_extendsApart h.declared (.of_keys hext hkeys)⟩
  rw [keyed?, hkeys] at hd
  obtain ⟨e, he, scope, word, rest, hword, hkey⟩ := h.fits key d hd
  obtain ⟨e', he', hcont⟩ := hext.decls d e he
  exact ⟨e', he', scope, word, rest, hcont.kind.keyWords ▸ hword, hkey⟩

/-- A key that fits is bound, if it is free. -/
theorem upsert (h : m.WellKeyed) {key : String} (parent : DeclId) (name : String) (access : Access)
    (detached : Bool) {kind : ModelM DeclKind} (hkind : Interns kind)
    (hfits : Ast.Fits key (kind.run m).1) :
    WellKeyed ((Ast.upsert key parent name access detached kind).run m).2 := by
  have hsparing := Ast.upsert_sparing key parent name access detached hkind m
  refine ⟨fun key' d hd => ?_, h.apart.of_extendsApart h.declared hsparing.toExtendsApart⟩
  cases hbound : m.keyed? key with
  | some c =>
      rw [Ast.upsert_of_keyed hbound] at hd ⊢
      exact h.fits key' d hd
  | none =>
      -- the key that is bound fits by assumption, and the others name what they did
      by_cases hkey : key' = key
      · obtain ⟨hfresh, e, he, hekind, -⟩ :=
          Ast.upsert_fresh hbound parent name access detached hkind
        rw [hkey, Ast.upsert_keyed, hfresh, Option.some.injEq] at hd
        exact ⟨e, hd ▸ he, hkey ▸ hekind ▸ hfits⟩
      · rw [Ast.upsert_keyed?_of_ne hkind m parent name access detached hkey] at hd
        obtain ⟨e, he, hfits'⟩ := h.fits key' d hd
        obtain ⟨e', he', hsame⟩ := Ast.upsert_old hkind key parent name access detached he
        exact ⟨e', he', hsame ▸ hfits'⟩

end WellKeyed

/-- The keys of `m'` fit if those of `m` do. -/
def KeepsKeys (m m' : Model) : Prop := m.WellKeyed → m'.WellKeyed

instance : IsPreorder Model KeepsKeys where
  refl _ h := h
  trans _ _ _ hlm hmn h := hmn (hlm h)

/-- The computation leaves keys that fit, if those before do. -/
def KeyKeeping {α : Type} (x : ModelM α) : Prop := ∀ m : Model, m.KeepsKeys (x.run m).2

namespace KeyKeeping

variable {α β : Type}

/-- No key is bound. -/
theorem of_extending {x : ModelM α} (hx : Extending x) (hkeys : ∀ m, (x.run m).2.keys = m.keys) :
    KeyKeeping x := fun m h => h.of_keys (hx m) (hkeys m)

theorem of_interns {x : ModelM α} (hx : Interns x) : KeyKeeping x :=
  of_extending hx.extending fun m => (hx m).keys

theorem pure (a : α) : KeyKeeping (pure a : ModelM α) := of_interns (Interns.pure a)

theorem bind {x : ModelM α} {f : α → ModelM β} (hx : KeyKeeping x) (hf : ∀ a, KeyKeeping (f a)) :
    KeyKeeping (x >>= f) := fun m h => hf _ _ (hx m h)

theorem ite {c : Prop} [Decidable c] {x y : ModelM α} (hx : KeyKeeping x) (hy : KeyKeeping y) :
    KeyKeeping (if c then x else y) := by
  split
  · exact hx
  · exact hy

end KeyKeeping

theorem modifyDecl_keyKeeping (d : DeclId) {f : Decl → Decl} (hf : ∀ e : Decl, e.Extends (f e)) :
    KeyKeeping (modifyDecl d f) := .of_extending (modifyDecl_extending d hf) fun _ => rfl

theorem modifyTemplate_keyKeeping (d : DeclId) (f : TemplateInfo → TemplateInfo) :
    KeyKeeping (modifyTemplate d f) := .of_extending (modifyTemplate_extending d f) fun _ => rfl

theorem modifyFunction_keyKeeping (d : DeclId) {f : FunctionInfo → FunctionInfo}
    (hf : ∀ info, (f info).special = info.special) : KeyKeeping (modifyFunction d f) :=
  .of_extending (modifyFunction_extending d hf) fun _ => rfl

end Model

namespace Ast

open Model (Interns)

/-! ## The keys of a dump -/

/-- The step leaves keys that fit, if those before do. -/
abbrev KeyKeeping {α : Type} (x : IngestM α) : Prop := Along Model.KeepsKeys x

theorem upsert_keyKeeping {key : String} (parent : DeclId) (name : String) (access : Access)
    (detached : Bool) {kind : ModelM DeclKind} (hkind : Interns kind)
    (hfits : ∀ m : Model, Fits key (kind.run m).1) :
    Model.KeyKeeping (upsert key parent name access detached kind) :=
  fun m h => h.upsert parent name access detached hkind (hfits m)

theorem interns_keyKeeping {α : Type} {x : ModelM α} (hx : Interns x) : KeyKeeping (onModel x) :=
  Along.onModel (Model.KeyKeeping.of_interns hx)

theorem usingDirective_keyKeeping (node : Json) (scope : DeclId) :
    Model.KeyKeeping (usingDirective node scope) := by
  refine (Model.KeyKeeping.of_interns Interns.get).bind fun m => ?_
  dsimp only
  split
  · exact .of_extending (Model.useNamespace_extending scope _) fun _ => rfl
  · exact Model.KeyKeeping.pure _

theorem implicitMember_keyKeeping (record : DeclId) (void : TypeId) (name : String)
    (special : SpecialMember) : Model.KeyKeeping (implicitMember record void name special) := by
  refine (upsert_keyKeeping record name .pub false (Interns.pure _) fun m => ?_).bind fun r =>
    Model.KeyKeeping.ite (Model.modifyDecl_keyKeeping r.1 fun e => .set_implicit e true)
      (Model.KeyKeeping.pure _)
  exact ⟨record, "fn:", name ++ "()", .head _, by rw [String.append_assoc]⟩

theorem declareImplicitMembers_keyKeeping (record : DeclId) (data : Json) :
    Model.KeyKeeping (declareImplicitMembers record data) := by
  rw [declareImplicitMembers_eq]
  refine (Model.KeyKeeping.of_interns Interns.get).bind fun m =>
    (Model.KeyKeeping.of_interns (Model.intern_interns _)).bind fun void => ?_
  exact (Model.KeyKeeping.ite (implicitMember_keyKeeping record void _ _)
    (Model.KeyKeeping.pure _)).bind fun _ =>
      Model.KeyKeeping.ite (implicitMember_keyKeeping record void _ _) (Model.KeyKeeping.pure _)

/-- What is done under the key of a declaration that may be unnamed. -/
theorem key_then_keyKeeping {α : Type} {c : Prop} [Decidable c] (scope : DeclId)
    {sort word : String} (hword : sort ++ ":#" = word ++ "#") (name : String)
    {f : String → IngestM α} (hf : ∀ rest, KeyKeeping (f (keyIn scope (word ++ rest)))) :
    KeyKeeping (if c then unnamedKey scope sort >>= f
      else pure (keyIn scope (word ++ name)) >>= f) := by
  refine Along.ite ((unnamedKey_along scope sort).bind_run fun p key p' hrun => ?_) ?_
  · -- its number stands where a name would stand
    cases hrun
    rw [hword, String.append_assoc]
    exact hf _ _
  · rw [pure_bind]
    exact hf name

theorem specializationKey_fits (m : Model) (template : DeclId) (args : List TemplateArg)
    {k : DeclKind} (hk : "spec:<" ∈ k.keyWords) : Fits (specializationKey m template args) k :=
  ⟨template, "spec:<", m.argsText args ++ ">", hk, by
    rw [specializationKey, String.append_assoc]⟩

theorem patternKey_fits (template : DeclId) {k : DeclKind} (hk : "pattern" ∈ k.keyWords) :
    Fits (keyIn template "pattern") k := ⟨template, "pattern", "", hk, rfl⟩

/-! ### Classes -/

/-- The key of a class that is not listed in its scope. -/
def Detached.Fits (detached : Detached) : Prop := ∀ info, Ast.Fits detached.key (.record info)

theorem recordHead_keyKeeping (node : Json) (parent : DeclId) (access : Access)
    {detached : Option Detached} (hfits : ∀ x ∈ detached, x.Fits) :
    KeyKeeping (recordHead node parent access detached) := by
  have hnote : ∀ (d : DeclId), KeyKeeping (do
      modifyThe Progress fun p =>
        { p with
          nodes := ((node.get? "id").bind Json.str?).elim p.nodes fun id => (id, d) :: p.nodes }
      return d) := fun d => (Along.note fun _ => rfl).bind fun _ => Along.pure d
  cases detached with
  | some detached =>
      unfold recordHead recordKey
      rw [pure_bind]
      refine Along.bind (Along.onModel ?_) fun r => hnote r.1
      exact upsert_keyKeeping parent _ access _ (Interns.pure _) fun m => hfits detached rfl _
  | none =>
      unfold recordHead recordKey
      rw [ite_bind]
      refine key_then_keyKeeping parent rfl _ fun rest => Along.bind (Along.onModel ?_) fun r =>
        hnote r.1
      exact upsert_keyKeeping parent _ access _ (Interns.pure _) fun m => ⟨_, _, _, .head _, rfl⟩

/-- A visitor that leaves keys that fit. -/
def Visitor.KeyKeeping (visit : Visitor) : Prop :=
  ∀ node scope access, Ast.KeyKeeping (visit node scope access)

section Classes

variable {visit : Visitor} (hvisit : visit.KeyKeeping)

include hvisit

theorem recordDecl_keyKeeping (node : Json) (parent : DeclId) (access : Access)
    {detached : Option Detached} (hfits : ∀ x ∈ detached, x.Fits) :
    KeyKeeping (recordDecl visit node parent access detached) := by
  rw [recordDecl_eq]
  refine (recordHead_keyKeeping node parent access hfits).bind fun d => ?_
  refine Along.bind (Along.ite ?_ (passOver_along node)) fun _ => Along.pure d
  refine (interns_keyKeeping (baseSpecifiers_interns node parent)).bind fun bases => ?_
  refine (Along.onModel (Model.KeyKeeping.of_extending (Model.modifyRecord_extending d _)
    fun _ => rfl)).bind fun _ => ?_
  exact (hvisit node d _).bind fun _ => Along.onModel (declareImplicitMembers_keyKeeping d _)

theorem namespaceDecl_keyKeeping (node : Json) (parent : DeclId) :
    KeyKeeping (namespaceDecl visit node parent) := by
  refine Along.bind (Along.onModel ?_) fun r => hvisit node r.1 .none
  exact upsert_keyKeeping parent _ .none false (Interns.pure _) fun m => ⟨_, _, _, .head _, rfl⟩

theorem specializationDecl_keyKeeping (node : Json) (template : DeclId) (access : Access) :
    KeyKeeping (specializationDecl visit node template access) := by
  refine Along.model.bind fun m => ?_
  refine (interns_keyKeeping (templateArgs_interns node _)).bind fun args => ?_
  refine Along.model.bind fun m' => Along.bind (recordDecl_keyKeeping hvisit node _ access ?_)
    fun d => Along.onModel (Model.modifyTemplate_keyKeeping template _)
  rintro x ⟨⟩ info
  exact specializationKey_fits m' template args (by simp [DeclKind.keyWords])

theorem classTemplateMember_keyKeeping (source : Source) (parent : DeclId) (access : Access)
    (template : DeclId) (child : Json) :
    KeyKeeping (classTemplateMember visit source parent access template child) := by
  refine (observe_along child).bind fun _ => Along.ite (Along.ite ?_ ?_) (Along.pure _)
  · refine Along.bind (recordDecl_keyKeeping hvisit child parent access ?_) fun d =>
      Along.onModel (Model.modifyTemplate_keyKeeping template _)
    rintro x ⟨⟩ info
    exact patternKey_fits template (by simp [DeclKind.keyWords])
  · refine Along.progress.bind fun p => Along.ite ?_ (passOver_along child)
    exact specializationDecl_keyKeeping hvisit child template access

theorem classTemplateDecl_keyKeeping (source : Source) (node : Json) (parent : DeclId)
    (access : Access) : KeyKeeping (classTemplateDecl visit source node parent access) := by
  rw [classTemplateDecl_eq]
  refine (interns_keyKeeping (templateParams_interns node parent)).bind fun params => ?_
  refine Along.bind (Along.onModel ?_) fun r => Along.forM fun child _ =>
    classTemplateMember_keyKeeping hvisit source parent access r.1 child
  exact upsert_keyKeeping parent _ access false (Interns.pure _) fun m => ⟨_, _, _, .head _, rfl⟩

end Classes

/-! ### Functions -/

theorem functionKey_fits (m : Model) (owner : DeclId) (name : String) (params : List ParamInfo)
    (isConst : Bool) (info : FunctionInfo) :
    Fits (functionKey m owner name params isConst) (.function info) := by
  unfold functionKey
  simp only [String.append_assoc]
  exact ⟨owner, "fn:", _, .head _, rfl⟩

theorem mergeNode_keyKeeping (node : Json) (h : FunctionHead) (d : DeclId) (created : Bool) :
    Model.KeyKeeping (mergeNode node h d created) := by
  refine .of_extending (fun m => (mergeNode_sparesBut node h d created m).extension) fun m => ?_
  rw [mergeNode, amendFunction_run]
  unfold marked
  split <;> rfl

theorem functionDecl_keyKeeping (source : Source) (node : Json) (scope : DeclId) (access : Access)
    {detachedKey : Option String} (hfits : ∀ key ∈ detachedKey, ∀ info, Fits key (.function info)) :
    KeyKeeping (functionDecl source node scope access detachedKey) := by
  have hhead : KeyKeeping (functionHead source node scope) := fun p h =>
    h.of_keys (functionHead_along source node scope p).extends
      (functionHead_along source node scope p).keys
  rw [functionDecl_eq]
  refine hhead.bind_run fun p h p' hrun => ?_
  have hkey : ∀ info, Fits (detachedKey.getD h.key) (.function info) := by
    intro info
    cases detachedKey with
    | some key => exact hfits key rfl info
    | none => exact functionHead_key hrun ▸ functionKey_fits _ _ _ _ _ info
  rw [functionBody_eq]
  have hrest : KeyKeeping (onModel (functionInfo node h) >>= fun info =>
      onModel (upsert (detachedKey.getD h.key) h.owner (text node "name") access detachedKey.isSome
        (pure (.function info))) >>= fun r => onModel (mergeNode node h r.1 r.2) >>= fun _ =>
          passOver node >>= fun _ => pure r.1) := by
    refine (interns_keyKeeping (functionInfo_interns node h)).bind fun info => ?_
    refine Along.bind (Along.onModel ?_) fun r =>
      (Along.onModel (mergeNode_keyKeeping node h r.1 r.2)).bind fun _ =>
        (passOver_along node).bind fun _ => Along.pure r.1
    exact upsert_keyKeeping h.owner _ access _ (Interns.pure _) fun _ => hkey info
  exact hrest p'

theorem functionTemplateMember_keyKeeping (source : Source) (parent : DeclId) (access : Access)
    (template : DeclId) (pattern : Option DeclId) (child : Json) :
    KeyKeeping (functionTemplateMember source parent access template pattern child) := by
  refine (observe_along child).bind fun _ => Along.ite ?_ ?_
  · cases pattern with
    | none =>
        refine Along.bind (functionDecl_keyKeeping source child parent access ?_) fun d => ?_
        · rintro key ⟨⟩ info
          exact patternKey_fits template (by simp [DeclKind.keyWords])
        · refine Along.bind (Along.onModel (Model.modifyFunction_keyKeeping d ?_)) fun _ =>
            Along.pure _
          exact fun _ => rfl
    | some pattern =>
        refine (interns_keyKeeping (templateArgs_interns child parent)).bind fun args => ?_
        refine Along.model.bind fun m => ?_
        refine Along.bind (functionDecl_keyKeeping source child parent access ?_) fun d => ?_
        · rintro key ⟨⟩ info
          exact specializationKey_fits m template args (by simp [DeclKind.keyWords])
        · refine Along.bind (Along.onModel (Model.modifyFunction_keyKeeping d ?_)) fun _ => ?_
          · exact fun _ => rfl
          · exact (Along.onModel (Model.modifyTemplate_keyKeeping template _)).bind fun _ =>
              Along.pure _
  · exact (passOver_along child).bind fun _ => Along.pure _

theorem functionTemplateDecl_keyKeeping (source : Source) (node : Json) (parent : DeclId)
    (access : Access) : KeyKeeping (functionTemplateDecl source node parent access) := by
  refine (interns_keyKeeping (templateParams_interns node parent)).bind fun params => ?_
  refine Along.bind (Along.onModel ?_) fun r => Along.bind (Along.foldlM (fun child _ pattern =>
    functionTemplateMember_keyKeeping source parent access r.1 pattern child) none) fun pattern =>
      Along.onModel (Model.modifyTemplate_keyKeeping r.1 _)
  refine upsert_keyKeeping parent _ access false (Interns.pure _) fun m => ?_
  exact ⟨parent, "ftmpl:", _, .head _, by rw [String.append_assoc, String.append_assoc]⟩

/-! ### Other declarations -/

theorem fieldDecl_keyKeeping (node : Json) (record : DeclId) (access : Access) :
    KeyKeeping (fieldDecl node record access) := by
  unfold fieldDecl
  refine key_then_keyKeeping record rfl _ fun rest => Along.bind (Along.onModel ?_) fun _ =>
    Along.pure _
  exact upsert_keyKeeping record _ access false
    ((Model.parseType_interns _ record).bind fun _ => Interns.pure _)
    fun m => ⟨_, _, _, .head _, rfl⟩

/-- More becomes known of a declaration that is no function. -/
theorem refine_keyKeeping (d : DeclId) {f : Decl → Decl}
    (hf : ∀ e, f e = e ∨ ∃ k, f e = { e with kind := k } ∧ e.kind.Continues k ∧
      ∀ info, e.kind ≠ .function info) : Model.KeyKeeping (Model.modifyDecl d f) :=
  .of_extending (fun m => (refine_sparing d hf m).extension) fun _ => rfl

theorem varDecl_keyKeeping (node : Json) (scope : DeclId) (access : Access) :
    KeyKeeping (varDecl node scope access) := by
  refine (ownerOf_along node scope).bind fun owner => Along.bind (Along.onModel ?_) fun r => ?_
  · exact upsert_keyKeeping owner _ _ false
      ((Model.parseType_interns _ owner).bind fun _ => Interns.pure _)
      fun m => ⟨_, "var:", _, .tail _ (.head _), rfl⟩
  · dsimp only
    split
    · refine Along.onModel (refine_keyKeeping r.1 fun e => ?_)
      split
      next info hkind => exact .inr ⟨_, rfl, hkind ▸ trivial, by simp [hkind]⟩
      next => exact .inl rfl
    · exact Along.pure _

theorem enumeratorDecl_keyKeeping (enum : DeclId) (type : TypeId) (r : EnumeratorRange)
    (child : Json) : KeyKeeping (enumeratorDecl enum type r child) := by
  refine (observe_along child).bind fun _ => Along.ite ?_ ?_
  · refine Along.bind (Along.onModel ?_) fun r =>
      (Along.onModel (refine_keyKeeping r.1 fun e => ?_)).bind fun _ =>
        (passOver_along child).bind fun _ => Along.pure _
    · exact upsert_keyKeeping enum _ .none false (Interns.pure _) fun m => ⟨_, _, _, .head _, rfl⟩
    · split
      next value type hkind => exact .inr ⟨_, rfl, hkind ▸ trivial, by simp [hkind]⟩
      next => exact .inl rfl
  · exact (passOver_along child).bind fun _ => Along.pure _

theorem enumDecl_keyKeeping (node : Json) (parent : DeclId) (access : Access) :
    KeyKeeping (enumDecl node parent access) := by
  unfold enumDecl
  extract_lets name isScoped declared
  refine key_then_keyKeeping parent rfl name fun rest => Along.bind (Along.onModel ?_) fun r => ?_
  · exact upsert_keyKeeping parent _ access false
      ((Model.intern_interns _).bind fun _ => Interns.pure _) fun m => ⟨_, _, _, .head _, rfl⟩
  refine (interns_keyKeeping (Model.intern_interns _)).bind fun type => ?_
  refine (Along.foldlM (fun child _ range => enumeratorDecl_keyKeeping r.1 type range child)
    {}).bind fun range => ?_
  extract_lets completed
  have hcompleted : ∀ integerType, KeyKeeping (completed integerType) := by
    refine fun integerType => Along.onModel (refine_keyKeeping r.1 fun e => ?_)
    split
    next info hkind =>
      exact .inr ⟨_, rfl, by simp [hkind, DeclKind.Continues], by simp [hkind]⟩
    next => exact .inl rfl
  split
  · exact (interns_keyKeeping (Model.parseType_interns _ parent)).bind hcompleted
  · exact (interns_keyKeeping (Model.intern_interns _)).bind hcompleted

theorem typedefDecl_keyKeeping (node : Json) (parent : DeclId) (access : Access)
    (unnamed : Option DeclId) : KeyKeeping (typedefDecl node parent access unnamed) := by
  unfold typedefDecl
  extract_lets name spelling namesUnnamed
  refine Along.bind (Along.onModel (upsert_keyKeeping parent name access false ?_ fun m => ?_))
    fun _ => Along.pure _
  · split
    · exact (Model.intern_interns _).bind fun _ => Interns.pure _
    · exact (Model.parseType_interns _ parent).bind fun _ => Interns.pure _
  · split
    · exact ⟨parent, "typedef:", name, .head _, rfl⟩
    · exact ⟨parent, "typedef:", name, .head _, rfl⟩

/-! ### Visiting -/

section Visiting

variable {visit : Visitor} (hvisit : visit.KeyKeeping)

include hvisit

theorem declare_keyKeeping (source : Source) (scope : DeclId) (s : MemberState) (node : Json) :
    KeyKeeping (declare visit source scope s node) := by
  unfold declare
  extract_lets finished
  have hthen : ∀ {x : IngestM PUnit}, KeyKeeping x → KeyKeeping (x >>= finished) := fun hx =>
    hx.bind fun _ => Along.pure s
  have hskip : KeyKeeping (passOver node >>= finished) := hthen (passOver_along node)
  have hunlisted : ∀ x ∈ (none : Option Detached), x.Fits := by simp
  have hrecord : KeyKeeping (recordMember visit scope s node) := by
    refine Along.ite ?_ ?_
    · exact (passOver_along node).bind fun _ => Along.pure s
    · exact (recordDecl_keyKeeping hvisit node scope s.access hunlisted).bind fun d =>
        Along.ite (Along.pure _) (Along.pure s)
  split
  next => exact Along.pure _
  next => exact hthen (hvisit node scope s.access)
  next => exact hthen (hvisit node scope s.access)
  next => exact hthen (namespaceDecl_keyKeeping hvisit node scope)
  next => exact (Along.onModel (usingDirective_keyKeeping node scope)).bind fun _ => hskip
  next => exact hrecord
  next => exact hrecord
  next => exact hthen (classTemplateDecl_keyKeeping hvisit source node scope s.access)
  next =>
    refine Along.model.bind fun m => ?_
    extract_lets found
    clear_value found
    cases found with
    | some template => exact hthen (specializationDecl_keyKeeping hvisit node template s.access)
    | none => exact hskip
  next => exact hthen (functionTemplateDecl_keyKeeping source node scope s.access)
  next => exact hthen (enumDecl_keyKeeping node scope s.access)
  next => exact (typedefDecl_keyKeeping node scope s.access s.unnamed).bind fun _ => hskip
  next => exact (typedefDecl_keyKeeping node scope s.access s.unnamed).bind fun _ => hskip
  next => exact (fieldDecl_keyKeeping node scope s.access).bind fun _ => hskip
  next => exact (varDecl_keyKeeping node scope s.access).bind fun _ => hskip
  next =>
    refine Along.ite ?_ hskip
    exact (functionDecl_keyKeeping source node scope s.access (by simp)).bind fun _ => Along.pure s

theorem visitMember_keyKeeping (source : Source) (scope : DeclId) (s : MemberState) (node : Json) :
    KeyKeeping (visitMember visit source scope s node) := by
  refine (observe_along node).bind fun _ => Along.progress.bind fun p => Along.ite ?_ ?_
  · exact declare_keyKeeping hvisit source scope s node
  · exact (passOver_along node).bind fun _ => Along.pure s

end Visiting

theorem visitMembers_keyKeeping (source : Source) (fuel : Nat) :
    Visitor.KeyKeeping (visitMembers source fuel) := by
  induction fuel with
  | zero => exact fun _ _ _ => Along.pure _
  | succ fuel ih =>
      intro node scope access
      exact (Along.foldlM (fun child _ s => visitMember_keyKeeping ih source scope s child)
        _).bind fun _ => Along.pure _

theorem visitDump_keyKeeping (source : Source) (node : Json) :
    KeyKeeping (visitDump source node) :=
  (observe_along node).bind fun _ => visitMembers_keyKeeping source _ node Model.root .none

/-- The keys of a model that a dump is read into go on fitting, also if it is given up. -/
theorem ingest_wellKeyed {m : Model} (h : m.WellKeyed) (source : Source) (dump : String) :
    ((ingest source dump).run.run m).2.WellKeyed := by
  unfold ingest
  cases Json.read? dump with
  | none => exact h
  | some node =>
      have hkeys := visitDump_keyKeeping source node (start m) h
      dsimp only
      rw [run_ingestNode]
      rcases hrun : (visitDump source node).run.run (start m) with ⟨_ | _, after⟩
      · rw [hrun] at hkeys
        exact hkeys
      · rw [hrun] at hkeys
        exact hkeys

end Ast

end CppReflect
