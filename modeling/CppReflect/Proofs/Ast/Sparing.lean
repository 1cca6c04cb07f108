import CppReflect.Proofs.Ast.Reingest
import CppReflect.Proofs.Ast.Steps
import CppReflect.Proofs.Model.Sparing

/-!
# The parts of a dump that leave functions alone

Handlers of other nodes than functions leave what is known of functions as it is, whatever the keys
are bound to. The node of a function whose key is bound is merged into the declaration there, and
touches no other one; if the key is free, a new function is declared.
-/

namespace CppReflect.Ast

open Model (Interns)

/-- The step leaves what is known of functions alone, also when it gives up. -/
abbrev Sparing {α : Type} (x : IngestM α) : Prop := Along Model.Spares x

theorem Along.interns {α : Type} {x : ModelM α} (hx : Interns x) : Sparing (Ast.onModel x) :=
  Along.onModel hx.sparing

/-! ## Declaring under a key -/

section Addition

variable {kind : ModelM DeclKind} (hkind : Interns kind) (m : Model) (parent : DeclId)
  (name : String) (access : Access) (detached : Bool)

include hkind

/-- What is put under a free key comes behind the other declarations. -/
theorem addition_fst :
    ((addition parent name access detached kind).run m).1 = ⟨m.decls.size⟩ := by
  have hdecls := (hkind m).decls
  cases detached <;> exact congrArg (fun ds : Array Decl => (⟨ds.size⟩ : DeclId)) hdecls

theorem addition_keys : ((addition parent name access detached kind).run m).2.keys = m.keys := by
  have hkeys := (hkind m).keys
  cases detached <;> exact hkeys

theorem addition_spares : m.Spares ((addition parent name access detached kind).run m).2 := by
  refine (hkind m).spares.trans ?_
  cases detached with
  | true => exact Model.addDetached_spares _ parent name access _
  | false => exact Model.addDecl_spares _ parent name access _

/-- What was declared before stands where it stood when the new place is taken. -/
theorem decl?_kind (c : DeclId) : (kind.run m).2.decl? c = m.decl? c := by
  rw [Model.decl?, (hkind m).decls, Model.decl?]

/-- It is what it was to be, in the scope that it was put in. -/
theorem addition_decl? : ∃ e, ((addition parent name access detached kind).run m).2.decl?
      ⟨m.decls.size⟩ = some e ∧ e.kind = (kind.run m).1 ∧ e.parent = some parent := by
  rw [← (hkind m).decls]
  cases detached with
  | true => exact ⟨_, Model.decl?_append_self, rfl, rfl⟩
  | false =>
      refine ⟨_, Model.decl?_modify_of_decl? Model.decl?_append_self _, ?_⟩
      split
      · exact ⟨rfl, rfl⟩
      · exact ⟨rfl, rfl⟩

/-- Unless it is detached, it is listed in that scope. -/
theorem addition_listed (hparent : m.HasDecl parent) :
    ⟨m.decls.size⟩ ∈ (((addition parent name access false kind).run m).2.decl parent).members := by
  have he := (decl?_kind hkind m parent).trans (Model.decl?_eq_decl hparent)
  have hlist : ((addition parent name access false kind).run m).2.decl? parent = some _ :=
    Model.decl?_modify_of_decl? (Model.decl?_append_of_decl? he) _
  rw [Model.decl, hlist, if_pos rfl, ← (hkind m).decls]
  exact List.mem_append_right _ List.mem_cons_self

/-- What was declared stays what it is. -/
theorem addition_old {c : DeclId} {e : Decl} (he : m.decl? c = some e) :
    ∃ e', ((addition parent name access detached kind).run m).2.decl? c = some e' ∧
      e'.kind = e.kind := by
  have he' := (decl?_kind hkind m c).trans he
  cases detached with
  | true => exact ⟨e, Model.decl?_append_of_decl? he', rfl⟩
  | false =>
      refine ⟨_, Model.decl?_modify_of_decl? (Model.decl?_append_of_decl? he') _, ?_⟩
      split
      · rfl
      · rfl

end Addition

/-- A key that was free is bound to a new declaration. -/
theorem upsert_fresh {m : Model} {key : String} (hfree : m.keyed? key = none) (parent : DeclId)
    (name : String) (access : Access) (detached : Bool) {kind : ModelM DeclKind}
    (hkind : Interns kind) :
    ((upsert key parent name access detached kind).run m).1 = (⟨m.decls.size⟩, true) ∧
      ∃ e, ((upsert key parent name access detached kind).run m).2.decl? ⟨m.decls.size⟩ = some e ∧
        e.kind = (kind.run m).1 ∧ e.parent = some parent := by
  rw [upsert_of_free hfree]
  exact ⟨congrArg (·, true) (addition_fst hkind m parent name access detached),
    addition_decl? hkind m parent name access detached⟩

/-- No other key is bound. -/
theorem upsert_keyed?_of_ne {kind : ModelM DeclKind} (hkind : Interns kind) (m : Model)
    {key key' : String} (parent : DeclId) (name : String) (access : Access) (detached : Bool)
    (hne : key' ≠ key) :
    ((upsert key parent name access detached kind).run m).2.keyed? key' = m.keyed? key' := by
  cases hkey : m.keyed? key with
  | some d => rw [upsert_of_keyed hkey]
  | none =>
      rw [upsert_of_free hkey]
      change List.lookup key' ((key, _) :: _) = _
      rw [List.lookup_cons, beq_eq_false_iff_ne.mpr hne, addition_keys hkind]
      rfl

theorem upsert_old {kind : ModelM DeclKind} (hkind : Interns kind) {m : Model} (key : String)
    (parent : DeclId) (name : String) (access : Access) (detached : Bool) {c : DeclId} {e : Decl}
    (he : m.decl? c = some e) :
    ∃ e', ((upsert key parent name access detached kind).run m).2.decl? c = some e' ∧
      e'.kind = e.kind := by
  cases hkey : m.keyed? key with
  | some d =>
      rw [upsert_of_keyed hkey]
      exact ⟨e, he, rfl⟩
  | none =>
      rw [upsert_of_free hkey]
      exact addition_old hkind m parent name access detached he

theorem upsert_sparing (key : String) (parent : DeclId) (name : String) (access : Access)
    (detached : Bool) {kind : ModelM DeclKind} (hkind : Interns kind) :
    Model.Sparing (upsert key parent name access detached kind) := by
  intro m
  cases hkey : m.keyed? key with
  | some d =>
      rw [upsert_of_keyed hkey]
      exact .refl m
  | none =>
      rw [upsert_of_free hkey]
      dsimp only
      rw [addition_fst hkind]
      obtain ⟨e, he, -⟩ := addition_decl? hkind m parent name access detached
      have hadded := addition_spares hkind m parent name access detached
      exact ⟨hadded.toExtendsApart.bindKey (addition_keys hkind m parent name access detached) hkey
        (Model.hasDecl_iff.mpr ⟨e, he⟩), hadded.functions⟩

theorem setImplicit_function? (d c : DeclId) (m : Model) :
    ((Model.modifyDecl d fun e => { e with implicit := true }).run m).2.function? c =
      m.function? c := by
  rw [Model.function?_modifyDecl, Model.function?]
  split
  · cases m.decl? c <;> rfl
  · rfl

theorem setImplicit_sparing (d : DeclId) :
    Model.Sparing (Model.modifyDecl d fun e => { e with implicit := true }) :=
  Model.modifyDecl_sparing_of_eq d (fun e => Decl.Extends.set_implicit e true) fun _ => rfl

/-! ## Scopes and classes -/

theorem usingDirective_sparing (node : Json) (scope : DeclId) :
    Model.Sparing (usingDirective node scope) := by
  refine Model.Sparing.get.bind fun m => ?_
  dsimp only
  split
  next d _ => exact Model.useNamespace_sparing scope d
  next => exact Model.Sparing.pure _

theorem implicitMember_sparing (record : DeclId) (void : TypeId) (name : String)
    (special : SpecialMember) : Model.Sparing (implicitMember record void name special) :=
  (upsert_sparing _ record name .pub false (Interns.pure _)).bind fun r =>
    Model.Sparing.ite (setImplicit_sparing r.1) (Model.Sparing.pure _)

theorem declareImplicitMembers_sparing (record : DeclId) (data : Json) :
    Model.Sparing (declareImplicitMembers record data) := by
  rw [declareImplicitMembers_eq]
  refine Model.Sparing.get.bind fun m => (Model.intern_interns _).sparing.bind fun void => ?_
  refine (Model.Sparing.ite ?_ (Model.Sparing.pure _)).bind fun _ =>
    Model.Sparing.ite ?_ (Model.Sparing.pure _)
  · exact implicitMember_sparing record void _ _
  · exact implicitMember_sparing record void _ _

theorem recordKey_sparing (node : Json) (parent : DeclId) (detached : Option Detached) :
    Sparing (recordKey node parent detached) := by
  cases detached with
  | some detached => exact Along.pure _
  | none => exact Along.ite (unnamedKey_along parent "rec") (Along.pure _)

theorem recordHead_sparing (node : Json) (parent : DeclId) (access : Access)
    (detached : Option Detached) : Sparing (recordHead node parent access detached) := by
  refine (recordKey_sparing node parent detached).bind fun key => ?_
  refine (Along.onModel (upsert_sparing key parent _ access _ (Interns.pure _))).bind fun r => ?_
  refine Along.bind (Along.note ?_) fun _ => Along.pure r.1
  exact fun _ => rfl

/-! ## Templates -/

theorem specializationHead_sparing (node : Json) (template : DeclId) :
    Sparing (specializationHead node template) :=
  Along.model.bind fun _ => (Along.interns (templateArgs_interns node _)).bind fun _ =>
    Along.model.bind fun _ => Along.pure _

theorem listSpecialization_sparing (template d : DeclId) :
    Model.Sparing (listSpecialization template d) :=
  Model.modifyTemplate_sparing template _

/-! ## Other declarations -/

/-- What is declared under a key that depends on whether it has a name. -/
theorem unnamed_then {α : Type} {c : Prop} [Decidable c] (scope : DeclId) (sort what : String)
    {f : String → IngestM α} (hf : ∀ key, Sparing (f key)) :
    Sparing (if c then unnamedKey scope sort >>= f else pure (keyIn scope what) >>= f) :=
  Along.ite ((unnamedKey_along scope sort).bind hf) ((Along.pure _).bind hf)

/-- More becomes known of a declaration that is no function. -/
theorem refine_sparing (d : DeclId) {f : Decl → Decl}
    (hf : ∀ e, f e = e ∨ ∃ k, f e = { e with kind := k } ∧ e.kind.Continues k ∧
      ∀ info, e.kind ≠ .function info) : Model.Sparing (Model.modifyDecl d f) := by
  have hnone : ∀ {e : Decl}, (∀ info, e.kind ≠ .function info) → e.function? = none := by
    intro e hother
    unfold Decl.function?
    split
    next info hkind => exact absurd hkind (hother info)
    next => rfl
  have hboth : ∀ e : Decl, e.Extends (f e) ∧ (f e).function? = e.function? := by
    intro e
    rcases hf e with heq | ⟨k, heq, hkind, hother⟩
    · rw [heq]
      exact ⟨Decl.Extends.refl e, rfl⟩
    · -- only a function is continued by a function
      have hother' : ∀ info, k ≠ .function info := by
        rintro info rfl
        cases he : e.kind <;> simp_all [DeclKind.Continues]
      have hsame : ({ e with kind := k } : Decl).function? = e.function? :=
        (hnone hother').trans (hnone hother).symm
      rw [heq]
      exact ⟨Decl.Extends.set_kind hkind (congrArg _ hsame), hsame⟩
  exact Model.modifyDecl_sparing_of_eq d (fun e => (hboth e).1) fun e => (hboth e).2

theorem fieldDecl_sparing (node : Json) (record : DeclId) (access : Access) :
    Sparing (fieldDecl node record access) := by
  unfold fieldDecl
  refine unnamed_then record "field" _ fun key => Along.bind (Along.onModel ?_) fun _ =>
    Along.pure _
  exact upsert_sparing key record _ access false
    ((Model.parseType_interns _ record).bind fun _ => Interns.pure _)

theorem varDecl_sparing (node : Json) (scope : DeclId) (access : Access) :
    Sparing (varDecl node scope access) := by
  refine (ownerOf_along node scope).bind fun owner => ?_
  refine (Along.onModel (upsert_sparing _ owner _ _ false
    ((Model.parseType_interns _ owner).bind fun _ => Interns.pure _))).bind fun r => ?_
  dsimp only
  split
  next mangled _ =>
    refine Along.onModel (refine_sparing r.1 fun e => ?_)
    split
    next info hkind => exact .inr ⟨_, rfl, hkind ▸ trivial, by simp [hkind]⟩
    next => exact .inl rfl
  next => exact Along.pure _

theorem enumeratorDecl_sparing (enum : DeclId) (type : TypeId) (r : EnumeratorRange)
    (child : Json) : Sparing (enumeratorDecl enum type r child) := by
  refine (observe_along child).bind fun _ => Along.ite ?_ ?_
  · refine (Along.onModel (upsert_sparing _ enum _ .none false (Interns.pure _))).bind fun r => ?_
    refine (Along.onModel (refine_sparing r.1 fun e => ?_)).bind fun _ =>
      (passOver_along child).bind fun _ => Along.pure _
    split
    next value type hkind => exact .inr ⟨_, rfl, hkind ▸ trivial, by simp [hkind]⟩
    next => exact .inl rfl
  · exact (passOver_along child).bind fun _ => Along.pure _

theorem enumDecl_sparing (node : Json) (parent : DeclId) (access : Access) :
    Sparing (enumDecl node parent access) := by
  unfold enumDecl
  extract_lets name isScoped declared
  refine unnamed_then parent "enum" _ fun key => ?_
  refine (Along.onModel (upsert_sparing key parent _ access false
    ((Model.intern_interns _).bind fun _ => Interns.pure _))).bind fun r => ?_
  refine (Along.interns (Model.intern_interns _)).bind fun type => ?_
  refine (Along.foldlM (fun child _ range => enumeratorDecl_sparing r.1 type range child)
    {}).bind fun range => ?_
  extract_lets completed
  have hcompleted : ∀ integerType, Sparing (completed integerType) := by
    refine fun integerType => Along.onModel (refine_sparing r.1 fun e => ?_)
    split
    next info hkind =>
      exact .inr ⟨_, rfl, by simp [hkind, DeclKind.Continues], by simp [hkind]⟩
    next => exact .inl rfl
  split
  · exact (Along.interns (Model.parseType_interns _ parent)).bind hcompleted
  · exact (Along.interns (Model.intern_interns _)).bind hcompleted

theorem typedefDecl_sparing (node : Json) (parent : DeclId) (access : Access)
    (unnamed : Option DeclId) : Sparing (typedefDecl node parent access unnamed) := by
  unfold typedefDecl
  extract_lets name spelling namesUnnamed
  refine Along.bind (Along.onModel (upsert_sparing _ parent name access false ?_)) fun _ =>
    Along.pure _
  split
  · exact (Model.intern_interns _).bind fun _ => Interns.pure _
  · exact (Model.parseType_interns _ parent).bind fun _ => Interns.pure _

/-! ## Functions -/

theorem functionParams_along (source : Source) (node : Json) (context : DeclId) :
    Along Model.Interned (functionParams source node context) :=
  Along.mapM fun _ _ => (Along.check _).bind fun _ =>
    (Along.onModel (typeOf_interns _ context)).bind fun _ => Along.pure _

/-- What a function is declared with is read before anything is declared. -/
theorem functionHead_along (source : Source) (node : Json) (scope : DeclId) :
    Along Model.Interned (functionHead source node scope) :=
  (ownerOf_along node scope).bind fun owner =>
    (Along.onModel (typeOf_interns _ owner)).bind fun _ => Along.model.bind fun _ =>
      (functionParams_along source node owner).bind fun _ => Along.model.bind fun _ => Along.pure _

theorem functionHead_key {source : Source} {node : Json} {scope : DeclId} {p p' : Progress}
    {h : FunctionHead} (hrun : (functionHead source node scope).run.run p = (.ok h, p')) :
    h.key = functionKey p'.model h.owner (text node "name") h.params
      (h.method.any MethodInfo.isConst) := by
  unfold functionHead at hrun
  obtain ⟨owner, p₁, -, hrun⟩ := run_bind_eq_ok hrun
  obtain ⟨type, p₂, -, hrun⟩ := run_bind_eq_ok hrun
  obtain ⟨m, p₃, -, hrun⟩ := run_bind_eq_ok hrun
  obtain ⟨params, p₄, -, hrun⟩ := run_bind_eq_ok hrun
  cases hrun
  rfl

/-- What a function is declared with, once its role and its return type are known. -/
def functionInfo (node : Json) (h : FunctionHead) : ModelM FunctionInfo := do
  let special ← specialOf node h.owner h.params
  let returnType ← returnTypeOf h.proto special
  return {
    returnType, variadic := h.proto.any FunctionProto.variadic, method := h.method, special }

/-- What the node of a function says about it, but for the member of a pattern that it comes
from. -/
def FunctionHead.states (h : FunctionHead) (node : Json) : FunctionNode where
  params := h.params
  defined := ((children node).any fun c => kind c == "CompoundStmt") ||
    has node "explicitlyDefaulted" || flag node "isImplicit"
  deleted := flag node "explicitlyDeleted"
  mangledName := (node.get? "mangledName").bind Json.str?
  memberPattern := none

/-- The same, with that member. -/
def FunctionHead.statesIn (h : FunctionHead) (node : Json) (m : Model) : FunctionNode :=
  { h.states node with memberPattern := memberPattern? m h.owner (text node "name") h.params.length }

/-- Marks a function as one of the compiler's, if it is, and changes what is known of it. -/
def amendFunction (d : DeclId) (implicit : Bool) (f : Model → FunctionInfo → FunctionInfo) :
    ModelM PUnit := do
  (if implicit then Model.modifyDecl d fun e => { e with implicit := true } else pure ⟨⟩ :
    ModelM PUnit)
  let m ← get
  Model.modifyFunction d (f m)

/-- Merges what a node says into the declaration of the function. -/
def mergeNode (node : Json) (h : FunctionHead) (d : DeclId) (created : Bool) : ModelM PUnit :=
  amendFunction d (created && flag node "isImplicit") fun m =>
    mergeFunction created (h.statesIn node m)

theorem functionBody_eq (node : Json) (access : Access) (key? : Option String)
    (h : FunctionHead) :
    functionBody node access key? h = (do
      let info ← functionInfo node h
      let r ← upsert (key?.getD h.key) h.owner (text node "name") access key?.isSome
        (pure (.function info))
      mergeNode node h r.1 r.2
      passOver node
      return r.1) := by
  have hmark : ∀ {c : Prop} [Decidable c] (x : ModelM PUnit),
      onModel (if c then x else pure ⟨⟩) = if c then onModel x else pure ⟨⟩ := by
    intro c _ x
    split <;> rfl
  change _ = onModel (functionInfo node h) >>= fun info => onModel (upsert _ _ _ _ _ _) >>= fun r =>
    onModel (mergeNode node h r.1 r.2) >>= fun _ => _
  unfold functionBody functionInfo mergeNode amendFunction
  simp only [onModel_bind, hmark, bind_assoc]
  rfl

theorem functionInfo_interns (node : Json) (h : FunctionHead) : Interns (functionInfo node h) :=
  (specialOf_interns node h.owner h.params).bind fun special =>
    (returnTypeOf_interns h.proto special).bind fun _ => Interns.pure _

section Amend

variable (d : DeclId) (implicit : Bool) (f : Model → FunctionInfo → FunctionInfo) (m : Model)

/-- The model with a function marked as one of the compiler's, if it is. -/
def marked : Model :=
  if implicit then ((Model.modifyDecl d fun e => { e with implicit := true }).run m).2 else m

theorem amendFunction_run : (amendFunction d implicit f).run m =
    (Model.modifyFunction d (f (marked d implicit m))).run (marked d implicit m) := by
  cases implicit with
  | true => rfl
  | false => rfl

theorem amendFunction_function? : ((amendFunction d implicit f).run m).2.function? d =
    (m.function? d).map (f (marked d implicit m)) := by
  have hmarked : (marked d implicit m).function? d = m.function? d := by
    unfold marked
    split
    · exact setImplicit_function? d d m
    · rfl
  rw [amendFunction_run, Model.function?_modifyFunction, if_pos rfl, hmarked]

theorem amendFunction_sparesBut (hf : ∀ m info, (f m info).special = info.special) :
    m.SparesBut (some d) ((amendFunction d implicit f).run m).2 := by
  have hmarked : m.Spares (marked d implicit m) := by
    unfold marked
    split
    · exact setImplicit_sparing d m
    · exact .refl m
  rw [amendFunction_run]
  exact hmarked.of_spares.trans (Model.modifyFunction_sparesBut _ d (hf _))

end Amend

theorem mergeNode_sparesBut (node : Json) (h : FunctionHead) (d : DeclId) (created : Bool)
    (m : Model) : m.SparesBut (some d) ((mergeNode node h d created).run m).2 :=
  amendFunction_sparesBut d _ _ m fun _ _ => mergeFunction_special created _ _

theorem mergeNode_function? (node : Json) (h : FunctionHead) (d : DeclId) (created : Bool)
    (m : Model) : ∃ m', ((mergeNode node h d created).run m).2.function? d =
      (m.function? d).map (mergeFunction created (h.statesIn node m')) :=
  ⟨_, amendFunction_function? d _ _ m⟩

theorem mergeFunction_variadic (created : Bool) (n : FunctionNode) (info : FunctionInfo) :
    (mergeFunction created n info).variadic = info.variadic := by
  unfold mergeFunction
  cases n.memberPattern <;> rfl

theorem mergeFunction_method (created : Bool) (n : FunctionNode) (info : FunctionInfo) :
    (mergeFunction created n info).method = info.method := by
  unfold mergeFunction
  cases n.memberPattern <;> rfl

theorem functionBody_run (node : Json) (access : Access) (key? : Option String) (h : FunctionHead)
    (p : Progress) :
    (functionBody node access key? h).run.run p =
      let i := (functionInfo node h).run p.model
      let r := (upsert (key?.getD h.key) h.owner (text node "name") access key?.isSome
        (pure (.function i.1))).run i.2
      (.ok r.1.1, { p with
        model := ((mergeNode node h r.1.1 r.1.2).run r.2).2
        file := fileAfterItems (children node) p.file }) := by
  rw [functionBody_eq]
  rfl

theorem mergeFunction_bare (created : Bool) (h : FunctionHead) (node : Json) (m : Model)
    (info : FunctionInfo) : (mergeFunction created (h.statesIn node m) info).bare =
      (mergeFunction created (h.states node) info).bare := by
  unfold mergeFunction FunctionHead.statesIn
  cases memberPattern? m h.owner (text node "name") h.params.length <;> rfl

/-- A node whose key is bound is merged into the declaration there. -/
theorem functionBody_merges (node : Json) (access : Access) {key? : Option String}
    {h : FunctionHead} {p : Progress} {d : DeclId}
    (hkey : p.model.keyed? (key?.getD h.key) = some d) :
    ∃ p', (functionBody node access key? h).run.run p = (.ok d, p') ∧
      p.model.SparesBut (some d) p'.model ∧
      (p'.model.function? d).map FunctionInfo.bare =
        (p.model.function? d).map fun info => (mergeFunction false (h.states node) info).bare := by
  have hinterned := functionInfo_interns node h p.model
  rw [functionBody_run]
  generalize (functionInfo node h).run p.model = i at hinterned
  obtain ⟨info, m⟩ := i
  have hkeyed : m.keyed? (key?.getD h.key) = some d := (hinterned.keyed?_eq _).trans hkey
  dsimp only
  rw [upsert_of_keyed hkeyed, ← hinterned.function?_eq d]
  refine ⟨_, rfl, hinterned.spares.trans (mergeNode_sparesBut node h d false m), ?_⟩
  obtain ⟨m', hmerged⟩ := mergeNode_function? node h d false m
  rw [hmerged, Option.map_map]
  exact congrArg (Option.map · _) (funext fun info => mergeFunction_bare false h node m' info)

/-- A function that is put under a free key. -/
theorem upsert_function {m : Model} {key : String} (hfree : m.keyed? key = none) (parent : DeclId)
    (name : String) (access : Access) (detached : Bool) (info : FunctionInfo) :
    ∃ m', (upsert key parent name access detached (pure (.function info))).run m =
        ((⟨m.decls.size⟩, true), m') ∧
      m.Spares m' ∧ m'.keyed? key = some ⟨m.decls.size⟩ ∧
      m'.function? ⟨m.decls.size⟩ = some info := by
  have hkind : Interns (pure (.function info) : ModelM DeclKind) := Interns.pure _
  obtain ⟨hfresh, e, he, hekind, -⟩ := upsert_fresh hfree parent name access detached hkind
  have hkeyed := upsert_keyed m key parent name access detached (pure (.function info))
  rw [hfresh] at hkeyed
  refine ⟨_, Prod.ext hfresh rfl, upsert_sparing key parent name access detached hkind m, hkeyed, ?_⟩
  rw [Model.function?, he, Option.bind_some, Decl.function?, hekind]
  rfl

/-- A node whose key is free declares a new function under it. -/
theorem functionBody_declares (node : Json) (access : Access) {key? : Option String}
    {h : FunctionHead} {p : Progress} (hfree : p.model.keyed? (key?.getD h.key) = none) :
    ∃ p' info, (functionBody node access key? h).run.run p = (.ok ⟨p.model.decls.size⟩, p') ∧
      p.model.Spares p'.model ∧
      p'.model.keyed? (key?.getD h.key) = some ⟨p.model.decls.size⟩ ∧
      p'.model.function? ⟨p.model.decls.size⟩ = some info ∧
      info.variadic = h.proto.any FunctionProto.variadic ∧ info.method = h.method := by
  have hinterned := functionInfo_interns node h p.model
  have hinfo : ((functionInfo node h).run p.model).1.variadic =
        h.proto.any FunctionProto.variadic ∧
      ((functionInfo node h).run p.model).1.method = h.method := ⟨rfl, rfl⟩
  rw [functionBody_run]
  generalize (functionInfo node h).run p.model = i at hinterned hinfo
  obtain ⟨info, m⟩ := i
  dsimp only at hinfo ⊢
  have hsize : p.model.decls.size = m.decls.size := by rw [hinterned.decls]
  obtain ⟨m', hrun, hspares, hkeyed, hdeclared⟩ := upsert_function
    ((hinterned.keyed?_eq _).trans hfree) h.owner (text node "name") access key?.isSome info
  have hmerged := mergeNode_sparesBut node h ⟨m.decls.size⟩ true m'
  obtain ⟨m'', hfunction⟩ := mergeNode_function? node h ⟨m.decls.size⟩ true m'
  rw [hdeclared, Option.map_some] at hfunction
  rw [hrun, hsize]
  refine ⟨_, _, rfl, ?_, hmerged.extension.keys _ _ hkeyed, hfunction, ?_, ?_⟩
  -- the function that the node is merged into is new, so those of before are left alone
  · exact hinterned.spares.trans ((hspares.of_spares.trans hmerged).spares (Nat.le_refl _))
  · rw [mergeFunction_variadic]
    exact hinfo.1
  · rw [mergeFunction_method]
    exact hinfo.2

end CppReflect.Ast
