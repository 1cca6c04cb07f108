import CppReflect.Proofs.Ast.Run
import CppReflect.Proofs.Model.Declare
import CppReflect.Proofs.Model.Resolve

/-!
# Ingesting a dump into a well-formed model

Whatever a dump says, and wherever it is given up, the model that it leaves is well-formed and has
grown from the one before. In the middle of a dump the classes met so far are declared, so that
an out-of-line definition finds a scope that exists.
-/

namespace CppReflect.Ast

/-- The model is well-formed, and the nodes met so far stand for declarations of it. -/
structure Progress.Sound (p : Progress) : Prop where
  model : p.model.WellFormed
  nodes : ∀ id d, p.nodes.lookup id = some d → p.model.HasDecl d

/-- The step leaves a sound state whose model has grown, also when it gives up, and an answer of it
satisfies `post` there. -/
structure Progress.Keeps {α : Type} (p : Progress) (x : IngestM α) (post : α → Model → Prop) :
    Prop where
  sound : (x.run.run p).2.Sound
  grows : p.model.GrowsTo (x.run.run p).2.model
  answer : ∀ a, (x.run.run p).1 = .ok a → post a (x.run.run p).2.model

namespace Progress.Keeps

open Model (GrowsTo)

variable {α β : Type} {p : Progress} {post : α → Model → Prop}

theorem pure (h : p.Sound) {a : α} (ha : post a p.model) : p.Keeps (pure a) post where
  sound := h
  grows := GrowsTo.refl _
  answer _ hb := by
    cases hb
    exact ha

/-- The second step starts from any state that the first one can leave with an answer. -/
theorem bind {x : IngestM α} {f : α → IngestM β} {final : β → Model → Prop} (hx : p.Keeps x post)
    (hf : ∀ a (p' : Progress), p'.Sound → p.model.GrowsTo p'.model → post a p'.model →
      p'.Keeps (f a) final) :
    p.Keeps (x >>= f) final := by
  have hrun := run_bind (s := p) x f
  obtain ⟨hsound, hgrow, hanswer⟩ := hx
  rcases hcase : x.run.run p with ⟨result, p'⟩
  rw [hcase] at hrun hsound hgrow hanswer
  cases result with
  | error e =>
      refine ⟨?_, ?_, ?_⟩ <;> rw [hrun]
      · exact hsound
      · exact hgrow
      · intro b hb
        cases hb
  | ok a =>
      have hrest := hf a p' hsound hgrow (hanswer a rfl)
      refine ⟨?_, ?_, ?_⟩ <;> rw [hrun]
      · exact hrest.sound
      · exact hgrow.trans hrest.grows
      · exact hrest.answer

theorem weaken {x : IngestM α} {final : α → Model → Prop} (hx : p.Keeps x post)
    (himp : ∀ a m', m'.WellFormed → p.model.GrowsTo m' → post a m' → final a m') :
    p.Keeps x final :=
  ⟨hx.sound, hx.grows, fun a ha => himp a _ hx.sound.model hx.grows (hx.answer a ha)⟩

theorem ite {c : Prop} [Decidable c] {x y : IngestM α} (hx : p.Keeps x post) (hy : p.Keeps y post) :
    p.Keeps (if c then x else y) post := by
  split
  · exact hx
  · exact hy

/-- A step that concerns the model alone. -/
theorem onModel (h : p.Sound) {x : ModelM α} (hx : p.model.Keeps x post) :
    p.Keeps (onModel x) post where
  sound := ⟨hx.wellFormed, fun id d hd => hx.grows.hasDecl (h.nodes id d hd)⟩
  grows := hx.grows
  answer _ ha := by
    cases ha
    exact hx.answer

/-- A step that may give up and changes nothing. -/
theorem check (h : p.Sound) (x : Except IngestError α) :
    p.Keeps (liftM x : IngestM α) fun _ _ => True := by
  cases x with
  | ok a => exact pure h trivial
  | error e => exact ⟨h, GrowsTo.refl _, fun _ _ => trivial⟩

theorem pure_bind {a : α} {f : α → IngestM β} {final : β → Model → Prop} (hf : p.Keeps (f a) final) :
    p.Keeps (Pure.pure a >>= f) final :=
  ⟨hf.sound, hf.grows, hf.answer⟩

theorem progress_bind {f : Progress → IngestM β} {final : β → Model → Prop}
    (hf : p.Keeps (f p) final) : p.Keeps (getThe Progress >>= f) final :=
  ⟨hf.sound, hf.grows, hf.answer⟩

theorem model_bind {f : Model → IngestM β} {final : β → Model → Prop}
    (hf : p.Keeps (f p.model) final) : p.Keeps (Ast.model >>= f) final :=
  ⟨hf.sound, hf.grows, hf.answer⟩

/-- A change of what is not the model. -/
theorem note {g : Progress → Progress} (hmodel : (g p).model = p.model) (hsound : (g p).Sound) :
    p.Keeps (modifyThe Progress g) fun _ _ => True where
  sound := hsound
  grows := by
    change p.model.GrowsTo (g p).model
    rw [hmodel]
    exact GrowsTo.refl _
  answer _ _ := trivial

/-- Steps on the elements of a list, one after the other, of which each goes on from the answer of
the last. -/
theorem foldlM {P : β → Model → Prop} {f : β → α → IngestM β} {l : List α} {b : β} (h : p.Sound)
    (hb : P b p.model)
    (hf : ∀ a ∈ l, ∀ b (p' : Progress), p'.Sound → p.model.GrowsTo p'.model → P b p'.model →
      p'.Keeps (f b a) P) :
    p.Keeps (l.foldlM f b) P := by
  induction l generalizing p b with
  | nil => exact pure h hb
  | cons a l ih =>
      rw [List.foldlM_cons]
      refine (hf a List.mem_cons_self b p h (GrowsTo.refl _) hb).bind fun b' p₁ h₁ hgrow₁ hb' => ?_
      exact ih h₁ hb' fun c hc b'' p' h' hgrow hb'' =>
        hf c (List.mem_cons_of_mem a hc) b'' p' h' (hgrow₁.trans hgrow) hb''

theorem forM {f : α → IngestM PUnit} {l : List α} (h : p.Sound)
    (hf : ∀ a ∈ l, ∀ p' : Progress, p'.Sound → p.model.GrowsTo p'.model →
      p'.Keeps (f a) fun _ _ => True) :
    p.Keeps (l.forM f) fun _ _ => True := by
  induction l generalizing p with
  | nil => exact pure h trivial
  | cons a l ih =>
      change p.Keeps (f a >>= fun _ => l.forM f) _
      refine (hf a List.mem_cons_self p h (GrowsTo.refl _)).bind fun _ p₁ h₁ hgrow₁ _ => ?_
      exact ih h₁ fun c hc p' h' hgrow =>
        hf c (List.mem_cons_of_mem a hc) p' h' (hgrow₁.trans hgrow)

theorem mapM {P : β → Model → Prop} (hlasting : Model.Keeps.Lasting P) {f : α → IngestM β} {l : List α}
    (h : p.Sound)
    (hf : ∀ a ∈ l, ∀ p' : Progress, p'.Sound → p.model.GrowsTo p'.model → p'.Keeps (f a) P) :
    p.Keeps (l.mapM f) fun bs m' => ∀ b ∈ bs, P b m' := by
  induction l generalizing p with
  | nil => exact pure h (by simp)
  | cons a l ih =>
      rw [List.mapM_cons]
      refine (hf a List.mem_cons_self p h (GrowsTo.refl _)).bind fun b p₁ h₁ hgrow₁ hb => ?_
      refine bind (ih h₁ fun c hc p' h' hgrow =>
        hf c (List.mem_cons_of_mem a hc) p' h' (hgrow₁.trans hgrow)) fun bs p₂ h₂ hgrow₂ hbs => ?_
      refine pure h₂ ?_
      intro c hc
      rcases List.mem_cons.mp hc with rfl | hc
      · exact hlasting c p₁.model p₂.model hgrow₂ hb
      · exact hbs c hc

end Progress.Keeps

/-! ## Steps on the model -/

open Model (Keeps GrowsTo HasDecl HasType)

variable {m : Model}

theorem upsert_keeps (h : m.WellFormed) (key : String) {parent : DeclId} (hparent : m.HasDecl parent)
    (name : String) (access : Access) (detached : Bool) {kind : ModelM DeclKind}
    (hkind : m.Keeps kind fun k m' => ∀ t ∈ k.types, m'.HasType t) :
    m.Keeps (upsert key parent name access detached kind) fun r m' => m'.HasDecl r.1 := by
  have hbind : ∀ {m' : Model} {x : ModelM DeclId}, m'.Keeps x (fun d m'' => m''.HasDecl d) →
      m'.Keeps (do
        let d ← x
        Model.bindKey key d
        return (d, true)) fun r m'' => m''.HasDecl r.1 := by
    intro m' x hx
    refine hx.bind fun d m₁ hwf₁ _ hd => ?_
    exact (Model.bindKey_keeps hwf₁ key hd).bind fun _ m₂ hwf₂ hgrow₂ _ =>
      Keeps.pure hwf₂ (hgrow₂.hasDecl hd)
  refine Keeps.get_bind ?_
  split
  next d hd => exact Keeps.pure h (h.keys key d hd)
  next =>
    refine hkind.bind fun k m₁ hwf₁ hgrow₁ hk => ?_
    have hparent₁ := hgrow₁.hasDecl hparent
    cases detached with
    | false => exact hbind (Model.addDecl_keeps hwf₁ hparent₁ name access hk)
    | true =>
        refine hbind ((Model.addDetached_keeps hwf₁ hparent₁ name access hk).weaken ?_)
        rintro d m₂ _ _ ⟨rfl, rfl⟩
        rw [HasDecl, Array.size_push]
        exact Nat.lt_succ_self _

theorem typeOf_keeps (h : m.WellFormed) (spelling : Option String) (context : DeclId) :
    m.Keeps (typeOf spelling context) fun t m' => m'.HasType t := by
  unfold typeOf
  split
  next s => exact Model.parseType_keeps h s context
  next =>
    exact (Model.internKind_keeps h (by simp [TypeKind.parts]) (by simp [TypeKind.decl?])).weaken
      fun _ _ _ _ hget => Model.hasType_of_get? hget

theorem builtin_keeps (h : m.WellFormed) (b : Builtin) :
    m.Keeps (Model.builtin b) fun t m' => m'.HasType t :=
  (Model.internKind_keeps h (by simp [TypeKind.parts]) (by simp [TypeKind.decl?])).weaken
    fun _ _ _ _ hget => Model.hasType_of_get? hget

theorem void_keeps (h : m.WellFormed) : m.Keeps Model.void fun t m' => m'.HasType t :=
  (Model.internKind_keeps h (by simp [TypeKind.parts]) (by simp [TypeKind.decl?])).weaken
    fun _ _ _ _ hget => Model.hasType_of_get? hget

theorem usingDirective_keeps (h : m.WellFormed) (node : Json) (scope : DeclId) :
    m.Keeps (usingDirective node scope) fun _ _ => True := by
  refine Keeps.get_bind ?_
  dsimp only
  split
  next d _ => exact Model.useNamespace_keeps h scope d
  next => exact Keeps.pure h trivial

theorem declareImplicitMembers_keeps (h : m.WellFormed) {record : DeclId}
    (hrecord : m.HasDecl record) (data : Json) :
    m.Keeps (declareImplicitMembers record data) fun _ _ => True := by
  refine Keeps.get_bind <| (void_keeps h).bind fun void m₁ hwf₁ hgrow₁ hvoid => ?_
  have hdeclare : ∀ {m' : Model}, m'.WellFormed → m₁.GrowsTo m' → ∀ name special,
      m'.Keeps (upsert (keyIn record ("fn:" ++ name ++ "()")) record name .pub false
          (pure (.function { returnType := void, method := some {}, special })) >>= fun r =>
        if r.2 then Model.modifyDecl r.1 fun e => { e with implicit := true }
        else pure ()) fun _ _ => True := by
    intro m' hwf hgrow name special
    refine (upsert_keeps hwf _ (hgrow.hasDecl (hgrow₁.hasDecl hrecord)) name .pub false
      (Keeps.pure hwf ?_)).bind ?_
    · simpa [DeclKind.types] using hgrow.hasType hvoid
    · rintro ⟨d, created⟩ m'' hwf' _ _
      cases created with
      | true => exact Model.setImplicit_keeps hwf' d
      | false => exact Keeps.pure hwf' trivial
  dsimp only
  refine Keeps.ite ?_ ?_
  · refine (hdeclare hwf₁ (GrowsTo.refl m₁) _ _).bind fun _ m₂ hwf₂ hgrow₂ _ => ?_
    exact Keeps.ite (hdeclare hwf₂ hgrow₂ _ _) (Keeps.pure hwf₂ trivial)
  · exact Keeps.ite (hdeclare hwf₁ (GrowsTo.refl m₁) _ _) (Keeps.pure hwf₁ trivial)

theorem baseSpecifiers_keeps (h : m.WellFormed) (node : Json) (context : DeclId) :
    m.Keeps (baseSpecifiers node context) fun bases m' => ∀ b ∈ bases, m'.HasType b.type := by
  have hlasting : Keeps.Lasting fun (b : BaseSpecifier) m' => m'.HasType b.type :=
    fun _ _ _ hgrow hb => hgrow.hasType hb
  refine Keeps.mapM hlasting h fun base _ m' hwf _ => ?_
  exact (typeOf_keeps hwf _ context).bind fun t m'' hwf' _ ht => Keeps.pure hwf' ht

theorem templateParams_keeps (h : m.WellFormed) (node : Json) (context : DeclId) :
    m.Keeps (templateParams node context) fun params m' =>
      ∀ t ∈ params.flatMap TemplateParam.types, m'.HasType t := by
  have hlasting : Keeps.Lasting fun (param : Option TemplateParam) m' =>
      ∀ p ∈ param, ∀ t ∈ p.types, m'.HasType t :=
    fun _ _ _ hgrow hparam p hp t ht => hgrow.hasType (hparam p hp t ht)
  refine Keeps.bind (Keeps.mapM hlasting h ?_) ?_
  · intro child _ m' hwf _
    dsimp only
    split
    · exact Keeps.pure hwf (by simp [TemplateParam.types])
    · refine (Model.parseType_keeps hwf _ context).bind fun t m'' hwf' _ ht => ?_
      exact Keeps.pure hwf' (by simpa [TemplateParam.types] using ht)
    · exact Keeps.pure hwf (by simp [TemplateParam.types])
    · exact Keeps.pure hwf (by simp)
  · intro params m' hwf _ hparams
    refine Keeps.pure hwf ?_
    intro t ht
    obtain ⟨p, hp, htp⟩ := List.mem_flatMap.mp ht
    obtain ⟨o, ho, hop⟩ := List.mem_filterMap.mp hp
    exact hparams o ho p hop t htp

theorem types_flatten {args : List (List TemplateArg)}
    (h : ∀ as ∈ args, ∀ t ∈ as.flatMap TemplateArg.types, m.HasType t) :
    ∀ t ∈ args.flatten.flatMap TemplateArg.types, m.HasType t := by
  intro t ht
  obtain ⟨a, ha, hta⟩ := List.mem_flatMap.mp ht
  obtain ⟨as, has, haas⟩ := List.mem_flatten.mp ha
  exact h as has t (List.mem_flatMap.mpr ⟨a, haas, hta⟩)

/-- The types that template arguments name exist. -/
theorem templateArgFrom_keeps (context : DeclId) (fuel : Nat) (node : Json) (h : m.WellFormed) :
    m.Keeps (templateArgFrom context fuel node) fun args m' =>
      ∀ t ∈ args.flatMap TemplateArg.types, m'.HasType t := by
  induction fuel generalizing m node with
  | zero => exact Keeps.pure h (by simp)
  | succ fuel ih =>
      unfold templateArgFrom
      split
      · refine (Model.parseType_keeps h _ context).bind fun t m' hwf _ ht => ?_
        exact Keeps.pure hwf (by simpa [TemplateArg.types, TemplateArg.ofValue] using ht)
      · refine (Model.parseType_keeps h _ context).bind fun t m' hwf _ ht => ?_
        exact Keeps.pure hwf (by simpa [TemplateArg.types, TemplateArg.ofType] using ht)
      · refine (builtin_keeps h .int).bind fun t m' hwf _ ht => ?_
        exact Keeps.pure hwf (by simpa [TemplateArg.types, TemplateArg.ofValue] using ht)
      · split
        · have hlasting : Keeps.Lasting fun (args : List TemplateArg) m' =>
              ∀ t ∈ args.flatMap TemplateArg.types, m'.HasType t :=
            fun _ _ _ hgrow hargs t ht => hgrow.hasType (hargs t ht)
          refine (Keeps.mapM hlasting h fun child _ m' hwf _ => ih child hwf).bind
            fun args m' hwf _ hargs => Keeps.pure hwf (types_flatten hargs)
        · exact Keeps.pure h (by simp)

theorem templateArgs_keeps (h : m.WellFormed) (node : Json) (context : DeclId) :
    m.Keeps (templateArgs node context) fun args m' =>
      ∀ t ∈ args.flatMap TemplateArg.types, m'.HasType t := by
  have hlasting : Keeps.Lasting fun (args : List TemplateArg) m' =>
      ∀ t ∈ args.flatMap TemplateArg.types, m'.HasType t :=
    fun _ _ _ hgrow hargs t ht => hgrow.hasType (hargs t ht)
  exact (Keeps.mapM hlasting h fun child _ m' hwf _ => templateArgFrom_keeps context _ child hwf).bind
    fun args m' hwf _ hargs => Keeps.pure hwf (types_flatten hargs)

theorem listSpecialization_keeps (h : m.WellFormed) (template d : DeclId) :
    m.Keeps (listSpecialization template d) fun _ _ => True := by
  refine Model.modifyTemplate_keeps h fun info => ?_
  split <;> rfl

theorem specialOf_keeps (h : m.WellFormed) (node : Json) (owner : DeclId) (params : List ParamInfo) :
    m.Keeps (specialOf node owner params) fun _ _ => True := by
  unfold specialOf
  split
  · exact (Model.askAlong_keeps h _ _).weaken fun _ _ _ _ _ => trivial
  · exact Keeps.pure h trivial
  · exact Keeps.pure h trivial
  · exact Keeps.pure h trivial

/-- What the type of a function returns exists if the type does. -/
theorem returnTypeOf_keeps (h : m.WellFormed) {t : TypeId} {m₀ : Model} (hm₀ : m₀.WellFormed)
    (hgrow : m₀.GrowsTo m) (special : SpecialMember) :
    m.Keeps (returnTypeOf (protoOf? m₀ t) special) fun u m' => m'.HasType u := by
  unfold returnTypeOf
  split
  · exact void_keeps h
  · exact void_keeps h
  next _ _ p hp =>
    refine Keeps.pure h (hgrow.hasType ?_)
    unfold protoOf? at hp
    split at hp
    next proto hkind =>
      obtain rfl := Option.some.inj hp
      exact (hm₀.node_parts (t := t) (by simp [hkind, TypeKind.parts])).2
    next => simp at hp
  · exact (Model.internKind_keeps h (by simp [TypeKind.parts]) (by simp [TypeKind.decl?])).weaken
      fun _ _ _ _ hget => Model.hasType_of_get? hget

/-! ## Handlers -/

variable {p : Progress}

theorem observe_keeps (h : p.Sound) (node : Json) : p.Keeps (observe node) fun _ _ => True :=
  Progress.Keeps.note rfl ⟨h.model, h.nodes⟩

theorem passOver_keeps (h : p.Sound) (node : Json) : p.Keeps (passOver node) fun _ _ => True :=
  Progress.Keeps.note rfl ⟨h.model, h.nodes⟩

theorem unnamedKey_keeps (h : p.Sound) (scope : DeclId) (sort : String) :
    p.Keeps (unnamedKey scope sort) fun _ _ => True := by
  refine Progress.Keeps.progress_bind <| Progress.Keeps.bind (Progress.Keeps.note rfl ?_)
    fun _ p' h' _ _ => Progress.Keeps.pure h' trivial
  exact ⟨h.model, h.nodes⟩

/-- The class that a node declares is met. -/
theorem noteNode_keeps (h : p.Sound) (id : String) {d : DeclId} (hd : p.model.HasDecl d) :
    p.Keeps (modifyThe Progress fun p => { p with nodes := (id, d) :: p.nodes }) fun _ _ => True := by
  refine Progress.Keeps.note rfl ⟨h.model, ?_⟩
  intro id' d' hd'
  change List.lookup id' ((id, d) :: p.nodes) = some d' at hd'
  rw [List.lookup_cons] at hd'
  split at hd'
  next => exact Option.some.inj hd' ▸ hd
  next => exact h.nodes id' d' hd'

theorem ownerOf_keeps (h : p.Sound) (node : Json) {scope : DeclId} (hscope : p.model.HasDecl scope) :
    p.Keeps (ownerOf node scope) fun owner m' => m'.HasDecl owner := by
  refine Progress.Keeps.progress_bind (Progress.Keeps.pure h ?_)
  cases howner : ((node.get? "parentDeclContextId").bind Json.str?).bind (p.nodes.lookup ·) with
  | none => exact hscope
  | some owner =>
      obtain ⟨id, _, hid⟩ := Option.bind_eq_some_iff.mp howner
      exact h.nodes id owner hid

/-- A visitor that keeps every state sound. -/
def Visitor.Keeps (visit : Visitor) : Prop :=
  ∀ node scope access (p : Progress), p.Sound → p.model.HasDecl scope →
    p.Keeps (visit node scope access) fun _ _ => True

variable {visit : Visitor}

theorem namespaceDecl_keeps (hvisit : visit.Keeps) (h : p.Sound) (node : Json) {parent : DeclId}
    (hparent : p.model.HasDecl parent) :
    p.Keeps (namespaceDecl visit node parent) fun _ _ => True := by
  refine (Progress.Keeps.onModel h (upsert_keeps h.model _ hparent _ .none false
    (Keeps.pure h.model (by simp [DeclKind.types])))).bind fun r p₁ h₁ _ hd => ?_
  exact hvisit node r.1 .none p₁ h₁ hd

theorem recordDecl_keeps (hvisit : visit.Keeps) (h : p.Sound) (node : Json) {parent : DeclId}
    (hparent : p.model.HasDecl parent) (access : Access) {detached : Option Detached}
    (hdetached : ∀ d ∈ detached, ∀ s ∈ d.specialization,
      ∀ t ∈ s.args.flatMap TemplateArg.types, p.model.HasType t) :
    p.Keeps (recordDecl visit node parent access detached) fun d m' => m'.HasDecl d := by
  unfold recordDecl
  extract_lets name tag data declared
  have hdeclared : ∀ key {p' : Progress}, p'.Sound → p.model.GrowsTo p'.model →
      p'.Keeps (declared key) fun d m' => m'.HasDecl d := by
    intro key p' h' hgrow
    refine (Progress.Keeps.onModel h' (upsert_keeps h'.model key (hgrow.hasDecl hparent) name access
      _ (Keeps.pure h'.model ?_))).bind ?_
    · intro t ht
      simp only [DeclKind.types, List.map_nil, List.nil_append] at ht
      cases hspec : detached.bind Detached.specialization with
      | none => simp [hspec] at ht
      | some s =>
          obtain ⟨d, hd, hs⟩ := Option.bind_eq_some_iff.mp hspec
          rw [hspec] at ht
          exact hgrow.hasType (hdetached d hd s hs t ht)
    rintro ⟨d, created⟩ p₁ h₁ _ hd
    dsimp -zeta only
    extract_lets finished completed
    have hcompleted : ∀ {p' : Progress}, p'.Sound → p'.model.HasDecl d →
        p'.Keeps (completed ()) fun d m' => m'.HasDecl d := by
      intro p' h' hd'
      refine Progress.Keeps.ite ?_ ?_
      · refine (Progress.Keeps.onModel h' (baseSpecifiers_keeps h'.model node parent)).bind
          fun bases p₂ h₂ hgrow₂ hbases => ?_
        refine Progress.Keeps.bind (Progress.Keeps.onModel h₂
          (Model.modifyRecord_keeps h₂.model ?_)) fun _ p₃ h₃ hgrow₃ _ => ?_
        · intro e info he hkind t ht
          have hold := h₂.model.types d e he
          simp only [hkind, DeclKind.types, List.mem_append, List.mem_map] at hold ht
          rcases ht with ⟨b, hb, rfl⟩ | ht
          · exact hbases b hb
          · exact hold t (Or.inr ht)
        have hd₃ := hgrow₃.hasDecl (hgrow₂.hasDecl hd')
        refine (hvisit node d _ p₃ h₃ hd₃).bind fun _ p₄ h₄ hgrow₄ _ => ?_
        have hd₄ := hgrow₄.hasDecl hd₃
        refine (Progress.Keeps.onModel h₄ (declareImplicitMembers_keeps h₄.model hd₄ data)).bind
          fun _ p₅ h₅ hgrow₅ _ => Progress.Keeps.pure h₅ (hgrow₅.hasDecl hd₄)
      · exact (passOver_keeps h' node).bind fun _ p₂ h₂ hgrow₂ _ =>
          Progress.Keeps.pure h₂ (hgrow₂.hasDecl hd')
    split
    next id _ =>
      exact (noteNode_keeps h₁ id hd).bind fun _ p₂ h₂ hgrow₂ _ =>
        hcompleted h₂ (hgrow₂.hasDecl hd)
    next => exact hcompleted h₁ hd
  split
  next d =>
    exact Progress.Keeps.pure_bind (hdeclared _ h (GrowsTo.refl _))
  next =>
    refine Progress.Keeps.ite ?_ ?_
    · exact (unnamedKey_keeps h parent "rec").bind fun key p' h' hgrow _ => hdeclared key h' hgrow
    · exact Progress.Keeps.pure_bind (hdeclared _ h (GrowsTo.refl _))

theorem specializationDecl_keeps (hvisit : visit.Keeps) (h : p.Sound) (node : Json)
    (template : DeclId) (access : Access) :
    p.Keeps (specializationDecl visit node template access) fun _ _ => True := by
  refine Progress.Keeps.model_bind ?_
  refine (Progress.Keeps.onModel h (templateArgs_keeps h.model node _)).bind
    fun args p₁ h₁ hgrow₁ hargs => Progress.Keeps.model_bind ?_
  refine (recordDecl_keeps hvisit h₁ node (hgrow₁.hasDecl (h.model.scope_hasDecl template)) access
    ?_).bind fun d p₂ h₂ _ _ => ?_
  · rintro _ ⟨rfl⟩ _ ⟨rfl⟩
    exact hargs
  · exact Progress.Keeps.onModel h₂ (listSpecialization_keeps h₂.model template d)

theorem classTemplateDecl_keeps (hvisit : visit.Keeps) (h : p.Sound) (source : Source) (node : Json)
    {parent : DeclId} (hparent : p.model.HasDecl parent) (access : Access) :
    p.Keeps (classTemplateDecl visit source node parent access) fun _ _ => True := by
  refine (Progress.Keeps.onModel h (templateParams_keeps h.model node parent)).bind
    fun params p₁ h₁ hgrow₁ hparams => ?_
  have htypes : ∀ t ∈ (DeclKind.classTemplate { params }).types, p₁.model.HasType t := hparams
  refine (Progress.Keeps.onModel h₁ (upsert_keeps h₁.model _ (hgrow₁.hasDecl hparent) _ access false
    (Keeps.pure h₁.model htypes))).bind ?_
  rintro ⟨template, created⟩ p₂ h₂ hgrow₂ _
  refine Progress.Keeps.forM h₂ fun child _ p₃ h₃ hgrow₃ => ?_
  refine (observe_keeps h₃ child).bind fun _ p₄ h₄ hgrow₄ _ => ?_
  have hparent₄ := hgrow₄.hasDecl (hgrow₃.hasDecl (hgrow₂.hasDecl (hgrow₁.hasDecl hparent)))
  refine Progress.Keeps.ite (Progress.Keeps.ite ?_ ?_) (Progress.Keeps.pure h₄ trivial)
  · refine (recordDecl_keeps hvisit h₄ child hparent₄ access ?_).bind fun d p₅ h₅ _ _ => ?_
    · rintro _ ⟨rfl⟩ _ ⟨⟩
    · refine Progress.Keeps.onModel h₅ (Model.modifyTemplate_keeps h₅.model ?_)
      exact fun _ => rfl
  · refine Progress.Keeps.progress_bind (Progress.Keeps.ite ?_ ?_)
    · exact specializationDecl_keeps hvisit h₄ child template access
    · exact passOver_keeps h₄ child

/-- The parameters after a redeclaration have types that are there. -/
theorem mergeParams_types {old new : List ParamInfo} (hold : ∀ o ∈ old, m.HasType o.type)
    (hnew : ∀ n ∈ new, m.HasType n.type) : ∀ r ∈ mergeParams old new, m.HasType r.type := by
  unfold mergeParams
  split
  next => exact hnew
  next =>
    intro r hr
    obtain ⟨⟨o, n⟩, hon, rfl⟩ := List.mem_map.mp hr
    exact hold o (List.of_mem_zip hon).1

/-- A further declaration of a function changes no type of it but those of its parameters. -/
theorem mergeFunction_parts (created : Bool) (n : FunctionNode) (info : FunctionInfo) :
    (mergeFunction created n info).returnType = info.returnType ∧
      (mergeFunction created n info).params =
        (if created then n.params else mergeParams info.params n.params) ∧
      (mergeFunction created n info).templateArgs = info.templateArgs := by
  unfold mergeFunction
  cases n.memberPattern <;> exact ⟨rfl, rfl, rfl⟩

theorem mergeFunction_types {created : Bool} {n : FunctionNode} {info : FunctionInfo}
    (hinfo : ∀ t ∈ (DeclKind.function info).types, m.HasType t)
    (hparams : ∀ q ∈ n.params, m.HasType q.type) :
    ∀ t ∈ (DeclKind.function (mergeFunction created n info)).types, m.HasType t := by
  have hmerged : ∀ q ∈ (if created then n.params else mergeParams info.params n.params),
      m.HasType q.type := by
    split
    · exact hparams
    · refine mergeParams_types (fun o ho => hinfo _ ?_) hparams
      simp only [DeclKind.types, List.cons_append, List.mem_cons, List.mem_append, List.mem_map]
      exact Or.inr (Or.inl ⟨o, ho, rfl⟩)
  obtain ⟨hreturn, hmergedParams, hargs⟩ := mergeFunction_parts created n info
  intro t ht
  simp only [DeclKind.types, List.cons_append, List.mem_cons, List.mem_append, List.mem_map,
    hreturn, hmergedParams, hargs] at ht
  rcases ht with rfl | ⟨q, hq, rfl⟩ | ht
  · exact hinfo _ (by simp [DeclKind.types])
  · exact hmerged q hq
  · exact hinfo t (by simp only [DeclKind.types, List.mem_append]; exact Or.inr ht)

theorem functionParams_keeps (h : p.Sound) (source : Source) (node : Json) (context : DeclId) :
    p.Keeps (functionParams source node context) fun params m' =>
      ∀ q ∈ params, m'.HasType q.type := by
  have hlasting : Keeps.Lasting fun (q : ParamInfo) m' => m'.HasType q.type :=
    fun _ _ _ hgrow hq => hgrow.hasType hq
  refine Progress.Keeps.mapM hlasting h fun param _ p₁ h₁ _ => ?_
  refine (Progress.Keeps.check h₁ _).bind fun default? p₂ h₂ _ _ => ?_
  exact (Progress.Keeps.onModel h₂ (typeOf_keeps h₂.model _ context)).bind
    fun t p₃ h₃ _ ht => Progress.Keeps.pure h₃ ht

theorem functionDecl_keeps (h : p.Sound) (source : Source) (node : Json) {scope : DeclId}
    (hscope : p.model.HasDecl scope) (access : Access) (detachedKey : Option String) :
    p.Keeps (functionDecl source node scope access detachedKey) fun d m' => m'.HasDecl d := by
  refine (ownerOf_keeps h node hscope).bind fun owner p₁ h₁ _ howner => ?_
  refine (Progress.Keeps.onModel h₁ (typeOf_keeps h₁.model _ owner)).bind
    fun type p₂ h₂ hgrow₂ _ => Progress.Keeps.model_bind ?_
  refine (functionParams_keeps h₂ source node owner).bind
    fun params p₃ h₃ hgrow₃ hparams => Progress.Keeps.model_bind ?_
  refine (Progress.Keeps.onModel h₃ (specialOf_keeps h₃.model node owner params)).bind
    fun special p₄ h₄ hgrow₄ _ => ?_
  refine (Progress.Keeps.onModel h₄ (returnTypeOf_keeps h₄.model h₂.model
    (hgrow₃.trans hgrow₄) special)).bind fun returnType p₅ h₅ hgrow₅ hreturn => ?_
  have howner₅ := hgrow₅.hasDecl (hgrow₄.hasDecl (hgrow₃.hasDecl (hgrow₂.hasDecl howner)))
  refine (Progress.Keeps.onModel h₅ (upsert_keeps h₅.model _ howner₅ _ access _
    (Keeps.pure h₅.model ?_))).bind ?_
  · simpa [DeclKind.types] using hreturn
  rintro ⟨d, created⟩ p₆ h₆ hgrow₆ hd
  dsimp -zeta only
  extract_lets finished
  have hfinished : ∀ {p' : Progress}, p'.Sound → p₆.model.GrowsTo p'.model →
      p'.Keeps (finished ()) fun d m' => m'.HasDecl d := by
    intro p' h' hgrow
    refine Progress.Keeps.model_bind <| Progress.Keeps.bind (Progress.Keeps.onModel h'
      (Model.modifyFunction_keeps h'.model ?_)) fun _ p₇ h₇ hgrow₇ _ => ?_
    · intro e info he hkind
      refine mergeFunction_types ?_ ?_
      · intro t ht
        exact h'.model.types d e he t (by rw [hkind]; exact ht)
      · intro q hq
        exact (hgrow₄.trans (hgrow₅.trans (hgrow₆.trans hgrow))).hasType (hparams q hq)
    · exact (passOver_keeps h₇ node).bind fun _ p₈ h₈ hgrow₈ _ =>
        Progress.Keeps.pure h₈ (hgrow₈.hasDecl (hgrow₇.hasDecl (hgrow.hasDecl hd)))
  refine Progress.Keeps.ite ?_ (hfinished h₆ (GrowsTo.refl _))
  exact (Progress.Keeps.onModel h₆ (Model.setImplicit_keeps h₆.model d)).bind
    fun _ p₇ h₇ hgrow₇ _ => hfinished h₇ hgrow₇

theorem functionTemplateMember_keeps (h : p.Sound) (source : Source) {parent : DeclId}
    (hparent : p.model.HasDecl parent) (access : Access) (template : DeclId)
    (pattern : Option DeclId) (child : Json) :
    p.Keeps (functionTemplateMember source parent access template pattern child)
      fun _ _ => True := by
  refine (observe_keeps h child).bind fun _ p₁ h₁ hgrow₁ _ => ?_
  have hparent₁ := hgrow₁.hasDecl hparent
  refine Progress.Keeps.ite ?_ ?_
  · split
    next =>
      refine (functionDecl_keeps h₁ source child hparent₁ access _).bind fun d p₂ h₂ _ _ => ?_
      refine Progress.Keeps.bind (Progress.Keeps.onModel h₂
        (Model.modifyFunction_keeps h₂.model ?_)) fun _ p₃ h₃ _ _ => Progress.Keeps.pure h₃ trivial
      intro e info he hkind t ht
      exact h₂.model.types d e he t (by rw [hkind]; exact ht)
    next pattern =>
      refine (Progress.Keeps.onModel h₁ (templateArgs_keeps h₁.model child parent)).bind
        fun args p₂ h₂ hgrow₂ hargs => Progress.Keeps.model_bind ?_
      refine (functionDecl_keeps h₂ source child (hgrow₂.hasDecl hparent₁) access _).bind
        fun d p₃ h₃ hgrow₃ _ => ?_
      refine Progress.Keeps.bind (Progress.Keeps.onModel h₃
        (Model.modifyFunction_keeps h₃.model ?_)) fun _ p₄ h₄ _ _ => ?_
      · intro e info he hkind t ht
        have hold := h₃.model.types d e he
        simp only [hkind, DeclKind.types, List.cons_append, List.mem_cons,
          List.mem_append] at hold ht
        rcases ht with ht | ht | ht
        · exact hold t (Or.inl ht)
        · exact hold t (Or.inr (Or.inl ht))
        · exact hgrow₃.hasType (hargs t ht)
      · exact (Progress.Keeps.onModel h₄ (listSpecialization_keeps h₄.model template d)).bind
          fun _ p₅ h₅ _ _ => Progress.Keeps.pure h₅ trivial
  · exact (passOver_keeps h₁ child).bind fun _ p₂ h₂ _ _ => Progress.Keeps.pure h₂ trivial

theorem functionTemplateDecl_keeps (h : p.Sound) (source : Source) (node : Json) {parent : DeclId}
    (hparent : p.model.HasDecl parent) (access : Access) :
    p.Keeps (functionTemplateDecl source node parent access) fun _ _ => True := by
  refine (Progress.Keeps.onModel h (templateParams_keeps h.model node parent)).bind
    fun params p₁ h₁ hgrow₁ hparams => ?_
  have htypes : ∀ t ∈ (DeclKind.functionTemplate { params }).types, p₁.model.HasType t := hparams
  refine (Progress.Keeps.onModel h₁ (upsert_keeps h₁.model _ (hgrow₁.hasDecl hparent) _ access false
    (Keeps.pure h₁.model htypes))).bind ?_
  rintro ⟨template, created⟩ p₂ h₂ hgrow₂ _
  refine Progress.Keeps.bind (Progress.Keeps.foldlM (P := fun _ _ => True) h₂ trivial
    fun child _ pattern p₃ h₃ hgrow₃ _ => ?_) fun pattern p₃ h₃ _ _ => ?_
  · have hparent₃ := hgrow₃.hasDecl (hgrow₂.hasDecl (hgrow₁.hasDecl hparent))
    exact functionTemplateMember_keeps h₃ source hparent₃ access template pattern child
  · refine Progress.Keeps.onModel h₃ (Model.modifyTemplate_keeps h₃.model ?_)
    exact fun _ => rfl

theorem fieldDecl_keeps (h : p.Sound) (node : Json) {record : DeclId}
    (hrecord : p.model.HasDecl record) (access : Access) :
    p.Keeps (fieldDecl node record access) fun _ _ => True := by
  unfold fieldDecl
  extract_lets name declared
  have hdeclared : ∀ key {p' : Progress}, p'.Sound → p.model.GrowsTo p'.model →
      p'.Keeps (declared key) fun _ _ => True := by
    intro key p' h' hgrow
    refine (Progress.Keeps.onModel h' (upsert_keeps h'.model key (hgrow.hasDecl hrecord) name access
      false ?_)).bind fun _ p₁ h₁ _ _ => Progress.Keeps.pure h₁ trivial
    refine (Model.parseType_keeps h'.model _ record).bind fun t m' hwf _ ht => Keeps.pure hwf ?_
    simpa [DeclKind.types] using ht
  refine Progress.Keeps.ite ?_ ?_
  · exact (unnamedKey_keeps h record "field").bind fun key p' h' hgrow _ => hdeclared key h' hgrow
  · exact Progress.Keeps.pure_bind (hdeclared _ h (GrowsTo.refl _))

theorem varDecl_keeps (h : p.Sound) (node : Json) {scope : DeclId}
    (hscope : p.model.HasDecl scope) (access : Access) :
    p.Keeps (varDecl node scope access) fun _ _ => True := by
  refine (ownerOf_keeps h node hscope).bind fun owner p₁ h₁ _ howner => ?_
  refine Progress.Keeps.bind (Progress.Keeps.onModel h₁ (upsert_keeps h₁.model _ howner _ _ false
    ?_)) ?_
  · refine (Model.parseType_keeps h₁.model _ owner).bind fun t m' hwf _ ht => Keeps.pure hwf ?_
    simpa [DeclKind.types] using ht
  rintro ⟨d, created⟩ p₂ h₂ _ _
  dsimp only
  split
  next mangled _ =>
    refine Progress.Keeps.onModel h₂ (Model.modifyKind_keeps h₂.model (fun e => ?_) fun e he => ?_)
    · split <;> simp
    · have htypes := h₂.model.types d e he
      split
      next info hkind =>
        simp only [hkind, DeclKind.types, DeclKind.Continues, true_and] at htypes ⊢
        exact htypes
      next => exact ⟨DeclKind.Continues.refl _, htypes⟩
  next => exact Progress.Keeps.pure h₂ trivial

theorem enumeratorDecl_keeps (h : p.Sound) {enum : DeclId} (henum : p.model.HasDecl enum)
    {type : TypeId} (htype : p.model.HasType type) (r : EnumeratorRange) (child : Json) :
    p.Keeps (enumeratorDecl enum type r child) fun _ _ => True := by
  refine (observe_keeps h child).bind fun _ p₁ h₁ hgrow₁ _ => Progress.Keeps.ite ?_ ?_
  · refine (Progress.Keeps.onModel h₁ (upsert_keeps h₁.model _ (hgrow₁.hasDecl henum) _ .none false
      (Keeps.pure h₁.model ?_))).bind ?_
    · simpa [DeclKind.types] using hgrow₁.hasType htype
    rintro ⟨d, created⟩ p₂ h₂ _ _
    refine Progress.Keeps.bind (Progress.Keeps.onModel h₂
      (Model.modifyKind_keeps h₂.model (fun e => ?_) fun e he => ?_)) fun _ p₃ h₃ _ _ => ?_
    · split <;> simp
    · have htypes := h₂.model.types d e he
      split
      next hkind =>
        simp only [hkind, DeclKind.types, DeclKind.Continues, true_and] at htypes ⊢
        exact htypes
      next => exact ⟨DeclKind.Continues.refl _, htypes⟩
    · exact (passOver_keeps h₃ child).bind fun _ p₄ h₄ _ _ => Progress.Keeps.pure h₄ trivial
  · exact (passOver_keeps h₁ child).bind fun _ p₂ h₂ _ _ => Progress.Keeps.pure h₂ trivial

theorem enumDecl_keeps (h : p.Sound) (node : Json) {parent : DeclId}
    (hparent : p.model.HasDecl parent) (access : Access) :
    p.Keeps (enumDecl node parent access) fun _ _ => True := by
  unfold enumDecl
  extract_lets name isScoped declared
  have hdeclared : ∀ key {p' : Progress}, p'.Sound → p.model.GrowsTo p'.model →
      p'.Keeps (declared key) fun _ _ => True := by
    intro key p' h' hgrow
    refine Progress.Keeps.bind (Progress.Keeps.onModel h' (upsert_keeps h'.model key
      (hgrow.hasDecl hparent) name access false ?_)) ?_
    · refine (builtin_keeps h'.model .int).bind fun t m' hwf _ ht => Keeps.pure hwf ?_
      simpa [DeclKind.types] using ht
    rintro ⟨d, created⟩ p₁ h₁ _ hd
    refine (Progress.Keeps.onModel h₁ (Model.internKind_keeps h₁.model (by simp [TypeKind.parts])
      ?_)).bind fun type p₂ h₂ hgrow₂ htype => ?_
    · rintro _ ⟨rfl⟩
      exact hd
    have hd₂ := hgrow₂.hasDecl hd
    have htype₂ := Model.hasType_of_get? htype
    have hconstants : p₂.Keeps ((children node).foldlM (enumeratorDecl d type) {})
        fun _ _ => True := by
      refine Progress.Keeps.foldlM h₂ trivial fun child _ r p₃ h₃ hgrow₃ _ => ?_
      exact enumeratorDecl_keeps h₃ (hgrow₃.hasDecl hd₂) (hgrow₃.hasType htype₂) r child
    refine hconstants.bind fun range p₃ h₃ _ _ => ?_
    extract_lets completed
    have hcompleted : ∀ {integerType} {p₄ : Progress}, p₄.Sound → p₄.model.HasType integerType →
        p₄.Keeps (completed integerType) fun _ _ => True := by
      intro integerType p₄ h₄ hinteger
      refine Progress.Keeps.onModel h₄ (Model.modifyKind_keeps h₄.model (fun e => ?_) fun e he => ?_)
      · split <;> simp
      · split
        next info hkind =>
          refine ⟨by simp [hkind, DeclKind.Continues], ?_⟩
          simpa [DeclKind.types] using hinteger
        next => exact ⟨DeclKind.Continues.refl _, h₄.model.types d e he⟩
    split
    next spelling _ =>
      exact (Progress.Keeps.onModel h₃ (Model.parseType_keeps h₃.model spelling parent)).bind
        fun _ p₄ h₄ _ ht => hcompleted h₄ ht
    next =>
      exact (Progress.Keeps.onModel h₃ (builtin_keeps h₃.model _)).bind
        fun _ p₄ h₄ _ ht => hcompleted h₄ ht
  refine Progress.Keeps.ite ?_ ?_
  · exact (unnamedKey_keeps h parent "enum").bind fun key p' h' hgrow _ => hdeclared key h' hgrow
  · exact Progress.Keeps.pure_bind (hdeclared _ h (GrowsTo.refl _))

/-- The type that a typedef stands for is there before the typedef is declared. -/
theorem typedefDecl_keeps (h : p.Sound) (node : Json) {parent : DeclId}
    (hparent : p.model.HasDecl parent) (access : Access) {unnamed : Option DeclId}
    (hunnamed : ∀ d ∈ unnamed, p.model.HasDecl d) :
    p.Keeps (typedefDecl node parent access unnamed) fun _ _ => True := by
  unfold typedefDecl
  extract_lets name spelling namesUnnamed
  refine (Progress.Keeps.onModel h (upsert_keeps h.model _ hparent name access false ?_)).bind
    fun _ p₁ h₁ _ _ => Progress.Keeps.pure h₁ trivial
  split
  next record hrecord =>
    refine (Model.internKind_keeps h.model (by simp [TypeKind.parts]) ?_).bind
      fun t m' hwf _ ht => Keeps.pure hwf ?_
    · rintro _ ⟨rfl⟩
      split at hrecord
      · exact hunnamed record hrecord
      · simp at hrecord
    · simpa [DeclKind.types] using Model.hasType_of_get? ht
  next =>
    refine (Model.parseType_keeps h.model _ parent).bind fun t m' hwf _ ht => Keeps.pure hwf ?_
    simpa [DeclKind.types] using ht

/-! ## Visiting -/

/-- The unnamed class that a typedef may name is declared. -/
def MemberState.Sound (s : MemberState) (m : Model) : Prop := ∀ d ∈ s.unnamed, m.HasDecl d

theorem MemberState.Sound.grow {s : MemberState} {m' : Model} (hs : s.Sound m)
    (hgrow : m.GrowsTo m') : s.Sound m' :=
  fun d hd => hgrow.hasDecl (hs d hd)

theorem recordMember_keeps (hvisit : visit.Keeps) (h : p.Sound) {scope : DeclId}
    (hscope : p.model.HasDecl scope) {s : MemberState} (hs : s.Sound p.model) (node : Json) :
    p.Keeps (recordMember visit scope s node) MemberState.Sound := by
  refine Progress.Keeps.ite ?_ ?_
  · exact (passOver_keeps h node).bind fun _ p₁ h₁ hgrow₁ _ =>
      Progress.Keeps.pure h₁ (hs.grow hgrow₁)
  refine (recordDecl_keeps hvisit h node hscope s.access (by simp)).bind
    fun d p₁ h₁ hgrow₁ hd => Progress.Keeps.ite ?_ ?_
  · refine Progress.Keeps.pure h₁ ?_
    rintro _ ⟨rfl⟩
    exact hd
  · exact Progress.Keeps.pure h₁ (hs.grow hgrow₁)

theorem declare_keeps (hvisit : visit.Keeps) (h : p.Sound) (source : Source) {scope : DeclId}
    (hscope : p.model.HasDecl scope) {s : MemberState} (hs : s.Sound p.model) (node : Json) :
    p.Keeps (declare visit source scope s node) MemberState.Sound := by
  unfold declare
  extract_lets finished
  have hthen : ∀ {p' : Progress} {x : IngestM PUnit}, p.model.GrowsTo p'.model →
      p'.Keeps x (fun _ _ => True) → p'.Keeps (x >>= finished) MemberState.Sound := by
    intro p' x hgrow hx
    exact hx.bind fun _ p'' h'' hgrow' _ => Progress.Keeps.pure h'' (hs.grow (hgrow.trans hgrow'))
  have hskip : ∀ {p' : Progress}, p'.Sound → p.model.GrowsTo p'.model →
      p'.Keeps (passOver node >>= finished) MemberState.Sound :=
    fun h' hgrow => hthen hgrow (passOver_keeps h' node)
  split
  next => exact Progress.Keeps.pure h hs
  next => exact hthen (GrowsTo.refl _) (hvisit node scope s.access p h hscope)
  next => exact hthen (GrowsTo.refl _) (hvisit node scope s.access p h hscope)
  next => exact hthen (GrowsTo.refl _) (namespaceDecl_keeps hvisit h node hscope)
  next =>
    exact (Progress.Keeps.onModel h (usingDirective_keeps h.model node scope)).bind
      fun _ p₁ h₁ hgrow₁ _ => hskip h₁ hgrow₁
  next => exact recordMember_keeps hvisit h hscope hs node
  next => exact recordMember_keeps hvisit h hscope hs node
  next => exact hthen (GrowsTo.refl _) (classTemplateDecl_keeps hvisit h source node hscope s.access)
  next =>
    refine Progress.Keeps.model_bind ?_
    extract_lets found
    clear_value found
    cases found with
    | some template =>
        exact hthen (GrowsTo.refl _) (specializationDecl_keeps hvisit h node template s.access)
    | none => exact hskip h (GrowsTo.refl _)
  next => exact hthen (GrowsTo.refl _) (functionTemplateDecl_keeps h source node hscope s.access)
  next => exact hthen (GrowsTo.refl _) (enumDecl_keeps h node hscope s.access)
  next =>
    exact (typedefDecl_keeps h node hscope s.access hs).bind
      fun _ p₁ h₁ hgrow₁ _ => hskip h₁ hgrow₁
  next =>
    exact (typedefDecl_keeps h node hscope s.access hs).bind
      fun _ p₁ h₁ hgrow₁ _ => hskip h₁ hgrow₁
  next =>
    exact (fieldDecl_keeps h node hscope s.access).bind fun _ p₁ h₁ hgrow₁ _ => hskip h₁ hgrow₁
  next =>
    exact (varDecl_keeps h node hscope s.access).bind fun _ p₁ h₁ hgrow₁ _ => hskip h₁ hgrow₁
  next =>
    refine Progress.Keeps.ite ?_ (hskip h (GrowsTo.refl _))
    exact (functionDecl_keeps h source node hscope s.access none).bind
      fun d p₁ h₁ hgrow₁ _ => Progress.Keeps.pure h₁ (hs.grow hgrow₁)

theorem visitMember_keeps (hvisit : visit.Keeps) (h : p.Sound) (source : Source) {scope : DeclId}
    (hscope : p.model.HasDecl scope) {s : MemberState} (hs : s.Sound p.model) (node : Json) :
    p.Keeps (visitMember visit source scope s node) MemberState.Sound := by
  refine (observe_keeps h node).bind fun _ p₁ h₁ hgrow₁ _ => Progress.Keeps.progress_bind ?_
  have hs₁ := hs.grow hgrow₁
  refine Progress.Keeps.ite ?_ ?_
  · exact declare_keeps hvisit h₁ source (hgrow₁.hasDecl hscope) hs₁ node
  · exact (passOver_keeps h₁ node).bind fun _ p₂ h₂ hgrow₂ _ =>
      Progress.Keeps.pure h₂ (hs₁.grow hgrow₂)

/-- The visitor that is tied to the handlers keeps every state sound, down to any depth. -/
theorem visitMembers_keeps (source : Source) (fuel : Nat) :
    Visitor.Keeps (visitMembers source fuel) := by
  induction fuel with
  | zero => exact fun _ _ _ p h _ => Progress.Keeps.pure h trivial
  | succ fuel ih =>
      intro node scope access p h hscope
      refine (Progress.Keeps.foldlM (P := MemberState.Sound) h ?_
        fun child _ s p₁ h₁ hgrow₁ hs => ?_).bind fun _ p₂ h₂ _ _ => Progress.Keeps.pure h₂ trivial
      · simp [MemberState.Sound]
      · exact visitMember_keeps ih h₁ source (hgrow₁.hasDecl hscope) hs child

theorem visitDump_keeps (h : p.Sound) (source : Source) (node : Json) :
    p.Keeps (visitDump source node) fun _ _ => True := by
  refine (observe_keeps h node).bind fun _ p₁ h₁ _ _ => ?_
  exact visitMembers_keeps source _ node Model.root .none p₁ h₁ h₁.model.translationUnit.1

/-- Ingesting a dump, be it one that is given up. -/
theorem ingestNode_keeps (h : m.WellFormed) (source : Source) (node : Json) :
    m.Keeps (ingestNode source node).run fun _ _ => True := by
  have hvisit := visitDump_keeps (p := start m) ⟨h, by simp [start]⟩ source node
  have hrun : ((ingestNode source node).run.run m).2 =
      ((visitDump source node).run.run (start m)).2.model := by
    rw [run_ingestNode]
    rcases (visitDump source node).run.run (start m) with ⟨_ | _, p'⟩ <;> rfl
  exact ⟨hrun ▸ hvisit.sound.model, hrun ▸ hvisit.grows, trivial⟩

theorem ingest_keeps (h : m.WellFormed) (source : Source) (dump : String) :
    m.Keeps (ingest source dump).run fun _ _ => True := by
  unfold ingest
  split
  next node _ => exact ingestNode_keeps h source node
  next => exact ⟨h, GrowsTo.refl _, trivial⟩

end CppReflect.Ast
