import CppReflect.Model.Sugar
import CppReflect.Proofs.Model.Growth
import CppReflect.Proofs.TypeTable

/-!
# Well-formed models

The invariant of the two tables of a model, and the primitive steps that keep it: interning a type,
appending a declaration, changing one and binding a key. Types name only types in front of them, and
so do typedefs: the type that a typedef stands for has its place before the typedef is declared, and
a type that names the typedef comes later still. Every walk over types therefore runs downwards.
-/

namespace CppReflect

/-- The types that a template argument names. -/
def TemplateArg.types (a : TemplateArg) : List TypeId := [a.type]

/-- The types that a template parameter names. -/
def TemplateParam.types (p : TemplateParam) : List TypeId :=
  match p.kind with
  | .nonType type => [type]
  | .type | .template => []

/-- The types that a declaration names. -/
def DeclKind.types : DeclKind → List TypeId
  | .translationUnit | .namespaceDecl _ => []
  | .record info =>
    info.bases.map BaseSpecifier.type ++
      info.specialization.elim [] fun s => s.args.flatMap TemplateArg.types
  | .enum info => [info.integerType]
  | .enumConstant _ type => [type]
  | .variableDecl info => [info.type]
  | .function info =>
    info.returnType :: info.params.map ParamInfo.type ++
      info.templateArgs.flatMap TemplateArg.types
  | .typedef underlying => [underlying]
  | .classTemplate info | .functionTemplate info => info.params.flatMap TemplateParam.types

namespace Model

/-- The members are listed in the order of their places, and each has `p` as its scope. -/
structure Lists (m : Model) (p : DeclId) (members : List DeclId) : Prop where
  sorted : members.Pairwise fun c d => c.index < d.index
  parent : ∀ d ∈ members, ∃ e, m.decl? d = some e ∧ e.parent = some p

/-- What every model that is filled by the operations of this library satisfies. -/
structure WellFormed (m : Model) : Prop where
  translationUnit : m.HasDecl root ∧ (m.decl root).kind = .translationUnit ∧ (m.decl root).parent = none
  nodup : m.types.nodes.toList.Nodup
  partsBelow : ∀ t n, m.types.get? t = some n → ∀ p ∈ n.kind.parts, p.index < t.index
  declExists : ∀ t n, m.types.get? t = some n → ∀ d ∈ n.kind.decl?, m.HasDecl d
  underlyingBelow : ∀ t n d u, m.types.get? t = some n → n.kind = .typedef d →
    (m.decl d).underlying? = some u → u.index < t.index
  parentBelow : ∀ d e, m.decl? d = some e → d ≠ root → ∃ p, e.parent = some p ∧ p.index < d.index
  members : ∀ d e, m.decl? d = some e → m.Lists d e.members
  types : ∀ d e, m.decl? d = some e → ∀ t ∈ e.kind.types, m.HasType t
  keys : ∀ key d, m.keyed? key = some d → m.HasDecl d

namespace WellFormed

variable {m : Model}

theorem underlying_hasType (h : m.WellFormed) {d : DeclId} {u : TypeId}
    (hu : (m.decl d).underlying? = some u) : m.HasType u := by
  apply h.types d _ (decl?_eq_decl (hasDecl_of_underlying? hu))
  unfold Decl.underlying? at hu
  split at hu
  next ty hkind =>
    rw [hkind]
    simp only [Option.some.injEq] at hu
    simp [DeclKind.types, hu]
  next => simp at hu

theorem parent_lt (h : m.WellFormed) {d p : DeclId} (hp : (m.decl d).parent = some p) :
    p.index < d.index := by
  have hroot : d ≠ root := by
    rintro rfl
    cases h.translationUnit.2.2.symm.trans hp
  obtain ⟨q, hq, hlt⟩ := h.parentBelow d _ (decl?_eq_decl (hasDecl_of_parent hp)) hroot
  obtain rfl := Option.some.inj (hp.symm.trans hq)
  exact hlt

theorem parent_hasDecl (h : m.WellFormed) {d p : DeclId} (hp : (m.decl d).parent = some p) :
    m.HasDecl p :=
  Nat.lt_trans (h.parent_lt hp) (hasDecl_of_parent hp)

/-- A scope is declared before its members. -/
theorem member_lt (h : m.WellFormed) {p d : DeclId} (hd : d ∈ (m.decl p).members) :
    p.index < d.index ∧ m.HasDecl d := by
  have hp := decl?_eq_decl (hasDecl_of_mem_members hd)
  obtain ⟨e, he, hparent⟩ := (h.members p _ hp).parent d hd
  exact ⟨h.parent_lt (by rw [decl, he, Option.getD_some, hparent]), hasDecl_iff.mpr ⟨e, he⟩⟩

end WellFormed

/-- At the start there is the translation unit and nothing else. -/
theorem decl?_empty {d : DeclId} {e : Decl} (h : empty.decl? d = some e) :
    d = root ∧ e = rootDecl := by
  cases hi : d.index with
  | zero =>
      simp only [decl?, empty, hi, List.getElem?_toArray, List.getElem?_cons_zero,
        Option.some.injEq] at h
      exact ⟨by cases d; simp_all [root], h.symm⟩
  | succ i => simp [decl?, empty, hi] at h

/-- The model of the translation unit alone is well-formed. -/
theorem wellFormed_empty : empty.WellFormed := by
  have htype : ∀ t n, empty.types.get? t = some n → False := by
    intro t n ht
    simp [TypeTable.get?, empty, TypeTable.empty] at ht
  exact {
    translationUnit := ⟨Nat.zero_lt_one, rfl, rfl⟩
    nodup := List.nodup_nil
    partsBelow := fun t n ht => (htype t n ht).elim
    declExists := fun t n ht => (htype t n ht).elim
    underlyingBelow := fun t n _ _ ht => (htype t n ht).elim
    parentBelow := fun d e hd hroot => absurd (decl?_empty hd).1 hroot
    members := by
      intro d e hd
      rw [(decl?_empty hd).2]
      exact ⟨List.Pairwise.nil, by simp [rootDecl]⟩
    types := by
      intro d e hd
      rw [(decl?_empty hd).2]
      simp [rootDecl, DeclKind.types]
    keys := by simp [keyed?, empty] }

/-! ## Computations that keep models well-formed -/

/-- Running `x` leaves a well-formed model that `m` has grown to, and the answer satisfies `post`
there. -/
structure Keeps {α : Type} (m : Model) (x : ModelM α) (post : α → Model → Prop) : Prop where
  wellFormed : (x.run m).2.WellFormed
  grows : m.GrowsTo (x.run m).2
  answer : post (x.run m).1 (x.run m).2

namespace Keeps

variable {α β : Type} {m : Model} {post : α → Model → Prop}

theorem pure (h : m.WellFormed) {a : α} (ha : post a m) : m.Keeps (pure a) post :=
  ⟨h, GrowsTo.refl m, ha⟩

/-- The second computation starts from any model that the first one can leave. -/
theorem bind {x : ModelM α} {f : α → ModelM β} {final : β → Model → Prop} (hx : m.Keeps x post)
    (hf : ∀ a m', m'.WellFormed → m.GrowsTo m' → post a m' → m'.Keeps (f a) final) :
    m.Keeps (x >>= f) final := by
  have hrest := hf _ _ hx.wellFormed hx.grows hx.answer
  exact ⟨hrest.wellFormed, hx.grows.trans hrest.grows, hrest.answer⟩

theorem get_bind {f : Model → ModelM β} {final : β → Model → Prop} (hf : m.Keeps (f m) final) :
    m.Keeps (get >>= f) final := ⟨hf.wellFormed, hf.grows, hf.answer⟩

theorem weaken {x : ModelM α} {final : α → Model → Prop} (hx : m.Keeps x post)
    (himp : ∀ a m', m'.WellFormed → m.GrowsTo m' → post a m' → final a m') : m.Keeps x final :=
  ⟨hx.wellFormed, hx.grows, himp _ _ hx.wellFormed hx.grows hx.answer⟩

theorem map {x : ModelM α} {f : α → β} {final : β → Model → Prop}
    (hx : m.Keeps x fun a m' => final (f a) m') : m.Keeps (f <$> x) final :=
  ⟨hx.wellFormed, hx.grows, hx.answer⟩

theorem ite {c : Prop} [Decidable c] {x y : ModelM α} (hx : m.Keeps x post) (hy : m.Keeps y post) :
    m.Keeps (if c then x else y) post := by
  split
  · exact hx
  · exact hy

/-- A fact about an answer that further growth does not undo. -/
def Lasting (P : α → Model → Prop) : Prop := ∀ a m m', m.GrowsTo m' → P a m → P a m'

/-- Computations on the elements of a list, one after the other. -/
theorem mapM {f : α → ModelM β} {P : β → Model → Prop} (hlasting : Lasting P) {l : List α}
    (h : m.WellFormed)
    (hf : ∀ a ∈ l, ∀ m', m'.WellFormed → m.GrowsTo m' → m'.Keeps (f a) P) :
    m.Keeps (l.mapM f) fun bs m' => ∀ b ∈ bs, P b m' := by
  induction l generalizing m with
  | nil => exact Keeps.pure h (by simp)
  | cons a l ih =>
      rw [List.mapM_cons]
      refine (hf a List.mem_cons_self m h (GrowsTo.refl m)).bind fun b m₁ hwf₁ hgrow₁ hb => ?_
      refine Keeps.bind (ih hwf₁ fun c hc m' hwf hgrow =>
        hf c (List.mem_cons_of_mem a hc) m' hwf (hgrow₁.trans hgrow)) fun bs m₂ hwf₂ hgrow₂ hbs => ?_
      refine Keeps.pure hwf₂ ?_
      intro c hc
      rcases List.mem_cons.mp hc with rfl | hc
      · exact hlasting c m₁ m₂ hgrow₂ hb
      · exact hbs c hc

theorem forM {f : α → ModelM PUnit} {l : List α} (h : m.WellFormed)
    (hf : ∀ a ∈ l, ∀ m', m'.WellFormed → m.GrowsTo m' → m'.Keeps (f a) fun _ _ => True) :
    m.Keeps (l.forM f) fun _ _ => True := by
  induction l generalizing m with
  | nil => exact Keeps.pure h trivial
  | cons a l ih =>
      change m.Keeps (f a >>= fun _ => l.forM f) _
      refine (hf a List.mem_cons_self m h (GrowsTo.refl m)).bind fun _ m₁ hwf₁ hgrow₁ _ => ?_
      exact ih hwf₁ fun c hc m' hwf hgrow =>
        hf c (List.mem_cons_of_mem a hc) m' hwf (hgrow₁.trans hgrow)

theorem lasting_hasType : Lasting fun t m => m.HasType t := fun _ _ _ hgrow ht => hgrow.hasType ht

end Keeps

/-! ## The primitive steps -/

variable {m : Model}

/-- Putting a new type at the end of the table. -/
theorem WellFormed.push (h : m.WellFormed) {n : TypeNode} (hnew : n ∉ m.types.nodes.toList)
    (hparts : ∀ p ∈ n.kind.parts, m.HasType p) (hdecl : ∀ d ∈ n.kind.decl?, m.HasDecl d) :
    ({ m with types := ⟨m.types.nodes.push n⟩ } : Model).WellFormed where
  translationUnit := h.translationUnit
  nodup := by
    rw [Array.toList_push, List.nodup_append]
    refine ⟨h.nodup, List.nodup_cons.mpr ⟨List.not_mem_nil, List.nodup_nil⟩, ?_⟩
    intro a ha b hb
    rw [List.mem_singleton.mp hb]
    exact fun heq => hnew (heq ▸ ha)
  partsBelow t k hk p hp := by
    rcases TypeTable.get?_push hk with hold | ⟨hindex, rfl⟩
    · exact h.partsBelow t k hold p hp
    · exact hindex ▸ hparts p hp
  declExists t k hk d hd := by
    rcases TypeTable.get?_push hk with hold | ⟨_, rfl⟩
    · exact h.declExists t k hold d hd
    · exact hdecl d hd
  underlyingBelow t k d u hk hkind hu := by
    rcases TypeTable.get?_push hk with hold | ⟨hindex, rfl⟩
    · exact h.underlyingBelow t k d u hold hkind hu
    · exact hindex ▸ h.underlying_hasType hu
  parentBelow := h.parentBelow
  members := fun d e hd => ⟨(h.members d e hd).sorted, (h.members d e hd).parent⟩
  types d e hd t ht := by
    have hold := h.types d e hd t ht
    simp only [HasType, TypeTable.size, Array.size_push] at hold ⊢
    exact Nat.lt_succ_of_lt hold
  keys := h.keys

/-- Interning a type whose parts and declaration exist. -/
theorem intern_keeps (h : m.WellFormed) {n : TypeNode} (hparts : ∀ p ∈ n.kind.parts, m.HasType p)
    (hdecl : ∀ d ∈ n.kind.decl?, m.HasDecl d) :
    m.Keeps (intern n) fun t m' => m'.types.get? t = some n where
  wellFormed := by
    change ({ m with types := (m.types.intern n).2 } : Model).WellFormed
    by_cases hmem : n ∈ m.types.nodes.toList
    · obtain ⟨i, hi⟩ := List.getElem?_of_mem hmem
      have hget : m.types.get? ⟨i⟩ = some n := by rw [TypeTable.get?_eq_toList, hi]
      rw [TypeTable.intern_of_get? h.nodup hget]
      exact h
    · rw [TypeTable.intern_of_not_mem hmem]
      exact h.push hmem hparts hdecl
  grows :=
    ⟨fun _ e hd => ⟨e, hd, Decl.Continues.refl e⟩,
      fun _ _ ht => TypeTable.get?_intern_of_get? ht⟩
  answer := TypeTable.get?_intern m.types n

theorem growsTo_append {e : Decl} : m.GrowsTo { m with decls := m.decls.push e } where
  decls _ x hd := ⟨x, decl?_append_of_decl? hd, Decl.Continues.refl x⟩
  types _ _ ht := ht

/-- Appending a declaration without members to a scope that exists. -/
theorem WellFormed.append (h : m.WellFormed) {e : Decl} {p : DeclId} (hparent : e.parent = some p)
    (hp : m.HasDecl p) (hmembers : e.members = []) (htypes : ∀ t ∈ e.kind.types, m.HasType t) :
    ({ m with decls := m.decls.push e } : Model).WellFormed := by
  have hold : ∀ {d}, m.HasDecl d → ({ m with decls := m.decls.push e } : Model).decl d = m.decl d := by
    intro d hd
    obtain ⟨x, hx⟩ := hasDecl_iff.mp hd
    rw [decl, decl, decl?_append_of_decl? hx, hx]
  exact {
    translationUnit := by
      obtain ⟨hroot, hkind, hnone⟩ := h.translationUnit
      rw [hold hroot]
      exact ⟨growsTo_append.hasDecl hroot, hkind, hnone⟩
    nodup := h.nodup
    partsBelow := h.partsBelow
    declExists := fun t n ht d hd => growsTo_append.hasDecl (h.declExists t n ht d hd)
    underlyingBelow := by
      intro t n d u ht hkind hu
      rw [hold (h.declExists t n ht d (by simp [hkind, TypeKind.decl?]))] at hu
      exact h.underlyingBelow t n d u ht hkind hu
    parentBelow := by
      intro d x hd hroot
      rcases decl?_append_cases hd with hd | ⟨hindex, rfl⟩
      · exact h.parentBelow d x hd hroot
      · exact ⟨p, hparent, hindex ▸ hp⟩
    members := by
      intro d x hd
      rcases decl?_append_cases hd with hd | ⟨_, rfl⟩
      · refine ⟨(h.members d x hd).sorted, fun c hc => ?_⟩
        obtain ⟨y, hy, hparent⟩ := (h.members d x hd).parent c hc
        exact ⟨y, decl?_append_of_decl? hy, hparent⟩
      · rw [hmembers]
        exact ⟨List.Pairwise.nil, by simp⟩
    types := by
      intro d x hd
      rcases decl?_append_cases hd with hd | ⟨_, rfl⟩
      · exact h.types d x hd
      · exact htypes
    keys := fun key d hk => growsTo_append.hasDecl (h.keys key d hk) }

/-- Appending a declaration to a scope that exists. -/
theorem addDetached_keeps (h : m.WellFormed) {parent : DeclId} (hparent : m.HasDecl parent)
    (name : String) (access : Access) {kind : DeclKind} (htypes : ∀ t ∈ kind.types, m.HasType t) :
    m.Keeps (addDetached parent name access kind) fun d m' => d = ⟨m.decls.size⟩ ∧
      m' = { m with decls := m.decls.push { name, kind, parent := some parent, access } } where
  wellFormed := h.append rfl hparent rfl htypes
  grows := growsTo_append
  answer := ⟨rfl, rfl⟩

/-- What a change of a declaration has to leave as it is. -/
structure Admits (m : Model) (d : DeclId) (e e' : Decl) : Prop where
  continues : e.Continues e'
  members : m.Lists d e'.members
  types : ∀ t ∈ e'.kind.types, m.HasType t

theorem Lists.grow {m m' : Model} (hgrow : m.GrowsTo m') {p : DeclId} {members : List DeclId}
    (h : m.Lists p members) : m'.Lists p members := by
  refine ⟨h.sorted, fun d hd => ?_⟩
  obtain ⟨e, he, hparent⟩ := h.parent d hd
  obtain ⟨e', he', hcont⟩ := hgrow.decls d e he
  exact ⟨e', he', hcont.parent.trans hparent⟩

/-- A well-formed model stays well-formed when it grows by what its declarations admit, with the
same table of types and the same keys. -/
theorem WellFormed.change (h : m.WellFormed) {decls : Array Decl} (hsize : decls.size = m.decls.size)
    (hdecls : ∀ d e, m.decl? d = some e → ∃ e',
      ({ m with decls } : Model).decl? d = some e' ∧ m.Admits d e e') :
    ({ m with decls } : Model).WellFormed ∧ m.GrowsTo { m with decls } := by
  have hgrow : m.GrowsTo { m with decls } := by
    refine ⟨fun d e hd => ?_, fun _ _ ht => ht⟩
    obtain ⟨e', he', hadmits⟩ := hdecls d e hd
    exact ⟨e', he', hadmits.continues⟩
  have hback : ∀ d e', ({ m with decls } : Model).decl? d = some e' →
      ∃ e, m.decl? d = some e ∧ m.Admits d e e' := by
    intro d e' hd
    have hlt : m.HasDecl d := by
      have hlt : d.index < decls.size := hasDecl_iff.mpr ⟨e', hd⟩
      rw [HasDecl, ← hsize]
      exact hlt
    obtain ⟨e, he⟩ := hasDecl_iff.mp hlt
    obtain ⟨f, hf, hadmits⟩ := hdecls d e he
    rw [hd, Option.some.injEq] at hf
    exact ⟨e, he, hf ▸ hadmits⟩
  refine ⟨?_, hgrow⟩
  exact {
    translationUnit := by
      obtain ⟨hroot, hkind, hnone⟩ := h.translationUnit
      have hcont := hgrow.decl hroot
      refine ⟨hgrow.hasDecl hroot, ?_, hcont.parent.trans hnone⟩
      have hsort := hcont.kind
      rw [hkind] at hsort
      unfold DeclKind.Continues at hsort
      split at hsort <;> simp_all
    nodup := h.nodup
    partsBelow := h.partsBelow
    declExists := fun t n ht d hd => hgrow.hasDecl (h.declExists t n ht d hd)
    underlyingBelow := by
      intro t n d u ht hkind hu
      have hd : m.HasDecl d := h.declExists t n ht d (by simp [hkind, TypeKind.decl?])
      rw [(hgrow.decl hd).underlying?] at hu
      exact h.underlyingBelow t n d u ht hkind hu
    parentBelow := by
      intro d e' hd hroot
      obtain ⟨e, he, hadmits⟩ := hback d e' hd
      rw [hadmits.continues.parent]
      exact h.parentBelow d e he hroot
    members := by
      intro d e' hd
      obtain ⟨e, _, hadmits⟩ := hback d e' hd
      exact hadmits.members.grow hgrow
    types := by
      intro d e' hd
      obtain ⟨e, _, hadmits⟩ := hback d e' hd
      exact hadmits.types
    keys := fun key d hk => hgrow.hasDecl (h.keys key d hk) }

/-- Changing a declaration without taking anything from it. -/
theorem modifyDecl_keeps (h : m.WellFormed) {d : DeclId} {f : Decl → Decl}
    (hf : ∀ e, m.decl? d = some e → m.Admits d e (f e)) :
    m.Keeps (modifyDecl d f) fun _ _ => True := by
  have hdecls : ∀ c e, m.decl? c = some e → ∃ e',
      ({ m with decls := m.decls.modify d.index f } : Model).decl? c = some e' ∧
        m.Admits c e e' := by
    intro c e hc
    rw [decl?_modify]
    split
    next heq =>
      subst heq
      exact ⟨f e, by rw [hc, Option.map_some], hf e hc⟩
    next => exact ⟨e, hc, Decl.Continues.refl e, h.members c e hc, h.types c e hc⟩
  obtain ⟨hwf, hgrow⟩ := h.change (by simp) hdecls
  exact ⟨hwf, hgrow, trivial⟩

/-- Changing what a declaration declares, and what does not tie it to others. -/
theorem modifyKind_keeps (h : m.WellFormed) {d : DeclId} {f : Decl → Decl}
    (hsame : ∀ e, (f e).name = e.name ∧ (f e).parent = e.parent ∧ (f e).access = e.access ∧
      (f e).members = e.members ∧ e.usingDirectives <+: (f e).usingDirectives)
    (hkind : ∀ e, m.decl? d = some e →
      e.kind.Continues (f e).kind ∧ ∀ t ∈ (f e).kind.types, m.HasType t) :
    m.Keeps (modifyDecl d f) fun _ _ => True := by
  refine modifyDecl_keeps h fun e he => ?_
  obtain ⟨hname, hparent, haccess, hmembers, husing⟩ := hsame e
  obtain ⟨hcont, htypes⟩ := hkind e he
  refine ⟨⟨hname, hcont, hparent, haccess, ?_, husing⟩, ?_, htypes⟩
  · exact hmembers ▸ List.prefix_refl _
  · rw [hmembers]
    exact h.members d e he

/-- Appending a declaration and listing it in its scope. -/
theorem addDecl_keeps (h : m.WellFormed) {parent : DeclId} (hparent : m.HasDecl parent)
    (name : String) (access : Access) {kind : DeclKind} (htypes : ∀ t ∈ kind.types, m.HasType t) :
    m.Keeps (addDecl parent name access kind) fun d m' => m'.HasDecl d := by
  refine (addDetached_keeps h hparent name access htypes).bind ?_
  rintro _ m' hwf hgrow ⟨rfl, rfl⟩
  have hnew := @decl?_append m { name, kind, parent := some parent, access } ⟨m.decls.size⟩
  rw [if_pos rfl] at hnew
  refine Keeps.bind (modifyDecl_keeps hwf ?_) fun _ m'' hwf' hgrow' _ =>
    Keeps.pure hwf' (hgrow'.hasDecl (hasDecl_iff.mpr ⟨_, hnew⟩))
  intro e he
  obtain ⟨old, hold⟩ := hasDecl_iff.mp hparent
  rw [decl?_append_of_decl? hold, Option.some.injEq] at he
  subst he
  have hlists := h.members parent old hold
  refine ⟨⟨rfl, DeclKind.Continues.refl _, rfl, rfl, List.prefix_append _ _, List.prefix_refl _⟩,
    ⟨?_, ?_⟩, fun t ht => h.types parent old hold t ht⟩
  · refine List.pairwise_append.mpr ⟨hlists.sorted, List.pairwise_singleton _ _, ?_⟩
    intro c hc d hd
    obtain ⟨x, hx, _⟩ := hlists.parent c hc
    rw [List.mem_singleton.mp hd]
    exact hasDecl_iff.mpr ⟨x, hx⟩
  · intro c hc
    rcases List.mem_append.mp hc with hc | hc
    · exact (hlists.grow hgrow).parent c hc
    · rw [List.mem_singleton.mp hc]
      exact ⟨_, hnew, rfl⟩

/-- Binding a key to a declaration that exists. -/
theorem bindKey_keeps (h : m.WellFormed) (key : String) {d : DeclId} (hd : m.HasDecl d) :
    m.Keeps (bindKey key d) fun _ _ => True := by
  refine ⟨?_, ⟨fun _ e he => ⟨e, he, Decl.Continues.refl e⟩, fun _ _ ht => ht⟩, trivial⟩
  exact { h with
    members := fun c e he => ⟨(h.members c e he).sorted, (h.members c e he).parent⟩
    keys := by
      intro k c hk
      change List.lookup k ((key, d) :: m.keys) = some c at hk
      rw [List.lookup_cons] at hk
      split at hk
      next => exact Option.some.inj hk ▸ hd
      next => exact h.keys k c hk }

end Model

end CppReflect
