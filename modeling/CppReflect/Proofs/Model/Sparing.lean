import CppReflect.Proofs.Model.Amendment

/-!
# Computations that leave functions alone

Most steps on a model add to it, and leave what is known of its functions as it is. A step that
learns something of one function leaves the others alone. A key that was free is bound, if at all,
to a declaration that is new, and to which no other key is bound.
-/

namespace CppReflect

/-- What is known of a function, but for its place among templates. -/
def FunctionInfo.bare (f : FunctionInfo) : FunctionInfo :=
  { f with
    templated := .nonTemplate
    specialization := .undeclared
    pattern := none
    templateArgs := [] }

namespace Model

variable {m m' : Model} {but : Option DeclId}

/-- A key that `m` leaves free names in `m'`, if anything, a new declaration that no other key
names. -/
def BindsApart (m m' : Model) : Prop :=
  ∀ key d, m.keyed? key = none → m'.keyed? key = some d →
    m.decls.size ≤ d.index ∧ ∀ key', m'.keyed? key' = some d → key' = key

theorem BindsApart.of_keys (h : m'.keys = m.keys) : m.BindsApart m' := by
  intro key d hfree hbound
  rw [keyed?, h] at hbound
  cases hfree.symm.trans hbound

theorem BindsApart.trans {l m n : Model} (hlm : l.BindsApart m) (hmn : m.BindsApart n)
    (hl : l.Extends m) (hm : m.Extends n) : l.BindsApart n := by
  intro key d hfree hbound
  have hsame : ∀ {k c}, m.keyed? k = some c → n.keyed? k = some d → c = d := fun hk hn =>
    Option.some.inj ((hm.keys _ _ hk).symm.trans hn)
  cases hmiddle : m.keyed? key with
  | some c =>
      obtain rfl := hsame hmiddle hbound
      obtain ⟨hnew, honly⟩ := hlm key c hfree hmiddle
      refine ⟨hnew, fun key' hkey' => ?_⟩
      cases hmiddle' : m.keyed? key' with
      | some c' => exact honly key' (hsame hmiddle' hkey' ▸ hmiddle')
      | none => exact ((hmn key' c hmiddle' hkey').2 key hbound).symm
  | none =>
      obtain ⟨hnew, honly⟩ := hmn key d hmiddle hbound
      exact ⟨Nat.le_trans hl.size_le hnew, honly⟩

/-- `m'` extends `m`, and a key that was free names nothing that is named otherwise. -/
structure ExtendsApart (m m' : Model) : Prop where
  extension : m.Extends m'
  declared : m.KeysDeclared → m'.KeysDeclared
  apart : m.KeysDeclared → m.BindsApart m'

namespace ExtendsApart

theorem refl (m : Model) : m.ExtendsApart m :=
  ⟨Extends.refl m, id, fun _ => BindsApart.of_keys rfl⟩

theorem trans {l m n : Model} (hlm : l.ExtendsApart m) (hmn : m.ExtendsApart n) :
    l.ExtendsApart n where
  extension := hlm.extension.trans hmn.extension
  declared hl := hmn.declared (hlm.declared hl)
  apart hl := (hlm.apart hl).trans (hmn.apart (hlm.declared hl)) hlm.extension hmn.extension

/-- No key is bound. -/
theorem of_keys (hext : m.Extends m') (hkeys : m'.keys = m.keys) : m.ExtendsApart m' :=
  ⟨hext, fun hm => hm.of_keys hext hkeys, fun _ => BindsApart.of_keys hkeys⟩

/-- A key that was free is bound to the declaration that comes next. -/
theorem bindKey (h : m.ExtendsApart m') (hkeys : m'.keys = m.keys) {key : String}
    (hfree : m.keyed? key = none) (hd : m'.HasDecl ⟨m.decls.size⟩) :
    m.ExtendsApart { m' with keys := (key, ⟨m.decls.size⟩) :: m'.keys } := by
  have hbound : ∀ k d, List.lookup k ((key, ⟨m.decls.size⟩) :: m'.keys) = some d →
      k = key ∧ d = ⟨m.decls.size⟩ ∨ m.keyed? k = some d := by
    intro k d hk
    rw [List.lookup_cons, hkeys] at hk
    split at hk
    next heq => exact .inl ⟨beq_iff_eq.mp heq, (Option.some.inj hk).symm⟩
    next => exact .inr hk
  refine ⟨h.extension.bindKey hfree _, fun hm k d hk => ?_, fun hm k d hk hk' => ?_⟩
  · rcases hbound k d hk with ⟨-, rfl⟩ | hold
    · exact hd
    · exact h.extension.growsTo.hasDecl (hm k d hold)
  · rcases hbound k d hk' with ⟨rfl, rfl⟩ | hold
    · refine ⟨Nat.le_refl _, fun k' hkey' => ?_⟩
      rcases hbound k' _ hkey' with ⟨rfl, -⟩ | hold
      · rfl
      · exact absurd (hm k' _ hold) (Nat.lt_irrefl _)
    · cases hk.symm.trans hold

end ExtendsApart

/-- No declaration is under two keys. -/
def KeysApart (m : Model) : Prop :=
  ∀ key key' d, m.keyed? key = some d → m.keyed? key' = some d → key = key'

theorem KeysApart.of_extendsApart (h : m.KeysApart) (hdeclared : m.KeysDeclared)
    (hext : m.ExtendsApart m') : m'.KeysApart := by
  intro key key' d hkey hkey'
  have hsame : ∀ {k c}, m.keyed? k = some c → m'.keyed? k = some d → c = d := fun hk hk' =>
    Option.some.inj ((hext.extension.keys _ _ hk).symm.trans hk')
  cases hold : m.keyed? key with
  | none => exact ((hext.apart hdeclared key d hold hkey).2 key' hkey').symm
  | some c =>
      cases hold' : m.keyed? key' with
      | none => exact (hext.apart hdeclared key' d hold' hkey').2 key hkey
      | some c' =>
          obtain rfl := hsame hold hkey
          obtain rfl := hsame hold' hkey'
          exact h key key' _ hold hold'

/-- `m'` knows the same of each function of `m` except for `but`, if one is given. -/
structure SparesBut (but : Option DeclId) (m m' : Model) : Prop extends m.ExtendsApart m' where
  functions : ∀ d f, some d ≠ but → m.function? d = some f →
    ∃ f', m'.function? d = some f' ∧ f'.bare = f.bare

/-- `m'` extends `m` and knows the same of each function of `m`. -/
abbrev Spares : Model → Model → Prop := SparesBut none

namespace SparesBut

theorem refl (m : Model) : m.SparesBut but m :=
  ⟨ExtendsApart.refl m, fun _ f _ hf => ⟨f, hf, rfl⟩⟩

theorem trans {l m n : Model} (hlm : l.SparesBut but m) (hmn : m.SparesBut but n) :
    l.SparesBut but n where
  toExtendsApart := hlm.toExtendsApart.trans hmn.toExtendsApart
  functions d f hd hf := by
    obtain ⟨f', hf', hsame⟩ := hlm.functions d f hd hf
    obtain ⟨f'', hf'', hsame'⟩ := hmn.functions d f' hd hf'
    exact ⟨f'', hf'', hsame'.trans hsame⟩

instance : IsPreorder Model (SparesBut but) where
  refl := refl
  trans _ _ _ := trans

/-- All functions are left alone, and so are all but one. -/
theorem of_spares (h : m.Spares m') : m.SparesBut but m' :=
  ⟨h.toExtendsApart, fun d f _ hf => h.functions d f (Option.some_ne_none d) hf⟩

/-- What is learnt of a function that was not there. -/
theorem spares {d : DeclId} (h : m.SparesBut (some d) m') (hnew : m.decls.size ≤ d.index) :
    m.Spares m' := by
  refine ⟨h.toExtendsApart, fun c f _ hf => h.functions c f ?_ hf⟩
  rintro ⟨rfl⟩
  obtain ⟨e, he, -⟩ := Option.bind_eq_some_iff.mp hf
  exact absurd (hasDecl_iff.mpr ⟨e, he⟩) (Nat.not_lt_of_le hnew)

end SparesBut

instance : IsPreorder Model Interned where
  refl := Interned.refl
  trans _ _ _ := Interned.trans

theorem Interned.keyed?_eq (h : m.Interned m') (key : String) : m'.keyed? key = m.keyed? key := by
  unfold Model.keyed?
  rw [h.keys]

theorem Interned.spares (h : m.Interned m') : m.SparesBut but m' where
  toExtendsApart := .of_keys h.extends h.keys
  functions d f _ hf := ⟨f, (h.function?_eq d).trans hf, rfl⟩

/-- The computation leaves what is known of functions alone. -/
def Sparing {α : Type} (x : ModelM α) : Prop := ∀ m : Model, m.Spares (x.run m).2

theorem Interns.sparing {α : Type} {x : ModelM α} (hx : Interns x) : Sparing x :=
  fun m => (hx m).spares

namespace Sparing

variable {α β : Type}

theorem pure (a : α) : Sparing (pure a : ModelM α) := (Interns.pure a).sparing

theorem get : Sparing (get : ModelM Model) := Interns.get.sparing

theorem bind {x : ModelM α} {f : α → ModelM β} (hx : Sparing x) (hf : ∀ a, Sparing (f a)) :
    Sparing (x >>= f) := fun m => (hx m).trans (hf _ _)

theorem ite {c : Prop} [Decidable c] {x y : ModelM α} (hx : Sparing x) (hy : Sparing y) :
    Sparing (if c then x else y) := by
  split
  · exact hx
  · exact hy

end Sparing

/-! ## Changing a declaration -/

theorem function?_modifyDecl (m : Model) (d : DeclId) (f : Decl → Decl) (c : DeclId) :
    ((modifyDecl d f).run m).2.function? c =
      if d = c then ((m.decl? c).map f).bind Decl.function? else m.function? c := by
  refine (congrArg (Option.bind · Decl.function?) decl?_modify).trans ?_
  split <;> rfl

/-- What becomes known of a declaration concerns no other function. -/
theorem modifyDecl_sparesBut (m : Model) {d : DeclId} {f : Decl → Decl}
    (hf : ∀ e : Decl, e.Extends (f e)) : m.SparesBut (some d) ((modifyDecl d f).run m).2 := by
  have hext := modifyDecl_extending d hf m
  refine ⟨.of_keys hext rfl, fun c info hc hinfo => ?_⟩
  have hne : d ≠ c := fun heq => hc (congrArg some heq.symm)
  exact ⟨info, by rw [function?_modifyDecl, if_neg hne]; exact hinfo, rfl⟩

/-- More becomes known of a declaration, but not of the function that it may be. -/
theorem modifyDecl_sparing (d : DeclId) {f : Decl → Decl} (hf : ∀ e : Decl, e.Extends (f e))
    (hbare : ∀ (e : Decl) info, e.function? = some info →
      ∃ info', (f e).function? = some info' ∧ info'.bare = info.bare) :
    Sparing (modifyDecl d f) := by
  intro m
  have h := modifyDecl_sparesBut m (d := d) hf
  refine ⟨h.toExtendsApart, fun c info _ hinfo => ?_⟩
  by_cases heq : d = c
  · subst heq
    obtain ⟨e, he, hfunction⟩ := Option.bind_eq_some_iff.mp hinfo
    obtain ⟨info', hinfo', hsame⟩ := hbare e info hfunction
    refine ⟨info', ?_, hsame⟩
    rw [function?_modifyDecl, if_pos rfl, he]
    exact hinfo'
  · exact h.functions c info (fun hc => heq (Option.some.inj hc).symm) hinfo

theorem modifyDecl_sparing_of_eq (d : DeclId) {f : Decl → Decl} (hf : ∀ e : Decl, e.Extends (f e))
    (hsame : ∀ e : Decl, (f e).function? = e.function?) : Sparing (modifyDecl d f) :=
  modifyDecl_sparing d hf fun e info hinfo => ⟨info, (hsame e).trans hinfo, rfl⟩

theorem modifyRecord_sparing (d : DeclId) (f : RecordInfo → RecordInfo) :
    Sparing (modifyRecord d f) := by
  refine modifyDecl_sparing_of_eq d (fun e => ?_) fun e => ?_
  · split
    next info hkind =>
      exact Decl.Extends.set_kind (hkind ▸ trivial) (by simp [Decl.function?, hkind])
    next => exact Decl.Extends.refl e
  · split
    next info hkind => simp [Decl.function?, hkind]
    next => rfl

theorem modifyTemplate_sparing (d : DeclId) (f : TemplateInfo → TemplateInfo) :
    Sparing (modifyTemplate d f) := by
  refine modifyDecl_sparing_of_eq d (fun e => ?_) fun e => ?_
  · split
    next info hkind =>
      exact Decl.Extends.set_kind (hkind ▸ trivial) (by simp [Decl.function?, hkind])
    next info hkind =>
      exact Decl.Extends.set_kind (hkind ▸ trivial) (by simp [Decl.function?, hkind])
    next => exact Decl.Extends.refl e
  · split
    next info hkind => simp [Decl.function?, hkind]
    next info hkind => simp [Decl.function?, hkind]
    next => rfl

theorem useNamespace_sparing (scope nominated : DeclId) :
    Sparing (useNamespace scope nominated) := by
  refine modifyDecl_sparing_of_eq scope (fun e => ?_) fun e => ?_
  · split
    · exact Decl.Extends.refl e
    · exact Decl.Extends.append_usingDirectives e [nominated]
  · split <;> rfl

theorem function?_modifyFunction (m : Model) (d : DeclId) (f : FunctionInfo → FunctionInfo)
    (c : DeclId) :
    ((modifyFunction d f).run m).2.function? c =
      if d = c then (m.function? c).map f else m.function? c := by
  unfold modifyFunction
  rw [function?_modifyDecl]
  split
  next =>
    unfold function?
    cases m.decl? c with
    | none => rfl
    | some e => cases hkind : e.kind <;> simp [Decl.function?, hkind]
  next => rfl

theorem modifyFunction_sparesBut (m : Model) (d : DeclId) {f : FunctionInfo → FunctionInfo}
    (hf : ∀ info, (f info).special = info.special) :
    m.SparesBut (some d) ((modifyFunction d f).run m).2 := by
  refine modifyDecl_sparesBut m fun e => ?_
  split
  next info hkind =>
    exact Decl.Extends.set_kind (hkind ▸ trivial) (by simp [Decl.function?, hkind, hf])
  next => exact Decl.Extends.refl e

/-- A function is given its place among templates. -/
theorem modifyFunction_sparing (d : DeclId) {f : FunctionInfo → FunctionInfo}
    (hf : ∀ info, (f info).bare = info.bare) : Sparing (modifyFunction d f) := by
  intro m
  have hspecial : ∀ info, (f info).special = info.special := fun info =>
    show (f info).bare.special = info.bare.special by rw [hf info]
  have h := modifyFunction_sparesBut m d hspecial
  refine ⟨h.toExtendsApart, fun c info _ hinfo => ?_⟩
  rw [function?_modifyFunction, hinfo]
  split
  · exact ⟨f info, rfl, hf info⟩
  · exact ⟨info, rfl, rfl⟩

/-! ## Declaring -/

theorem addDetached_spares (m : Model) (parent : DeclId) (name : String) (access : Access)
    (kind : DeclKind) : m.Spares ((addDetached parent name access kind).run m).2 := by
  have hext := addDetached_extending parent name access kind m
  refine ⟨.of_keys hext rfl, fun d f _ hf => ?_⟩
  obtain ⟨e, he, hfunction⟩ := Option.bind_eq_some_iff.mp hf
  have hlt : d.index < m.decls.size := hasDecl_iff.mpr ⟨e, he⟩
  refine ⟨f, ?_, rfl⟩
  change ((m.decls.push _)[d.index]?).bind Decl.function? = some f
  rw [Array.getElem?_push_lt hlt, ← Array.getElem?_eq_getElem hlt]
  exact hf

theorem list_sparing (parent d : DeclId) :
    Sparing (modifyDecl parent fun e => { e with members := e.members ++ [d] }) :=
  modifyDecl_sparing_of_eq parent (fun e => Decl.Extends.append_members e [d]) fun _ => rfl

theorem addDecl_spares (m : Model) (parent : DeclId) (name : String) (access : Access)
    (kind : DeclKind) : m.Spares ((addDecl parent name access kind).run m).2 :=
  (addDetached_spares m parent name access kind).trans (list_sparing parent _ _)

end Model

end CppReflect
