import CppReflect.Proofs.Model.Extension

/-!
# Base classes through a computation

Most computations leave the base specifiers of every class as they are. Some of them add
declarations under keys, and the others only amend what is there: they declare nothing.
-/

namespace CppReflect

/-- The base specifiers of a class; any other declaration has none. -/
def Decl.bases (e : Decl) : List BaseSpecifier := e.record?.elim [] RecordInfo.bases

/-- Nothing that is declared in this way names a base class. -/
def DeclKind.Baseless (kind : DeclKind) : Prop :=
  ∀ e : Decl, Decl.bases { e with kind } = []

namespace Model

/-- The base specifiers of the class at a place. -/
def basesOf (m : Model) (d : DeclId) : List BaseSpecifier := (m.decl? d).elim [] Decl.bases

/-- Every key names a declaration that exists. -/
def KeysDeclared (m : Model) : Prop := ∀ key d, m.keyed? key = some d → m.HasDecl d

variable {m m' : Model} {α β : Type}

theorem baseRecords_eq (m : Model) (d : DeclId) :
    m.baseRecords d = (m.basesOf d).filterMap fun b => m.recordNamed? b.type := by
  unfold baseRecords basesOf record?
  cases m.decl? d <;> rfl

theorem KeysDeclared.of_keys (h : m.KeysDeclared) (hext : m.Extends m') (hkeys : m'.keys = m.keys) :
    m'.KeysDeclared := by
  intro key d hd
  rw [keyed?, hkeys] at hd
  exact hext.growsTo.hasDecl (h key d hd)

/-- The computation adds to a model and leaves the base specifiers of every class alone. -/
structure Adds (x : ModelM α) : Prop where
  extending : Extending x
  keys : ∀ m : Model, m.KeysDeclared → (x.run m).2.KeysDeclared
  bases : ∀ (m : Model) d, (x.run m).2.basesOf d = m.basesOf d

/-- The computation adds no declaration either. -/
structure Amends (x : ModelM α) : Prop extends Adds x where
  size : ∀ m : Model, (x.run m).2.decls.size = m.decls.size

namespace Adds

theorem bind {x : ModelM α} {f : α → ModelM β} (hx : Adds x)
    (hf : ∀ m : Model, Adds (f (x.run m).1)) : Adds (x >>= f) where
  extending m := (hx.extending m).trans ((hf m).extending _)
  keys m hm := (hf m).keys _ (hx.keys m hm)
  bases m d := ((hf m).bases _ d).trans (hx.bases m d)

theorem ite {c : Prop} [Decidable c] {x y : ModelM α} (hx : Adds x) (hy : Adds y) :
    Adds (if c then x else y) := by
  split
  · exact hx
  · exact hy

end Adds

namespace Amends

theorem bind {x : ModelM α} {f : α → ModelM β} (hx : Amends x) (hf : ∀ a, Amends (f a)) :
    Amends (x >>= f) where
  toAdds := hx.toAdds.bind fun _ => (hf _).toAdds
  size m := ((hf _).size _).trans (hx.size m)

end Amends

theorem Interns.amends {x : ModelM α} (hx : Interns x) : Amends x where
  extending := hx.extending
  keys m hm := hm.of_keys (hx.extending m) (hx m).keys
  bases m d := by rw [basesOf, decl?, (hx m).decls]; rfl
  size m := by rw [(hx m).decls]

/-! ## Changing a declaration -/

theorem basesOf_modifyDecl {d : DeclId} {f : Decl → Decl} (m : Model) (c : DeclId) :
    ((modifyDecl d f).run m).2.basesOf c =
      if d = c then ((m.decl? c).map f).elim [] Decl.bases else m.basesOf c := by
  refine (congrArg (Option.elim · [] Decl.bases) decl?_modify).trans ?_
  split <;> rfl

theorem modifyDecl_amends {d : DeclId} {f : Decl → Decl} (hext : Extending (modifyDecl d f))
    (hbases : ∀ e : Decl, (f e).bases = e.bases) : Amends (modifyDecl d f) where
  extending := hext
  keys m hm := hm.of_keys (hext m) rfl
  bases m c := by
    rw [basesOf_modifyDecl]
    split
    · rw [basesOf]
      cases m.decl? c with
      | none => rfl
      | some e => exact hbases e
    · rfl
  size m := Array.size_modify

theorem modifyKind_amends {d : DeclId} {f : Decl → Decl}
    (hf : ∀ e : Decl, e.Extends (f e) ∧ (f e).bases = e.bases) : Amends (modifyDecl d f) :=
  modifyDecl_amends (modifyDecl_extending d fun e => (hf e).1) fun e => (hf e).2

theorem modifyFunction_amends (d : DeclId) {f : FunctionInfo → FunctionInfo}
    (hf : ∀ info, (f info).special = info.special) : Amends (modifyFunction d f) := by
  refine modifyDecl_amends (modifyFunction_extending d hf) fun e => ?_
  split
  next info hkind => simp [Decl.bases, Decl.record?, hkind]
  next => rfl

theorem modifyTemplate_amends (d : DeclId) (f : TemplateInfo → TemplateInfo) :
    Amends (modifyTemplate d f) := by
  refine modifyDecl_amends (modifyTemplate_extending d f) fun e => ?_
  split
  next info hkind => simp [Decl.bases, Decl.record?, hkind]
  next info hkind => simp [Decl.bases, Decl.record?, hkind]
  next => rfl

theorem useNamespace_amends (scope nominated : DeclId) : Amends (useNamespace scope nominated) := by
  refine modifyDecl_amends (useNamespace_extending scope nominated) fun e => ?_
  split <;> rfl

/-! ## Declaring -/

theorem basesOf_push (m : Model) {e : Decl} (he : e.bases = []) (c : DeclId) :
    ({ m with decls := m.decls.push e } : Model).basesOf c = m.basesOf c := by
  change ((m.decls.push e)[c.index]?).elim [] Decl.bases = (m.decls[c.index]?).elim [] Decl.bases
  rw [Array.getElem?_push]
  split
  next heq =>
    rw [heq, Array.getElem?_eq_none (Nat.le_refl _)]
    exact he
  next => rfl

theorem addDetached_adds (parent : DeclId) (name : String) (access : Access) {kind : DeclKind}
    (hkind : kind.Baseless) : Adds (addDetached parent name access kind) where
  extending := addDetached_extending parent name access kind
  keys m hm := hm.of_keys (addDetached_extending parent name access kind m) rfl
  bases m c := basesOf_push m (hkind { name, kind, parent := some parent, access }) c

theorem addDecl_adds (parent : DeclId) (name : String) (access : Access) {kind : DeclKind}
    (hkind : kind.Baseless) : Adds (addDecl parent name access kind) := by
  have hlist : ∀ d, Amends (modifyDecl parent fun e => { e with members := e.members ++ [d] }) :=
    fun d => modifyDecl_amends
      (modifyDecl_extending parent fun e => Decl.Extends.append_members e [d]) fun _ => rfl
  exact (addDetached_adds parent name access hkind).bind fun _ =>
    ((hlist _).bind fun _ => (Interns.pure _).amends).toAdds

theorem addDetached_hasDecl (m : Model) (parent : DeclId) (name : String) (access : Access)
    (kind : DeclKind) :
    ((addDetached parent name access kind).run m).2.HasDecl
      ((addDetached parent name access kind).run m).1 := by
  change m.decls.size < (m.decls.push _).size
  rw [Array.size_push]
  exact Nat.lt_succ_self _

theorem addDecl_hasDecl (m : Model) (parent : DeclId) (name : String) (access : Access)
    (kind : DeclKind) :
    ((addDecl parent name access kind).run m).2.HasDecl
      ((addDecl parent name access kind).run m).1 := by
  change m.decls.size < ((m.decls.push _).modify parent.index _).size
  rw [Array.size_modify, Array.size_push]
  exact Nat.lt_succ_self _

end Model

end CppReflect
