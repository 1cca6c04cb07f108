import CppReflect.Model.Declare
import CppReflect.Proofs.Model.Growth
import CppReflect.Proofs.Model.Interning
import Mathlib.Order.Defs.Unbundled

/-!
# Models that extend one another

A model extends another one if it has grown from it and every key goes on naming the declaration
that it named. Nothing is asked of the model to begin with: its keys may be bound to anything, and
its scopes may be missing.
-/

namespace CppReflect

/-- A later state of a declaration. A function stays the special member, or the operator, that it
is. -/
structure Decl.Extends (e e' : Decl) : Prop extends e.Continues e' where
  special : e'.function?.map FunctionInfo.special = e.function?.map FunctionInfo.special

namespace Decl.Extends

theorem refl (e : Decl) : e.Extends e := ⟨Continues.refl e, rfl⟩

theorem trans {e f g : Decl} (hef : e.Extends f) (hfg : f.Extends g) : e.Extends g :=
  ⟨hef.toContinues.trans hfg.toContinues, hfg.special.trans hef.special⟩

/-- Members that come behind the others change nothing else. -/
theorem append_members (e : Decl) (ds : List DeclId) :
    e.Extends { e with members := e.members ++ ds } :=
  ⟨⟨rfl, DeclKind.Continues.refl _, rfl, rfl, List.prefix_append _ _, List.prefix_refl _⟩, rfl⟩

theorem append_usingDirectives (e : Decl) (ds : List DeclId) :
    e.Extends { e with usingDirectives := e.usingDirectives ++ ds } :=
  ⟨⟨rfl, DeclKind.Continues.refl _, rfl, rfl, List.prefix_refl _, List.prefix_append _ _⟩, rfl⟩

theorem set_implicit (e : Decl) (implicit : Bool) : e.Extends { e with implicit } :=
  ⟨⟨rfl, DeclKind.Continues.refl _, rfl, rfl, List.prefix_refl _, List.prefix_refl _⟩, rfl⟩

/-- More is known of what is declared. -/
theorem set_kind {e : Decl} {k : DeclKind} (hkind : e.kind.Continues k)
    (hspecial : ({ e with kind := k } : Decl).function?.map FunctionInfo.special =
      e.function?.map FunctionInfo.special) :
    e.Extends { e with kind := k } :=
  ⟨⟨rfl, hkind, rfl, rfl, List.prefix_refl _, List.prefix_refl _⟩, hspecial⟩

end Decl.Extends

namespace Model

/-- `m'` holds every declaration, every type and every key of `m`, and they stand where they
stood. -/
structure Extends (m m' : Model) : Prop where
  decls : ∀ d e, m.decl? d = some e → ∃ e', m'.decl? d = some e' ∧ e.Extends e'
  types : m.types.nodes.toList <+: m'.types.nodes.toList
  keys : ∀ key d, m.keyed? key = some d → m'.keyed? key = some d

namespace Extends

variable {m m' : Model}

theorem refl (m : Model) : m.Extends m :=
  ⟨fun _ e he => ⟨e, he, Decl.Extends.refl e⟩, List.prefix_refl _, fun _ _ h => h⟩

theorem trans {l m n : Model} (hlm : l.Extends m) (hmn : m.Extends n) : l.Extends n where
  decls d e he := by
    obtain ⟨f, hf, hef⟩ := hlm.decls d e he
    obtain ⟨g, hg, hfg⟩ := hmn.decls d f hf
    exact ⟨g, hg, hef.trans hfg⟩
  types := hlm.types.trans hmn.types
  keys key d hd := hmn.keys key d (hlm.keys key d hd)

instance : IsPreorder Model Extends where
  refl := refl
  trans _ _ _ := trans

theorem growsTo (h : m.Extends m') : m.GrowsTo m' where
  decls d e he := by
    obtain ⟨e', he', hext⟩ := h.decls d e he
    exact ⟨e', he', hext.toContinues⟩
  types t n ht := by
    obtain ⟨added, hadded⟩ := h.types
    rw [TypeTable.get?_eq_toList] at ht ⊢
    rw [← hadded, List.getElem?_append_left (List.getElem?_eq_some_iff.mp ht).1, ht]

theorem size_le (h : m.Extends m') : m.decls.size ≤ m'.decls.size := by
  rcases Nat.eq_zero_or_pos m.decls.size with hzero | hpos
  · exact hzero ▸ Nat.zero_le _
  · -- The last declaration is still there.
    have hlast : m.HasDecl ⟨m.decls.size - 1⟩ := Nat.sub_one_lt (Nat.ne_of_gt hpos)
    exact Nat.le_of_pred_lt (h.growsTo.hasDecl hlast)

/-- A key that was not bound is bound, and no other key is touched. -/
theorem bindKey (h : m.Extends m') {key : String} (hfree : m.keyed? key = none) (d : DeclId) :
    m.Extends { m' with keys := (key, d) :: m'.keys } := by
  refine ⟨h.decls, h.types, fun k c hk => ?_⟩
  have hne : k ≠ key := fun heq => by simp [← heq, hk] at hfree
  change List.lookup k ((key, d) :: m'.keys) = some c
  rw [List.lookup_cons, beq_eq_false_iff_ne.mpr hne]
  exact h.keys k c hk

end Extends

theorem Interned.extends {m m' : Model} (h : m.Interned m') : m.Extends m' where
  decls d e he := ⟨e, by rw [decl?, h.decls]; exact he, Decl.Extends.refl e⟩
  types := h.types
  keys key d hd := by rw [keyed?, h.keys]; exact hd

/-- The computation leaves a model that extends the one it was run on. -/
def Extending {α : Type} (x : ModelM α) : Prop := ∀ m : Model, m.Extends (x.run m).2

theorem Interns.extending {α : Type} {x : ModelM α} (hx : Interns x) : Extending x :=
  fun m => (hx m).extends

namespace Extending

variable {α β : Type}

theorem pure (a : α) : Extending (pure a : ModelM α) := fun m => Extends.refl m

theorem get : Extending (get : ModelM Model) := fun m => Extends.refl m

theorem bind {x : ModelM α} {f : α → ModelM β} (hx : Extending x) (hf : ∀ a, Extending (f a)) :
    Extending (x >>= f) := fun m => (hx m).trans (hf _ _)

theorem ite {c : Prop} [Decidable c] {x y : ModelM α} (hx : Extending x) (hy : Extending y) :
    Extending (if c then x else y) := by
  split
  · exact hx
  · exact hy

end Extending

/-! ## Steps -/

theorem addDetached_extending (parent : DeclId) (name : String) (access : Access) (kind : DeclKind) :
    Extending (addDetached parent name access kind) := by
  intro m
  exact ⟨fun d e he => ⟨e, decl?_append_of_decl? he, Decl.Extends.refl e⟩, List.prefix_refl _,
    fun _ _ h => h⟩

theorem modifyDecl_extending (d : DeclId) {f : Decl → Decl} (hf : ∀ e : Decl, e.Extends (f e)) :
    Extending (modifyDecl d f) := by
  intro m
  refine ⟨fun c e he => ⟨_, decl?_modify_of_decl? he f, ?_⟩, List.prefix_refl _, fun _ _ h => h⟩
  split
  · exact hf e
  · exact Decl.Extends.refl e

theorem addDecl_extending (parent : DeclId) (name : String) (access : Access) (kind : DeclKind) :
    Extending (addDecl parent name access kind) :=
  (addDetached_extending parent name access kind).bind fun d =>
    (modifyDecl_extending parent fun e => Decl.Extends.append_members e [d]).bind fun _ =>
      Extending.pure d

theorem modifyRecord_extending (d : DeclId) (f : RecordInfo → RecordInfo) :
    Extending (modifyRecord d f) := by
  refine modifyDecl_extending d fun e => ?_
  split
  next info hkind =>
    refine Decl.Extends.set_kind (hkind ▸ trivial) ?_
    simp [Decl.function?, hkind]
  next => exact Decl.Extends.refl e

/-- What becomes known of a function does not change its role. -/
theorem modifyFunction_extending (d : DeclId) {f : FunctionInfo → FunctionInfo}
    (hf : ∀ info, (f info).special = info.special) : Extending (modifyFunction d f) := by
  refine modifyDecl_extending d fun e => ?_
  split
  next info hkind =>
    refine Decl.Extends.set_kind (hkind ▸ trivial) ?_
    simp [Decl.function?, hkind, hf]
  next => exact Decl.Extends.refl e

theorem modifyTemplate_extending (d : DeclId) (f : TemplateInfo → TemplateInfo) :
    Extending (modifyTemplate d f) := by
  refine modifyDecl_extending d fun e => ?_
  split
  next info hkind =>
    refine Decl.Extends.set_kind (hkind ▸ trivial) ?_
    simp [Decl.function?, hkind]
  next info hkind =>
    refine Decl.Extends.set_kind (hkind ▸ trivial) ?_
    simp [Decl.function?, hkind]
  next => exact Decl.Extends.refl e

theorem useNamespace_extending (scope nominated : DeclId) :
    Extending (useNamespace scope nominated) := by
  refine modifyDecl_extending scope fun e => ?_
  split
  · exact Decl.Extends.refl e
  · exact Decl.Extends.append_usingDirectives e [nominated]

end Model

end CppReflect
