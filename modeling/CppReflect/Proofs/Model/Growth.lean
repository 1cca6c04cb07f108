import CppReflect.Model.Basic

/-!
# Models that only grow

No declaration and no type that a model holds is taken away or moved: a declaration keeps its place,
its name and its scope, and a type keeps its place and its parts. Whatever is said of an old place
therefore stays true, so facts about a computation on a model are put together from facts about its
steps.
-/

namespace CppReflect

/-- A later state of what a declaration declares: something of the same sort. A namespace stays
inline or not, an enumeration scoped or not, and a typedef stands for the same type. -/
def DeclKind.Continues : DeclKind → DeclKind → Prop
  | .translationUnit, .translationUnit => True
  | .namespaceDecl isInline, .namespaceDecl isInline' => isInline = isInline'
  | .record _, .record _ => True
  | .enum info, .enum info' => info.isScoped = info'.isScoped
  | .enumConstant .., .enumConstant .. => True
  | .variableDecl _, .variableDecl _ => True
  | .function _, .function _ => True
  | .typedef underlying, .typedef underlying' => underlying = underlying'
  | .classTemplate _, .classTemplate _ => True
  | .functionTemplate _, .functionTemplate _ => True
  | _, _ => False

namespace DeclKind.Continues

theorem refl (k : DeclKind) : k.Continues k := by
  cases k <;> simp [DeclKind.Continues]

theorem trans {k l n : DeclKind} (hkl : k.Continues l) (hln : l.Continues n) : k.Continues n := by
  cases k <;> cases l <;> simp only [DeclKind.Continues] at hkl <;>
    cases n <;> simp_all [DeclKind.Continues]

end DeclKind.Continues

/-- A later state of a declaration: what names and places it stays as it is, and members and
using-directives are only added behind those that are there. -/
structure Decl.Continues (e e' : Decl) : Prop where
  name : e'.name = e.name
  kind : e.kind.Continues e'.kind
  parent : e'.parent = e.parent
  access : e'.access = e.access
  members : e.members <+: e'.members
  usingDirectives : e.usingDirectives <+: e'.usingDirectives

namespace Decl.Continues

theorem refl (e : Decl) : e.Continues e :=
  ⟨rfl, DeclKind.Continues.refl _, rfl, rfl, List.prefix_refl _, List.prefix_refl _⟩

theorem trans {e f g : Decl} (hef : e.Continues f) (hfg : f.Continues g) : e.Continues g where
  name := hfg.name.trans hef.name
  kind := hef.kind.trans hfg.kind
  parent := hfg.parent.trans hef.parent
  access := hfg.access.trans hef.access
  members := hef.members.trans hfg.members
  usingDirectives := hef.usingDirectives.trans hfg.usingDirectives

/-- A typedef goes on standing for its type, and nothing else becomes a typedef. -/
theorem underlying? {e e' : Decl} (h : e.Continues e') : e'.underlying? = e.underlying? := by
  have hkind := h.kind
  unfold Decl.underlying?
  cases he : e.kind <;> cases he' : e'.kind <;> simp_all [DeclKind.Continues]

end Decl.Continues

namespace Model

/-- The place of a declaration exists. -/
def HasDecl (m : Model) (d : DeclId) : Prop := d.index < m.decls.size

/-- The place of a type exists. -/
def HasType (m : Model) (t : TypeId) : Prop := t.index < m.types.size

instance (m : Model) (d : DeclId) : Decidable (m.HasDecl d) := inferInstanceAs (Decidable (_ < _))

instance (m : Model) (t : TypeId) : Decidable (m.HasType t) := inferInstanceAs (Decidable (_ < _))

theorem hasDecl_iff {m : Model} {d : DeclId} : m.HasDecl d ↔ ∃ e, m.decl? d = some e := by
  simp only [HasDecl, decl?, Array.getElem?_eq_some_iff]
  exact ⟨fun h => ⟨_, h, rfl⟩, fun ⟨_, h, _⟩ => h⟩

theorem decl?_eq_decl {m : Model} {d : DeclId} (h : m.HasDecl d) :
    m.decl? d = some (m.decl d) := by
  obtain ⟨e, he⟩ := hasDecl_iff.mp h
  rw [decl, he, Option.getD_some]

/-- A place without a declaration reads as the translation unit does at the start, so what reads
otherwise is there. -/
theorem hasDecl_of_ne_rootDecl {m : Model} {d : DeclId} (h : m.decl d ≠ rootDecl) :
    m.HasDecl d := by
  cases hd : m.decl? d with
  | none => exact absurd (by rw [decl, hd, Option.getD_none]) h
  | some e => exact hasDecl_iff.mpr ⟨e, hd⟩

theorem hasDecl_of_kind {m : Model} {d : DeclId} (h : (m.decl d).kind ≠ .translationUnit) :
    m.HasDecl d :=
  hasDecl_of_ne_rootDecl fun heq => h (congrArg Decl.kind heq)

theorem hasDecl_of_parent {m : Model} {d p : DeclId} (h : (m.decl d).parent = some p) :
    m.HasDecl d :=
  hasDecl_of_ne_rootDecl fun heq => by cases (congrArg Decl.parent heq).symm.trans h

theorem hasDecl_of_mem_members {m : Model} {c p : DeclId} (h : c ∈ (m.decl p).members) :
    m.HasDecl p :=
  hasDecl_of_ne_rootDecl fun heq => by cases congrArg Decl.members heq ▸ h

theorem hasDecl_of_underlying? {m : Model} {d : DeclId} {u : TypeId}
    (h : (m.decl d).underlying? = some u) : m.HasDecl d :=
  hasDecl_of_ne_rootDecl fun heq => by cases (congrArg Decl.underlying? heq).symm.trans h

theorem hasType_iff {m : Model} {t : TypeId} : m.HasType t ↔ ∃ n, m.types.get? t = some n := by
  simp only [HasType, TypeTable.get?, TypeTable.size, Array.getElem?_eq_some_iff]
  exact ⟨fun h => ⟨_, h, rfl⟩, fun ⟨_, h, _⟩ => h⟩

theorem get?_eq_node {m : Model} {t : TypeId} (h : m.HasType t) :
    m.types.get? t = some (m.node t) := by
  obtain ⟨n, hn⟩ := hasType_iff.mp h
  rw [node, hn, Option.getD_some]

/-- A place without a type reads as the type without values. -/
theorem hasType_of_kind {m : Model} {t : TypeId} (h : (m.node t).kind ≠ .void) : m.HasType t := by
  cases ht : m.types.get? t with
  | none => exact absurd (by rw [node, ht, Option.getD_none]) h
  | some n => exact hasType_iff.mpr ⟨n, ht⟩

theorem node_of_get? {m : Model} {t : TypeId} {n : TypeNode} (h : m.types.get? t = some n) :
    m.node t = n := by
  rw [node, h, Option.getD_some]

/-- Every declaration and type of `m` is one of `m'`. -/
structure GrowsTo (m m' : Model) : Prop where
  decls : ∀ d e, m.decl? d = some e → ∃ e', m'.decl? d = some e' ∧ e.Continues e'
  types : ∀ t n, m.types.get? t = some n → m'.types.get? t = some n

/-! ## A declaration appended, a declaration changed -/

section Places

variable {m : Model}

theorem decl?_append {e : Decl} {d : DeclId} :
    ({ m with decls := m.decls.push e } : Model).decl? d =
      if d.index = m.decls.size then some e else m.decl? d := by
  simp [decl?, Array.getElem?_push]

theorem decl?_append_self {e : Decl} :
    ({ m with decls := m.decls.push e } : Model).decl? ⟨m.decls.size⟩ = some e := by
  rw [decl?_append, if_pos rfl]

theorem decl?_append_of_decl? {e x : Decl} {d : DeclId} (hd : m.decl? d = some x) :
    ({ m with decls := m.decls.push e } : Model).decl? d = some x := by
  rw [decl?_append, if_neg (Nat.ne_of_lt (hasDecl_iff.mpr ⟨x, hd⟩)), hd]

/-- What is at a place after a declaration is appended. -/
theorem decl?_append_cases {e x : Decl} {d : DeclId}
    (hd : ({ m with decls := m.decls.push e } : Model).decl? d = some x) :
    m.decl? d = some x ∨ d.index = m.decls.size ∧ x = e := by
  rw [decl?_append] at hd
  split at hd
  next heq => exact Or.inr ⟨heq, (Option.some.inj hd).symm⟩
  next => exact Or.inl hd

theorem decl?_modify {f : Decl → Decl} {c d : DeclId} :
    ({ m with decls := m.decls.modify d.index f } : Model).decl? c =
      if d = c then (m.decl? c).map f else m.decl? c := by
  rcases c with ⟨c⟩
  rcases d with ⟨d⟩
  simp only [decl?, Array.getElem?_modify, DeclId.mk.injEq]

/-- What is at a place after a declaration is changed. -/
theorem decl?_modify_cases {c d : DeclId} {f : Decl → Decl} {x : Decl}
    (hx : ({ m with decls := m.decls.modify d.index f } : Model).decl? c = some x) :
    ∃ e, m.decl? c = some e ∧ (x = e ∨ c = d ∧ x = f e) := by
  rw [decl?_modify] at hx
  split at hx
  next heq =>
    obtain ⟨e, he, rfl⟩ := Option.map_eq_some_iff.mp hx
    exact ⟨e, he, .inr ⟨heq.symm, rfl⟩⟩
  next => exact ⟨x, hx, .inl rfl⟩

/-- What was at a place is there after a declaration is changed, or is what was changed. -/
theorem decl?_modify_of_decl? {c d : DeclId} {e : Decl} (he : m.decl? c = some e)
    (f : Decl → Decl) :
    ({ m with decls := m.decls.modify d.index f } : Model).decl? c =
      some (if c = d then f e else e) := by
  rw [decl?_modify, he]
  by_cases heq : d = c
  · rw [if_pos heq, if_pos heq.symm, Option.map_some]
  · rw [if_neg heq, if_neg (Ne.symm heq)]

end Places

namespace GrowsTo

variable {m m' : Model}

theorem refl (m : Model) : m.GrowsTo m :=
  ⟨fun _ e h => ⟨e, h, Decl.Continues.refl e⟩, fun _ _ h => h⟩

theorem trans {l m n : Model} (hlm : l.GrowsTo m) (hmn : m.GrowsTo n) : l.GrowsTo n where
  decls d e hd := by
    obtain ⟨f, hf, hef⟩ := hlm.decls d e hd
    obtain ⟨g, hg, hfg⟩ := hmn.decls d f hf
    exact ⟨g, hg, hef.trans hfg⟩
  types t node ht := hmn.types t node (hlm.types t node ht)

theorem hasDecl (h : m.GrowsTo m') {d : DeclId} (hd : m.HasDecl d) : m'.HasDecl d := by
  obtain ⟨e, he⟩ := hasDecl_iff.mp hd
  obtain ⟨e', he', _⟩ := h.decls d e he
  exact hasDecl_iff.mpr ⟨e', he'⟩

theorem hasType (h : m.GrowsTo m') {t : TypeId} (ht : m.HasType t) : m'.HasType t := by
  obtain ⟨n, hn⟩ := hasType_iff.mp ht
  exact hasType_iff.mpr ⟨n, h.types t n hn⟩

/-- A type that exists stays what it is. -/
theorem node (h : m.GrowsTo m') {t : TypeId} (ht : m.HasType t) : m'.node t = m.node t := by
  obtain ⟨n, hn⟩ := hasType_iff.mp ht
  simp [Model.node, hn, h.types t n hn]

/-- A declaration that exists is continued. -/
theorem decl (h : m.GrowsTo m') {d : DeclId} (hd : m.HasDecl d) :
    (m.decl d).Continues (m'.decl d) := by
  obtain ⟨e, he⟩ := hasDecl_iff.mp hd
  obtain ⟨e', he', hcont⟩ := h.decls d e he
  simpa [Model.decl, he, he'] using hcont

end GrowsTo

end Model

end CppReflect
