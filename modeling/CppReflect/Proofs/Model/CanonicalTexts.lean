import CppReflect.Proofs.Model.Outlines
import CppReflect.Proofs.Model.ProperTypes

/-!
# Canonical types that are printed alike

The text of a canonical type without any name in it tells what the type is made of, up to the
qualifiers of arrays and functions, which are not printed. Where arrays and functions have no
qualifiers it tells the type.
-/

namespace CppReflect

/-- The type is made without a name, its parts apart. -/
def TypeKind.isNameless : TypeKind → Bool
  | .record _ | .enum _ | .typedef _ | .named _ | .memberPointer .. => false
  | .void | .builtin _ | .pointer _ | .lvalueReference _ | .rvalueReference _ | .constantArray ..
  | .incompleteArray _ | .function _ | .complex _ => true

namespace Model

open Spelling (Outline Sigil)
open Spelling.Outline (AllSound)

variable {m : Model}

/-- No name is needed to make the type, and complex types are made of builtin ones. -/
def Nameless (m : Model) (t : TypeId) : Prop :=
  ∀ u, m.Within t u → (m.node u).kind.isNameless = true ∧
    ∀ e, (m.node u).kind = .complex e → ∃ b, m.node e = ⟨.builtin b, .none⟩

theorem nameless_iff {t : TypeId} :
    m.Nameless t ↔ ((m.node t).kind.isNameless = true ∧
      ∀ e, (m.node t).kind = .complex e → ∃ b, m.node e = ⟨.builtin b, .none⟩) ∧
      ∀ p ∈ (m.node t).kind.parts, m.Nameless p :=
  forall_within_iff

theorem HasOutline.isReference {a : Outline} {t : TypeId} (h : m.HasOutline a t)
    (hnone : (m.node t).kind.referee? = none) : a.isReference = false := by
  cases a with
  | sigil σ q a =>
      obtain ⟨p, -, h⟩ := h
      rw [node_of_get? h] at hnone
      cases σ <;> first | rfl | cases hnone
  | base | array | function => rfl

theorem exists_outline_sigil (σ : Sigil) {t p : TypeId} {q : Quals}
    (ht : m.types.get? t = some ⟨σ.kind p, q⟩) (hq : q.Valid)
    (hp : ∃ a : Outline, a.Sound ∧ m.HasOutline a p)
    (hnone : σ.isReference = true → (m.node p).kind.referee? = none) :
    ∃ a : Outline, a.Sound ∧ m.HasOutline a t := by
  obtain ⟨a, ha, hp⟩ := hp
  exact ⟨.sigil σ q a, ⟨hq, fun hσ => hp.isReference (hnone hσ), ha⟩, p, hp, ht⟩

theorem exists_outlines {ts : List TypeId}
    (h : ∀ t ∈ ts, ∃ a : Outline, a.Sound ∧ m.HasOutline a t) :
    ∃ ps, AllSound ps ∧ m.HaveOutlines ps ts := by
  induction ts with
  | nil => exact ⟨[], trivial, rfl⟩
  | cons t ts ih =>
      obtain ⟨⟨a, ha, ht⟩, hrest⟩ := List.forall_mem_cons.mp h
      obtain ⟨ps, hps, hts⟩ := ih hrest
      exact ⟨a :: ps, ⟨ha, hps⟩, t, ts, rfl, ht, hts⟩

/-- A canonical type that is proper has a sound outline if no name is left in it. -/
theorem Written.exists_outline (h : m.WellFormed) {T : TypeTree} {t : TypeId} (ht : m.Written T t)
    (hT : T.Proper) (hnameless : m.Nameless t) : ∃ a : Outline, a.Sound ∧ m.HasOutline a t := by
  -- parts have their places in front of the type, and are canonical, proper and nameless as it is
  induction hindex : t.index using Nat.strongRecOn generalizing T t with
  | ind n ih =>
    subst hindex
    obtain ⟨htree, hwritten⟩ := ht.exists_parts h
    obtain ⟨⟨hkind, hcomplex⟩, hpart⟩ := nameless_iff.mp hnameless
    obtain ⟨⟨k, q⟩, hget⟩ := hasType_iff.mp ht.hasType
    rw [node_of_get? hget] at htree hwritten hkind hcomplex hpart
    subst htree
    cases hT with
    | node hquals hproto hreferee hproper =>
      have houtline : ∀ p ∈ k.parts, ∃ a : Outline, a.Sound ∧ m.HasOutline a p := fun p hp =>
        ih p.index (h.partsBelow t _ hget p hp) (hwritten p hp)
          (hproper _ (List.mem_map_of_mem hp)) (hpart p hp) rfl
      have hreference : ∀ p, k.parts = [p] → (∃ r, k.shape.referee? = some r) →
          (m.node p).kind.referee? = none := by
        intro p hparts ⟨r, hr⟩
        obtain ⟨P, hP, hnone⟩ := hreferee r hr
        rw [hparts, List.map_singleton] at hP
        obtain rfl := List.head_eq_of_cons_eq hP
        rwa [(hwritten p (by rw [hparts]; exact List.mem_cons_self)).shape h,
          TypeKind.referee?_shape] at hnone
      cases k with
      | void => exact ⟨.base .void q, ⟨nofun, hquals⟩, hget⟩
      | builtin b => exact ⟨.base (.builtin b) q, ⟨nofun, hquals⟩, hget⟩
      | complex e =>
          obtain ⟨b, hb⟩ := hcomplex e rfl
          obtain ⟨n, hn⟩ := hasType_iff.mp (hwritten e List.mem_cons_self).hasType
          rw [node_of_get? hn] at hb
          exact ⟨.base (.complex b) q, ⟨nofun, hquals⟩, e, hb ▸ hn, hget⟩
      | pointer p =>
          have hp := houtline p List.mem_cons_self
          exact exists_outline_sigil .pointer hget hquals hp nofun
      | lvalueReference p =>
          have hp := houtline p List.mem_cons_self
          exact exists_outline_sigil .lvalueReference hget hquals hp fun _ =>
            hreference p rfl ⟨_, rfl⟩
      | rvalueReference p =>
          have hp := houtline p List.mem_cons_self
          exact exists_outline_sigil .rvalueReference hget hquals hp fun _ =>
            hreference p rfl ⟨_, rfl⟩
      | constantArray e n =>
          obtain ⟨a, ha, he⟩ := houtline e List.mem_cons_self
          exact ⟨.array (some n) a, ha, e, q, he, hget⟩
      | incompleteArray e =>
          obtain ⟨a, ha, he⟩ := houtline e List.mem_cons_self
          exact ⟨.array none a, ha, e, q, he, hget⟩
      | function f =>
          obtain ⟨⟨r, hr, hresult⟩, hparams⟩ := List.forall_mem_cons.mp houtline
          obtain ⟨ps, hps, hts⟩ := exists_outlines hparams
          exact ⟨.function r ps f.variadic f.quals f.ref, ⟨hproto _ rfl, hr, hps⟩,
            f.ret, f.params, q, hresult, hts, hget⟩
      | record | enum | typedef | named | memberPointer => cases hkind

/-! ## What the text tells -/

/-- The types differ at most in the qualifiers of arrays and functions. -/
def SameOutline (m : Model) (s t : TypeId) : Prop :=
  ∃ a : Outline, a.Sound ∧ m.HasOutline a s ∧ m.HasOutline a t

/-- In every reachable model the text of a canonical type that can be spelled and has no name left
in it tells the type up to the qualifiers of arrays and functions, and the type itself where there
are none. -/
theorem Reachable.canonical_texts_tell (hm : m.Reachable) {S T : TypeTree} {s t : TypeId}
    (hs : m.Written S s) (ht : m.Written T t) (hS : S.Proper) (hT : T.Proper)
    (hnames : m.Nameless s) (hnamet : m.Nameless t) :
    (m.typeText s = m.typeText t ↔ m.SameOutline s t) ∧
      (m.Unqualified s → m.Unqualified t → (m.typeText s = m.typeText t ↔ s = t)) := by
  have h := hm.wellFormed
  obtain ⟨a, ha, hsa⟩ := hs.exists_outline h hS hnames
  obtain ⟨b, hb, htb⟩ := ht.exists_outline h hT hnamet
  have hsame : m.typeText s = m.typeText t → a = b := by
    rw [hsa.typeText h ha, htb.typeText h hb]
    exact Outline.print_inj ha hb
  refine ⟨⟨fun htext => ?_, ?_⟩, fun hus hut => ⟨fun htext => ?_, ?_⟩⟩
  · obtain rfl := hsame htext
    exact ⟨a, ha, hsa, htb⟩
  · rintro ⟨c, hc, hsc, htc⟩
    rw [hsc.typeText h hc, htc.typeText h hc]
  · obtain rfl := hsame htext
    exact HasOutline.unique h a hsa htb hus hut
  · rintro rfl
    rfl

/-- An array and its qualified typedef are read from texts, and printed alike in canonical form. The
array is told from its element. -/
theorem canonical_texts_tell_array :
    let declared := ((parseType "int[2]" root >>= declareTypedef root "A").run empty).2
    let qualified := ((parseType "const A" root >>= canonical).run declared).2
    let array := ((parseType "A" root >>= canonical).run qualified).2
    let last := ((parseType "int" root >>= canonical).run array).2
    (last.node ⟨0⟩ = ⟨.builtin .int, .none⟩ ∧ last.node ⟨1⟩ = ⟨.constantArray ⟨0⟩ 2, .none⟩ ∧
        last.node ⟨4⟩ = ⟨.constantArray ⟨0⟩ 2, .const⟩) ∧
      last.typeText ⟨1⟩ = last.typeText ⟨4⟩ ∧ last.typeText ⟨0⟩ ≠ last.typeText ⟨1⟩ := by
  intro declared qualified array last
  have hdeclared : declared.Spelled :=
    Spelled.typedef .empty "A" "int[2]" (by decide : empty.HasDecl root)
      (by decide : empty.HasDecl root)
  have hqualified : qualified.Spelled := hdeclared.read_canonical "const A" (by decide +kernel)
  have harray : array.Spelled := hqualified.read_canonical "A" (by decide +kernel)
  have hlast : last.Spelled := harray.read_canonical "int" (by decide +kernel)
  have hkeeps₁ := parseType_canonical_proper hdeclared "const A" root
  have hkeeps₂ := parseType_canonical_proper hqualified "A" root
  have hkeeps₃ := parseType_canonical_proper harray "int" root
  have hplaces : ((parseType "const A" root >>= canonical).run declared).1 = ⟨4⟩ ∧
      ((parseType "A" root >>= canonical).run qualified).1 = ⟨1⟩ ∧
      ((parseType "int" root >>= canonical).run array).1 = ⟨0⟩ := by decide +kernel
  obtain ⟨T₁, hT₁, hproper₁⟩ := hkeeps₁.answer
  obtain ⟨T₂, hT₂, hproper₂⟩ := hkeeps₂.answer
  obtain ⟨T₃, hT₃, hproper₃⟩ := hkeeps₃.answer
  have h := hlast.reachable.wellFormed
  have hwritten₁ := hT₁.grows hkeeps₁.wellFormed h (hkeeps₂.grows.trans hkeeps₃.grows)
  have hwritten₂ := hT₂.grows hkeeps₂.wellFormed h hkeeps₃.grows
  rw [hplaces.1] at hwritten₁
  rw [hplaces.2.1] at hwritten₂
  rw [hplaces.2.2] at hT₃
  have hget : last.types.get? ⟨0⟩ = some ⟨.builtin .int, .none⟩ ∧
      last.types.get? ⟨1⟩ = some ⟨.constantArray ⟨0⟩ 2, .none⟩ ∧
      last.types.get? ⟨4⟩ = some ⟨.constantArray ⟨0⟩ 2, .const⟩ := by decide +kernel
  have hnode₀ := node_of_get? hget.1
  have hnode₁ := node_of_get? hget.2.1
  have hnode₄ := node_of_get? hget.2.2
  have hname₀ : last.Nameless ⟨0⟩ := by
    rw [nameless_iff, hnode₀]
    exact ⟨⟨rfl, nofun⟩, by simp [TypeKind.parts]⟩
  have hname₁ : last.Nameless ⟨1⟩ := by
    rw [nameless_iff, hnode₁]
    exact ⟨⟨rfl, nofun⟩, by simpa [TypeKind.parts] using hname₀⟩
  have hname₄ : last.Nameless ⟨4⟩ := by
    rw [nameless_iff, hnode₄]
    exact ⟨⟨rfl, nofun⟩, by simpa [TypeKind.parts] using hname₀⟩
  have hplain₀ : last.Unqualified ⟨0⟩ := by
    rw [unqualified_iff, hnode₀]
    exact ⟨nofun, by simp [TypeKind.parts]⟩
  have hplain₁ : last.Unqualified ⟨1⟩ := by
    rw [unqualified_iff, hnode₁]
    exact ⟨fun _ => rfl, by simpa [TypeKind.parts] using hplain₀⟩
  have hsame := (Reachable.canonical_texts_tell hlast.reachable hwritten₂ hwritten₁ hproper₂
    hproper₁ hname₁ hname₄).1
  have hother := (Reachable.canonical_texts_tell hlast.reachable hT₃ hwritten₂ hproper₃ hproper₂
    hname₀ hname₁).2 hplain₀ hplain₁
  have houtline : last.SameOutline ⟨1⟩ ⟨4⟩ :=
    ⟨.array (some 2) (.base (.builtin .int) .none), ⟨nofun, by decide⟩,
      ⟨⟨0⟩, .none, hget.1, hget.2.1⟩, ⟨⟨0⟩, .const, hget.1, hget.2.2⟩⟩
  exact ⟨⟨hnode₀, hnode₁, hnode₄⟩, hsame.mpr houtline,
    fun htext => absurd (hother.mp htext) (by decide)⟩

end Model

end CppReflect
