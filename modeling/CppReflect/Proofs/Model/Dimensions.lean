import CppReflect.Proofs.Model.Readings
import CppReflect.Query.Type

/-!
# The dimensions of arrays

Extents that are written behind a spelling are the dimensions of the type that it means, the
outermost first. They stay in order when the inner ones are given a name: a typedef of an array is
an array again, and the dimensions of what it stands for follow those that are written behind it.
-/

namespace CppReflect

open Spelling (Identifier Reserved ReadsFront Extent extentsText)

/-- The number that an extent counts as: -1 if there is none, or one too great for a signed
number. -/
def Spelling.Extent.dimension (e : Extent) : Int :=
  if e.digits ≠ [] ∧ Nat.ofDigitChars 10 e.digits 0 < 0x8000000000000000 then
    Nat.ofDigitChars 10 e.digits 0
  else -1

theorem Spelling.Extent.dimension_eq (e : Extent) : e.dimension =
    e.value?.elim (-1 : Int) fun n => if n.toNat < 0x8000000000000000 then n.toNat else -1 := by
  unfold dimension value?
  by_cases hdigits : e.digits = []
  · simp [hdigits]
  · simp [hdigits, UInt64.toNat_ofNat_of_lt' e.fits]

namespace TypeTree

/-- The extents of an array, the outermost first. -/
def extents : TypeTree → List (Option UInt64)
  | .node (.constantArray _ n) _ [e] => some n :: e.extents
  | .node (.incompleteArray _) _ [e] => none :: e.extents
  | _ => []

theorem extents_arrayed (extent : Option UInt64) (T : TypeTree) :
    (T.arrayed extent).extents = extent :: T.extents := by
  cases extent <;> rfl

end TypeTree

namespace Model

variable {m m' : Model}

/-! ## Dimensions of types -/

theorem WellFormed.extentsFrom_eq (h : m.WellFormed) {t : TypeId} (ht : m.HasType t) {fuel : Nat}
    (hfuel : t.index < fuel) : Query.extentsFrom m fuel t = (m.canonTree t).extents := by
  induction fuel generalizing t with
  | zero => exact absurd hfuel (Nat.not_lt_zero _)
  | succ fuel ih =>
      have helement : ∀ e ∈ (m.kindOf t).parts,
          Query.extentsFrom m fuel e = (m.canonTree e).extents := by
        intro e he
        obtain ⟨hlt, hex⟩ := h.desugared_parts he
        exact ih hex (by omega)
      rw [h.canonTree_eq ht]
      unfold Query.extentsFrom
      cases hkind : m.kindOf t with
      | constantArray e n | incompleteArray e =>
          simp only [helement e (by simp [hkind, TypeKind.parts])]
          rfl
      | _ => rfl

/-- The type exists, and asked for by its handle it has the dimensions. -/
def HasDimensions (m : Model) (t : TypeId) (dimensions : List Int) : Prop :=
  m.HasType t ∧
    ∀ handle, m.typeOfHandle? handle = some t → Query.dimensions m handle = dimensions

theorem WellFormed.hasDimensions (h : m.WellFormed) {t : TypeId} (ht : m.HasType t)
    {es : List Extent} (hextents : (m.canonTree t).extents = es.map Extent.value?) :
    m.HasDimensions t (es.map Extent.dimension) := by
  refine ⟨ht, fun handle hhandle => ?_⟩
  unfold Query.dimensions
  rw [hhandle]
  dsimp only
  have hfuel : t.index < m.typeFuel := Nat.lt_succ_of_lt ht
  rw [h.extentsFrom_eq ht hfuel, hextents, List.map_map]
  exact List.map_congr_left fun e _ => e.dimension_eq.symm

theorem WellFormed.extents_of_not_isArray (h : m.WellFormed) {t : TypeId} (ht : m.HasType t)
    (hscalar : m.isArray t = false) : (m.canonTree t).extents = [] := by
  rw [h.canonTree_eq ht]
  unfold isArray at hscalar
  cases hkind : m.kindOf t <;> simp_all [TypeKind.element?] <;> rfl

/-! ## Extents behind a spelling -/

/-- The operators of extents are applied from the last to the first. -/
theorem arrays_keeps (h : m.WellFormed) {t : TypeId} (ht : m.HasType t) (context : DeclId)
    (es : List Extent) :
    m.Keeps (resolveOps context t (es.map fun e => .array e.value?).reverse) fun u m' =>
      m'.HasType u ∧
        (m'.canonTree u).extents = es.map Extent.value? ++ (m.canonTree t).extents := by
  induction es with
  | nil =>
      simp only [List.map_nil, List.reverse_nil, resolveOps]
      exact Keeps.pure h ⟨ht, rfl⟩
  | cons e es ih =>
      rw [List.map_cons, List.reverse_cons, resolveOps_append]
      refine ih.bind fun u m₁ hwf₁ _ hu => ?_
      simp only [resolveOps, bind_pure]
      refine (array_keeps hwf₁ hu.1 context e.value?).weaken fun v m₂ _ _ hv => ⟨hv.1, ?_⟩
      rw [hv.2, TypeTree.extents_arrayed, hu.2]
      rfl

/-- Extents behind a text that is read in front of a declarator. -/
theorem parseType_extents {text : String} {base : Spelling.Base} {quals : Quals}
    {ops : List DeclaratorOp} (hfront : ReadsFront text base quals ops) (context : DeclId)
    (es : List Extent) :
    parseType (text ++ extentsText es) context = parseType text context >>= fun t =>
      resolveOps context t (es.map fun e => .array e.value?).reverse := by
  unfold parseType
  rw [hfront.read_extents, hfront.read]
  exact resolve_append context base quals ops _

/-- The dimensions of the type that is read are the extents in front of those of the spelling. -/
theorem parseType_extents_keeps {text : String} {base : Spelling.Base} {quals : Quals}
    {ops : List DeclaratorOp} (hfront : ReadsFront text base quals ops) {context : DeclId}
    {T : TypeTree}
    (htext : m.Keeps (parseType text context) fun t m' => m'.HasType t ∧ m'.canonTree t = T)
    (es : List Extent) :
    m.Keeps (parseType (text ++ extentsText es) context) fun t m' =>
      m'.HasType t ∧ (m'.canonTree t).extents = es.map Extent.value? ++ T.extents := by
  rw [parseType_extents hfront]
  refine htext.bind fun t m₁ hwf₁ _ ht => ?_
  rw [← ht.2]
  exact arrays_keeps hwf₁ ht.1 context es

/-! ## Inner arrays by name -/

/-- Gives a fresh name to a spelling with inner extents, as a typedef in the translation unit, and
reads the name with outer extents behind it. -/
def readThroughName (text name : String) (outer inner : List Extent) (context : DeclId) :
    ModelM TypeId := do
  let u ← parseType (text ++ extentsText inner) context
  let _ ← declareTypedef root name u
  parseType (name ++ extentsText outer) context

/-- In every reachable model, the dimensions of an array are the extents in the order in which they
are written, also if the inner ones are given a name first. -/
theorem Reachable.dimensions_in_order (hm : m.Reachable) {context : DeclId}
    (hcontext : m.HasDecl context) {text : String} {base : Spelling.Base} {quals : Quals}
    {ops : List DeclaratorOp} (hfront : ReadsFront text base quals ops)
    (hscalar : ((parseType text context).run m).2.isArray ((parseType text context).run m).1 =
      false) :
    (∀ es : List Extent,
      m.Keeps (parseType (text ++ extentsText es) context) fun t m' =>
        m'.HasDimensions t (es.map Extent.dimension)) ∧
    ∀ (name : String) (outer inner : List Extent), Identifier name → ¬Reserved name →
      (∀ d, m.HasDecl d → (m.decl d).name ≠ name) →
      m.Keeps (readThroughName text name outer inner context) fun t m' =>
        m'.HasDimensions t ((outer ++ inner).map Extent.dimension) := by
  have hbase := parseType_keeps hm.wellFormed text context
  have hempty := hbase.wellFormed.extents_of_not_isArray hbase.answer hscalar
  have hread : ∀ es : List Extent, m.Keeps (parseType (text ++ extentsText es) context) fun t m' =>
      m'.HasType t ∧ (m'.canonTree t).extents = es.map Extent.value? := by
    intro es
    have hkeeps := parseType_extents_keeps hfront
      ⟨hbase.wellFormed, hbase.grows, hbase.answer, rfl⟩ es
    rwa [hempty, List.append_nil] at hkeeps
  refine ⟨fun es => (hread es).weaken fun t m' hwf _ ht => hwf.hasDimensions ht.1 ht.2, ?_⟩
  intro name outer inner hname hfree hfresh
  refine ((hread inner).interned (parseType_interns _ _)).bind fun u m₁ hwf₁ hgrow₁ hu => ?_
  obtain ⟨⟨hex, hinner⟩, hinterned⟩ := hu
  have hfresh₁ : ∀ d, m₁.HasDecl d → (m₁.decl d).name ≠ name := by
    intro d hd
    have hold : m.HasDecl d := by
      unfold HasDecl at hd ⊢
      rwa [← hinterned.decls]
    rw [(hgrow₁.decl hold).name]
    exact hfresh d hold
  refine (declareTypedef_soleName hwf₁ hex hfresh₁).bind fun d m₂ hwf₂ hgrow₂ hd => ?_
  have hname₂ := hd.1.parseType_keeps hwf₂ hname hfree hd.2
    (hgrow₂.hasDecl (hgrow₁.hasDecl hcontext))
  have hfront₂ := (hname.plain hfree).readsFront
  rw [Spelling.text_word] at hfront₂
  refine (parseType_extents_keeps hfront₂ hname₂ outer).weaken fun t m₃ hwf₃ _ ht =>
    hwf₃.hasDimensions ht.1 ?_
  rw [ht.2, hwf₁.canonTree_grows hwf₂ hgrow₂ hex, hinner, List.map_append]

/-- An array of two named rows of pointers, in which one dimension is open and one too great. -/
theorem dimensions_in_order_rows :
    let open_ : Extent := ⟨[], nofun, by decide⟩
    let two : Extent := ⟨['2'], List.all_eq_true.mp rfl, by decide⟩
    let three : Extent := ⟨['0', '3'], List.all_eq_true.mp rfl, by decide⟩
    let great : Extent := ⟨"9223372036854775808".toList, List.all_eq_true.mp rfl, by decide⟩
    let read := (parseType "char *" root).run empty
    ((empty.HasDecl root ∧ ReadsFront "char *" (.builtin .char) .none [.pointer .none] ∧
        read.2.isArray read.1 = false) ∧
      Identifier "Row" ∧ ¬Reserved "Row" ∧ ∀ d, empty.HasDecl d → (empty.decl d).name ≠ "Row") ∧
      (empty.Keeps (parseType ("char *" ++ extentsText [open_, two, great, three]) root)
        fun t m' => m'.HasDimensions t [-1, 2, -1, 3]) ∧
      empty.Keeps (readThroughName "char *" "Row" [open_, two] [great, three] root)
        fun t m' => m'.HasDimensions t [-1, 2, -1, 3] := by
  intro open_ two three great read
  have hroot : empty.HasDecl root := by decide
  have hfront : ReadsFront "char *" (.builtin .char) .none [.pointer .none] :=
    ⟨[.punct "*"], rfl, rfl⟩
  have hscalar : read.2.isArray read.1 = false := by decide +kernel
  have hname : Identifier "Row" := ⟨'R', ['o', 'w'], rfl, by decide, List.all_eq_true.mp rfl⟩
  have hfree : ¬Reserved "Row" := by decide
  have hfresh : ∀ d, empty.HasDecl d → (empty.decl d).name ≠ "Row" := by
    intro d hd
    obtain ⟨e, he⟩ := hasDecl_iff.mp hd
    rw [decl, he, (decl?_empty he).2]
    decide
  have hdimensions : [open_, two, great, three].map Extent.dimension = [-1, 2, -1, 3] := by decide
  have horder := Reachable.dimensions_in_order .empty hroot hfront hscalar
  rw [← hdimensions]
  exact ⟨⟨⟨hroot, hfront, hscalar⟩, hname, hfree, hfresh⟩, horder.1 _,
    horder.2 "Row" [open_, two] [great, three] hname hfree hfresh⟩

end Model

end CppReflect
