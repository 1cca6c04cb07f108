import CppReflect.Proofs.Ast.Keys

/-!
# The integer types of enumerations

An enumeration that fixes no type gets one that is chosen from the range of its enumerators. The
type holds all of them, with one exception: where some are negative, some exceed `int`, and all are
within the bounds of `int` and `unsigned int` together, `int` is chosen and `long` would be needed.
-/

namespace CppReflect

namespace Builtin

/-- The least value of an integer type. -/
def least (b : Builtin) : Int := if b.isSigned then -Nat.pow 2 (8 * b.size - 1) else 0

/-- The greatest value of an integer type. -/
def greatest (b : Builtin) : Int :=
  if b.isSigned then Nat.pow 2 (8 * b.size - 1) - 1 else Nat.pow 2 (8 * b.size) - 1

/-- The value is one of the integer type. -/
def Holds (b : Builtin) (value : Int) : Prop := b.least ≤ value ∧ value ≤ b.greatest

theorem least_int : int.least = -2147483648 := rfl

theorem greatest_int : int.greatest = 2147483647 := rfl

theorem least_uint : uint.least = 0 := rfl

theorem greatest_uint : uint.greatest = 4294967295 := rfl

theorem least_long : long.least = -9223372036854775808 := rfl

theorem greatest_long : long.greatest = 9223372036854775807 := rfl

end Builtin

namespace Ast

open Model (Interns)

/-- The enumerators among nodes side by side, where the value of the next one is given: each has a
value of its own, or else one more than the one in front. -/
def enumerators : Int64 → List Json → List (String × Int64)
  | _, [] => []
  | next, child :: rest =>
    if kind child = "EnumConstantDecl" then
      let value := (constantValue? child).getD next
      (text child "name", value) :: enumerators (value + 1) rest
    else enumerators next rest

/-- The values of the enumerators of an enumeration. -/
def enumeratorValues (node : Json) : List Int64 := (enumerators 0 (children node)).map Prod.snd

/-- Some values are negative and some exceed `int`, but none of them exceeds `unsigned int` or is
below `int`. -/
def Straddles (values : List Int64) : Prop :=
  (∃ v ∈ values, v.toInt < 0) ∧ (∃ v ∈ values, Builtin.int.greatest < v.toInt) ∧
    ∀ v ∈ values, Builtin.int.least ≤ v.toInt ∧ v.toInt ≤ Builtin.uint.greatest

-- The list is gone through: `Int64` is finite, and an instance that goes through all of it may be
-- at hand.
instance (values : List Int64) : Decidable (Straddles values) :=
  @instDecidableAnd _ _ (List.decidableBEx _ values)
    (@instDecidableAnd _ _ (List.decidableBEx _ values) (List.decidableBAll _ values))

/-! ## The range -/

namespace EnumeratorRange

theorem integerType_mem (r : EnumeratorRange) : r.integerType ∈ [.int, .uint, .long] := by
  unfold integerType
  split
  · decide
  · split <;> decide

/-- The range is that of the values and of zero. -/
structure Spans (r : EnumeratorRange) (values : List Int64) : Prop where
  zero : r.least.toInt ≤ 0 ∧ 0 ≤ r.greatest.toInt
  bounds : ∀ v ∈ values, r.least.toInt ≤ v.toInt ∧ v.toInt ≤ r.greatest.toInt
  least : r.least.toInt = 0 ∨ r.least ∈ values
  greatest : r.greatest.toInt = 0 ∨ r.greatest ∈ values

theorem spans_initial : ({} : EnumeratorRange).Spans [] :=
  ⟨⟨by decide, by decide⟩, nofun, .inl (by decide), .inl (by decide)⟩

theorem least_add (r : EnumeratorRange) (v : Int64) :
    v.toInt < r.least.toInt ∧ (r.add v).least = v ∨
      r.least.toInt ≤ v.toInt ∧ (r.add v).least = r.least := by
  by_cases h : v < r.least
  · exact .inl ⟨Int64.lt_iff_toInt_lt.mp h, if_pos h⟩
  · exact .inr ⟨Int.not_lt.mp fun hlt => h (Int64.lt_iff_toInt_lt.mpr hlt), if_neg h⟩

theorem greatest_add (r : EnumeratorRange) (v : Int64) :
    r.greatest.toInt < v.toInt ∧ (r.add v).greatest = v ∨
      v.toInt ≤ r.greatest.toInt ∧ (r.add v).greatest = r.greatest := by
  by_cases h : r.greatest < v
  · exact .inl ⟨Int64.lt_iff_toInt_lt.mp h, if_pos h⟩
  · exact .inr ⟨Int.not_lt.mp fun hlt => h (Int64.lt_iff_toInt_lt.mpr hlt), if_neg h⟩

theorem Spans.add {r : EnumeratorRange} {values : List Int64} (h : r.Spans values) (v : Int64) :
    (r.add v).Spans (values ++ [v]) := by
  have hzero := h.zero
  have hleast := least_add r v
  have hgreatest := greatest_add r v
  have hmem : ∀ {w}, w ∈ values → w ∈ values ++ [v] := List.mem_append_left _
  refine ⟨?_, fun w hw => ?_, ?_, ?_⟩
  -- each bound has moved to the value or stays where it was
  · rcases hleast with ⟨_, hl⟩ | ⟨_, hl⟩ <;> rcases hgreatest with ⟨_, hg⟩ | ⟨_, hg⟩ <;>
      rw [hl, hg] <;> omega
  · have hw' : w = v ∨ r.least.toInt ≤ w.toInt ∧ w.toInt ≤ r.greatest.toInt :=
      (List.mem_append.mp hw).symm.imp List.mem_singleton.mp (h.bounds w)
    rcases hleast with ⟨_, hl⟩ | ⟨_, hl⟩ <;> rcases hgreatest with ⟨_, hg⟩ | ⟨_, hg⟩ <;>
      rcases hw' with rfl | hw' <;> rw [hl, hg] <;> omega
  · rcases hleast with ⟨-, heq⟩ | ⟨-, heq⟩
    · exact .inr (by simp [heq])
    · exact h.least.imp (heq ▸ ·) (heq ▸ hmem ·)
  · rcases hgreatest with ⟨-, heq⟩ | ⟨-, heq⟩
    · exact .inr (by simp [heq])
    · exact h.greatest.imp (heq ▸ ·) (heq ▸ hmem ·)

theorem Spans.foldl {r : EnumeratorRange} {before : List Int64} (h : r.Spans before)
    (values : List Int64) : (values.foldl EnumeratorRange.add r).Spans (before ++ values) := by
  induction values generalizing r before with
  | nil => exact (List.append_nil before).symm ▸ h
  | cons v rest ih =>
      rw [List.append_cons]
      exact ih (h.add v)

/-- The choice, in terms of the bounds. -/
theorem integerType_cases (r : EnumeratorRange) :
    (r.integerType = .uint ∧ 0 ≤ r.least.toInt ∧ 2147483647 < r.greatest.toInt ∧
      r.greatest.toInt ≤ 4294967295) ∨
    (r.integerType = .long ∧ (4294967295 < r.greatest.toInt ∨ r.least.toInt < -2147483648)) ∨
    (r.integerType = .int ∧ -2147483648 ≤ r.least.toInt ∧ r.greatest.toInt ≤ 4294967295 ∧
      (r.least.toInt < 0 ∨ r.greatest.toInt ≤ 2147483647)) := by
  have hzero : (0 : Int64).toInt = 0 := rfl
  have hint : (2147483647 : Int64).toInt = 2147483647 := rfl
  have huint : (4294967295 : Int64).toInt = 4294967295 := rfl
  have hlow : (-2147483648 : Int64).toInt = -2147483648 := rfl
  unfold integerType
  simp only [Int64.lt_iff_toInt_lt, Int64.le_iff_toInt_le, hzero, hint, huint, hlow]
  split
  next h => exact .inl ⟨rfl, h⟩
  next h =>
    split
    next h' => exact .inr (.inl ⟨rfl, h'⟩)
    next h' => exact .inr (.inr ⟨rfl, by omega, by omega, by omega⟩)

section Spans

variable {r : EnumeratorRange} {values : List Int64} (h : r.Spans values)

include h

/-- The values are within bounds around zero where the range is. -/
theorem Spans.within_iff {low high : Int} (hlow : low ≤ 0) (hhigh : 0 ≤ high) :
    (∀ v ∈ values, low ≤ v.toInt ∧ v.toInt ≤ high) ↔
      low ≤ r.least.toInt ∧ r.greatest.toInt ≤ high := by
  refine ⟨fun hall => ⟨?_, ?_⟩, fun hrange v hv => ?_⟩
  · rcases h.least with hzero | hmem
    · exact hzero ▸ hlow
    · exact (hall _ hmem).1
  · rcases h.greatest with hzero | hmem
    · exact hzero ▸ hhigh
    · exact (hall _ hmem).2
  · exact ⟨Int.le_trans hrange.1 (h.bounds v hv).1, Int.le_trans (h.bounds v hv).2 hrange.2⟩

theorem Spans.exists_lt_iff {low : Int} (hlow : low ≤ 0) :
    (∃ v ∈ values, v.toInt < low) ↔ r.least.toInt < low := by
  refine ⟨fun ⟨v, hv, hlt⟩ => Int.lt_of_le_of_lt (h.bounds v hv).1 hlt, fun hlt => ?_⟩
  rcases h.least with hzero | hmem
  · exact absurd (hzero ▸ hlt) (Int.not_lt.mpr hlow)
  · exact ⟨_, hmem, hlt⟩

theorem Spans.exists_gt_iff {high : Int} (hhigh : 0 ≤ high) :
    (∃ v ∈ values, high < v.toInt) ↔ high < r.greatest.toInt := by
  refine ⟨fun ⟨v, hv, hlt⟩ => Int.lt_of_lt_of_le hlt (h.bounds v hv).2, fun hlt => ?_⟩
  rcases h.greatest with hzero | hmem
  · exact absurd (hzero ▸ hlt) (Int.not_lt.mpr hhigh)
  · exact ⟨_, hmem, hlt⟩

/-- The chosen type holds the values, with one exception. -/
theorem Spans.integerType_holds_iff :
    (∀ v ∈ values, r.integerType.Holds v.toInt) ↔ ¬Straddles values := by
  have hzero : r.integerType.least ≤ 0 ∧ 0 ≤ r.integerType.greatest := by
    rcases r.integerType_cases with ⟨htype, -⟩ | ⟨htype, -⟩ | ⟨htype, -⟩ <;> rw [htype] <;> decide
  unfold Straddles Builtin.Holds
  rw [h.within_iff hzero.1 hzero.2, h.exists_lt_iff (Int.le_refl 0), h.exists_gt_iff (by decide),
    h.within_iff (by decide) (by decide), Builtin.least_int, Builtin.greatest_int,
    Builtin.greatest_uint]
  -- no value is too great for `long`
  have hlow := r.least.le_toInt
  have hhigh := r.greatest.toInt_lt
  rcases r.integerType_cases with ⟨htype, hrest⟩ | ⟨htype, hrest⟩ | ⟨htype, hrest⟩
  · rw [htype, Builtin.least_uint, Builtin.greatest_uint]
    omega
  · rw [htype, Builtin.least_long, Builtin.greatest_long]
    omega
  · rw [htype, Builtin.least_int, Builtin.greatest_int]
    omega

end Spans

end EnumeratorRange

/-! ## Keys -/

/-- The key of an enumeration. -/
def enumKey (scope : DeclId) (name : String) : String := keyIn scope ("enum:" ++ name)

/-- The key of an enumerator. -/
def constantKey (enum : DeclId) (name : String) : String := keyIn enum ("const:" ++ name)

theorem constantKey_inj {enum enum' : DeclId} {name name' : String}
    (h : constantKey enum name = constantKey enum' name') : name = name' := by
  have hwhat := congrArg String.toList (keyIn_inj h)
  rw [String.toList_append, String.toList_append] at hwhat
  exact String.toList_injective (List.append_cancel_left hwhat)

theorem Fits.enum {scope : DeclId} {name : String} {k : DeclKind}
    (h : Fits (enumKey scope name) k) : ∃ info, k = .enum info := by
  have hmeet := h.meet
  cases k with
  | enum info => exact ⟨info, rfl⟩
  | _ =>
      dsimp only [DeclKind.keyWords] at hmeet
      exact absurd hmeet (by decide)

theorem Fits.constant {enum : DeclId} {name : String} {k : DeclKind}
    (h : Fits (constantKey enum name) k) : ∃ value type, k = .enumConstant value type := by
  have hmeet := h.meet
  cases k with
  | enumConstant value type => exact ⟨value, type, rfl⟩
  | _ =>
      dsimp only [DeclKind.keyWords] at hmeet
      exact absurd hmeet (by decide)

theorem enumKey_bound {m : Model} (h : m.WellKeyed) {scope : DeclId} {name : String} {d : DeclId}
    (hd : m.keyed? (enumKey scope name) = some d) :
    ∃ e info, m.decl? d = some e ∧ e.kind = .enum info := by
  obtain ⟨e, he, hfits⟩ := h.fits _ d hd
  obtain ⟨info, hkind⟩ := hfits.enum
  exact ⟨e, info, he, hkind⟩

theorem constantKey_bound {m : Model} (h : m.WellKeyed) {enum : DeclId} {name : String} {c : DeclId}
    (hc : m.keyed? (constantKey enum name) = some c) :
    ∃ e value type, m.decl? c = some e ∧ e.kind = .enumConstant value type := by
  obtain ⟨e, he, hfits⟩ := h.fits _ c hc
  obtain ⟨value, type, hkind⟩ := hfits.constant
  exact ⟨e, value, type, he, hkind⟩

/-! ## Enumerators -/

/-- Gives an enumerator a new value. -/
def setValue (c : DeclId) (value : Int64) : ModelM PUnit :=
  Model.modifyDecl c fun e =>
    match e.kind with
    | .enumConstant _ type => { e with kind := .enumConstant value type }
    | _ => e

/-- Declares an enumerator under its key, or gives it a new value. -/
def storeConstant (enum : DeclId) (type : TypeId) (name : String) (value : Int64) :
    ModelM PUnit := do
  let r ← upsert (constantKey enum name) enum name .none false (pure (.enumConstant value type))
  setValue r.1 value

theorem enumeratorDecl_eq (enum : DeclId) (type : TypeId) (r : EnumeratorRange) (child : Json) :
    enumeratorDecl enum type r child = (do
      observe child
      if kind child = "EnumConstantDecl" then
        let value := (constantValue? child).getD r.next
        storeConstant enum type (text child "name") value
        passOver child
        return r.add value
      else
        passOver child
        return r) := rfl

theorem setValue_extends (c : DeclId) (value : Int64) (m : Model) :
    m.Extends ((setValue c value).run m).2 := by
  refine Model.modifyDecl_extending c (fun e => ?_) m
  split
  next hkind =>
    refine Decl.Extends.set_kind (hkind ▸ trivial) ?_
    simp [Decl.function?, hkind]
  next => exact Decl.Extends.refl e

/-- The enumerator is declared under its key, with that value. -/
def Stores (m : Model) (enum : DeclId) (name : String) (value : Int64) : Prop :=
  ∃ c e type, m.keyed? (constantKey enum name) = some c ∧ m.decl? c = some e ∧
    e.kind = .enumConstant value type

/-- Only the value of that enumerator is another one. -/
theorem setValue_stores {m : Model} (h : m.WellKeyed) {enum c : DeclId} {name : String}
    (hc : m.keyed? (constantKey enum name) = some c) (value : Int64) :
    Stores ((setValue c value).run m).2 enum name value ∧
      ∀ name' value', name' ≠ name → Stores m enum name' value' →
        Stores ((setValue c value).run m).2 enum name' value' := by
  obtain ⟨e, old, type, he, hkind⟩ := constantKey_bound h hc
  refine ⟨?_, ?_⟩
  · refine ⟨c, { e with kind := .enumConstant value type }, type, hc, ?_, rfl⟩
    refine (Model.decl?_modify_of_decl? he _).trans ?_
    rw [if_pos rfl, hkind]
  · rintro name' value' hname ⟨c', e', type', hc', he', hkind'⟩
    have hne : c' ≠ c := by
      rintro rfl
      exact hname (constantKey_inj (h.apart _ _ _ hc' hc))
    refine ⟨c', e', type', hc', ?_, hkind'⟩
    refine (Model.decl?_modify_of_decl? he' _).trans ?_
    rw [if_neg hne]

theorem storeConstant_run (enum : DeclId) (type : TypeId) (name : String) (value : Int64)
    (m : Model) : (storeConstant enum type name value).run m =
      let r := (upsert (constantKey enum name) enum name .none false
        (pure (.enumConstant value type))).run m
      (setValue r.1.1 value).run r.2 := rfl

/-- An enumerator is stored, and the others stay what they are. -/
theorem storeConstant_spec {m : Model} (h : m.WellKeyed) (enum : DeclId) (type : TypeId)
    (name : String) (value : Int64) :
    m.Extends ((storeConstant enum type name value).run m).2 ∧
      ((storeConstant enum type name value).run m).2.WellKeyed ∧
      Stores ((storeConstant enum type name value).run m).2 enum name value ∧
      ∀ name' value', name' ≠ name → Stores m enum name' value' →
        Stores ((storeConstant enum type name value).run m).2 enum name' value' := by
  have hkind : Interns (pure (.enumConstant value type) : ModelM DeclKind) := Interns.pure _
  have hext := upsert_extending (constantKey enum name) enum name .none false hkind m
  have hkeys := h.upsert enum name .none false hkind
    (⟨enum, "const:", name, .head _, rfl⟩ : Fits (constantKey enum name) _)
  have hc := upsert_keyed m (constantKey enum name) enum name .none false
    (pure (.enumConstant value type))
  have hold : ∀ {c e}, m.decl? c = some e → _ :=
    upsert_old hkind (constantKey enum name) enum name .none false
  rw [storeConstant_run]
  generalize (upsert _ _ _ _ _ _).run m = r at hext hkeys hc hold ⊢
  have hset := setValue_extends r.1.1 value r.2
  obtain ⟨hstores, hothers⟩ := setValue_stores hkeys hc value
  refine ⟨hext.trans hset, hkeys.of_keys hset rfl, hstores, ?_⟩
  rintro name' value' hname ⟨c', e', type', hc', he', hkind'⟩
  obtain ⟨e'', he'', hsame⟩ := hold he'
  exact hothers name' value' hname
    ⟨c', e'', type', hext.keys _ _ hc', he'', hsame.trans hkind'⟩

/-- These enumerators are declared, and where two of them have one name, the later one counts. -/
structure Enumerated (enum : DeclId) (constants : List (String × Int64)) (m : Model) : Prop where
  keys : m.WellKeyed
  stored : ∀ name value, constants.reverse.lookup name = some value → Stores m enum name value

theorem Enumerated.storeConstant {enum : DeclId} {constants : List (String × Int64)} {m : Model}
    (h : Enumerated enum constants m) (type : TypeId) (name : String) (value : Int64) :
    Enumerated enum (constants ++ [(name, value)])
      ((Ast.storeConstant enum type name value).run m).2 := by
  obtain ⟨-, hkeys, hstores, hothers⟩ := storeConstant_spec h.keys enum type name value
  refine ⟨hkeys, fun name' value' hlookup => ?_⟩
  rw [List.reverse_append, List.reverse_singleton, List.singleton_append, List.lookup_cons]
    at hlookup
  split at hlookup
  next heq =>
    obtain rfl := beq_iff_eq.mp heq
    exact Option.some.inj hlookup ▸ hstores
  next hne =>
    exact hothers name' value' (beq_eq_false_iff_ne.mp hne) (h.stored name' value' hlookup)

/-- The node of an enumerator declares it. -/
theorem enumeratorDecl_constant {child : Json} (hkind : kind child = "EnumConstantDecl")
    (enum : DeclId) (type : TypeId) (r : EnumeratorRange) (p : Progress) :
    ∃ p', (enumeratorDecl enum type r child).run.run p =
        (.ok (r.add ((constantValue? child).getD r.next)), p') ∧
      p'.model = ((storeConstant enum type (text child "name")
        ((constantValue? child).getD r.next)).run p.model).2 := by
  rw [enumeratorDecl_eq]
  simp only [hkind, if_true]
  exact ⟨_, rfl, rfl⟩

/-- Any other node only moves the location on. -/
theorem enumeratorDecl_other {child : Json} (hkind : kind child ≠ "EnumConstantDecl")
    (enum : DeclId) (type : TypeId) (r : EnumeratorRange) (p : Progress) :
    ∃ p', (enumeratorDecl enum type r child).run.run p = (.ok r, p') ∧ p'.model = p.model := by
  rw [enumeratorDecl_eq]
  simp only [hkind, if_false]
  exact ⟨_, rfl, rfl⟩

/-- Nodes side by side declare the enumerators among them, and the range is that of their values. -/
theorem enumerators_run (enum : DeclId) (type : TypeId) (nodes : List Json) (r : EnumeratorRange)
    {p : Progress} {constants : List (String × Int64)} (h : Enumerated enum constants p.model) :
    ∃ p', (nodes.foldlM (enumeratorDecl enum type) r).run.run p =
        (.ok (((enumerators r.next nodes).map Prod.snd).foldl EnumeratorRange.add r), p') ∧
      p.model.Extends p'.model ∧
      Enumerated enum (constants ++ enumerators r.next nodes) p'.model := by
  induction nodes generalizing r p constants with
  | nil => exact ⟨p, rfl, Model.Extends.refl _, (List.append_nil constants).symm ▸ h⟩
  | cons child rest ih =>
      unfold enumerators
      rw [List.foldlM_cons]
      -- the range carries the value that the next enumerator has by default
      split
      next hkind =>
        obtain ⟨q, hrun, hmodel⟩ := enumeratorDecl_constant hkind enum type r p
        obtain ⟨hext, -⟩ := storeConstant_spec h.keys enum type (text child "name")
          ((constantValue? child).getD r.next)
        have hstored := h.storeConstant type (text child "name")
          ((constantValue? child).getD r.next)
        rw [← hmodel] at hext hstored
        obtain ⟨p', hrest, hext', hdone⟩ := ih (r.add ((constantValue? child).getD r.next))
          hstored
        rw [run_bind_of_ok hrun]
        exact ⟨p', hrest, hext.trans hext', List.append_cons .. ▸ hdone⟩
      next hkind =>
        obtain ⟨q, hrun, hmodel⟩ := enumeratorDecl_other hkind enum type r p
        rw [run_bind_of_ok hrun, ← hmodel]
        exact ih r (hmodel ▸ h)

/-! ## Enumerations -/

/-- The name of an enumeration in its key: unnamed ones are counted. -/
def enumName (node : Json) (parent : DeclId) (p : Progress) : String :=
  if (text node "name").isEmpty then
    "#" ++ toString ((p.unnamed.lookup (parent, "enum")).getD 0 + 1)
  else text node "name"

/-- The key under which an enumeration is declared. -/
def nextEnumKey (node : Json) (parent : DeclId) : IngestM String :=
  if (text node "name").isEmpty then unnamedKey parent "enum"
  else pure (enumKey parent (text node "name"))

/-- An enumeration without enumerators. -/
def openEnum (node : Json) : ModelM DeclKind := do
  let integerType ← Model.builtin .int
  return .enum { isScoped := has node "scopedEnumTag", integerType, complete := false }

/-- Declares an enumeration under its key, without its enumerators. -/
def enumHead (node : Json) (parent : DeclId) (access : Access) (key : String) :
    ModelM (DeclId × TypeId) := do
  let r ← upsert key parent (text node "name") access false (openEnum node)
  let type ← Model.internKind (.enum r.1)
  return (r.1, type)

/-- What is known of an enumeration behind its enumerators. -/
def completed (node : Json) (range : EnumeratorRange) (integerType : TypeId) (info : EnumInfo) :
    EnumInfo :=
  { info with
    integerType
    complete := info.complete || range.any || has node "scopedEnumTag" ||
      has node "fixedUnderlyingType" }

/-- Completes an enumeration, whose integer type is known. -/
def completeEnum (node : Json) (d : DeclId) (range : EnumeratorRange) (integerType : TypeId) :
    ModelM PUnit :=
  Model.modifyDecl d fun e =>
    match e.kind with
    | .enum info => { e with kind := .enum (completed node range integerType info) }
    | _ => e

/-- Completes an enumeration that fixes no type. -/
def enumTail (node : Json) (d : DeclId) (range : EnumeratorRange) : ModelM PUnit := do
  let integerType ← Model.builtin range.integerType
  completeEnum node d range integerType

theorem enumDecl_eq {node : Json} (hfixed : typeUnder? node "fixedUnderlyingType" = none)
    (parent : DeclId) (access : Access) :
    enumDecl node parent access = (do
      let key ← nextEnumKey node parent
      let h ← onModel (enumHead node parent access key)
      let range ← (children node).foldlM (enumeratorDecl h.1 h.2) {}
      onModel (enumTail node h.1 range)) := by
  unfold enumDecl nextEnumKey
  simp only [hfixed]
  split
  · rfl
  · rfl

theorem run_nextEnumKey (node : Json) (parent : DeclId) (p : Progress) :
    ∃ p', (nextEnumKey node parent).run.run p =
      (.ok (enumKey parent (enumName node parent p)), p') ∧ p'.model = p.model := by
  unfold nextEnumKey enumName
  split
  · have hkey : ∀ n : String, keyIn parent ("enum" ++ ":#" ++ n) = enumKey parent ("#" ++ n) := by
      intro n
      rw [enumKey, ← String.append_assoc]
      rfl
    rw [← hkey]
    exact ⟨_, rfl, rfl⟩
  · exact ⟨p, rfl, rfl⟩

theorem enumHead_spec {m : Model} (h : m.WellKeyed) (node : Json) (parent : DeclId)
    (access : Access) (name : String) :
    ((enumHead node parent access (enumKey parent name)).run m).2.WellKeyed ∧
      ((enumHead node parent access (enumKey parent name)).run m).2.keyed? (enumKey parent name) =
        some ((enumHead node parent access (enumKey parent name)).run m).1.1 := by
  have hkind : Interns (openEnum node) := (Model.intern_interns _).bind fun _ => Interns.pure _
  have hkeys := h.upsert parent (text node "name") access false hkind
    (⟨parent, "enum:", name, .head _, rfl⟩ : Fits (enumKey parent name) _)
  have hd := upsert_keyed m (enumKey parent name) parent (text node "name") access false
    (openEnum node)
  unfold enumHead
  rw [run_modelM_bind]
  generalize (upsert _ _ _ _ _ _).run m = r at hkeys hd ⊢
  have hinterned := Model.intern_interns ⟨.enum r.1.1, .none⟩ r.2
  exact ⟨hkeys.of_keys hinterned.extends hinterned.keys, (hinterned.keyed?_eq _).trans hd⟩

/-- Nothing happens to the keys, and nothing to the enumerators. -/
theorem Enumerated.of_extends {d : DeclId} {constants : List (String × Int64)} {m m' : Model}
    (h : Enumerated d constants m) (hext : m.Extends m') (hkeys : m'.keys = m.keys)
    (hsame : ∀ c e value type, m.decl? c = some e → e.kind = .enumConstant value type →
      m'.decl? c = some e) :
    Enumerated d constants m' := by
  refine ⟨h.keys.of_keys hext hkeys, fun name value hlookup => ?_⟩
  obtain ⟨c, e, type, hc, he, hkind⟩ := h.stored name value hlookup
  exact ⟨c, e, type, hext.keys _ _ hc, hsame c e value type he hkind, hkind⟩

/-- The enumeration is declared, with that integer type. -/
def HasIntegerType (m : Model) (d : DeclId) (b : Builtin) : Prop :=
  ∃ e info, m.decl? d = some e ∧ e.kind = .enum info ∧
    m.node info.integerType = ⟨.builtin b, .none⟩

theorem completeEnum_extends (node : Json) (d : DeclId) (range : EnumeratorRange)
    (integerType : TypeId) (m : Model) :
    m.Extends ((completeEnum node d range integerType).run m).2 := by
  refine Model.modifyDecl_extending d (fun e => ?_) m
  split
  next info hkind =>
    refine Decl.Extends.set_kind (by rw [hkind]; rfl) ?_
    simp [Decl.function?, hkind]
  next => exact Decl.Extends.refl e

/-- The enumeration has that integer type then, and its enumerators are what they were. -/
theorem completeEnum_spec {m : Model} {d : DeclId} {constants : List (String × Int64)}
    (h : Enumerated d constants m) {scope : DeclId} {name : String}
    (hd : m.keyed? (enumKey scope name) = some d) (node : Json) (range : EnumeratorRange)
    {integerType : TypeId} {b : Builtin} (htype : m.node integerType = ⟨.builtin b, .none⟩) :
    Enumerated d constants ((completeEnum node d range integerType).run m).2 ∧
      HasIntegerType ((completeEnum node d range integerType).run m).2 d b := by
  obtain ⟨e, info, he, hkind⟩ := enumKey_bound h.keys hd
  refine ⟨h.of_extends (completeEnum_extends node d range integerType m) rfl ?_, ?_⟩
  · intro c x value type hx hconstant
    refine (Model.decl?_modify_of_decl? hx _).trans ?_
    simp [hconstant]
  · let info' := completed node range integerType info
    refine ⟨{ e with kind := .enum info' }, info', ?_, rfl, htype⟩
    refine (Model.decl?_modify_of_decl? he _).trans ?_
    rw [if_pos rfl, hkind]

theorem enumTail_spec {m : Model} {d : DeclId} {constants : List (String × Int64)}
    (h : Enumerated d constants m) {scope : DeclId} {name : String}
    (hd : m.keyed? (enumKey scope name) = some d) (node : Json) (range : EnumeratorRange) :
    m.Extends ((enumTail node d range).run m).2 ∧
      Enumerated d constants ((enumTail node d range).run m).2 ∧
      HasIntegerType ((enumTail node d range).run m).2 d range.integerType := by
  have hinterned : m.Interned ((Model.builtin range.integerType).run m).2 :=
    Model.intern_interns _ m
  have htype : ((Model.builtin range.integerType).run m).2.node
      ((Model.builtin range.integerType).run m).1 = ⟨.builtin range.integerType, .none⟩ :=
    congrArg (Option.getD · _) (TypeTable.get?_intern m.types ⟨.builtin range.integerType, .none⟩)
  unfold enumTail
  rw [run_modelM_bind]
  generalize (Model.builtin range.integerType).run m = r at hinterned htype ⊢
  have hconstants : Enumerated d constants r.2 := h.of_extends hinterned.extends hinterned.keys
    fun c x _ _ hx _ => by rw [Model.decl?, hinterned.decls]; exact hx
  obtain ⟨hdone, hinteger⟩ := completeEnum_spec hconstants ((hinterned.keyed?_eq _).trans hd) node
    range htype
  exact ⟨hinterned.extends.trans (completeEnum_extends node d range r.1 r.2), hdone, hinteger⟩

/-- The integer type that is chosen for an enumeration holds the values of its enumerators, unless
they straddle `int`. -/
theorem enumDecl_integerType {node : Json} (hfixed : typeUnder? node "fixedUnderlyingType" = none)
    (parent : DeclId) (access : Access) {p : Progress} (hkeys : p.model.WellKeyed) :
    ∃ p' d b, (enumDecl node parent access).run.run p = (.ok (), p') ∧
      p'.model.keyed? (enumKey parent (enumName node parent p)) = some d ∧
      Enumerated d (enumerators 0 (children node)) p'.model ∧
      HasIntegerType p'.model d b ∧ b ∈ [.int, .uint, .long] ∧
      ((∀ v ∈ enumeratorValues node, b.Holds v.toInt) ↔ ¬Straddles (enumeratorValues node)) := by
  obtain ⟨q, hkey, hmodel⟩ := run_nextEnumKey node parent p
  obtain ⟨hhead, hd⟩ := enumHead_spec (hmodel ▸ hkeys : q.model.WellKeyed) node parent access
    (enumName node parent p)
  rw [enumDecl_eq hfixed, run_bind_of_ok hkey, run_bind_of_ok (run_onModel _)]
  generalize (enumHead _ _ _ _).run q.model = h at hhead hd ⊢
  obtain ⟨p', hrun, hext, hdone⟩ := enumerators_run h.1.1 h.1.2 (children node) {}
    (p := { q with model := h.2 }) (⟨hhead, nofun⟩ : Enumerated h.1.1 [] h.2)
  have hkeyed := hext.keys _ _ hd
  obtain ⟨hext', hdone', htype⟩ := enumTail_spec hdone hkeyed node
    ((enumeratorValues node).foldl EnumeratorRange.add {})
  rw [run_bind_of_ok hrun, run_onModel]
  exact ⟨_, h.1.1, _, rfl, hext'.keys _ _ hkeyed, hdone', htype, EnumeratorRange.integerType_mem _,
    (EnumeratorRange.spans_initial.foldl (enumeratorValues node)).integerType_holds_iff⟩

/-- An enumeration of `-1` and of a value that only `unsigned int` has. -/
def straddlingEnum : Json :=
  .obj [("name", .str "E"), ("inner", .arr [
    .obj [("kind", .str "EnumConstantDecl"), ("name", .str "A"), ("inner", .arr [
      .obj [("kind", .str "ConstantExpr"), ("value", .str "-1")]])],
    .obj [("kind", .str "EnumConstantDecl"), ("name", .str "B"), ("inner", .arr [
      .obj [("kind", .str "ConstantExpr"), ("value", .str "3000000000")]])]])]

theorem enumDecl_integerType_straddling :
    ∃ p' d b, (enumDecl straddlingEnum Model.root .none).run.run (start .empty) = (.ok (), p') ∧
      HasIntegerType p'.model d b ∧ Stores p'.model d "B" 3000000000 ∧
      ¬∀ v ∈ enumeratorValues straddlingEnum, b.Holds v.toInt := by
  have hfixed : typeUnder? straddlingEnum "fixedUnderlyingType" = none := rfl
  obtain ⟨p', d, b, hrun, -, hconstants, htype, -, hholds⟩ :=
    enumDecl_integerType hfixed Model.root .none (p := start .empty) Model.WellKeyed.empty
  have hstraddles : Straddles (enumeratorValues straddlingEnum) := by decide +kernel
  exact ⟨p', d, b, hrun, htype, hconstants.stored _ _ (by decide +kernel),
    fun hall => hholds.mp hall hstraddles⟩

end Ast

end CppReflect
