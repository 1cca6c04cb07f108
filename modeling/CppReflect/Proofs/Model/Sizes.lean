import CppReflect.Model.Size
import CppReflect.Proofs.Walks
import Mathlib.Data.List.Perm.Subperm

/-!
# Sizes are exact

The size of a type as the language has it is a natural number: that of an array is the product of its
extents and of the size of an element, however great that is. What is computed is this number
wherever every number on the way fits in 64 bits. Where one does not fit the size is told to be
excessive, and where it is told to be unknown the type has no size that the model could know. An
enumeration has the size of its integer type, which may stand anywhere in the table, so here a walk
does not go downwards; it ends because no type comes twice on a walk that has an end.
-/

namespace CppReflect

theorem StaticSize.times_of_lt {k bytes : UInt64} (hfits : k.toNat * bytes.toNat < UInt64.size) :
    (known bytes).times k = known (k * bytes) ∧ (k * bytes).toNat = k.toNat * bytes.toNat := by
  rw [times, if_pos hfits, UInt64.toNat_mul]
  exact ⟨rfl, Nat.mod_eq_of_lt hfits⟩

theorem StaticSize.times_of_le {k bytes : UInt64} (hlarge : UInt64.size ≤ k.toNat * bytes.toNat) :
    (known bytes).times k = excessive := by
  rw [times, if_neg (Nat.not_lt.mpr hlarge)]

@[simp]
theorem StaticSize.times_one (size : StaticSize) : size.times 1 = size := by
  cases size with
  | known bytes =>
      have hfits : (1 : UInt64).toNat * bytes.toNat < UInt64.size := by
        simpa using bytes.toNat_lt
      rw [(times_of_lt hfits).1, UInt64.one_mul]
  | unknown | excessive => rfl

namespace Model

/-- The type that the size of a type is computed from, and how many of it there are. -/
def sizeStep? (m : Model) (t : TypeId) : Option (UInt64 × TypeId) :=
  match m.kindOf t with
  | .enum d => (m.decl d).enum?.map fun info => (1, info.integerType)
  | .complex e => some (2, e)
  | .constantArray e extent => some (extent, e)
  | _ => none

/-- The type has the size `n` in bytes. -/
inductive HasSize (m : Model) : TypeId → Nat → Prop
  | builtin {t : TypeId} {b : Builtin} (hkind : m.kindOf t = .builtin b) : HasSize m t b.size
  | pointer {t p : TypeId} (hkind : m.kindOf t = .pointer p) : HasSize m t 8
  | lvalueReference {t p : TypeId} (hkind : m.kindOf t = .lvalueReference p) : HasSize m t 8
  | rvalueReference {t p : TypeId} (hkind : m.kindOf t = .rvalueReference p) : HasSize m t 8
  /-- A pointer to a member function is a pair, and one to any other member is an offset. -/
  | memberPointer {t p c : TypeId} (hkind : m.kindOf t = .memberPointer p c) :
    HasSize m t (if (m.kindOf p).isFunction then 16 else 8)
  | record {t : TypeId} {d : DeclId} {info : RecordInfo} {bytes : UInt64}
    (hkind : m.kindOf t = .record d) (hinfo : m.record? d = some info)
    (hsize : info.size = some bytes) : HasSize m t bytes.toNat
  | enum {t : TypeId} {d : DeclId} {info : EnumInfo} {n : Nat} (hkind : m.kindOf t = .enum d)
    (hinfo : (m.decl d).enum? = some info) (hsize : HasSize m info.integerType n) : HasSize m t n
  | complex {t e : TypeId} {n : Nat} (hkind : m.kindOf t = .complex e) (hsize : HasSize m e n) :
    HasSize m t (2 * n)
  | constantArray {t e : TypeId} {extent : UInt64} {n : Nat}
    (hkind : m.kindOf t = .constantArray e extent) (hsize : HasSize m e n) :
    HasSize m t (extent.toNat * n)

/-- The size of `t` is computed from that of `u`. -/
def SizedBy (m : Model) (t u : TypeId) : Prop := ∃ k, m.sizeStep? t = some (k, u)

/-- The size fits in 64 bits, and so do all the sizes that it is computed from. -/
def Fits (m : Model) (t : TypeId) : Prop :=
  ∀ u n, Relation.ReflTransGen m.SizedBy t u → m.HasSize u n → n < UInt64.size

/-- An array of arrays, with the extents from the outermost to the innermost, of `e`. -/
inductive ArrayOf (m : Model) : TypeId → List UInt64 → TypeId → Prop
  | nil (e : TypeId) : ArrayOf m e [] e
  | cons {t u e : TypeId} {extent : UInt64} {extents : List UInt64}
    (hkind : m.kindOf t = .constantArray u extent) (hrest : ArrayOf m u extents e) :
    ArrayOf m t (extent :: extents) e

variable {m : Model} {t u e : TypeId} {k : UInt64} {n n' : Nat}

/-! ## The size as a number -/

theorem sizeStep?_of_enum {d : DeclId} {info : EnumInfo} (hkind : m.kindOf t = .enum d)
    (hinfo : (m.decl d).enum? = some info) : m.sizeStep? t = some (1, info.integerType) := by
  simp only [sizeStep?, hkind, hinfo, Option.map_some]

theorem sizeStep?_of_complex (hkind : m.kindOf t = .complex e) : m.sizeStep? t = some (2, e) := by
  simp only [sizeStep?, hkind]

theorem sizeStep?_of_constantArray (hkind : m.kindOf t = .constantArray e k) :
    m.sizeStep? t = some (k, e) := by
  simp only [sizeStep?, hkind]

/-- The types whose sizes are computed from others. -/
theorem sizeStep?_eq_some (hstep : m.sizeStep? t = some (k, u)) :
    (∃ d info, m.kindOf t = .enum d ∧ (m.decl d).enum? = some info ∧ k = 1 ∧
        u = info.integerType) ∨
      (m.kindOf t = .complex u ∧ k = 2) ∨ m.kindOf t = .constantArray u k := by
  unfold sizeStep? at hstep
  split at hstep
  next d hkind =>
    obtain ⟨info, hinfo, heq⟩ := Option.map_eq_some_iff.mp hstep
    cases heq
    exact .inl ⟨d, info, hkind, hinfo, rfl, rfl⟩
  next e hkind =>
    cases hstep
    exact .inr (.inl ⟨hkind, rfl⟩)
  next e extent hkind =>
    cases hstep
    exact .inr (.inr hkind)
  next => cases hstep

/-- The size of a type that is computed from another size is a multiple of that one. -/
theorem hasSize_iff_of_sizeStep? (hstep : m.sizeStep? t = some (k, u)) :
    m.HasSize t n ↔ ∃ j, m.HasSize u j ∧ n = k.toNat * j := by
  constructor
  · intro h
    cases h with
    | enum hkind hinfo hsize =>
        cases hstep.symm.trans (sizeStep?_of_enum hkind hinfo)
        exact ⟨n, hsize, (Nat.one_mul n).symm⟩
    | complex hkind hsize =>
        cases hstep.symm.trans (sizeStep?_of_complex hkind)
        exact ⟨_, hsize, rfl⟩
    | constantArray hkind hsize =>
        cases hstep.symm.trans (sizeStep?_of_constantArray hkind)
        exact ⟨_, hsize, rfl⟩
    | _ => simp_all [sizeStep?]
  · rintro ⟨j, hj, rfl⟩
    obtain ⟨d, info, hkind, hinfo, rfl, rfl⟩ | ⟨hkind, rfl⟩ | hkind := sizeStep?_eq_some hstep
    · change m.HasSize t (1 * j)
      rw [Nat.one_mul]
      exact .enum hkind hinfo hj
    · exact .complex hkind hj
    · exact .constantArray hkind hj

/-- A type has one size at most. -/
theorem HasSize.unique (h : m.HasSize t n) (h' : m.HasSize t n') : n = n' := by
  induction h generalizing n' with
  | builtin hkind | pointer hkind | lvalueReference hkind | rvalueReference hkind
  | memberPointer hkind | record hkind => cases h' <;> simp_all
  | enum hkind hinfo _ ih =>
      have hstep := sizeStep?_of_enum hkind hinfo
      obtain ⟨j, hj, rfl⟩ := (hasSize_iff_of_sizeStep? hstep).mp h'
      rw [← ih hj]
      exact (Nat.one_mul _).symm
  | complex hkind _ ih =>
      obtain ⟨j, hj, rfl⟩ := (hasSize_iff_of_sizeStep? (sizeStep?_of_complex hkind)).mp h'
      rw [← ih hj]
      rfl
  | constantArray hkind _ ih =>
      obtain ⟨j, hj, rfl⟩ := (hasSize_iff_of_sizeStep? (sizeStep?_of_constantArray hkind)).mp h'
      rw [← ih hj]

/-- A size that is computed from no other size is a word by itself. -/
theorem HasSize.lt_of_sizeStep?_eq_none (h : m.HasSize t n) (hlast : m.sizeStep? t = none) :
    n < UInt64.size := by
  cases h with
  | @builtin _ b hkind => cases b <;> decide
  | pointer hkind | lvalueReference hkind | rvalueReference hkind => decide
  | memberPointer hkind => split <;> decide
  | record hkind hinfo hsize => exact UInt64.toNat_lt _
  | enum hkind hinfo hsize => cases hlast.symm.trans (sizeStep?_of_enum hkind hinfo)
  | complex hkind hsize => cases hlast.symm.trans (sizeStep?_of_complex hkind)
  | constantArray hkind hsize => cases hlast.symm.trans (sizeStep?_of_constantArray hkind)

theorem fits_of_sizeStep?_eq_none (hlast : m.sizeStep? t = none) : m.Fits t := by
  intro u n hreach hsize
  rcases hreach.cases_head with rfl | ⟨v, ⟨k, hstep⟩, -⟩
  · exact hsize.lt_of_sizeStep?_eq_none hlast
  · cases hlast.symm.trans hstep

theorem fits_iff_of_sizeStep? (hstep : m.sizeStep? t = some (k, u)) :
    m.Fits t ↔ (∀ n, m.HasSize t n → n < UInt64.size) ∧ m.Fits u := by
  constructor
  · exact fun h => ⟨fun n => h t n .refl, fun v n hreach => h v n (.head ⟨k, hstep⟩ hreach)⟩
  · rintro ⟨hself, hrest⟩ v n hreach hsize
    rcases hreach.cases_head with rfl | ⟨w, ⟨k', hstep'⟩, hreach⟩
    · exact hself n hsize
    · cases hstep.symm.trans hstep'
      exact hrest v n hreach hsize

/-! ## The walk ends -/

/-- The walk from the type takes `j` steps. -/
inductive SizeDepth (m : Model) : TypeId → Nat → Prop
  | last {t : TypeId} (hlast : m.sizeStep? t = none) : SizeDepth m t 0
  | step {t u : TypeId} {k : UInt64} {j : Nat} (hstep : m.sizeStep? t = some (k, u))
    (hrest : SizeDepth m u j) : SizeDepth m t (j + 1)

theorem SizeDepth.unique {i j : Nat} (h : m.SizeDepth t i) (h' : m.SizeDepth t j) : i = j := by
  induction h generalizing j with
  | last hlast =>
      cases h' with
      | last => rfl
      | step hstep => cases hlast.symm.trans hstep
  | step hstep _ ih =>
      cases h' with
      | last hlast => cases hlast.symm.trans hstep
      | step hstep' hrest' =>
          cases hstep.symm.trans hstep'
          rw [ih hrest']

theorem HasSize.exists_sizeDepth (h : m.HasSize t n) : ∃ j, m.SizeDepth t j := by
  induction h with
  | enum hkind hinfo _ ih =>
      obtain ⟨j, hj⟩ := ih
      exact ⟨j + 1, .step (sizeStep?_of_enum hkind hinfo) hj⟩
  | complex hkind _ ih =>
      obtain ⟨j, hj⟩ := ih
      exact ⟨j + 1, .step (sizeStep?_of_complex hkind) hj⟩
  | constantArray hkind _ ih =>
      obtain ⟨j, hj⟩ := ih
      exact ⟨j + 1, .step (sizeStep?_of_constantArray hkind) hj⟩
  | _ => exact ⟨0, .last (by simp_all [sizeStep?])⟩

theorem WellFormed.sizeStep?_hasType (h : m.WellFormed) (hstep : m.sizeStep? t = some (k, u)) :
    m.HasType u := by
  obtain ⟨d, info, hkind, hinfo, -, rfl⟩ | ⟨hkind, -⟩ | hkind := sizeStep?_eq_some hstep
  · have hd : d ∈ (m.kindOf t).decl? := by simp [hkind, TypeKind.decl?]
    refine h.types d _ (decl?_eq_decl (h.desugared_decl? hd)) _ ?_
    unfold Decl.enum? at hinfo
    split at hinfo
    next hx' =>
      cases hinfo
      simp [hx', DeclKind.types]
    next => cases hinfo
  · have hu : u ∈ (m.kindOf t).parts := by simp [hkind, TypeKind.parts]
    exact (h.desugared_parts hu).2
  · have hu : u ∈ (m.kindOf t).parts := by simp [hkind, TypeKind.parts]
    exact (h.desugared_parts hu).2

/-- The types on the walk are as many as it has steps and one more, and no two are the same, for no
two are equally far from its end. -/
theorem WellFormed.sizeDepth_types (h : m.WellFormed) {j : Nat} (ht : m.HasType t)
    (hdepth : m.SizeDepth t j) :
    ∃ ts : List TypeId, ts.length = j + 1 ∧ ts.Nodup ∧
      ∀ u ∈ ts, m.HasType u ∧ ∃ i ≤ j, m.SizeDepth u i := by
  induction hdepth with
  | @last t hlast =>
      refine ⟨[t], rfl, List.pairwise_singleton _ t, ?_⟩
      rw [List.forall_mem_singleton]
      exact ⟨ht, 0, Nat.le_refl 0, .last hlast⟩
  | @step t u k j hstep hrest ih =>
      obtain ⟨ts, hlength, hnodup, hts⟩ := ih (h.sizeStep?_hasType hstep)
      refine ⟨t :: ts, by rw [List.length_cons, hlength], List.nodup_cons.mpr ⟨?_, hnodup⟩, ?_⟩
      · intro hmem
        obtain ⟨-, i, hi, hdepth⟩ := hts t hmem
        have := hdepth.unique (.step hstep hrest)
        omega
      · rw [List.forall_mem_cons]
        refine ⟨⟨ht, j + 1, Nat.le_refl _, .step hstep hrest⟩, fun v hv => ?_⟩
        obtain ⟨hv, i, hi, hdepth⟩ := hts v hv
        exact ⟨hv, i, Nat.le_succ_of_le hi, hdepth⟩

theorem WellFormed.sizeDepth_lt (h : m.WellFormed) {j : Nat} (ht : m.HasType t)
    (hdepth : m.SizeDepth t j) : j < m.typeFuel := by
  obtain ⟨ts, hlength, hnodup, hts⟩ := h.sizeDepth_types ht hdepth
  have hsub : ts ⊆ (List.range m.types.size).map TypeId.mk := fun u hu =>
    List.mem_map.mpr ⟨u.index, List.mem_range.mpr (hts u hu).1, rfl⟩
  have hle := (List.subperm_of_subset hnodup hsub).length_le
  rw [hlength, List.length_map, List.length_range] at hle
  exact Nat.lt_succ_of_lt hle

/-! ## What is computed -/

/-- What an answer tells of the size of a type. -/
def TellsSize (m : Model) (t : TypeId) : StaticSize → Prop
  | .known bytes => m.HasSize t bytes.toNat ∧ m.Fits t
  | .excessive => (∃ n, m.HasSize t n) ∧ ¬ m.Fits t
  | .unknown => ∀ n, ¬ m.HasSize t n

theorem staticSizeFrom_of_sizeStep? (hstep : m.sizeStep? t = some (k, u)) (fuel : Nat) :
    m.staticSizeFrom (fuel + 1) t = (m.staticSizeFrom fuel u).times k := by
  rw [staticSizeFrom]
  obtain ⟨d, info, hkind, hinfo, rfl, rfl⟩ | ⟨hkind, rfl⟩ | hkind := sizeStep?_eq_some hstep
  · simp only [hkind, hinfo, StaticSize.times_one]
  · simp only [hkind]
  · simp only [hkind]

/-- A type whose size is computed from no other size is told at once. -/
theorem tellsSize_of_sizeStep?_eq_none (hlast : m.sizeStep? t = none) (fuel : Nat) :
    m.TellsSize t (m.staticSizeFrom (fuel + 1) t) := by
  have hfits := fits_of_sizeStep?_eq_none hlast
  rw [staticSizeFrom]
  split
  next b hkind =>
    refine ⟨?_, hfits⟩
    have hsize : (UInt64.ofNat b.size).toNat = b.size := by cases b <;> rfl
    rw [hsize]
    exact .builtin hkind
  next hkind => exact ⟨.pointer hkind, hfits⟩
  next hkind => exact ⟨.lvalueReference hkind, hfits⟩
  next hkind => exact ⟨.rvalueReference hkind, hfits⟩
  next pointee klass hkind =>
    refine ⟨?_, hfits⟩
    rw [apply_ite UInt64.toNat]
    exact .memberPointer hkind
  next d hkind =>
    cases hinfo : (m.decl d).enum? with
    | some info => cases hlast.symm.trans (sizeStep?_of_enum hkind hinfo)
    | none =>
        intro n hsize
        cases hsize <;> simp_all
  next e hkind => cases hlast.symm.trans (sizeStep?_of_complex hkind)
  next e extent hkind => cases hlast.symm.trans (sizeStep?_of_constantArray hkind)
  next d hkind =>
    cases hinfo : m.record? d with
    | none =>
        intro n hsize
        cases hsize <;> simp_all
    | some info =>
        change m.TellsSize t (.ofOption info.size)
        cases hbytes : info.size with
        | none =>
            intro n hsize
            cases hsize <;> simp_all
        | some bytes => exact ⟨.record hkind hinfo hbytes, hfits⟩
  next =>
    intro n hsize
    cases hsize <;> simp_all

/-- What is told of a size tells of its multiple. -/
theorem TellsSize.times {size : StaticSize} (h : m.TellsSize u size)
    (hstep : m.sizeStep? t = some (k, u)) : m.TellsSize t (size.times k) := by
  have hsizes := fun n => hasSize_iff_of_sizeStep? (n := n) hstep
  cases size with
  | unknown =>
      intro n hn
      obtain ⟨j, hj, -⟩ := (hsizes n).mp hn
      exact h j hj
  | excessive =>
      obtain ⟨⟨j, hj⟩, hfits⟩ := h
      exact ⟨⟨_, (hsizes _).mpr ⟨j, hj, rfl⟩⟩,
        fun hall => hfits ((fits_iff_of_sizeStep? hstep).mp hall).2⟩
  | known bytes =>
      obtain ⟨hbytes, hfits⟩ := h
      have hproduct := (hsizes _).mpr ⟨_, hbytes, rfl⟩
      by_cases hword : k.toNat * bytes.toNat < UInt64.size
      · obtain ⟨htimes, htoNat⟩ := StaticSize.times_of_lt hword
        rw [htimes]
        refine ⟨htoNat ▸ hproduct, (fits_iff_of_sizeStep? hstep).mpr ⟨fun n hn => ?_, hfits⟩⟩
        rwa [hn.unique hproduct]
      · rw [StaticSize.times_of_le (Nat.not_lt.mp hword)]
        exact ⟨⟨_, hproduct⟩, fun hall => hword (hall t _ .refl hproduct)⟩

/-- Down to a depth that the walk does not reach, the answer tells of the size. -/
theorem SizeDepth.tellsSize {j : Nat} (h : m.SizeDepth t j) {fuel : Nat} (hfuel : j < fuel) :
    m.TellsSize t (m.staticSizeFrom fuel t) := by
  induction h generalizing fuel with
  | last hlast =>
      obtain ⟨fuel, rfl⟩ := Nat.exists_eq_succ_of_ne_zero (Nat.ne_zero_of_lt hfuel)
      exact tellsSize_of_sizeStep?_eq_none hlast fuel
  | step hstep _ ih =>
      obtain ⟨fuel, rfl⟩ := Nat.exists_eq_succ_of_ne_zero (Nat.ne_zero_of_lt hfuel)
      rw [staticSizeFrom_of_sizeStep? hstep]
      exact (ih (Nat.lt_of_succ_lt_succ hfuel)).times hstep

/-- A walk that never ends comes to no size. -/
theorem staticSizeFrom_of_not_sizeDepth (h : ∀ j, ¬ m.SizeDepth t j) (fuel : Nat) :
    m.staticSizeFrom fuel t = .unknown := by
  induction fuel generalizing t with
  | zero => rfl
  | succ fuel ih =>
      cases hstep : m.sizeStep? t with
      | none => exact absurd (.last hstep) (h 0)
      | some step =>
          obtain ⟨k, u⟩ := step
          rw [staticSizeFrom_of_sizeStep? hstep, ih fun j hj => h (j + 1) (.step hstep hj)]
          rfl

theorem WellFormed.tellsSize (h : m.WellFormed) (ht : m.HasType t) :
    m.TellsSize t (m.staticSizeOf t) := by
  by_cases hend : ∃ j, m.SizeDepth t j
  · obtain ⟨j, hj⟩ := hend
    exact hj.tellsSize (h.sizeDepth_lt ht hj)
  · have hend := not_exists.mp hend
    rw [staticSizeOf, staticSizeFrom_of_not_sizeDepth hend]
    intro n hn
    obtain ⟨j, hj⟩ := hn.exists_sizeDepth
    exact hend j hj

/-! ## Arrays -/

/-- The product of the extents. -/
def extentProduct : List UInt64 → Nat
  | [] => 1
  | extent :: extents => extent.toNat * extentProduct extents

/-- The size of an array is the product of its extents and the size of an element. -/
theorem ArrayOf.hasSize_iff {extents : List UInt64} (h : m.ArrayOf t extents e) :
    m.HasSize t n ↔ ∃ j, m.HasSize e j ∧ n = extentProduct extents * j := by
  induction h generalizing n with
  | nil e => simp [extentProduct]
  | cons hkind _ ih =>
      rw [hasSize_iff_of_sizeStep? (sizeStep?_of_constantArray hkind)]
      constructor
      · rintro ⟨i, hi, rfl⟩
        obtain ⟨j, hj, rfl⟩ := ih.mp hi
        exact ⟨j, hj, by simp [extentProduct, Nat.mul_assoc]⟩
      · rintro ⟨j, hj, rfl⟩
        exact ⟨_, ih.mpr ⟨j, hj, rfl⟩, by simp [extentProduct, Nat.mul_assoc]⟩

/-- The sizes of the rows of an array do not exceed its own size, unless the array is empty. -/
theorem ArrayOf.fits_iff {extents : List UInt64} (h : m.ArrayOf t extents e)
    (hpos : 0 ∉ extents) (he : m.HasSize e n) :
    m.Fits t ↔ extentProduct extents * n < UInt64.size ∧ m.Fits e := by
  induction h with
  | nil e =>
      refine ⟨fun hfits => ⟨?_, hfits⟩, And.right⟩
      simpa [extentProduct] using hfits e n .refl he
  | @cons t u e extent extents hkind hrest ih =>
      rw [List.mem_cons, not_or] at hpos
      have hsize : m.HasSize t (extentProduct (extent :: extents) * n) :=
        (ArrayOf.cons hkind hrest).hasSize_iff.mpr ⟨n, he, rfl⟩
      have hextent : 0 < extent.toNat := by
        rw [Nat.pos_iff_ne_zero]
        exact fun hzero => hpos.1 (UInt64.toNat_inj.mp hzero).symm
      have hrow : extentProduct extents * n ≤ extentProduct (extent :: extents) * n := by
        refine Nat.mul_le_mul_right n ?_
        simpa [extentProduct] using Nat.le_mul_of_pos_left (extentProduct extents) hextent
      rw [fits_iff_of_sizeStep? (sizeStep?_of_constantArray hkind), ih hpos.2 he]
      constructor
      · exact fun ⟨hself, _, hfits⟩ => ⟨hself _ hsize, hfits⟩
      · rintro ⟨hself, hfits⟩
        exact ⟨fun i hi => hi.unique hsize ▸ hself, Nat.lt_of_le_of_lt hrow hself, hfits⟩

/-! ## Exactness -/

/-- The answer is the size as a number of bytes, without any loss. -/
structure ExactSize (m : Model) (t : TypeId) : Prop where
  known : ∀ bytes, m.staticSizeOf t = .known bytes ↔ m.HasSize t bytes.toNat ∧ m.Fits t
  excessive : m.staticSizeOf t = .excessive ↔ (∃ n, m.HasSize t n) ∧ ¬ m.Fits t
  unknown : m.staticSizeOf t = .unknown ↔ ∀ n, ¬ m.HasSize t n
  /-- The size of an array is known exactly if the product of its extents and the size of an element
  is a number of 64 bits, and it is this product. -/
  array : ∀ extents e n, m.ArrayOf t extents e → 0 ∉ extents → m.HasSize e n → m.Fits e →
    ∀ bytes, m.staticSizeOf t = .known bytes ↔ bytes.toNat = extentProduct extents * n

/-- Only one answer tells of the size of a type. -/
theorem TellsSize.unique {a b : StaticSize} (ha : m.TellsSize t a) (hb : m.TellsSize t b) :
    a = b := by
  cases a with
  | known bytes =>
      cases b with
      | known bytes' => rw [UInt64.toNat_inj.mp (ha.1.unique hb.1)]
      | excessive => exact absurd ha.2 hb.2
      | unknown => exact absurd ha.1 (hb _)
  | excessive =>
      obtain ⟨⟨n, hn⟩, hlarge⟩ := ha
      cases b with
      | known => exact absurd hb.2 hlarge
      | excessive => rfl
      | unknown => exact absurd hn (hb n)
  | unknown =>
      cases b with
      | known => exact absurd hb.1 (ha _)
      | excessive =>
          obtain ⟨⟨n, hn⟩, -⟩ := hb
          exact absurd hn (ha n)
      | unknown => rfl

theorem WellFormed.exactSize (h : m.WellFormed) (ht : m.HasType t) : m.ExactSize t := by
  have htells : ∀ answer, m.staticSizeOf t = answer ↔ m.TellsSize t answer := fun answer =>
    ⟨fun hanswer => hanswer ▸ h.tellsSize ht, fun hanswer => (h.tellsSize ht).unique hanswer⟩
  refine ⟨fun bytes => htells (.known bytes), htells .excessive, htells .unknown, ?_⟩
  · intro extents e n harray hpos hn hfits bytes
    rw [htells, TellsSize, harray.hasSize_iff, harray.fits_iff hpos hn]
    constructor
    · rintro ⟨⟨j, hj, hbytes⟩, -⟩
      rwa [hn.unique hj]
    · intro hbytes
      exact ⟨⟨n, hn, hbytes⟩, hbytes ▸ bytes.toNat_lt, hfits⟩

/-- In every reachable model the static size of every type is exact. -/
theorem Reachable.static_sizes_exact (hm : m.Reachable) (ht : m.HasType t) : m.ExactSize t :=
  hm.wellFormed.exactSize ht

/-- Two rows of the largest array of `int`, behind a typedef. -/
theorem exactSize_rows :
    let int := ((Request.intern ⟨.builtin .int, .none⟩).perform.run empty).2
    let array := ((Request.intern ⟨.constantArray ⟨0⟩ 4611686018427387903, .none⟩).perform.run int).2
    let row := ((Request.declareTypedef root "Row" ⟨1⟩).perform.run array).2
    let named := ((Request.intern ⟨.typedef ⟨1⟩, .none⟩).perform.run row).2
    let rows := ((Request.intern ⟨.constantArray ⟨2⟩ 2, .none⟩).perform.run named).2
    (rows.Reachable ∧ rows.HasType ⟨3⟩) ∧
      (rows.staticSizeOf ⟨2⟩ = .known 18446744073709551612 ∧ rows.staticSizeOf ⟨3⟩ = .excessive) ∧
      rows.ExactSize ⟨3⟩ := by
  intro int array row named rows
  have hint : int.Reachable := .step .empty _ ⟨by simp [TypeKind.parts], by simp [TypeKind.decl?]⟩
  have harray : array.Reachable := .step hint _
    ⟨by simp only [TypeKind.parts, List.forall_mem_singleton]; decide +kernel,
      by simp [TypeKind.decl?]⟩
  have hrow : row.Reachable := .step harray _ ⟨by decide +kernel, by decide +kernel⟩
  have hnamed : named.Reachable :=
    .step hrow _ ⟨by simp [TypeKind.parts], by rintro _ ⟨rfl⟩; decide +kernel⟩
  have hrows : rows.Reachable := .step hnamed _
    ⟨by simp only [TypeKind.parts, List.forall_mem_singleton]; decide +kernel,
      by simp [TypeKind.decl?]⟩
  have ht : rows.HasType ⟨3⟩ := by decide +kernel
  exact ⟨⟨hrows, ht⟩, by decide +kernel, hrows.static_sizes_exact ht⟩

end Model

end CppReflect
