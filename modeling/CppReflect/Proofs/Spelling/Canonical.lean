import CppReflect.Proofs.Spelling.Print

/-!
# Canonical spellings

A type is printed in one way, however it was spelled: a reference to a reference is a reference, and
`nullptr_t` is a name in `std`. The canonical spelling of a type is the one that is printed.
-/

namespace CppReflect

/-- The name that is printed where no declaration has the name. -/
def QualifiedName.canon (n : QualifiedName) : QualifiedName :=
  if n.text = "nullptr_t" then ⟨false, ["std", "nullptr_t"]⟩ else n

/-- The name is printed as it is written. -/
def QualifiedName.Settled (n : QualifiedName) : Prop := n.canon = n

theorem QualifiedName.settled_canon (n : QualifiedName) : n.canon.Settled := by
  unfold Settled canon
  split
  · decide
  · rfl

theorem QualifiedName.global_canon (n : QualifiedName) (h : n.global = false) :
    n.canon.global = false := by
  unfold canon
  split
  · rfl
  · exact h

/-- Qualifiers that have a meaning and nothing else. -/
def Quals.Valid (q : Quals) : Prop := q.bits < 8

instance (q : Quals) : Decidable q.Valid := inferInstanceAs (Decidable (_ < _))

namespace Spelling

/-- A reference to a reference. -/
def mergeRefs : DeclaratorOp → DeclaratorOp → DeclaratorOp
  | .rvalueReference, .rvalueReference => .rvalueReference
  | _, _ => .lvalueReference

/-- An operator inside others, of which it merges with a reference if it makes one. -/
def consOp (o : DeclaratorOp) : List DeclaratorOp → List DeclaratorOp
  | [] => [o]
  | o' :: ops => if o.isReference && o'.isReference then mergeRefs o o' :: ops else o :: o' :: ops

/-- The base that is printed. -/
def Base.canon : Base → Base
  | .name n => .name n.canon
  | b => b

mutual

/-- The spelling that is printed for the type of a spelling. -/
def canon : Spelling → Spelling
  | .mk base quals ops => .mk base.canon quals (canonOps ops)

/-- The operators that are printed. -/
def canonOps : List DeclaratorOp → List DeclaratorOp
  | [] => []
  | o :: ops => consOp (canonOp o) (canonOps ops)

/-- The operator that is printed. -/
def canonOp : DeclaratorOp → DeclaratorOp
  | .memberPointer klass quals => .memberPointer klass.canon quals
  | .function params variadic quals ref => .function (canonAll params) variadic quals ref
  | o => o

/-- The parameters that are printed. -/
def canonAll : List Spelling → List Spelling
  | [] => []
  | s :: rest => canon s :: canonAll rest

end

/-! ## What a spelling that was read is made of -/

mutual

/-- The qualified names in a spelling. -/
def names : Spelling → List QualifiedName
  | .mk base _ ops =>
    (match base with
      | .name n => [n]
      | _ => []) ++ opNames ops

/-- The qualified names in operators. -/
def opNames : List DeclaratorOp → List QualifiedName
  | [] => []
  | .memberPointer klass _ :: ops => klass :: opNames ops
  | .function params .. :: ops => paramNames params ++ opNames ops
  | _ :: ops => opNames ops

/-- The qualified names in parameters. -/
def paramNames : List Spelling → List QualifiedName
  | [] => []
  | s :: rest => names s ++ paramNames rest

end

/-- A base that is written with words or a name that satisfies `P`. -/
def Base.Sound (P : QualifiedName → Prop) : Base → Prop
  | .void => True
  | .builtin b | .complex b => b ≠ .nullPtr
  | .name n => P n

mutual

/-- What every spelling that was read satisfies, with names that satisfy `P`. -/
def Sound (P : QualifiedName → Prop) : Spelling → Prop
  | .mk base quals ops => base.Sound P ∧ quals.Valid ∧ OpsSound P ops

/-- The operators of a sound spelling. -/
def OpsSound (P : QualifiedName → Prop) : List DeclaratorOp → Prop
  | [] => True
  | o :: ops => OpSound P o ∧ OpsSound P ops

/-- An operator of a sound spelling: a lone parameter is not `void`. -/
def OpSound (P : QualifiedName → Prop) : DeclaratorOp → Prop
  | .pointer quals => quals.Valid
  | .memberPointer klass quals => P klass ∧ quals.Valid
  | .function params _ quals _ => AllSound P params ∧ withoutLoneVoid params = params ∧ quals.Valid
  | _ => True

/-- The parameters of a sound spelling. -/
def AllSound (P : QualifiedName → Prop) : List Spelling → Prop
  | [] => True
  | s :: rest => Sound P s ∧ AllSound P rest

end

variable {P Q : QualifiedName → Prop}

mutual

/-- A sound spelling is sound for whatever follows for the names in it. -/
theorem sound_of_names : (s : Spelling) → Sound P s → (∀ n ∈ names s, P n → Q n) → Sound Q s
  | .mk base quals ops, h, hnames => by
    unfold Sound at h ⊢
    unfold names at hnames
    refine ⟨?_, h.2.1, opsSound_of_names ops h.2.2 fun n hn => ?_⟩
    · cases base with
      | name n => exact hnames n (by simp) h.1
      | void | builtin | complex => exact h.1
    · exact hnames n (List.mem_append_right _ hn)

theorem opsSound_of_names : (ops : List DeclaratorOp) → OpsSound P ops →
    (∀ n ∈ opNames ops, P n → Q n) → OpsSound Q ops
  | [], _, _ => by
    unfold OpsSound
    trivial
  | .memberPointer klass quals :: ops, h, hnames => by
    unfold OpsSound OpSound at h ⊢
    unfold opNames at hnames
    exact ⟨⟨hnames klass (by simp) h.1.1, h.1.2⟩,
      opsSound_of_names ops h.2 fun n hn => hnames n (List.mem_cons_of_mem _ hn)⟩
  | .function params variadic quals ref :: ops, h, hnames => by
    unfold OpsSound OpSound at h ⊢
    unfold opNames at hnames
    exact ⟨⟨allSound_of_names params h.1.1 fun n hn => hnames n (List.mem_append_left _ hn), h.1.2⟩,
      opsSound_of_names ops h.2 fun n hn => hnames n (List.mem_append_right _ hn)⟩
  | .pointer _ :: ops, h, hnames | .lvalueReference :: ops, h, hnames
  | .rvalueReference :: ops, h, hnames | .array _ :: ops, h, hnames => by
    unfold OpsSound at h ⊢
    unfold opNames at hnames
    exact ⟨by simp_all [OpSound], opsSound_of_names ops h.2 hnames⟩

theorem allSound_of_names : (params : List Spelling) → AllSound P params →
    (∀ n ∈ paramNames params, P n → Q n) → AllSound Q params
  | [], _, _ => by
    unfold AllSound
    trivial
  | s :: rest, h, hnames => by
    unfold AllSound at h ⊢
    unfold paramNames at hnames
    exact ⟨sound_of_names s h.1 fun n hn => hnames n (List.mem_append_left _ hn),
      allSound_of_names rest h.2 fun n hn => hnames n (List.mem_append_right _ hn)⟩

end

theorem Base.sound_mono (h : ∀ n, P n → Q n) {base : Base} (hbase : base.Sound P) :
    base.Sound Q := by
  cases base with
  | name n => exact h n hbase
  | void | builtin | complex => exact hbase

theorem sound_mono (h : ∀ n, P n → Q n) {s : Spelling} (hs : Sound P s) : Sound Q s :=
  sound_of_names s hs fun n _ => h n

theorem opsSound_mono (h : ∀ n, P n → Q n) {ops : List DeclaratorOp} (hops : OpsSound P ops) :
    OpsSound Q ops :=
  opsSound_of_names ops hops fun n _ => h n

theorem opsSound_append {ops ops' : List DeclaratorOp} :
    OpsSound P (ops ++ ops') ↔ OpsSound P ops ∧ OpsSound P ops' := by
  induction ops with
  | nil => simp [OpsSound]
  | cons o ops ih => simp [OpsSound, ih, and_assoc]

theorem opSound_of_isReference {o : DeclaratorOp} (h : o.isReference = true) : OpSound P o := by
  rcases isReference_cases h with rfl | rfl <;> unfold OpSound <;> trivial

theorem mergeRefs_isReference (o o' : DeclaratorOp) : (mergeRefs o o').isReference = true := by
  unfold mergeRefs
  split <;> rfl

theorem consOp_ne_nil (o : DeclaratorOp) (ops : List DeclaratorOp) : consOp o ops ≠ [] := by
  cases ops with
  | nil => simp [consOp]
  | cons o' ops =>
      simp only [consOp]
      split <;> simp

theorem opsSound_consOp {o : DeclaratorOp} {ops : List DeclaratorOp} (ho : OpSound P o)
    (hops : OpsSound P ops) : OpsSound P (consOp o ops) := by
  cases ops with
  | nil => exact ⟨ho, trivial⟩
  | cons o' ops =>
      simp only [consOp]
      split
      · exact ⟨opSound_of_isReference (mergeRefs_isReference o o'), hops.2⟩
      · exact ⟨ho, hops⟩

theorem canonOps_eq_nil {ops : List DeclaratorOp} (h : canonOps ops = []) : ops = [] := by
  cases ops with
  | nil => rfl
  | cons o ops =>
      unfold canonOps at h
      exact absurd h (consOp_ne_nil _ _)

/-- A lone `void` among the parameters that are printed was one before. -/
theorem withoutLoneVoid_canonAll {params : List Spelling} (h : withoutLoneVoid params = params) :
    withoutLoneVoid (canonAll params) = canonAll params := by
  match params with
  | [] => rfl
  | [.mk base quals ops] =>
      simp only [canonAll, canon]
      unfold withoutLoneVoid
      split
      next heq =>
        simp only [List.cons.injEq, Spelling.mk.injEq, and_true] at heq
        obtain ⟨hbase, _, hops⟩ := heq
        have hvoid : base = .void := by
          cases base <;> simp_all [Base.canon]
        rw [hvoid, canonOps_eq_nil hops] at h
        exact absurd h (by simp [withoutLoneVoid])
      next => rfl
  | _ :: _ :: _ =>
      simp only [canonAll]
      unfold withoutLoneVoid
      split
      next heq => simp at heq
      next => rfl

variable {P' : QualifiedName → Prop}

theorem Base.sound_canon (hP : ∀ n, P n → P' n.canon) {base : Base} (h : base.Sound P) :
    base.canon.Sound P' := by
  cases base with
  | name n => exact hP n h
  | void | builtin | complex => exact h

mutual

/-- What is printed for a sound spelling is sound. -/
theorem sound_canon (hP : ∀ n, P n → P' n.canon) : (s : Spelling) → Sound P s → Sound P' (canon s)
  | .mk base quals ops, h => by
    unfold Sound at h
    unfold canon Sound
    exact ⟨Base.sound_canon hP h.1, h.2.1, opsSound_canonOps hP ops h.2.2⟩

theorem opsSound_canonOps (hP : ∀ n, P n → P' n.canon) : (ops : List DeclaratorOp) →
    OpsSound P ops → OpsSound P' (canonOps ops)
  | [], _ => by
    unfold canonOps OpsSound
    trivial
  | o :: ops, h => by
    unfold OpsSound at h
    unfold canonOps
    exact opsSound_consOp (opSound_canonOp hP o h.1) (opsSound_canonOps hP ops h.2)

theorem opSound_canonOp (hP : ∀ n, P n → P' n.canon) : (o : DeclaratorOp) → OpSound P o →
    OpSound P' (canonOp o)
  | .memberPointer klass quals, h => by
    unfold OpSound at h
    unfold canonOp OpSound
    exact ⟨hP klass h.1, h.2⟩
  | .function params variadic quals ref, h => by
    unfold OpSound at h
    unfold canonOp OpSound
    exact ⟨allSound_canonAll hP params h.1, withoutLoneVoid_canonAll h.2.1, h.2.2⟩
  | .pointer _, h | .lvalueReference, h | .rvalueReference, h | .array _, h => by
    unfold canonOp
    unfold OpSound at h ⊢
    exact h

theorem allSound_canonAll (hP : ∀ n, P n → P' n.canon) : (params : List Spelling) →
    AllSound P params → AllSound P' (canonAll params)
  | [], _ => by
    unfold canonAll AllSound
    trivial
  | s :: rest, h => by
    unfold AllSound at h
    unfold canonAll AllSound
    exact ⟨sound_canon hP s h.1, allSound_canonAll hP rest h.2⟩

end

theorem canonOp_isReference (o : DeclaratorOp) : (canonOp o).isReference = o.isReference := by
  cases o <;> simp [canonOp, DeclaratorOp.isReference]

theorem tidyOp_of_isReference {o : DeclaratorOp} (h : o.isReference = true) : TidyOp o := by
  rcases isReference_cases h with rfl | rfl <;> unfold TidyOp <;> trivial

theorem tidyOps_consOp {o : DeclaratorOp} {ops : List DeclaratorOp} (ho : TidyOp o)
    (hops : TidyOps ops) : TidyOps (consOp o ops) := by
  cases ops with
  | nil => exact ⟨ho, fun _ => rfl, trivial⟩
  | cons o' ops =>
      unfold TidyOps at hops
      simp only [consOp]
      split
      next hrefs =>
        have hrefs := Bool.and_eq_true_iff.mp hrefs
        exact ⟨tidyOp_of_isReference (mergeRefs_isReference o o'), fun _ => hops.2.1 hrefs.2, hops.2.2⟩
      next hrefs =>
        refine ⟨ho, fun ho => ?_, hops⟩
        simpa [opensWithReference, ho] using hrefs

mutual

/-- In what is printed no reference follows a reference. -/
theorem tidy_canon (hP : ∀ n, P n → n.canon.text.toList.head? ≠ some '&') : (s : Spelling) →
    Sound P s → Tidy (canon s)
  | .mk base quals ops, h => by
    unfold Sound at h
    unfold canon Tidy
    exact tidyOps_canonOps hP ops h.2.2

theorem tidyOps_canonOps (hP : ∀ n, P n → n.canon.text.toList.head? ≠ some '&') :
    (ops : List DeclaratorOp) → OpsSound P ops → TidyOps (canonOps ops)
  | [], _ => by
    unfold canonOps TidyOps
    trivial
  | o :: ops, h => by
    unfold OpsSound at h
    unfold canonOps
    exact tidyOps_consOp (tidyOp_canonOp hP o h.1) (tidyOps_canonOps hP ops h.2)

theorem tidyOp_canonOp (hP : ∀ n, P n → n.canon.text.toList.head? ≠ some '&') :
    (o : DeclaratorOp) → OpSound P o → TidyOp (canonOp o)
  | .memberPointer klass quals, h => by
    unfold OpSound at h
    unfold canonOp TidyOp
    exact hP klass h.1
  | .function params variadic quals ref, h => by
    unfold OpSound at h
    unfold canonOp TidyOp
    exact tidyAll_canonAll hP params h.1
  | .pointer _, _ | .lvalueReference, _ | .rvalueReference, _ | .array _, _ => by
    unfold canonOp TidyOp
    trivial

theorem tidyAll_canonAll (hP : ∀ n, P n → n.canon.text.toList.head? ≠ some '&') :
    (params : List Spelling) → AllSound P params → TidyAll (canonAll params)
  | [], _ => by
    unfold canonAll TidyAll
    trivial
  | s :: rest, h => by
    unfold AllSound at h
    unfold canonAll TidyAll
    exact ⟨tidy_canon hP s h.1, tidyAll_canonAll hP rest h.2⟩

end

/-! ## References that merge -/

theorem consOp_of_not_isReference {o : DeclaratorOp} (h : o.isReference = false)
    (ops : List DeclaratorOp) : consOp o ops = o :: ops := by
  cases ops with
  | nil => rfl
  | cons o' ops => simp [consOp, h]

theorem consOp_cons_of_not_isReference {o o' : DeclaratorOp} (h : o'.isReference = false)
    (ops : List DeclaratorOp) : consOp o (o' :: ops) = o :: o' :: ops := by
  simp [consOp, h]

theorem mergeRefs_assoc (r o o' : DeclaratorOp) :
    mergeRefs r (mergeRefs o o') = mergeRefs (mergeRefs r o) o' := by
  cases r <;> cases o <;> cases o' <;> rfl

/-- References merge in whatever order they are met. -/
theorem consOp_consOp {r o : DeclaratorOp} (hr : r.isReference = true) (ho : o.isReference = true)
    (ops : List DeclaratorOp) : consOp r (consOp o ops) = consOp (mergeRefs r o) ops := by
  have hmerge := mergeRefs_isReference r o
  cases ops with
  | nil => simp [consOp, hr, ho]
  | cons o' ops =>
      cases ho' : o'.isReference with
      | true =>
          have hmerge' := mergeRefs_isReference o o'
          simp [consOp, hr, ho, ho', hmerge, hmerge', mergeRefs_assoc]
      | false => simp [consOp, hr, ho, ho']

/-! ## What is printed is canonical -/

theorem consOp_of_tidy {o : DeclaratorOp} {ops : List DeclaratorOp}
    (h : o.isReference = true → opensWithReference ops = false) : consOp o ops = o :: ops := by
  cases ops with
  | nil => rfl
  | cons o' ops =>
      cases ho : o.isReference with
      | true => exact consOp_cons_of_not_isReference (h ho) ops
      | false => exact consOp_of_not_isReference ho _

mutual

/-- A tidy spelling of settled names is the one that is printed for its type. -/
theorem canon_of_tidy : (s : Spelling) → Tidy s → Sound QualifiedName.Settled s → canon s = s
  | .mk base quals ops, htidy, h => by
    unfold Tidy at htidy
    unfold Sound at h
    have hbase : base.canon = base := by
      cases base with
      | name n => exact congrArg _ h.1
      | void | builtin | complex => rfl
    unfold canon
    rw [hbase, canonOps_of_tidy ops htidy h.2.2]

theorem canonOps_of_tidy : (ops : List DeclaratorOp) → TidyOps ops →
    OpsSound QualifiedName.Settled ops → canonOps ops = ops
  | [], _, _ => by unfold canonOps; rfl
  | o :: ops, htidy, h => by
    unfold TidyOps at htidy
    unfold OpsSound at h
    unfold canonOps
    rw [canonOps_of_tidy ops htidy.2.2 h.2, canonOp_of_tidy o htidy.1 h.1, consOp_of_tidy htidy.2.1]

theorem canonOp_of_tidy : (o : DeclaratorOp) → TidyOp o → OpSound QualifiedName.Settled o →
    canonOp o = o
  | .memberPointer klass quals, _, h => by
    unfold OpSound at h
    unfold canonOp
    rw [show klass.canon = klass from h.1]
  | .function params variadic quals ref, htidy, h => by
    unfold TidyOp at htidy
    unfold OpSound at h
    unfold canonOp
    rw [canonAll_of_tidy params htidy h.1]
  | .pointer _, _, _ | .lvalueReference, _, _ | .rvalueReference, _, _ | .array _, _, _ => by
    unfold canonOp
    rfl

theorem canonAll_of_tidy : (params : List Spelling) → TidyAll params →
    AllSound QualifiedName.Settled params → canonAll params = params
  | [], _, _ => by unfold canonAll; rfl
  | s :: rest, htidy, h => by
    unfold TidyAll at htidy
    unfold AllSound at h
    unfold canonAll
    rw [canon_of_tidy s htidy.1 h.1, canonAll_of_tidy rest htidy.2 h.2]

end

end Spelling

end CppReflect
