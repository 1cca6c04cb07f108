import CppReflect.Proofs.Model.Readings
import CppReflect.Proofs.Model.Spelled
import CppReflect.Proofs.Spelling.Glued

/-!
# Texts that tell their types

The text of a type is that of a spelling, and the spelling is read back from it. In a scope that may
declare more than the model that the type is in, the spelling denotes the type if its names do. What
is said of a type in this way is said of its parts first, and then of the operator that it is made
by.
-/

namespace CppReflect

open Spelling (opQuals sigil printOps printSuffix Plain Tidy TidyOps TidyOp Legible Sound OpSound)

namespace Spelling

variable {ops : List DeclaratorOp} {o : DeclaratorOp}

/-! ## The outermost operator -/

/-- The outermost operator is written behind a declarator. -/
def closesWithSuffix (ops : List DeclaratorOp) : Bool := ops.getLast?.any fun o => !o.isPrefix

/-- The outermost operator makes a reference. -/
def closesWithReference (ops : List DeclaratorOp) : Bool :=
  ops.getLast?.any DeclaratorOp.isReference

/-- What is printed in front of a declarator goes inside everything else, in parentheses if that is
printed behind. -/
theorem printOps_concat_sigil (ho : o.isPrefix = true) (ops : List DeclaratorOp) (x : String) :
    printOps (ops ++ [o]) x = printOps ops (if closesWithSuffix ops then
      "(" ++ Model.operatorText (sigil o) (opQuals o) x ++ ")"
    else Model.operatorText (sigil o) (opQuals o) x) := by
  induction ops with
  | nil => simp [printOps, ho, closesWithSuffix]
  | cons o' ops ih =>
      -- the parentheses are printed by the operator before the last, if that is a suffix
      cases ops with
      | nil =>
          cases ho' : o'.isPrefix <;>
            simp [printOps, opensWithPrefix, ho, ho', closesWithSuffix]
      | cons o'' ops =>
          rw [List.cons_append, printOps, ih, printOps]
          rfl

theorem printOps_concat_suffix (ho : o.isPrefix = false) (ops : List DeclaratorOp) (x : String) :
    printOps (ops ++ [o]) x = printOps ops (x ++ printSuffix o) := by
  induction ops with
  | nil => simp [printOps, ho, opensWithPrefix]
  | cons o' ops ih =>
      cases ops with
      | nil => cases ho' : o'.isPrefix <;> simp [printOps, opensWithPrefix, ho, ho']
      | cons o'' ops =>
          rw [List.cons_append, printOps, ih, printOps]
          rfl

theorem tidyOps_concat (h : TidyOps ops) (ho : TidyOp o)
    (href : o.isReference = true → closesWithReference ops = false) : TidyOps (ops ++ [o]) := by
  induction ops with
  | nil => exact ⟨ho, fun _ => rfl, trivial⟩
  | cons o' ops ih =>
      obtain ⟨ho', hnext, hrest⟩ := h
      cases ops with
      | nil =>
          refine ⟨ho', fun href' => ?_, ho, fun _ => rfl, trivial⟩
          cases hlast : o.isReference with
          | false => simpa [opensWithReference] using hlast
          | true =>
              have hclose := href hlast
              simp [closesWithReference, href'] at hclose
      | cons o'' ops => exact ⟨ho', hnext, ih hrest href⟩

/-! ## Spellings with local names -/

/-- The name is plain and does not begin with a `::`. -/
def Local (n : QualifiedName) : Prop := Plain n ∧ n.global = false

/-- A spelling with such names is told from whatever ends a type. -/
theorem legible_of_local {s : Spelling} (h : Sound Local s) {behind : List Token}
    (hends : EndsType behind) : Legible s [] behind :=
  legible_of_not_glued s (sound_mono (fun _ hn => hn.1) h)
    (glued_of_local s (sound_mono (fun _ hn => hn.2) h)) trivial hends

/-- The spelling with one more operator, which is applied last. -/
def withOp (o : DeclaratorOp) : Spelling → Spelling
  | .mk base quals ops => .mk base quals (ops ++ [o])

theorem allSound_iff {P : QualifiedName → Prop} {params : List Spelling} :
    AllSound P params ↔ ∀ s ∈ params, Sound P s := by
  induction params with
  | nil => simp [AllSound]
  | cons s rest ih => simp [AllSound, ih]

theorem tidyAll_iff {params : List Spelling} : TidyAll params ↔ ∀ s ∈ params, Tidy s := by
  induction params with
  | nil => simp [TidyAll]
  | cons s rest ih => simp [TidyAll, ih]

theorem printAll_eq_map (params : List Spelling) : printAll params = params.map (print · "") := by
  induction params with
  | nil => simp [printAll]
  | cons s rest ih => simp [printAll, ih]

end Spelling

namespace Model

open Spelling (Local closesWithSuffix closesWithReference)

variable {m scope : Model} {t p : TypeId} {s : Spelling} {o : DeclaratorOp}

/-! ## What is printed for parts -/

/-- What is printed by an operator in front of a declarator, in parentheses if what it is applied to
is printed behind. -/
def around (m : Model) (p : TypeId) (o : DeclaratorOp) (x : String) : String :=
  if needsParens (m.node p).kind then "(" ++ operatorText (sigil o) (opQuals o) x ++ ")"
  else operatorText (sigil o) (opQuals o) x

section Parts

variable (h : m.WellFormed)

include h

/-- A part of a type is printed from its own place as it is from that of the type. -/
theorem WellFormed.printFrom_part {n : TypeNode} (ht : m.types.get? t = some n)
    (hp : p ∈ n.kind.parts) (x : String) :
    m.printFrom (m.argTextFrom m.declFuel) m.types.size p x = m.printType p x := by
  have hnode : p ∈ (m.node t).kind.parts := by rwa [node_of_get? ht]
  obtain ⟨hlt, hex⟩ := h.node_parts hnode
  exact (Interned.refl m).printFrom_grows h (fun _ _ _ _ _ => rfl) hex (Nat.lt_succ_of_lt hex)
    (Nat.lt_trans hlt (hasType_of_get? ht)) x

/-- A type is printed by what its part is printed with, whatever the depth. -/
theorem WellFormed.printType_of_part {n : TypeNode} (ht : m.types.get? t = some n)
    (hp : p ∈ n.kind.parts) {x y : String}
    (hprint : ∀ fuel, m.types.size = fuel →
      m.printFrom (m.argTextFrom m.declFuel) (fuel + 1) t x =
        m.printFrom (m.argTextFrom m.declFuel) fuel p y) :
    m.printType t x = m.printType p y :=
  (hprint _ rfl).trans (h.printFrom_part ht hp y)

theorem WellFormed.printType_pointer {q : Quals} (ht : m.types.get? t = some ⟨.pointer p, q⟩)
    (x : String) : m.printType t x = m.printType p (m.around p (.pointer q) x) := by
  refine h.printType_of_part ht List.mem_cons_self fun fuel _ => ?_
  rw [printFrom, node_of_get? ht]
  rfl

theorem WellFormed.printType_lvalueReference
    (ht : m.types.get? t = some ⟨.lvalueReference p, .none⟩) (x : String) :
    m.printType t x = m.printType p (m.around p .lvalueReference x) := by
  refine h.printType_of_part ht List.mem_cons_self fun fuel _ => ?_
  rw [printFrom, node_of_get? ht]
  rfl

theorem WellFormed.printType_rvalueReference
    (ht : m.types.get? t = some ⟨.rvalueReference p, .none⟩) (x : String) :
    m.printType t x = m.printType p (m.around p .rvalueReference x) := by
  refine h.printType_of_part ht List.mem_cons_self fun fuel _ => ?_
  rw [printFrom, node_of_get? ht]
  rfl

theorem WellFormed.printType_memberPointer {c : TypeId} {klass : QualifiedName} {q : Quals}
    (ht : m.types.get? t = some ⟨.memberPointer p c, q⟩) (hklass : m.typeText c = klass.text)
    (x : String) : m.printType t x = m.printType p (m.around p (.memberPointer klass q) x) := by
  refine h.printType_of_part ht List.mem_cons_self fun fuel hfuel => ?_
  have hclass := h.printFrom_part ht (p := c) (by simp [TypeKind.parts]) ""
  rw [hfuel] at hclass
  rw [printFrom, node_of_get? ht]
  simp only [hclass.trans hklass]
  rfl

theorem WellFormed.printType_array {extent : Option UInt64} {q : Quals}
    (ht : m.types.get? t = some ⟨.arrayOf p extent, q⟩) (x : String) :
    m.printType t x = m.printType p (x ++ printSuffix (.array extent)) := by
  refine h.printType_of_part ht (by cases extent <;> exact List.mem_cons_self) fun fuel _ => ?_
  rw [printFrom, node_of_get? ht]
  cases extent with
  | none => rfl
  | some n => simp only [TypeKind.arrayOf, printSuffix, String.append_assoc]

theorem WellFormed.printType_function {f : FunctionProto} {q : Quals}
    (ht : m.types.get? t = some ⟨.function f, q⟩) (x : String) :
    m.printType t x = m.printType f.ret (x ++ ("(" ++
      paramsText (f.params.map m.typeText) f.variadic ++ ")" ++ functionTail f.quals f.ref)) := by
  refine h.printType_of_part ht List.mem_cons_self fun fuel hfuel => ?_
  have hparams : f.params.map (fun u => m.printFrom (m.argTextFrom m.declFuel) fuel u "") =
      f.params.map m.typeText :=
    List.map_congr_left fun u hu =>
      hfuel ▸ h.printFrom_part ht (List.mem_cons_of_mem _ hu) ""
  rw [printFrom, node_of_get? ht]
  simp only [hparams, String.append_assoc]

end Parts

/-! ## What is told -/

/-- The spelling is what is written for the type, and its names mean in the scope what is meant. An
array, a function and a reference are written without qualifiers of their own. -/
inductive Tells (m scope : Model) : Spelling → TypeId → Prop
  | base {t : TypeId} {base : Spelling.Base} {q : Quals} {B : TypeTree}
      (hkind : (m.kindOf t).operand? = none) (hex : m.HasType t)
      (hprint : ∀ x, m.printType t x = baseText base.text q x) (hbase : base.Sound Local)
      (hq : q.Valid) (hdenotes : scope.Denotes (resolveBase base root) B)
      (htree : m.canonTree t = B.qualified q) : Tells m scope (.mk base q []) t
  | pointer {t p : TypeId} {s : Spelling} {q : Quals} (hp : Tells m scope s p)
      (ht : m.types.get? t = some ⟨.pointer p, q⟩) (hq : q.Valid) :
      Tells m scope (s.withOp (.pointer q)) t
  | lvalueReference {t p : TypeId} {s : Spelling} (hp : Tells m scope s p)
      (ht : m.types.get? t = some ⟨.lvalueReference p, .none⟩)
      (hvalue : (m.canonTree p).isReference = false) : Tells m scope (s.withOp .lvalueReference) t
  | rvalueReference {t p : TypeId} {s : Spelling} (hp : Tells m scope s p)
      (ht : m.types.get? t = some ⟨.rvalueReference p, .none⟩)
      (hvalue : (m.canonTree p).isReference = false) : Tells m scope (s.withOp .rvalueReference) t
  | memberPointer {t p c : TypeId} {s : Spelling} {klass : QualifiedName} {q : Quals}
      (hp : Tells m scope s p) (ht : m.types.get? t = some ⟨.memberPointer p c, q⟩) (hq : q.Valid)
      (hklass : Local klass) (htext : m.typeText c = klass.text)
      (hdenotes : scope.Denotes (resolveName klass root) (m.canonTree c)) :
      Tells m scope (s.withOp (.memberPointer klass q)) t
  | array {t p : TypeId} {s : Spelling} {extent : Option UInt64} (hp : Tells m scope s p)
      (ht : m.types.get? t = some ⟨.arrayOf p extent, .none⟩) :
      Tells m scope (s.withOp (.array extent)) t
  | function {t : TypeId} {s : Spelling} {f : FunctionProto} {params : List Spelling}
      (hret : Tells m scope s f.ret) (ht : m.types.get? t = some ⟨.function f, .none⟩)
      (hquals : f.quals.Valid) (hlength : params.length = f.params.length)
      (hparams : ∀ i (hs : i < params.length) (hp : i < f.params.length),
        Tells m scope params[i] f.params[i])
      (hvoid : Spelling.withoutLoneVoid params = params) :
      Tells m scope (s.withOp (.function params f.variadic f.quals f.ref)) t

/-- The text of the type is that of the spelling, which is read back and denotes the type. -/
structure Told (m scope : Model) (s : Spelling) (t : TypeId) : Prop where
  printed : ∀ x, m.printType t x = Spelling.print s x
  parens : needsParens (m.node t).kind = closesWithSuffix s.ops
  sound : Sound Local s
  tidy : Tidy s
  reference : closesWithReference s.ops = (m.canonTree t).isReference
  denotes : scope.Denotes (resolve root s) (m.canonTree t)

theorem Told.withOp (hp : m.Told scope s p) (hparens : needsParens (m.node t).kind = !o.isPrefix)
    (hprint : ∀ x, m.printType t x =
      m.printType p (if o.isPrefix then m.around p o x else x ++ printSuffix o))
    (hsound : OpSound Local o) (htidy : TidyOp o)
    (href : o.isReference = true → (m.canonTree p).isReference = false)
    (href' : o.isReference = (m.canonTree t).isReference)
    (hmakes : scope.Makes root [o] (m.canonTree p) (m.canonTree t)) :
    m.Told scope (s.withOp o) t := by
  obtain ⟨base, quals, ops⟩ := s
  obtain ⟨hbase, hquals, hops⟩ := hp.sound
  refine ⟨fun x => ?_, ?_, ⟨hbase, hquals, ?_⟩, ?_, ?_, ?_⟩
  · have hinner := hp.printed
    unfold Spelling.print at hinner
    rw [hprint, hinner, Spelling.withOp, Spelling.print]
    cases ho : o.isPrefix with
    | true =>
        rw [Spelling.printOps_concat_sigil ho, if_pos rfl, around, hp.parens]
        rfl
    | false =>
        rw [Spelling.printOps_concat_suffix ho, if_neg (by simp)]
  · rw [hparens, Spelling.withOp, Spelling.ops, closesWithSuffix, List.getLast?_concat]
    rfl
  · exact Spelling.opsSound_append.mpr ⟨hops, hsound, trivial⟩
  · exact Spelling.tidyOps_concat hp.tidy htidy fun ho => hp.reference.trans (href ho)
  · rw [← href', Spelling.withOp, Spelling.ops, closesWithReference, List.getLast?_concat]
    rfl
  · rw [Spelling.withOp, resolve_append]
    exact hp.denotes.resolveOps hmakes

theorem operand?_node (h : (m.kindOf t).operand? = none) : (m.node t).kind.operand? = none := by
  cases hsugar : m.sugarStep? t with
  | none => rwa [kindOf, desugared_of_none hsugar] at h
  | some u =>
      unfold sugarStep? at hsugar
      split at hsugar
      next d hkind => rw [hkind]; rfl
      next => cases hsugar

/-- What is told of a type is told by its text. -/
theorem Tells.told (h : m.WellFormed) (ht : m.Tells scope s t) : m.Told scope s t := by
  induction ht with
  | @base t base q B hkind hex hprint hbase hq hdenotes htree =>
      refine ⟨fun x => ?_, ?_, ⟨hbase, hq, trivial⟩, trivial, ?_, ?_⟩
      · rw [hprint, Spelling.print, printOps]
      · have hnode := operand?_node hkind
        cases hk : (m.node t).kind <;> simp_all [TypeKind.operand?] <;> rfl
      · rw [h.isReference_canonTree hex]
        cases hk : m.kindOf t <;> first | rfl | simp [hk, TypeKind.operand?] at hkind
      · rw [htree, resolve_base]
        exact hdenotes.qualified q
  | @pointer t p s q _ ht hq ih =>
      have htree := h.canonTree_of_get? ht rfl
      refine ih.withOp (by rw [node_of_get? ht]; rfl) (h.printType_pointer ht) hq trivial
        (by rintro ⟨⟩) (by rw [htree]; rfl) ?_
      rw [htree]
      exact .pointer scope root q _
  | @lvalueReference t p s _ ht hvalue ih =>
      have htree := h.canonTree_of_get? ht rfl
      refine ih.withOp (by rw [node_of_get? ht]; rfl) (h.printType_lvalueReference ht) trivial
        trivial (fun _ => hvalue) (by rw [htree]; rfl) ?_
      have hmakes := Makes.lvalueReference scope root (m.canonTree p)
      rw [TypeTree.referenced, TypeTree.referred_of_not_isReference hvalue] at hmakes
      rwa [htree]
  | @rvalueReference t p s _ ht hvalue ih =>
      have htree := h.canonTree_of_get? ht rfl
      refine ih.withOp (by rw [node_of_get? ht]; rfl) (h.printType_rvalueReference ht) trivial
        trivial (fun _ => hvalue) (by rw [htree]; rfl) ?_
      have hmakes := Makes.rvalueReference scope root
        (TypeTree.isLvalueReference_of_not_isReference hvalue)
      rw [TypeTree.referenced, TypeTree.referred_of_not_isReference hvalue] at hmakes
      rwa [htree]
  | @memberPointer t p c s klass q _ ht hq hklass htext hdenotes ih =>
      have htree := h.canonTree_of_get? ht rfl
      refine ih.withOp (by rw [node_of_get? ht]; rfl) (h.printType_memberPointer ht htext)
        ⟨hklass, hq⟩ hklass.1.toOfWords.text_head? (by rintro ⟨⟩) (by rw [htree]; rfl) ?_
      rw [htree]
      exact hdenotes.makes_memberPointer q _
  | @array t p s extent _ ht ih =>
      have hdecl : (TypeKind.arrayOf p extent).decl? = none := by cases extent <;> rfl
      have hparts : (TypeKind.arrayOf p extent).parts = [p] := by cases extent <;> rfl
      have htree : m.canonTree t = (m.canonTree p).arrayed extent := by
        rw [h.canonTree_of_get? ht hdecl, hparts]
        cases extent <;> rfl
      refine ih.withOp (by rw [node_of_get? ht]; exact needsParens_arrayOf p extent)
        (h.printType_array ht) trivial trivial (by rintro ⟨⟩)
        (by rw [htree]; cases extent <;> rfl) ?_
      rw [htree]
      exact .array scope root extent _
  | @function t s f params _ ht hquals hlength _ hvoid ihret ih =>
      -- the parameters are told one by one
      have htold : List.Forall₂ (m.Told scope) params f.params :=
        List.forall₂_iff_get.mpr ⟨hlength, ih⟩
      have htexts : f.params.map m.typeText = Spelling.printAll params := by
        rw [Spelling.printAll_eq_map, ← List.forall₂_eq_eq_eq, List.forall₂_map_left_iff,
          List.forall₂_map_right_iff]
        exact htold.flip.imp fun _ _ hu => hu.printed ""
      have hforall {P : Spelling → Prop} (hP : ∀ s u, m.Told scope s u → P s) : ∀ s ∈ params, P s :=
        forall_mem_of_forall₂ htold.flip fun _ _ hu => hP _ _ hu
      have htree := h.canonTree_of_get? ht rfl
      refine ihret.withOp (by rw [node_of_get? ht]; rfl) (fun x => ?_)
        ⟨Spelling.allSound_iff.mpr (hforall fun _ _ hu => hu.sound), hvoid, hquals⟩
        (Spelling.tidyAll_iff.mpr (hforall fun _ _ hu => hu.tidy)) (by rintro ⟨⟩)
        (by rw [htree]; rfl) ?_
      · rw [h.printType_function ht, htexts]
        rfl
      · rw [htree]
        have hdenotes : List.Forall₂ (fun s T => scope.Denotes (resolve root s) T) params
            (f.params.map m.canonTree) :=
          List.forall₂_map_right_iff.mpr (htold.imp fun _ _ hu => hu.denotes)
        have hmakes := Makes.function hdenotes f.variadic f.quals f.ref (m.canonTree f.ret)
        simpa [TypeTree.called, TypeKind.shape, TypeKind.traverse, TypeKind.parts] using hmakes

/-- The text of a type that is told is read as its spelling. -/
theorem Told.read (ht : m.Told scope s t) : Spelling.read (m.typeText t) = .ok s := by
  rw [typeText, ht.printed]
  exact Spelling.read_print (Spelling.sound_mono (fun _ _ => trivial) ht.sound) ht.tidy (by simp)
    (Spelling.legible_of_local ht.sound trivial)

/-- In every scope in which its names mean what is meant, the text of a type denotes the type. -/
theorem Tells.denotes (h : m.WellFormed) (ht : m.Tells scope s t) :
    scope.Denotes (parseType (m.typeText t) root) (m.canonTree t) := by
  have htold := ht.told h
  unfold parseType
  rw [htold.read]
  exact htold.denotes

/-! ## Bases -/

theorem kindOf_of_get? {k : TypeKind} {q : Quals} (ht : m.types.get? t = some ⟨k, q⟩)
    (hkind : ∀ d, k ≠ .typedef d) : m.kindOf t = k := by
  have hsugar : m.sugarStep? t = none := by
    unfold sugarStep?
    rw [node_of_get? ht]
    split
    next d hk => exact absurd hk (hkind d)
    next => rfl
  rw [kindOf, desugared_of_none hsugar, node_of_get? ht]

theorem Tells.builtin (h : m.WellFormed) (scope : Model) {b : Builtin} {q : Quals}
    (ht : m.types.get? t = some ⟨.builtin b, q⟩) (hb : b ≠ .nullPtr) (hq : q.Valid) :
    m.Tells scope (.mk (.builtin b) q []) t := by
  refine .base (by rw [kindOf_of_get? ht (by simp)]; rfl) (hasType_of_get? ht) (fun x => ?_) hb hq
    (denotes_internKind scope rfl rfl) ?_
  · rw [printType, typeFuel, printFrom, node_of_get? ht]
    rfl
  · rw [h.canonTree_of_get? ht rfl, TypeTree.qualified, Quals.none_union]
    rfl

theorem Tells.void (h : m.WellFormed) (scope : Model) {q : Quals}
    (ht : m.types.get? t = some ⟨.void, q⟩) (hq : q.Valid) :
    m.Tells scope (.mk .void q []) t := by
  refine .base (by rw [kindOf_of_get? ht (by simp)]; rfl) (hasType_of_get? ht) (fun x => ?_) trivial
    hq (denotes_internKind scope rfl rfl) ?_
  · rw [printType, typeFuel, printFrom, node_of_get? ht]
    rfl
  · rw [h.canonTree_of_get? ht rfl, TypeTree.qualified, Quals.none_union]
    rfl

/-- A class is told by a local name that is printed for it and finds it in the scope. -/
theorem Tells.record (h : m.WellFormed) (hscope : scope.WellFormed) {d : DeclId} {info : RecordInfo}
    {q : Quals} (ht : m.types.get? t = some ⟨.record d, q⟩) (hq : q.Valid) {n : QualifiedName}
    (hn : Local n) (htext : m.qualifiedCompleteNameWith (m.argTextFrom m.declFuel) d = n.text)
    (hfound : scope.resolveTypeName? n.text root = some d)
    (hrecord : (scope.decl d).kind = .record info) : m.Tells scope (.mk (.name n) q []) t := by
  refine .base (by rw [kindOf_of_get? ht (by simp)]; rfl) (hasType_of_get? ht) (fun x => ?_) hn hq
    (denotes_resolveName hscope (by rwa [ite_self]) hrecord) ?_
  · rw [printType, typeFuel, printFrom, node_of_get? ht]
    simp only [htext]
    rfl
  · rw [h.canonTree_record ht, TypeTree.qualified, Quals.none_union]

end Model

end CppReflect
