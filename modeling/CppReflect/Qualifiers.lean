/-!
# Type qualifiers

A set of the qualifiers `const`, `volatile` and `restrict`, kept as a mask of eight bits of which
three have a meaning. The other five are carried along by the set operations.
-/

namespace CppReflect

/-- A set of type qualifiers. -/
structure Quals where
  /-- Bit 0 stands for `const`, bit 1 for `volatile`, bit 2 for `restrict`. -/
  bits : UInt8
deriving DecidableEq, Inhabited, Repr

namespace Quals

/-- No qualifier. -/
def none : Quals := ⟨0⟩
/-- The qualifier `const`. -/
def const : Quals := ⟨1⟩
/-- The qualifier `volatile`. -/
def volatile : Quals := ⟨2⟩
/-- The qualifier `restrict`. -/
def restrict : Quals := ⟨4⟩
/-- All three qualifiers. -/
def all : Quals := ⟨7⟩

/-- The qualifiers of either set. -/
def union (a b : Quals) : Quals := ⟨a.bits ||| b.bits⟩

instance : Union Quals := ⟨union⟩

/-- Every qualifier of `b` is one of `a`. -/
def contains (a b : Quals) : Bool := a.bits &&& b.bits == b.bits

/-- The two sets share a qualifier. -/
def intersects (a b : Quals) : Bool := a.bits &&& b.bits != 0

/-- The qualifiers of `a` that are not in `b`. -/
def without (a b : Quals) : Quals := ⟨a.bits &&& ~~~b.bits⟩

/-- The set holds nothing. -/
def isEmpty (a : Quals) : Bool := a.bits == 0

/-- The qualifiers as they are written in a type: `const`, `volatile` and `__restrict` in this
order, with a blank between two. -/
def words (q : Quals) : List String :=
  (if q.contains const then ["const"] else []) ++
  (if q.contains volatile then ["volatile"] else []) ++
  (if q.contains restrict then ["__restrict"] else [])

/-- The qualifier that a word of a type spelling stands for. -/
def ofWord? (word : String) : Option Quals :=
  if word = "const" then some const
  else if word = "volatile" then some volatile
  else if word = "restrict" ∨ word = "__restrict" ∨ word = "__restrict__" then some restrict
  else Option.none

@[simp] theorem union_bits (a b : Quals) : (a ∪ b).bits = a.bits ||| b.bits := rfl

theorem none_union (q : Quals) : none ∪ q = q := congrArg Quals.mk UInt8.zero_or

theorem union_assoc (p q r : Quals) : p ∪ q ∪ r = p ∪ (q ∪ r) :=
  congrArg Quals.mk (UInt8.or_assoc _ _ _)

theorem union_comm (p q : Quals) : p ∪ q = q ∪ p := congrArg Quals.mk (UInt8.or_comm _ _)

/-- A qualifier set contains what it was joined with on the right. -/
theorem contains_union_left (a b : Quals) : (a ∪ b).contains a = true := by
  simp only [contains, union_bits, beq_iff_eq]
  apply UInt8.toBitVec_inj.1
  ext i h
  simp only [UInt8.toBitVec_and, UInt8.toBitVec_or, BitVec.getElem_and, BitVec.getElem_or]
  cases a.bits.toBitVec[i] <;> simp

/-- Nothing is left of a set that was taken away. -/
theorem not_intersects_without (a b : Quals) : (a.without b).intersects b = false := by
  simp only [intersects, without, bne_eq_false_iff_eq]
  apply UInt8.toBitVec_inj.1
  ext i h
  simp only [UInt8.toBitVec_and, UInt8.toBitVec_not, BitVec.getElem_and, BitVec.getElem_not]
  cases b.bits.toBitVec[i] <;> simp

end Quals

end CppReflect
