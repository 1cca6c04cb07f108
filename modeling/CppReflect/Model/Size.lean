import CppReflect.Model.Sugar

/-!
# Sizes of types

The size of a type as far as it is known without asking for a layout. Sizes are words of 64 bits. An
array that is greater than that has no size, and this is something else than a size that is not
known: nobody can be asked for it.
-/

namespace CppReflect

/-- What is known of the size of a type. -/
inductive StaticSize where
  | unknown
  | known (bytes : UInt64)
  /-- The size does not fit in 64 bits. -/
  | excessive
deriving DecidableEq, Inhabited, Repr

namespace StaticSize

/-- A size that may be known. -/
def ofOption : Option UInt64 → StaticSize
  | some bytes => .known bytes
  | none => .unknown

/-- The size of `n` things, one behind the other. -/
def times (n : UInt64) : StaticSize → StaticSize
  | .known bytes => if n.toNat * bytes.toNat < UInt64.size then .known (n * bytes) else .excessive
  | .unknown => .unknown
  | .excessive => .excessive

/-- A size that is known after a multiplication is the exact product. -/
theorem toNat_times {n bytes total : UInt64} (h : (StaticSize.known bytes).times n = .known total) :
    total.toNat = n.toNat * bytes.toNat := by
  by_cases fits : n.toNat * bytes.toNat < UInt64.size
  · rw [times, if_pos fits] at h
    cases h
    rw [UInt64.toNat_mul, Nat.mod_eq_of_lt fits]
  · rw [times, if_neg fits] at h
    cases h

end StaticSize

namespace Model

/-- The size in bytes, down to the depth `fuel`. -/
def staticSizeFrom (m : Model) : Nat → TypeId → StaticSize
  | 0, _ => .unknown
  | fuel + 1, t =>
    match m.kindOf t with
    | .builtin b => .known (UInt64.ofNat b.size)
    | .pointer _ | .lvalueReference _ | .rvalueReference _ => .known 8
    | .memberPointer pointee _ => .known (if (m.kindOf pointee).isFunction then 16 else 8)
    | .enum d =>
      match (m.decl d).enum? with
      | some info => m.staticSizeFrom fuel info.integerType
      | none => .unknown
    | .complex e => (m.staticSizeFrom fuel e).times 2
    | .constantArray e n => (m.staticSizeFrom fuel e).times n
    | .record d => .ofOption ((m.record? d).bind RecordInfo.size)
    | _ => .unknown

/-- The types whose sizes make up the size of a type, down to the depth `fuel`. -/
def wayToSizeFrom (m : Model) : Nat → TypeId → List TypeId
  | 0, _ => []
  | fuel + 1, t =>
    match m.kindOf t with
    | .memberPointer pointee _ => [t, pointee]
    | .enum d => t :: (m.decl d).enum?.elim [] fun info => m.wayToSizeFrom fuel info.integerType
    | .complex e | .constantArray e _ => t :: m.wayToSizeFrom fuel e
    | _ => [t]

/-- The way of `staticSizeOf`. -/
def wayToSize (m : Model) (t : TypeId) : List TypeId := m.wayToSizeFrom m.typeFuel t

/-- The size in bytes as far as it is known without asking for a layout. -/
def staticSizeOf (m : Model) (t : TypeId) : StaticSize := m.staticSizeFrom m.typeFuel t

end Model

end CppReflect
