/-!
# Binary floating point

Numbers of the form `m * 2 ^ q` with `m` of a bounded number of bits, as they are stored in 32 and
64 bits, and the number of a format that is nearest to a fraction. All arithmetic is exact.
-/

namespace CppReflect.Number

/-- A format of binary floating-point numbers. -/
structure BinaryFormat where
  /-- The number of bits of a significand. -/
  precision : Nat
  /-- The exponent of the least significand. -/
  minExponent : Int
  /-- The number of bits of the stored exponent. -/
  exponentBits : Nat
deriving DecidableEq, Repr

/-- Numbers of 64 bits. -/
def binary64 : BinaryFormat := ⟨53, -1074, 11⟩

/-- Numbers of 32 bits. -/
def binary32 : BinaryFormat := ⟨24, -149, 8⟩

/-- A number that is stored, or what is stored in place of one. -/
inductive Binary where
  | nan
  | infinite (negative : Bool)
  /-- The number `significand * 2 ^ exponent` with a sign. -/
  | finite (negative : Bool) (significand : Nat) (exponent : Int)
deriving DecidableEq, Inhabited, Repr

/-- The exponent of the greatest numbers of a format. -/
def BinaryFormat.maxExponent (f : BinaryFormat) : Int :=
  f.minExponent + Nat.pow 2 f.exponentBits - 3

/-- The number that a pattern of bits stores. -/
def BinaryFormat.decode (f : BinaryFormat) (bits : Nat) : Binary :=
  let fractionBits := f.precision - 1
  let fraction := bits % Nat.pow 2 fractionBits
  let exponent := bits / Nat.pow 2 fractionBits % Nat.pow 2 f.exponentBits
  let negative := bits / Nat.pow 2 (fractionBits + f.exponentBits) % 2 == 1
  if exponent = Nat.pow 2 f.exponentBits - 1 then
    if fraction = 0 then .infinite negative else .nan
  else if exponent = 0 then .finite negative fraction f.minExponent
  else .finite negative (Nat.pow 2 fractionBits + fraction) (f.minExponent + (exponent - 1 : Nat))

/-- A fraction as its numerator and denominator. -/
structure Fraction where
  num : Nat
  den : Nat
deriving DecidableEq, Repr

/-- The fraction `n * base ^ e`. -/
def Fraction.ofPower (n base : Nat) (e : Int) : Fraction :=
  if 0 ≤ e then ⟨n * Nat.pow base e.toNat, 1⟩ else ⟨n, Nat.pow base (-e).toNat⟩

/-- The product of two fractions. -/
def Fraction.mul (a b : Fraction) : Fraction := ⟨a.num * b.num, a.den * b.den⟩

/-- The quotient of two fractions. -/
def Fraction.div (a b : Fraction) : Fraction := ⟨a.num * b.den, a.den * b.num⟩

/-- The first fraction is at most the second. -/
def Fraction.le (a b : Fraction) : Bool := a.num * b.den ≤ b.num * a.den

/-- The first fraction is less than the second. -/
def Fraction.lt (a b : Fraction) : Bool := a.num * b.den < b.num * a.den

/-- The whole number nearest to a fraction, and of two the even one. -/
def Fraction.round (a : Fraction) : Nat :=
  let q := a.num / a.den
  let r := a.num % a.den
  if 2 * r < a.den then q
  else if a.den < 2 * r then q + 1
  else q + q % 2

/-- The number of a format nearest to a fraction, and of two the one with the even significand. What
is greater than the format can hold is infinite. -/
def BinaryFormat.round (f : BinaryFormat) (negative : Bool) (a : Fraction) : Binary :=
  if a.num = 0 then .finite negative 0 f.minExponent
  else
    let q : Int := (Nat.log2 a.num : Int) - (Nat.log2 a.den : Int) - f.precision
    let scaled (q : Int) : Fraction :=
      if 0 ≤ q then ⟨a.num, a.den * Nat.pow 2 q.toNat⟩
      else ⟨a.num * Nat.pow 2 (-q).toNat, a.den⟩
    let q := if (scaled q).num / (scaled q).den < Nat.pow 2 f.precision then q else q + 1
    let q := max q f.minExponent
    let m := (scaled q).round
    let (m, q) := if m = Nat.pow 2 f.precision then (m / 2, q + 1) else (m, q)
    if q > f.maxExponent then .infinite negative else .finite negative m q

/-- The fraction that a number is apart from its sign, if it is finite. -/
def Binary.magnitude? : Binary → Option Fraction
  | .finite _ m q => some (.ofPower m 2 q)
  | _ => none

/-- A fraction rounded to a format, unless it is greater than the format can hold. -/
def BinaryFormat.nearest? (f : BinaryFormat) (a : Fraction) : Option Fraction :=
  (f.round false a).magnitude?

end CppReflect.Number
