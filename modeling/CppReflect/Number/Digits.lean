import CppReflect.Number.Binary

/-!
# Decimal digits of binary numbers

The fewest decimal digits that read back as the same number, and a given number of digits nearest to
it. A decimal number is written as `digits * 10 ^ exponent`.
-/

namespace CppReflect.Number

/-- The number `digits * 10 ^ exponent`. -/
structure Decimal where
  digits : Nat
  exponent : Int
deriving DecidableEq, Inhabited, Repr

/-- The fractions that are read as the number `m * 2 ^ q`: the ends of the interval between the
midpoints to its neighbours, and whether the ends belong to it. -/
structure ReadInterval where
  low : Fraction
  high : Fraction
  closed : Bool

/-- The interval of what is read as a number of the format. The neighbour below a power of two is
half as far away as the one above. -/
def BinaryFormat.readInterval (f : BinaryFormat) (m : Nat) (q : Int) : ReadInterval :=
  let below := if m = Nat.pow 2 (f.precision - 1) ∧ f.minExponent < q then 1 else 2
  ⟨.ofPower (4 * m - below) 2 (q - 2), .ofPower (4 * m + 2) 2 (q - 2), m % 2 == 0⟩

/-- The decimal number lies in the interval. -/
def ReadInterval.holds (i : ReadInterval) (d : Decimal) : Bool :=
  let a := Fraction.ofPower d.digits 10 d.exponent
  if i.closed then i.low.le a && a.le i.high else i.low.lt a && a.lt i.high

/-- The exponent of the first decimal digit of a fraction that is not zero, looked for upwards from
`e` in at most `fuel` steps. -/
def leadExponentFrom (a : Fraction) : Nat → Int → Int
  | 0, e => e
  | fuel + 1, e =>
    if a.lt (Fraction.ofPower 1 10 (e + 1)) then e else leadExponentFrom a fuel (e + 1)

/-- The exponent of the first decimal digit of a fraction that is not zero. -/
def leadExponent (a : Fraction) : Int :=
  let bits : Int := (Nat.log2 a.num : Int) - (Nat.log2 a.den : Int)
  leadExponentFrom a 4 (Int.fdiv (bits * 30103) 100000 - 2)

/-- The digits of a fraction down to the place `e`, cut off. -/
def floorAt (a : Fraction) (e : Int) : Nat :=
  if 0 ≤ e then a.num / (a.den * Nat.pow 10 e.toNat)
  else a.num * Nat.pow 10 (-e).toNat / a.den

/-- The digits of a fraction down to the place `e`, rounded to the nearest and of two to the even
one. -/
def roundAt (a : Fraction) (e : Int) : Nat :=
  if 0 ≤ e then (Fraction.mk a.num (a.den * Nat.pow 10 e.toNat)).round
  else (Fraction.mk (a.num * Nat.pow 10 (-e).toNat) a.den).round

/-- The shortest decimal number in the interval around a fraction, tried with `count` digits and
then with more, at most `fuel` times. Of two of the same length the nearer one is taken. -/
def shortestFrom (i : ReadInterval) (a : Fraction) (lead : Int) : Nat → Nat → Decimal
  | 0, count => ⟨roundAt a (lead - count + 1), lead - count + 1⟩
  | fuel + 1, count =>
    let e := lead - count + 1
    let below : Decimal := ⟨floorAt a e, e⟩
    let above : Decimal := ⟨floorAt a e + 1, e⟩
    match i.holds below, i.holds above with
    | true, true => ⟨roundAt a e, e⟩
    | true, false => below
    | false, true => above
    | false, false => shortestFrom i a lead fuel (count + 1)

/-- Drops the zeros at the end of the digits, at most `fuel` of them. -/
def Decimal.stripZerosFrom : Nat → Decimal → Decimal
  | 0, d => d
  | fuel + 1, d =>
    if d.digits ≠ 0 ∧ d.digits % 10 = 0 then stripZerosFrom fuel ⟨d.digits / 10, d.exponent + 1⟩
    else d

/-- The fewest digits that read back as the number `m * 2 ^ q`, which is not zero. -/
def BinaryFormat.shortest (f : BinaryFormat) (m : Nat) (q : Int) : Decimal :=
  let a := Fraction.ofPower m 2 q
  (shortestFrom (f.readInterval m q) a (leadExponent a) 20 1).stripZerosFrom 20

/-- The number `m * 2 ^ q`, which is not zero, rounded to `count` digits. -/
def roundToCount (m : Nat) (q : Int) (count : Nat) : Decimal :=
  let a := Fraction.ofPower m 2 q
  let e := leadExponent a - count + 1
  let digits := roundAt a e
  if digits = Nat.pow 10 count then ⟨digits / 10, e + 1⟩ else ⟨digits, e⟩

end CppReflect.Number
