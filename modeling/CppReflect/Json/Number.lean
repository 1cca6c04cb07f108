import CppReflect.Json.Basic

/-!
# Numbers in JSON text

A whole number that fits in 64 bits is read as it is. Any other number is its leading digits, as many
as a word of 64 bits holds, scaled by a power of ten. The digits, the power and the outcome are
rounded each by itself, so what is read need not be the number nearest to the text.
-/

namespace CppReflect.Json

/-- The number `digits * 10 ^ exponent`, whose digits fit in 64 bits. -/
structure Scaled where
  digits : Nat
  exponent : Int
deriving DecidableEq, Inhabited, Repr

/-- Appends digits to a number as long as it fits in 64 bits, and tells how many were appended. -/
def appendDigits (n : Nat) : List Char → Nat × Nat
  | [] => (n, 0)
  | c :: cs =>
    let longer := 10 * n + (c.toNat - '0'.toNat)
    if longer < UInt64.size then
      let (m, count) := appendDigits longer cs
      (m, count + 1)
    else (n, 0)

/-- The number that digits in front of a point and behind it stand for, scaled by a power of ten.
Digits in front of the point that are left out still count as places. -/
def Scaled.ofDigits (whole fraction : List Char) (exponent : Int) : Scaled :=
  let (n, taken) := appendDigits 0 whole
  let (digits, places) := appendDigits n fraction
  ⟨digits, exponent + (whole.length - taken : Nat) - places⟩

/-- The exponent of the greatest power of ten that a number of 64 bits can hold. -/
def maxPower : Nat := 308

/-- A power of ten, rounded. -/
def power? (e : Nat) : Option Number.Fraction :=
  Number.binary64.nearest? (.ofPower 1 10 e)

/-- A magnitude multiplied or divided by a power of ten, where a divisor beyond the powers that can
be held is taken in at most `steps` steps. A product beyond them is refused, unless it is zero. -/
def scaleFrom : Nat → Number.Fraction → Int → Option Number.Fraction
  | 0, a, _ => some a
  | steps + 1, a, e =>
    if e.natAbs ≤ maxPower then do
      let p ← power? e.natAbs
      Number.binary64.nearest? (if 0 ≤ e then a.mul p else a.div p)
    else if a.num = 0 then some a
    else if 0 ≤ e then none
    else do
      let p ← power? maxPower
      scaleFrom steps (← Number.binary64.nearest? (a.div p)) (e + maxPower)

/-- A magnitude of at most 64 bits multiplied or divided by a power of ten. Two steps of division
leave nothing of it, so three are enough. -/
def scale? (a : Number.Fraction) (e : Int) : Option Number.Fraction := scaleFrom 3 a e

/-- The value of a number with a fraction or an exponent, or that is too great for a whole number
of 64 bits. -/
def float? (negative : Bool) (n : Scaled) : Option Json := do
  let a ← Number.binary64.nearest? ⟨n.digits, 1⟩
  let a ← scale? a n.exponent
  return .float (Number.binary64.round negative a)

/-- The exponent behind a number, which begins with a letter, and what is behind it; no letter
stands for no exponent. -/
def readExponent? (cs : List Char) : Option (Option Int × List Char) :=
  match cs with
  | c :: rest =>
    if c = 'e' ∨ c = 'E' then
      let sign := rest.takeWhile fun c => c == '+' || c == '-'
      let body := rest.dropWhile fun c => c == '+' || c == '-'
      if sign.length > 1 then none
      else (Number.readExponent? (sign ++ body.takeWhile Char.isDigit)).map fun e =>
        (some e, body.dropWhile Char.isDigit)
    else some (none, c :: rest)
  | [] => some (none, [])

/-- The digits behind the point of a number, and what is behind them; there is no point without
one. -/
def readFraction? (cs : List Char) : Option (Option (List Char) × List Char) :=
  match cs with
  | '.' :: rest =>
    let digits := rest.takeWhile Char.isDigit
    if digits.isEmpty then none else some (some digits, rest.dropWhile Char.isDigit)
  | rest => some (none, rest)

/-- The value of digits without a fraction and an exponent. -/
def whole? (negative : Bool) (digits : List Char) : Option Json :=
  let n := Number.natOfDigits digits
  if !negative && n < UInt64.size then some (.int n)
  else if negative && 0 < n && n ≤ 0x8000000000000000 then some (.int (-(n : Int)))
  else float? negative (.ofDigits digits [] 0)

/-- Reads the digits of a number without its sign. -/
def readUnsigned (negative : Bool) (cs : List Char) : Option (Json × List Char) := do
  let whole := cs.takeWhile Char.isDigit
  if whole.isEmpty || (whole.head? == some '0' && whole.length > 1) then none
  else
    let (fraction, rest) ← readFraction? (cs.dropWhile Char.isDigit)
    let (exponent, rest) ← readExponent? rest
    let v ←
      match fraction, exponent with
      | none, none => whole? negative whole
      | _, _ => float? negative (.ofDigits whole (fraction.getD []) (exponent.getD 0))
    return (v, rest)

/-- Reads a number. -/
def readNumber : List Char → Option (Json × List Char)
  | '-' :: rest => readUnsigned true rest
  | cs => readUnsigned false cs

end CppReflect.Json
