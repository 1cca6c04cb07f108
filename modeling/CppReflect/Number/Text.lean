import CppReflect.Number.Digits
import CppReflect.Text.Basic

/-!
# Floating-point numbers in print

Three layouts of floating-point numbers: positional with the fewest digits that read back, the same
with an exponent for great and small numbers, and six significant digits as streams print by
default. Numbers are read from decimal text.
-/

namespace CppReflect.Number

/-- The digits of a decimal number and the number of them in front of the point. -/
def Decimal.layout (d : Decimal) : String × Int :=
  let s := toString d.digits
  (s, d.exponent + s.length)

/-- A text of zeros. -/
def zeros (n : Nat) : String := String.ofList (List.replicate n '0')

/-- The decimal number with all its places and no exponent; a point is followed by at least
`places` digits, and left out if none follow. -/
def Decimal.positional (d : Decimal) (places : Nat) : String :=
  let (s, point) := d.layout
  let whole :=
    if point ≤ 0 then "0"
    else String.ofList (s.toList.take point.toNat) ++ zeros (point.toNat - s.length)
  let fraction :=
    if point ≤ 0 then zeros (-point).toNat ++ s else String.ofList (s.toList.drop point.toNat)
  let fraction := fraction ++ zeros (places - fraction.length)
  if fraction.isEmpty then whole else whole ++ "." ++ fraction

/-- When a number is written with an exponent, and how. -/
structure ExponentStyle where
  /-- The exponent of the least power of ten that is written without one. -/
  least : Int
  /-- An exponent that is not negative has a plus sign. -/
  plus : Bool := false
deriving DecidableEq, Repr

/-- The decimal number with one digit in front of the point and an exponent. -/
def Decimal.scientific (d : Decimal) (plus : Bool) : String :=
  let (s, point) := d.layout
  let mantissa :=
    match s.toList with
    | c :: (r :: rest) => String.ofList (c :: '.' :: r :: rest)
    | cs => String.ofList cs
  mantissa ++ "e" ++ (if plus && 1 ≤ point then "+" else "") ++ toString (point - 1)

/-- The sign in front of a number. -/
def signText (negative : Bool) : String := if negative then "-" else ""

/-- The number with the fewest digits that read back and without an exponent. -/
def BinaryFormat.plain (f : BinaryFormat) : Binary → String
  | .nan => "NaN"
  | .infinite negative => signText negative ++ "inf"
  | .finite negative m q =>
    signText negative ++ (if m = 0 then "0" else (f.shortest m q).positional 0)

/-- The number with the fewest digits that read back: with at least one place behind the point, or
with an exponent if it is at least `10 ^ 16` or less than the least power of ten of the style. -/
def BinaryFormat.general (f : BinaryFormat) (style : ExponentStyle) : Binary → String
  | .nan => "NaN"
  | .infinite negative => signText negative ++ "inf"
  | .finite negative m q =>
    signText negative ++
      (if m = 0 then "0.0"
      else
        let a := Fraction.ofPower m 2 q
        let d := f.shortest m q
        if a.lt (.ofPower 1 10 16) && (Fraction.ofPower 1 10 style.least).le a then d.positional 1
        else d.scientific style.plus)

/-- The text without the zeros at its end, and without the point if nothing follows it. -/
def trimZeros (s : String) : String :=
  if s.toList.contains '.' then
    let cs := s.toList.reverse.dropWhile (· == '0')
    String.ofList ((cs.dropWhile (· == '.')).reverse)
  else s

/-- The number with six significant digits and no zeros at the end, and with an exponent of at least
two digits if it is at least `10 ^ 6` or less than `10 ^ -4` once rounded. -/
def streamText : Binary → String
  | .nan => "nan"
  | .infinite negative => if negative then "-inf" else "inf"
  | .finite negative m q =>
    if m = 0 then "0"
    else
      let d := roundToCount m q 6
      let exponent := d.layout.2 - 1
      signText negative ++
        (if -4 ≤ exponent ∧ exponent < 6 then trimZeros (d.positional 0)
        else
          let mantissa := trimZeros (Decimal.positional ⟨d.digits, -5⟩ 0)
          let e := toString exponent.natAbs
          mantissa ++ "e" ++ (if exponent < 0 then "-" else "+") ++ zeros (2 - e.length) ++ e)

/-- The value of decimal digits. -/
def natOfDigits (cs : List Char) : Nat :=
  cs.foldl (fun n c => 10 * n + (c.toNat - '0'.toNat)) 0

/-- The whole number that digits with an optional sign denote. -/
def readExponent? (cs : List Char) : Option Int :=
  let (negative, cs) :=
    match cs with
    | '-' :: rest => (true, rest)
    | '+' :: rest => (false, rest)
    | rest => (false, rest)
  if cs.isEmpty || cs.any (fun c => !c.isDigit) then none
  else some (if negative then -(natOfDigits cs : Int) else natOfDigits cs)

/-- The number of 64 bits nearest to `digits * 10 ^ exponent`. Exponents far beyond the format are
answered without computing the power. -/
def ofDecimal64 (negative : Bool) (digits : Nat) (exponent : Int) : Binary :=
  let size := exponent + (toString digits).length
  if digits = 0 ∨ size < -400 then .finite negative 0 binary64.minExponent
  else if 400 < size then .infinite negative
  else binary64.round negative (.ofPower digits 10 exponent)

/-- Reads a number of 64 bits: digits with an optional sign, point and exponent, or a name of
infinity or of what is no number. -/
def read64? (s : String) : Option Binary :=
  let (negative, cs) :=
    match s.toList with
    | '-' :: rest => (true, rest)
    | '+' :: rest => (false, rest)
    | rest => (false, rest)
  let name := cs.map Char.toLower
  if name = "inf".toList ∨ name = "infinity".toList then some (.infinite negative)
  else if name = "nan".toList then some .nan
  else
    let whole := cs.takeWhile Char.isDigit
    let rest := cs.dropWhile Char.isDigit
    let (fraction, rest) :=
      match rest with
      | '.' :: rest => (rest.takeWhile Char.isDigit, rest.dropWhile Char.isDigit)
      | rest => ([], rest)
    if whole.isEmpty && fraction.isEmpty then none
    else
      let value (e : Int) := some (ofDecimal64 negative (natOfDigits (whole ++ fraction))
        (e - fraction.length))
      match rest with
      | [] => value 0
      | c :: rest =>
        if c = 'e' ∨ c = 'E' then (readExponent? rest).bind value else none

end CppReflect.Number
