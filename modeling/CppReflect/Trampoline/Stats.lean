import CppReflect.Number.Text

/-!
# Counting synthesis

How often a trampoline was compiled, found in the cache or not made, and how long the compilations
took.
-/

namespace CppReflect

namespace Trampoline

/-- Counters of synthesis. The times are in microseconds. -/
structure Stats where
  compiled : UInt64 := 0
  cacheHits : UInt64 := 0
  failures : UInt64 := 0
  totalTime : UInt64 := 0
  minTime : UInt64 := 0
  maxTime : UInt64 := 0
deriving DecidableEq, Inhabited, Repr

namespace Stats

/-- The largest number of 64 bits. -/
def maxWord : UInt64 := 0xFFFFFFFFFFFFFFFF

/-- No counter has moved. The least time starts at its largest value, which any time is below. -/
def start : Stats := { minTime := maxWord }

/-- The sum, or the largest number if it does not fit. -/
def saturatingAdd (a b : UInt64) : UInt64 :=
  if a.toNat + b.toNat < UInt64.size then a + b else maxWord

/-- Counts a compilation that took some time. -/
def recordCompilation (s : Stats) (time : UInt64) : Stats :=
  { s with
    compiled := s.compiled + 1
    totalTime := saturatingAdd s.totalTime time
    minTime := min s.minTime time
    maxTime := max s.maxTime time }

/-- Counts a request that the cache answered. -/
def recordHit (s : Stats) : Stats := { s with cacheHits := s.cacheHits + 1 }

/-- Counts a request that no trampoline came of. -/
def recordFailure (s : Stats) : Stats := { s with failures := s.failures + 1 }

/-- The number of 64 bits nearest to a counter, as a fraction. -/
def rounded (n : UInt64) : Number.Fraction :=
  (Number.binary64.nearest? ⟨n.toNat, 1⟩).getD ⟨0, 1⟩

/-- The mean time of a compilation, and zero if there was none: the counters are rounded to numbers
of 64 bits, and so is their quotient. -/
def averageTime (s : Stats) : Number.Binary :=
  if s.compiled = 0 then .finite false 0 Number.binary64.minExponent
  else Number.binary64.round false ((rounded s.totalTime).div (rounded s.compiled))

/-- Mean times of less than `10 ^ -4` are written with an exponent. -/
def averageStyle : Number.ExponentStyle := { least := -4 }

/-- The mean time of a compilation as text. -/
def averageText (s : Stats) : String := Number.binary64.general averageStyle s.averageTime

end Stats

end Trampoline

end CppReflect
