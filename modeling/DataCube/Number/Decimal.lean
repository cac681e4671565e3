import DataCube.Number.Binary64

/-!
# Decimal numerals of doubles

A decimal is `digits * 10 ^ exponent`. `Binary64.shortest` finds the decimal that stands for a
double: the fewest digits that read back as the same double, of those the nearest, and of two
equally near the larger. `Binary64.ofDecimal` reads a decimal as the nearest double.
-/

namespace DataCube

/-- A natural number of decimal digits and the power of ten they count. -/
structure Decimal where
  digits : Nat
  exponent : Int
deriving DecidableEq

namespace Binary64

/-! ## From doubles -/

/-- The decimals that read back as a given double, in quarters of a unit: those between `low` and
`high`, the ends included if `closed`. -/
structure ReadingInterval where
  value : Nat
  low : Nat
  high : Nat
  closed : Bool

/-- The reading interval of a finite positive double: half a gap to either side, where the gap below
a power of two is half the gap above it. A tie goes to the even significand. -/
def readingInterval (x : Binary64) : ReadingInterval :=
  let gap := 1 <<< x.shift
  let value := 4 * (x.significand * gap)
  let below := if x.significand = hiddenBit && x.shift > 0 then gap else 2 * gap
  { value, low := value - below, high := value + 2 * gap, closed := x.significand % 2 = 0 }

/-- `p` lies in the interval, all of whose bounds are multiplied by `scale`. -/
def ReadingInterval.holds (i : ReadingInterval) (scale p : Nat) : Bool :=
  if i.closed then i.low * scale ≤ p && p ≤ i.high * scale
  else i.low * scale < p && p < i.high * scale

/-- The multiple of `10 ^ exponent` in the interval that is nearest to its value. -/
def ReadingInterval.onGrid? (i : ReadingInterval) (exponent : Int) : Option Nat :=
  let scale := Nat.pow 10 (-exponent).toNat
  let step := 4 * unitsPerOne * Nat.pow 10 exponent.toNat
  let value := i.value * scale
  let down := value / step
  let downHits := i.holds scale (down * step)
  let upHits := i.holds scale ((down + 1) * step)
  if upHits && (!downHits || step ≤ 2 * (value - down * step)) then some (down + 1)
  else if downHits then some down
  else none

/-- The first hit on the grids `10 ^ exponent`, `10 ^ (exponent - 1)`, … -/
def ReadingInterval.firstHit (i : ReadingInterval) : Nat → Int → Decimal
  | 0, exponent => ⟨0, exponent⟩
  | grids + 1, exponent =>
    match i.onGrid? exponent with
    | some digits => ⟨digits, exponent⟩
    | none => i.firstHit grids (exponent - 1)

/-- An exponent of ten at which no positive multiple lies near the finite positive double. -/
def gridAbove (x : Binary64) : Int :=
  (((x.significand.log2 + x.shift : Nat) : Int) - 1073) * 30103 / 100000 + 2

/-- The decimal with the fewest digits that reads back as the finite positive double. Seventeen
digits always suffice, and the search starts at most two places too high. -/
def shortest (x : Binary64) : Decimal := x.readingInterval.firstHit 24 x.gridAbove

/-! ## To doubles -/

/-- Decimals of this many places left of the point are beyond the largest double, and those as far
right of it are nearer to zero than the least one. -/
def decimalReach : Int := 400

/-- The double nearest to a decimal with the given sign. -/
def ofDecimal (negative : Bool) (d : Decimal) : Binary64 :=
  let places : Int := (Nat.toDigits 10 d.digits).length + d.exponent
  ofParts negative <|
    if d.digits = 0 || places < -decimalReach then 0
    else if decimalReach < places then infiniteMagnitude
    else nearestMagnitude (d.digits * Nat.pow 10 d.exponent.toNat * unitsPerOne)
      (Nat.pow 10 (-d.exponent).toNat)

end Binary64

end DataCube
