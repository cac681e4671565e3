/-!
# 64-bit integers

Integers are computed exactly and then brought to 64 bits: `exactInt64?` gives up outside the range,
`clampInt64` takes the nearest end of it.
-/

namespace DataCube

/-- The integer has 64 bits. -/
def fitsInt64 (i : Int) : Bool := -0x8000000000000000 ≤ i && i < 0x8000000000000000

/-- The 64-bit integer equal to an integer, if there is one. -/
def exactInt64? (i : Int) : Option Int64 := if fitsInt64 i then some (Int64.ofInt i) else none

/-- The 64-bit integer nearest to an integer. -/
def clampInt64 (i : Int) : Int64 :=
  if i < -0x8000000000000000 then Int64.minValue
  else if i < 0x8000000000000000 then Int64.ofInt i
  else Int64.maxValue

end DataCube
