/-!
# Double precision numbers

A `Binary64` is the 64-bit pattern of a double. Its exact value, rounding to it and the two orders
on it are stated in integers: a finite double is `scaled / unitsPerOne`, where the unit is the least
positive double, so no statement about values needs rationals.

* Parts: sign, magnitude bits, significand and shift, and the exact value `scaled`.
* Rounding: `nearestMagnitude` takes a ratio of natural numbers to the nearest magnitude, ties to
  the even one; integers and decimals become doubles through it.
* Order: `compareValues` orders by value with NaN last, `totalKey` orders the bit patterns.
* Arithmetic: the exact result, rounded once; a NaN operand is handed on, the left one first, and a
  NaN that an operation makes has its sign set.
-/

namespace DataCube

/-- A double precision number, given by its bits. -/
structure Binary64 where
  bits : UInt64
deriving DecidableEq

namespace Binary64

/-! ## Parts -/

/-- The magnitude bits of an infinity; larger magnitudes are NaN. -/
def infiniteMagnitude : Nat := 0x7FF0000000000000

/-- The sign bit; the magnitudes are the numbers below it. -/
def signBit : Nat := 0x8000000000000000

/-- The leading bit of the significand of a normal number, which the pattern leaves out. -/
def hiddenBit : Nat := 0x10000000000000

/-- All bits but the sign. -/
def magnitude (x : Binary64) : Nat := (x.bits % 0x8000000000000000).toNat

/-- The sign bit is set. -/
def isNegative (x : Binary64) : Bool := 0x8000000000000000 ≤ x.bits

/-- The double with the given sign and magnitude bits. -/
def ofParts (negative : Bool) (magnitude : Nat) : Binary64 :=
  ⟨UInt64.ofNat (if negative then magnitude + signBit else magnitude)⟩

theorem magnitude_lt (x : Binary64) : x.magnitude < signBit := by
  have h : x.magnitude = x.bits.toNat % signBit := rfl
  rw [h]
  exact Nat.mod_lt _ (by decide)

theorem magnitude_ofParts {m : Nat} (negative : Bool) (h : m < signBit) :
    (ofParts negative m).magnitude = m := by
  unfold signBit at h
  cases negative <;> simp [ofParts, magnitude, signBit] <;> omega

theorem isNegative_ofParts {m : Nat} (negative : Bool) (h : m < signBit) :
    (ofParts negative m).isNegative = negative := by
  unfold signBit at h
  cases negative <;> simp [ofParts, isNegative, signBit, UInt64.le_iff_toNat_le] <;> omega

/-- Neither an infinity nor a NaN. -/
def isFinite (x : Binary64) : Bool := x.magnitude < infiniteMagnitude

/-- Not a number, with either sign. -/
def isNaN (x : Binary64) : Bool := infiniteMagnitude < x.magnitude

/-- The integer that carries the leading digits: below twice the hidden bit, and from the hidden bit
on unless the number is subnormal. -/
def significand (x : Binary64) : Nat :=
  if x.magnitude < hiddenBit then x.magnitude else x.magnitude % hiddenBit + hiddenBit

/-- How often the significand is doubled, counted from the unit of the subnormal numbers. -/
def shift (x : Binary64) : Nat := x.magnitude / hiddenBit - 1

/-- The number of units in one: the unit is the least positive double. -/
def unitsPerOne : Nat := 1 <<< 1074

/-- The exact value of a finite double, in units. -/
def scaled (x : Binary64) : Int :=
  if x.isNegative then -((x.significand <<< x.shift : Nat) : Int) else x.significand <<< x.shift

/-- Finite, with no fractional part. -/
def isIntegral (x : Binary64) : Bool := x.isFinite && x.scaled % (unitsPerOne : Int) = 0

/-- The integer part of a finite double, toward zero. -/
def truncate (x : Binary64) : Int := x.scaled.tdiv unitsPerOne

/-! ## Constants -/

/-- The positive NaN. -/
def nan : Binary64 := ⟨0x7FF8000000000000⟩

/-- The NaN that an operation on other numbers makes: its sign is set. -/
def madeNaN : Binary64 := ⟨0xFFF8000000000000⟩

/-- The positive infinity. -/
def infinity : Binary64 := ⟨0x7FF0000000000000⟩

instance : Zero Binary64 := ⟨⟨0⟩⟩

instance : One Binary64 := ⟨⟨0x3FF0000000000000⟩⟩

instance : Inhabited Binary64 := ⟨0⟩

/-! ## Rounding -/

/-- The natural number nearest to `num / den`, the even one of two. -/
def roundDiv (num den : Nat) : Nat :=
  if 2 * (num % den) < den then num / den
  else if den < 2 * (num % den) then num / den + 1
  else num / den + num / den % 2

/-- The magnitude bits of the double nearest to `num / den` units: the significand is rounded to 53
bits or to whole units, and a carry out of it moves on to the next exponent by itself. -/
def nearestMagnitude (num den : Nat) : Nat :=
  let shift := (num / den).log2 - 52
  min (shift * hiddenBit + roundDiv num (den <<< shift)) infiniteMagnitude

/-- The double nearest to an integer. -/
def ofInt (i : Int) : Binary64 :=
  ofParts (i < 0) (nearestMagnitude (i.natAbs * unitsPerOne) 1)

/-- The double nearest to a natural number. -/
def ofNat (n : Nat) : Binary64 := ofInt n

/-! ## Order -/

/-- Orders the doubles that are not NaN by value; both zeros have key 0. -/
def key (x : Binary64) : Int := if x.isNegative then -(x.magnitude : Int) else x.magnitude

/-- Orders all bit patterns: by sign, then by magnitude, so `-0` comes before `0` and a NaN stands
at the end its sign points to. -/
def totalKey (x : Binary64) : Int :=
  if x.isNegative then -(x.magnitude : Int) - 1 else x.magnitude

/-- The order of two values, which a NaN has with nothing. -/
def compareValues? (a b : Binary64) : Option Ordering :=
  if a.isNaN || b.isNaN then none else some (compare a.key b.key)

/-- The order of two values with NaN after every other number and equal to itself. -/
def compareValues (a b : Binary64) : Ordering :=
  match a.isNaN, b.isNaN with
  | true, true => .eq
  | true, false => .gt
  | false, true => .lt
  | false, false => compare a.key b.key

/-! ## Arithmetic -/

/-- The double nearest to an exact value in units, with the given sign if it is zero. -/
def ofScaled (negativeZero : Bool) (units : Int) : Binary64 :=
  ofParts (if units = 0 then negativeZero else units < 0) (nearestMagnitude units.natAbs 1)

/-- An operation on two numbers that are not NaN; the first NaN operand is the result. -/
def lift (op : Binary64 → Binary64 → Binary64) (a b : Binary64) : Binary64 :=
  if a.isNaN then a else if b.isNaN then b else op a b

/-- Flips the sign, of a NaN too. -/
instance : Neg Binary64 := ⟨fun x => ⟨x.bits ^^^ 0x8000000000000000⟩⟩

/-- The sum of two numbers. A sum of zero is negative if both summands are. -/
def sum (a b : Binary64) : Binary64 :=
  if a.isFinite then
    if b.isFinite then ofScaled (a.isNegative && b.isNegative) (a.scaled + b.scaled) else b
  else if b.isFinite || a.isNegative = b.isNegative then a
  else madeNaN

/-- The product of two numbers. -/
def product (a b : Binary64) : Binary64 :=
  let negative := a.isNegative ≠ b.isNegative
  if a.isFinite && b.isFinite then
    ofParts negative (nearestMagnitude (a.scaled.natAbs * b.scaled.natAbs) unitsPerOne)
  else if a.magnitude = 0 || b.magnitude = 0 then madeNaN
  else ofParts negative infiniteMagnitude

/-- The quotient of two numbers. -/
def quotient (a b : Binary64) : Binary64 :=
  let negative := a.isNegative ≠ b.isNegative
  if ¬ a.isFinite then if b.isFinite then ofParts negative infiniteMagnitude else madeNaN
  else if ¬ b.isFinite then ofParts negative 0
  else if b.magnitude = 0 then
    if a.magnitude = 0 then madeNaN else ofParts negative infiniteMagnitude
  else ofParts negative (nearestMagnitude (a.scaled.natAbs * unitsPerOne) b.scaled.natAbs)

instance : Add Binary64 := ⟨lift sum⟩

instance : Sub Binary64 := ⟨lift fun a b => sum a (-b)⟩

instance : Mul Binary64 := ⟨lift product⟩

instance : Div Binary64 := ⟨lift quotient⟩

/-- The number a double stands for in the machine. -/
def toFloat (x : Binary64) : Float := Float.ofBits x.bits

/-- The square root. -/
def sqrt (x : Binary64) : Binary64 :=
  if x.isNaN then x
  else
    let root := x.toFloat.sqrt
    if root.isNaN then madeNaN else ⟨root.toBits⟩

end Binary64

end DataCube
