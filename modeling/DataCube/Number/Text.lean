import DataCube.Number.Decimal

/-!
# The text of a number

Numbers are written positionally, never with an exponent: the shortest digits that read back, no
point on integral values, a sign on negative zero, `NaN` without a sign, and `inf` for the
infinities. Reading takes an optional sign, digits with an optional point and an optional exponent,
and the words `inf`, `infinity` and `nan` in any letter case.
-/

namespace DataCube

/-! ## Writing -/

/-- The positional text of a decimal. -/
def Decimal.positional (d : Decimal) : String :=
  let digits := Nat.toDigits 10 d.digits
  let after := (-d.exponent).toNat
  String.ofList <|
    if d.exponent ≥ 0 then digits ++ List.replicate d.exponent.toNat '0'
    else if after < digits.length then
      digits.take (digits.length - after) ++ '.' :: digits.drop (digits.length - after)
    else '0' :: '.' :: List.replicate (after - digits.length) '0' ++ digits

/-- The text of a number. -/
def Binary64.text (x : Binary64) : String :=
  if x.isNaN then "NaN"
  else
    (if x.isNegative then "-" else "") ++
      if ¬ x.isFinite then "inf"
      else if x.magnitude = 0 then "0"
      else x.shortest.positional

/-! ## Reading -/

/-- The digits at the start of a text, and what follows them. -/
def spanDigits (cs : List Char) : List Char × List Char :=
  (cs.takeWhile Char.isDigit, cs.dropWhile Char.isDigit)

/-- The number that a list of decimal digits counts. -/
def natOfDigits (cs : List Char) : Nat := cs.foldl (fun n c => 10 * n + (c.toNat - 48)) 0

/-- A sign at the start of a text (`true` for minus), and what follows it. -/
def takeSign : List Char → Bool × List Char
  | '-' :: cs => (true, cs)
  | '+' :: cs => (false, cs)
  | cs => (false, cs)

/-- The exponent at the end of a numeral: nothing, or `e` or `E` and a signed integer. -/
def readExponent? : List Char → Option Int
  | [] => some 0
  | c :: cs =>
    if c = 'e' || c = 'E' then
      let (negative, rest) := takeSign cs
      let (digits, after) := spanDigits rest
      if digits.isEmpty || ¬ after.isEmpty then none
      else some (if negative then -(natOfDigits digits : Int) else natOfDigits digits)
    else none

/-- Reads an unsigned numeral: at least one digit before or after the point. -/
def Decimal.read? (cs : List Char) : Option Decimal :=
  let (whole, rest) := spanDigits cs
  let (fraction, rest) :=
    match rest with
    | '.' :: rest => spanDigits rest
    | rest => ([], rest)
  if whole.isEmpty && fraction.isEmpty then none
  else (readExponent? rest).map fun exponent =>
    ⟨natOfDigits (whole ++ fraction), exponent - fraction.length⟩

/-- Reads a number. -/
def Binary64.read? (text : String) : Option Binary64 :=
  let (negative, cs) := takeSign text.toList
  let word := cs.map Char.toLower
  if word = "inf".toList || word = "infinity".toList then
    some (ofParts negative infiniteMagnitude)
  else if word = "nan".toList then some (if negative then -nan else nan)
  else (Decimal.read? cs).map (ofDecimal negative)

end DataCube
