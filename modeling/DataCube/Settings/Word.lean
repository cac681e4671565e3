import DataCube.Settings.DateTime
import DataCube.Settings.Setting

/-!
# Words

The plain values of settings documents that stand without quotes: truth values, integers in four
bases, floats, and dates and times, which are settings as texts.
-/

namespace DataCube.SettingsText

/-! ## Digits -/

/-- Splits a text at every separator. -/
def splitAt (separator : Char) (cs : List Char) : List (List Char) :=
  cs.foldr (fun c parts =>
    if c = separator then [] :: parts
    else
      match parts with
      | [] => [[c]]
      | p :: rest => (c :: p) :: rest) [[]]

/-- The digits of a base that single underscores may stand between. -/
def spacedDigits? (base : Nat) (cs : List Char) : Option (List Char) :=
  let parts := splitAt '_' cs
  if parts.all fun p => ! p.isEmpty && p.all fun c => (digitValue? base c).isSome then
    some parts.flatten
  else none

/-- Decimal digits that start with a zero only if they are nothing else. -/
def wholeDigits? (cs : List Char) : Option (List Char) :=
  (spacedDigits? 10 cs).bind fun ds =>
    if ds.head? = some '0' && ds.length > 1 then none else some ds

/-! ## Numbers -/

/-- An integer: decimal with a sign, or in another base behind its mark. -/
def integer? : List Char → Option Int
  | '0' :: 'x' :: cs => (spacedDigits? 16 cs).bind fun ds => (natOf? 16 ds).map Int.ofNat
  | '0' :: 'o' :: cs => (spacedDigits? 8 cs).bind fun ds => (natOf? 8 ds).map Int.ofNat
  | '0' :: 'b' :: cs => (spacedDigits? 2 cs).bind fun ds => (natOf? 2 ds).map Int.ofNat
  | cs =>
    let (negative, cs) := takeSign cs
    (wholeDigits? cs).map fun ds =>
      if negative then -(natOfDigits ds : Int) else (natOfDigits ds : Int)

/-- The mark of an exponent. -/
def isExponentMark (c : Char) : Bool := c = 'e' || c = 'E'

/-- The text is an exponent behind its mark. -/
def isExponent (cs : List Char) : Bool := (spacedDigits? 10 (takeSign cs).2).isSome

/-- The text is the fraction of a float, its exponent, or one behind the other. -/
def isFloatTail : List Char → Bool
  | [] => false
  | '.' :: cs =>
    let fraction := cs.takeWhile fun c => ! isExponentMark c
    (spacedDigits? 10 fraction).isSome &&
      (match cs.drop fraction.length with
        | [] => true
        | _ :: exponent => isExponent exponent)
  | c :: exponent => isExponentMark c && isExponent exponent

/-- A float: a word for an infinity or NaN, or decimal digits with a fraction, an exponent, or both.
Digits that are too large for a float are none. -/
def float? (cs : List Char) : Option Binary64 :=
  let (_, unsigned) := takeSign cs
  let whole := unsigned.takeWhile fun c => c.isDigit || c = '_'
  if unsigned = "inf".toList || unsigned = "nan".toList then Binary64.read? (String.ofList cs)
  else if (wholeDigits? whole).isSome && isFloatTail (unsigned.drop whole.length) then
    (Binary64.read? (String.ofList (cs.filter (· ≠ '_')))).filter Binary64.isFinite
  else none

/-! ## Words -/

/-- A value that is a single word. An integer has 64 bits. -/
def wordValue? (cs : List Char) : Option Setting :=
  if cs = "true".toList then some (.boolean true)
  else if cs = "false".toList then some (.boolean false)
  else
    match integer? cs with
    | some i => if fitsInt64 i then some (.integer i) else none
    | none =>
      match float? cs with
      | some x => some (.float x)
      | none => (DateTime.read? cs).map fun x => .text x.text

/-- The character ends a word. -/
def endsWord (c : Char) : Bool :=
  isBlank c || isControl c || [',', '=', '[', ']', '#', openBrace, closeBrace].contains c

/-- Splits a text behind its first word. -/
def spanWord (cs : List Char) : List Char × List Char :=
  (cs.takeWhile fun c => ! endsWord c, cs.dropWhile fun c => ! endsWord c)

/-- Reads a word. A date and a time with a space between them are one word. -/
def word? (cs : List Char) : Option (Setting × List Char) :=
  let (word, rest) := spanWord cs
  let plain := (wordValue? word).map fun v => (v, rest)
  match rest with
  | ' ' :: cs =>
    let (time, after) := spanWord cs
    match DateTime.read? (word ++ ' ' :: time) with
    | some x => some (.text x.text, after)
    | none => plain
  | _ => plain

end DataCube.SettingsText
