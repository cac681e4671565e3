import DataCube.Number.Text
import DataCube.Settings.Text

/-!
# Dates and times

Dates, times of the day, and both together with or without an offset from universal time, as
settings documents write them. The seconds may be left out, the date and the time of one moment are
separated by a `T` or a space, and of a fraction of a second nine digits count.
-/

namespace DataCube

/-- A day of the calendar. -/
structure Date where
  year : Nat
  month : Nat
  day : Nat
deriving DecidableEq

/-- A time of the day. -/
structure DayTime where
  hour : Nat
  minute : Nat
  second : Option Nat
  nanosecond : Option Nat
deriving DecidableEq

/-- How far a local time is ahead of universal time. -/
inductive TimeOffset where
  | universal
  | ahead (minutes : Int)
deriving DecidableEq

/-- A date, a time of the day, or both. -/
inductive DateTime where
  | date (d : Date)
  | time (t : DayTime)
  | moment (d : Date) (t : DayTime) (offset : Option TimeOffset)
deriving DecidableEq

namespace SettingsText

/-- Reads a number of exactly so many digits. -/
def digits? (width : Nat) (cs : List Char) : Option (Nat × List Char) :=
  let digits := cs.take width
  if digits.length = width && digits.all Char.isDigit then
    some (natOfDigits digits, cs.drop width)
  else none

/-- Reads two numbers of two digits with a colon between them. -/
def clock? (cs : List Char) : Option ((Nat × Nat) × List Char) := do
  let (a, cs) ← digits? 2 cs
  let (b, cs) ← digits? 2 (← after? ':' cs)
  pure ((a, b), cs)

/-- The number in decimal digits, with zeros in front up to a width. -/
def padded (width n : Nat) : List Char :=
  let digits := n.repr.toList
  List.replicate (width - digits.length) '0' ++ digits

end SettingsText

open SettingsText

namespace Date

/-- The year has a 29th of February. -/
def isLeap (year : Nat) : Bool := year % 4 = 0 && (year % 100 ≠ 0 || year % 400 = 0)

/-- The number of days of a month. -/
def daysIn (year month : Nat) : Nat :=
  if month = 2 then if isLeap year then 29 else 28
  else if [4, 6, 9, 11].contains month then 30
  else 31

/-- The day is in the calendar. -/
def isValid (d : Date) : Bool :=
  1 ≤ d.month && d.month ≤ 12 && 1 ≤ d.day && d.day ≤ daysIn d.year d.month

/-- Reads a date. -/
def read? (cs : List Char) : Option (Date × List Char) := do
  let (year, cs) ← digits? 4 cs
  let (month, cs) ← digits? 2 (← after? '-' cs)
  let (day, cs) ← digits? 2 (← after? '-' cs)
  let d : Date := ⟨year, month, day⟩
  if d.isValid then some (d, cs) else none

/-- How a date is written. -/
def text (d : Date) : List Char :=
  padded 4 d.year ++ '-' :: padded 2 d.month ++ '-' :: padded 2 d.day

end Date

namespace DayTime

/-- The time is one of the day; a minute may have a leap second. -/
def isValid (t : DayTime) : Bool := t.hour ≤ 23 && t.minute ≤ 59 && t.second.getD 0 ≤ 60

/-- The nanoseconds that the digits of a fraction count. -/
def nanoseconds (digits : List Char) : Nat :=
  natOfDigits ((digits ++ List.replicate 9 '0').take 9)

/-- Reads the fraction of a second, if there is one. -/
def readFraction? : List Char → Option (Option Nat × List Char)
  | '.' :: cs =>
    let (digits, rest) := spanDigits cs
    if digits.isEmpty then none else some (some (nanoseconds digits), rest)
  | cs => some (none, cs)

/-- Reads the seconds and their fraction, if they are there. -/
def readSeconds? : List Char → Option ((Option Nat × Option Nat) × List Char)
  | ':' :: cs => do
    let (second, cs) ← digits? 2 cs
    let (nanosecond, cs) ← readFraction? cs
    pure ((some second, nanosecond), cs)
  | cs => some ((none, none), cs)

/-- Reads a time of the day. -/
def read? (cs : List Char) : Option (DayTime × List Char) := do
  let ((hour, minute), cs) ← clock? cs
  let ((second, nanosecond), cs) ← readSeconds? cs
  let t : DayTime := ⟨hour, minute, second, nanosecond⟩
  if t.isValid then some (t, cs) else none

/-- How a fraction of a second is written: without zeros at its end, unless it is zero. -/
def fractionText (nanosecond : Nat) : List Char :=
  let digits := ((padded 9 nanosecond).reverse.dropWhile (· = '0')).reverse
  '.' :: if digits.isEmpty then ['0'] else digits

/-- How a time of the day is written. -/
def text (t : DayTime) : List Char :=
  let second := (t.second.map fun s => ':' :: padded 2 s).getD []
  let fraction := (t.nanosecond.map fractionText).getD []
  padded 2 t.hour ++ ':' :: padded 2 t.minute ++ second ++ fraction

end DayTime

namespace TimeOffset

/-- Reads hours and minutes ahead of universal time, or behind it. -/
def readMinutes? (sign : Int) (cs : List Char) : Option (TimeOffset × List Char) := do
  let ((hours, minutes), cs) ← clock? cs
  if hours ≤ 23 && minutes ≤ 59 then
    some (.ahead (sign * (60 * hours + minutes : Nat)), cs)
  else none

/-- Reads an offset. -/
def read? : List Char → Option (TimeOffset × List Char)
  | '+' :: cs => readMinutes? 1 cs
  | '-' :: cs => readMinutes? (-1) cs
  | c :: cs => if c = 'Z' || c = 'z' then some (universal, cs) else none
  | [] => none

/-- How an offset is written. -/
def text : TimeOffset → List Char
  | universal => ['Z']
  | ahead m =>
    let n := m.natAbs
    (if m < 0 then '-' else '+') :: padded 2 (n / 60) ++ ':' :: padded 2 (n % 60)

end TimeOffset

namespace DateTime

/-- What is read is all of the text. -/
def whole? {α : Type} (r : α × List Char) : Option α := if r.2.isEmpty then some r.1 else none

/-- Reads what follows the date of a moment. -/
def readMoment? (d : Date) (cs : List Char) : Option DateTime := do
  let (t, cs) ← DayTime.read? cs
  if cs.isEmpty then pure (.moment d t none)
  else
    let offset ← (TimeOffset.read? cs).bind whole?
    pure (.moment d t (some offset))

/-- Reads a date, a time or both, from all of a text. -/
def read? (cs : List Char) : Option DateTime :=
  match Date.read? cs with
  | none => ((DayTime.read? cs).bind whole?).map .time
  | some (d, []) => some (.date d)
  | some (d, separator :: cs) =>
    if separator = 'T' || separator = 't' || separator = ' ' then readMoment? d cs else none

/-- How a date, a time or both are written. -/
def text (x : DateTime) : String :=
  String.ofList <|
    match x with
    | date d => d.text
    | time t => t.text
    | moment d t offset => d.text ++ 'T' :: t.text ++ (offset.map TimeOffset.text).getD []

end DateTime

end DataCube
