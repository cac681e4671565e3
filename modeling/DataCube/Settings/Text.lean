/-!
# The text of settings documents

The characters that a settings document is laid out with. Lines end with a line feed, or with a
carriage return and a line feed; a carriage return anywhere else is a control character like any
other. Readers take a list of characters and return what they read with the characters after it.
-/

namespace DataCube.SettingsText

/-- A space or a tab. -/
def isBlank (c : Char) : Bool := c = ' ' || c = '\t'

/-- A control character other than the tab. -/
def isControl (c : Char) : Bool := (c.toNat < 32 && c ≠ '\t') || c.toNat = 127

/-- A character of a name that needs no quotes. -/
def isNameChar (c : Char) : Bool := c.isAlphanum || c = '_' || c = '-'

/-- The character ends a line, or stands in front of the one that does. -/
def isLineEnd (c : Char) (after : List Char) : Bool :=
  c = '\n' || (c = '\r' && after.head? = some '\n')

/-- The single quote. -/
def singleQuote : Char := Char.ofNat 39

/-- The double quote. -/
def doubleQuote : Char := Char.ofNat 34

/-- The brace that opens a table within a line. -/
def openBrace : Char := Char.ofNat 0x7B

/-- The brace that closes a table within a line. -/
def closeBrace : Char := Char.ofNat 0x7D

/-- The text without blanks at its start. -/
def skipBlanks (cs : List Char) : List Char := cs.dropWhile isBlank

/-- The text without blanks and line ends at its start. -/
def skipLines : List Char → List Char
  | [] => []
  | c :: cs => if isBlank c || isLineEnd c cs then skipLines cs else c :: cs

/-- The text without blanks, line ends and comments at its start, where it may start within a
comment. A comment goes to the end of its line and has no control characters. -/
def skipLayout (inComment : Bool) : List Char → List Char
  | [] => []
  | c :: cs =>
    if isLineEnd c cs then skipLayout false cs
    else if inComment then if isControl c then c :: cs else skipLayout true cs
    else if isBlank c then skipLayout false cs
    else if c = '#' then skipLayout true cs
    else c :: cs

/-- Nothing but a comment is left of a line. -/
def atLineEnd (cs : List Char) : Bool :=
  match skipBlanks cs with
  | [] => true
  | c :: after => c = '#' || isLineEnd c after

/-- What follows a character. -/
def after? (c : Char) : List Char → Option (List Char)
  | [] => none
  | d :: cs => if d = c then some cs else none

/-! ## Digits -/

/-- The value of a digit of any base up to sixteen. -/
def digitValue? (base : Nat) (c : Char) : Option Nat :=
  let n :=
    if c.isDigit then c.toNat - 48
    else if 'a' ≤ c && c ≤ 'f' then c.toNat - 87
    else if 'A' ≤ c && c ≤ 'F' then c.toNat - 55
    else base
  if n < base then some n else none

/-- The number that digits of a base count. -/
def natOf? (base : Nat) (cs : List Char) : Option Nat :=
  cs.foldl (fun n c => n.bind fun n => (digitValue? base c).map fun d => base * n + d) (some 0)

end DataCube.SettingsText
