import DataCube.Settings.Text

/-!
# Quoted strings

Strings in settings documents stand in double quotes, with escapes, or in single quotes, without.
Three quotes instead of one open a string that may go over several lines: a line end right behind
the opening quotes does not count, and up to two quotes may stand directly before the closing ones.
-/

namespace DataCube

/-- How a string is quoted. -/
structure Quoting where
  quote : Char
  /-- The string stands in three quotes and may have line ends. -/
  isMultiline : Bool
deriving DecidableEq

namespace SettingsText

/-- The character that a one-letter escape stands for. -/
def escaped? : Char → Option Char
  | 'b' => some (Char.ofNat 8)
  | 't' => some '\t'
  | 'n' => some '\n'
  | 'f' => some (Char.ofNat 12)
  | 'r' => some '\r'
  | 'e' => some (Char.ofNat 27)
  | '\\' => some '\\'
  | c => if c = doubleQuote then some c else none

/-- The character with a code point that is given in hexadecimal. -/
def codePoint? (cs : List Char) : Option Char :=
  (natOf? 16 cs).bind fun n => if h : n.isValidChar then some (Char.ofNatAux n h) else none

/-- The number of digits behind an escape that gives a code point. -/
def escapeWidth? : Char → Option Nat
  | 'x' => some 2
  | 'u' => some 4
  | 'U' => some 8
  | _ => none

/-- The character that an escape stands for, given what follows the backslash. -/
def escape? : List Char → Option (Char × List Char)
  | [] => none
  | kind :: cs =>
    match escapeWidth? kind with
    | none => (escaped? kind).map fun c => (c, cs)
    | some width =>
      let digits := cs.take width
      if digits.length < width then none
      else (codePoint? digits).map fun c => (c, cs.drop width)

/-- What follows a backslash at the end of a line: the text without the line end and all blanks and
line ends behind it. -/
def continued? (cs : List Char) : Option (List Char) :=
  match skipBlanks cs with
  | [] => none
  | c :: after => if isLineEnd c after then some (skipLines (c :: after)) else none

/-- Reads the characters of a string up to the closing quotes. The fuel is more than the number of
characters. -/
def quoted? (q : Quoting) : Nat → List Char → Option (List Char × List Char)
  | 0, _ => none
  | _, [] => none
  | fuel + 1, c :: cs =>
    let more (read rest : List Char) := (quoted? q fuel rest).map fun r => (read ++ r.1, r.2)
    if c = q.quote then
      if q.isMultiline then
        let quotes := (c :: cs).takeWhile fun d => d = c
        let inside := min (quotes.length - 3) 2
        if quotes.length < 3 then more quotes (cs.drop (quotes.length - 1))
        else some (quotes.take inside, cs.drop (inside + 2))
      else some ([], cs)
    else if c = '\\' && q.quote = doubleQuote then
      match if q.isMultiline then continued? cs else none with
      | some rest => more [] rest
      | none => (escape? cs).bind fun e => more [e.1] e.2
    else if isControl c && ! (q.isMultiline && isLineEnd c cs) then none
    else more [c] cs

/-- The text without a line end at its start. -/
def skipLineEnd : List Char → List Char
  | '\n' :: cs => cs
  | '\r' :: '\n' :: cs => cs
  | cs => cs

/-- Reads a string on one line. -/
def string? : List Char → Option (String × List Char)
  | [] => none
  | c :: cs =>
    if c = doubleQuote || c = singleQuote then
      (quoted? ⟨c, false⟩ (cs.length + 1) cs).map fun r => (String.ofList r.1, r.2)
    else none

/-- Reads a string in three quotes. -/
def multilineString? : List Char → Option (String × List Char)
  | a :: b :: c :: cs =>
    if (a = doubleQuote || a = singleQuote) && b = a && c = a then
      (quoted? ⟨a, true⟩ (cs.length + 1) (skipLineEnd cs)).map fun r => (String.ofList r.1, r.2)
    else none
  | _ => none

end SettingsText

end DataCube
