import DataCube.Text.CaseData

/-!
# Lower case

The lower case of a text over all of Unicode. Every character is mapped on its own with two
exceptions: a capital sigma becomes a final sigma at the end of a word, and a dotted capital I
becomes two characters. `foldCase` is the plain ASCII rule that names are compared by.
-/

namespace DataCube

/-- The text with its ASCII capitals in lower case; texts that differ only there are equal under it.
-/
def foldCase (s : String) : String := String.ofList (s.toList.map Char.toLower)

namespace Lowercase

/-- The code point lies in one of the closed ranges. -/
def inRanges (ranges : List (Nat × Nat)) (c : Char) : Bool :=
  ranges.any fun r => r.1 ≤ c.toNat && c.toNat ≤ r.2

/-- The character has case and is not transparent to it. -/
def isCased (c : Char) : Bool := inRanges CaseData.casedRanges c

/-- The character is skipped when the ends of words are looked for. -/
def isTransparent (c : Char) : Bool := inRanges CaseData.transparentRanges c

/-- The lower case of a character for which it is a single one. -/
def single (c : Char) : Char :=
  if c.toNat < 128 then c.toLower
  else
    match CaseData.lowercaseRanges.find? fun r =>
      r.first ≤ c.toNat && c.toNat ≤ r.last && (c.toNat - r.first) % r.step = 0 with
    | some r => Char.ofNat ((c.toNat : Int) + r.offset).toNat
    | none => c

/-- After transparent characters comes one with case. -/
def meetsCased (cs : List Char) : Bool :=
  ((cs.dropWhile isTransparent).head?.map isCased).getD false

/-- The capital sigma. -/
def capitalSigma : Char := Char.ofNat 0x3A3

/-- The lower case of a capital sigma: final if a letter precedes it and none follows. -/
def sigma (before after : List Char) : Char :=
  if meetsCased before && ¬ meetsCased after then Char.ofNat 0x3C2 else Char.ofNat 0x3C3

/-- The lower case of the rest of a text; `before` holds the characters before it, last one first.
-/
def rest (before : List Char) : List Char → List Char
  | [] => []
  | c :: after =>
    let lower :=
      if c = capitalSigma then [sigma before after]
      else if c.toNat = 0x130 then [Char.ofNat 0x69, Char.ofNat 0x307]
      else [single c]
    lower ++ rest (c :: before) after

end Lowercase

/-- The lower case of a text. -/
def lowercase (s : String) : String := String.ofList (Lowercase.rest [] s.toList)

end DataCube
