import DataCube.Text.Lowercase

/-!
# Names

The quoting rule. A name in single quotes refers to exactly what stands between them; any other name
refers to every name that differs from it in ASCII letter case only.

* `NamePattern.ofName` reads a name as a pattern and `NamePattern.accepts` matches it.
* `normalizeName` is the form in which a new name is stored: the inside of the quotes, or else the
  whole name in lower case.
-/

namespace DataCube

/-- What a name refers to. -/
inductive NamePattern where
  | exact (name : String)
  | ignoringCase (name : String)
deriving DecidableEq

namespace NamePattern

/-- The single quote. -/
def quote : Char := Char.ofNat 39

/-- What stands between the quotes of a quoted name, which holds no line feed. -/
def unquote? (name : String) : Option String :=
  match name.toList with
  | [] => none
  | first :: rest =>
    if first = quote && rest.getLast? = some quote && ¬ rest.contains '\n' then
      some (String.ofList rest.dropLast)
    else none

/-- Reads a name under the quoting rule. -/
def ofName (name : String) : NamePattern :=
  match unquote? name with
  | some inner => exact inner
  | none => ignoringCase name

/-- The name a pattern holds. -/
def name : NamePattern → String
  | exact n => n
  | ignoringCase n => n

/-- The pattern refers to the stored name. -/
def accepts : NamePattern → String → Bool
  | exact n, stored => n = stored
  | ignoringCase n, stored => foldCase n = foldCase stored

end NamePattern

/-- The form in which a new name is stored. -/
def normalizeName (name : String) : String :=
  match NamePattern.ofName name with
  | .exact inner => inner
  | .ignoringCase plain => lowercase plain

/-- The first thing a pattern refers to, where an unquoted name prefers its exact spelling. -/
def NamePattern.find? {α : Type} (nameOf : α → String) (xs : List α) : NamePattern → Option α
  | .exact n => xs.find? fun x => nameOf x = n
  | .ignoringCase n =>
    (xs.find? fun x => nameOf x = n).or
      (xs.find? fun x => (NamePattern.ignoringCase n).accepts (nameOf x))

end DataCube
