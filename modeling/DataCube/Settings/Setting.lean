import DataCube.Bindings
import DataCube.Number.Integer
import DataCube.Number.Text
import DataCube.Settings.Text

/-!
# Setting values

What a setting is given as: a plain value, or an array or a table of such values.

* A `SettingPath` is a way into a value, by names of tables and indices of arrays;
  `SettingPath.ofName` reads a name such as `a.b[0]` as one.
* `Setting.update` changes what stands at the end of a path and makes the tables and arrays on the
  way.
* `Setting.merge` lays one value over another, and `Setting.layer` the named values of a source over
  everything given so far.
-/

namespace DataCube

/-- What a setting is given as. -/
inductive Setting where
  /-- A place in an array that no value was given for. -/
  | absent
  | text (s : String)
  | integer (i : Int)
  | float (x : Binary64)
  | boolean (b : Bool)
  | array (items : List Setting)
  | table (entries : Bindings Setting)

/-- A step into a table or an array. A negative index counts from the end. -/
inductive SettingStep where
  | name (n : String)
  | index (i : Int)
deriving DecidableEq

/-- A way into a value. -/
abbrev SettingPath := List SettingStep

namespace SettingPath

open SettingsText

/-- Reads the integer between the brackets of an index. -/
def readIndex? (cs : List Char) : Option (Int × List Char) :=
  let (negative, digits) :=
    match cs with
    | '-' :: cs => (true, cs)
    | cs => (false, cs)
  let (digits, rest) := spanDigits digits
  let i : Int := if negative then -(natOfDigits digits : Int) else natOfDigits digits
  if digits.isEmpty || ! fitsInt64 i then none else some (i, rest)

/-- Reads steps: names after a point, and indices in brackets. The fuel is the number of characters.
-/
def readSteps? : Nat → List Char → Option SettingPath
  | _, [] => some []
  | 0, _ => none
  | fuel + 1, '.' :: cs =>
    let name := cs.takeWhile isNameChar
    if name.isEmpty then none
    else (readSteps? fuel (cs.drop name.length)).map (.name (String.ofList name) :: ·)
  | fuel + 1, '[' :: cs =>
    (readIndex? (skipBlanks cs)).bind fun r =>
      match skipBlanks r.2 with
      | ']' :: rest => (readSteps? fuel rest).map (.index r.1 :: ·)
      | _ => none
  | _, _ => none

/-- The path that a name stands for. A name that cannot be read as a path is a single step. -/
def ofName (name : String) : SettingPath :=
  let cs := '.' :: name.toList
  (readSteps? cs.length cs).getD [.name name]

end SettingPath

namespace Setting

/-- The values of a table; anything else has none. -/
def entries : Setting → Bindings Setting
  | table es => es
  | _ => .empty

/-- The value of a name. -/
def get? (s : Setting) (name : String) : Option Setting := s.entries.get? name

/-- The values of an array; anything else has none. -/
def items : Setting → List Setting
  | array xs => xs
  | _ => []

/-- Changes the value at an index of an array, which grows to have one. -/
def updateAt (f : Setting → Setting) (i : Int) (xs : List Setting) : List Setting :=
  if 0 ≤ i then
    (xs ++ List.replicate (i.toNat + 1 - xs.length) absent).modify i.toNat f
  else
    let fromEnd := (-i).toNat
    (List.replicate (fromEnd - xs.length) absent ++ xs).modify (xs.length - fromEnd) f

/-- Changes the value at the end of a path. What a step cannot go into gives way to a table or
array. -/
def update (f : Setting → Setting) : SettingPath → Setting → Setting
  | [], s => f s
  | .name n :: path, s =>
    table (s.entries.insert n (update f path ((s.entries.get? n).getD absent)))
  | .index i :: path, s => array (updateAt (update f path) i s.items)

/-- Changing what stands below a name changes no other name. -/
theorem get?_update (f : Setting → Setting) (name other : String) (path : SettingPath)
    (s : Setting) :
    (update f (.name name :: path) s).get? other =
      if name = other then some (update f path ((s.get? name).getD absent)) else s.get? other :=
  s.entries.get?_insert name other _

mutual

/-- Lays a value over another one. A table is laid over it name by name, anything else takes its
place. -/
def merge : Setting → Setting → Setting
  | table ⟨es⟩, s =>
    mergeEntries es (match s with
      | absent => table .empty
      | s => s)
  | v, _ => v

/-- Lays named values over another value. -/
def mergeEntries : List (String × Setting) → Setting → Setting
  | [], s => s
  | (name, v) :: rest, s => mergeEntries rest (update (merge v) [.name name] s)

end

/-- Lays the named values of a source over what is given so far; their names stand for paths. -/
def layer (source : Bindings Setting) (s : Setting) : Setting :=
  source.entries.foldl (fun s e => update (merge e.2) (.ofName e.1) s) s

end Setting

end DataCube
