import DataCube.Settings.Quoted
import DataCube.Settings.Table
import DataCube.Settings.Word

/-!
# Settings documents

Settings are written in TOML 1.1: `key = value` entries, headers of tables and of lists of tables,
and comments. Keys are bare or quoted and may be dotted; values are strings, words, arrays and
tables within a line.

* `SettingsText.value?` reads a value, nested at most so deep.
* `SettingsPart` is a header or an entry; `SettingsDocument.parts?` reads a text into its parts, and
  `SettingsDocument.read?` puts these together.
-/

namespace DataCube

/-- A part of a settings document. A key or header is a path to a table and a name in it. -/
inductive SettingsPart where
  | entry (path : List String) (name : String) (value : Setting)
  /-- A header `[path.name]`. -/
  | table (path : List String) (name : String)
  /-- A header `[[path.name]]`. -/
  | element (path : List String) (name : String)

namespace SettingsText

/-! ## Keys -/

/-- Reads a bare or quoted name. -/
def name? (cs : List Char) : Option (String × List Char) :=
  let bare := cs.takeWhile isNameChar
  if bare.isEmpty then string? cs else some (String.ofList bare, cs.drop bare.length)

/-- Reads a dotted key: a path and the name at its end. The fuel is more than the number of
characters. -/
def key? : Nat → List Char → Option ((List String × String) × List Char)
  | 0, _ => none
  | fuel + 1, cs =>
    (name? (skipBlanks cs)).bind fun r =>
      match skipBlanks r.2 with
      | '.' :: rest => (key? fuel rest).map fun k => ((r.1 :: k.1.1, k.1.2), k.2)
      | rest => some (([], r.1), rest)

/-! ## Values -/

/-- Reads things up to the closing character, each with a comma behind it, which the last one may
lack. Layout may stand everywhere between. The fuel is more than the number of characters. -/
def series? {α : Type} (read? : List Char → Option (α × List Char)) (close : Char) :
    Nat → List Char → Option (List α × List Char)
  | 0, _ => none
  | fuel + 1, cs =>
    match skipLayout false cs with
    | [] => none
    | c :: cs =>
      if c = close then some ([], cs)
      else
        (read? (c :: cs)).bind fun x =>
          match skipLayout false x.2 with
          | [] => none
          | c :: cs =>
            if c = close then some ([x.1], cs)
            else if c = ',' then (series? read? close fuel cs).map fun r => (x.1 :: r.1, r.2)
            else none

/-- Reads a key and its value. -/
def keyValue? (value? : List Char → Option (Setting × List Char)) (cs : List Char) :
    Option ((List String × String × Setting) × List Char) := do
  let ((path, name), cs) ← key? (cs.length + 1) cs
  let (value, cs) ← value? (skipBlanks (← after? '=' cs))
  pure ((path, name, value), cs)

/-- The table of entries. -/
def tableOf? (entries : List (List String × String × Setting)) : Option Setting :=
  (entries.foldlM (fun t e => Growing.addValue? t e.1 e.2.1 e.2.2) (.empty .header)).map
    Growing.setting

/-- Reads a string or a word. -/
def plain? (cs : List Char) : Option (Setting × List Char) :=
  match cs with
  | [] => none
  | c :: _ =>
    if c = doubleQuote || c = singleQuote then
      (if cs.take 3 = [c, c, c] then multilineString? cs else string? cs).map fun r =>
        (.text r.1, r.2)
    else word? cs

/-- Reads a value that is nested at most so deep. -/
def value? : (depth : Nat) → List Char → Option (Setting × List Char)
  | 0, cs => plain? cs
  | _, [] => none
  | depth + 1, c :: cs =>
    let fuel := cs.length + 1
    if c = '[' then (series? (value? depth) ']' fuel cs).map fun r => (.array r.1, r.2)
    else if c = openBrace then
      (series? (keyValue? (value? depth)) closeBrace fuel cs).bind fun r =>
        (tableOf? r.1).map fun t => (t, r.2)
    else plain? (c :: cs)

/-- How deep values may be nested. -/
def maxDepth : Nat := 80

/-! ## Parts -/

/-- Reads a header or an entry. -/
def part? : List Char → Option (SettingsPart × List Char)
  | '[' :: '[' :: cs => do
    let ((path, name), cs) ← key? (cs.length + 1) cs
    pure (.element path name, ← after? ']' (← after? ']' cs))
  | '[' :: cs => do
    let ((path, name), cs) ← key? (cs.length + 1) cs
    pure (.table path name, ← after? ']' cs)
  | cs => (keyValue? (value? maxDepth) cs).map fun r => (.entry r.1.1 r.1.2.1 r.1.2.2, r.2)

/-- Reads all parts, each on lines of its own. The fuel is more than the number of characters. -/
def parts? : Nat → List Char → Option (List SettingsPart)
  | 0, _ => none
  | fuel + 1, cs =>
    match skipLayout false cs with
    | [] => some []
    | cs =>
      (part? cs).bind fun p =>
        if atLineEnd p.2 then (parts? fuel p.2).map (p.1 :: ·) else none

/-- The text without a byte order mark at its start. -/
def skipMark (cs : List Char) : List Char :=
  match cs with
  | [] => []
  | c :: rest => if c.toNat = 0xFEFF then rest else cs

end SettingsText

/-- A document that is being read: its outermost table, and the path to the table that entries go
into. -/
structure SettingsDraft where
  root : Growing
  current : List String

namespace SettingsDraft

/-- Nothing is read yet. -/
def empty : SettingsDraft := ⟨.empty .header, []⟩

/-- Adds the next part. -/
def add? (d : SettingsDraft) : SettingsPart → Option SettingsDraft
  | .entry path name v =>
    (d.root.descend? false (fun t => t.addValue? path name v) d.current).map fun root =>
      { d with root }
  | .table path name => (d.root.openTable? path name).map fun root => ⟨root, path ++ [name]⟩
  | .element path name => (d.root.openElement? path name).map fun root => ⟨root, path ++ [name]⟩

end SettingsDraft

/-- Reads a settings document into the values of its names. -/
def readSettings? (text : String) : Option (Bindings Setting) :=
  let cs := SettingsText.skipMark text.toList
  (SettingsText.parts? (cs.length + 1) cs).bind fun parts =>
    (parts.foldlM SettingsDraft.add? .empty).map fun d => d.root.setting.entries

end DataCube
