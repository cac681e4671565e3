import DataCube.Settings.Setting

/-!
# Tables under construction

While a settings document is read, its tables grow: by entries under dotted keys, by headers `[a.b]`
and by headers `[[a.b]]` of lists of tables. No table may be given twice, and which ways of adding
to a table are still open depends on how it came about, its `Origin`.

* `Growing` is a table, and `Node` what stands in one.
* `Growing.descend?` changes the table at the end of a path; `Growing.addValue?`,
  `Growing.openTable?` and `Growing.openElement?` are what entries and the two kinds of headers do.
* `Growing.setting` is the table as a value.
-/

namespace DataCube

/-- How a table came about. -/
inductive Origin where
  /-- By a header of its own, or as the outermost table. -/
  | header
  /-- On the way to a table with a header. -/
  | passed
  /-- By a dotted key. -/
  | dotted
deriving DecidableEq

/-- A table with things in it. -/
structure TableOf (α : Type) where
  origin : Origin
  entries : Bindings α

/-- What stands in a table. -/
inductive Node where
  /-- A value that nothing can be added to. -/
  | value (v : Setting)
  | table (t : TableOf Node)
  /-- A list of tables, in which the last one can grow. -/
  | tables (earlier : List (TableOf Node)) (last : TableOf Node)

/-- A table that a document is being read into. -/
abbrev Growing := TableOf Node

namespace Growing

/-- The table without entries. -/
def empty (origin : Origin) : Growing := ⟨origin, .empty⟩

/-- What a name stands for in a table. -/
def get? (t : Growing) (name : String) : Option Node := t.entries.get? name

/-- The table with a name for something. -/
def set (t : Growing) (name : String) (n : Node) : Growing :=
  { t with entries := t.entries.insert name n }

/-- A name stands for what was set for it last, and setting it changes no other name. -/
theorem get?_set (t : Growing) (name other : String) (n : Node) :
    (t.set name n).get? other = if name = other then some n else t.get? other :=
  t.entries.get?_insert name other n

/-- Changes the table at the end of a path, which starts at a table; the tables on the way are made
where there are none. The path is that of a dotted key (`isDotted`) or of a header; a dotted key may
not go through a table that has a header of its own. -/
def descend? (isDotted : Bool) (f : Growing → Option Growing) :
    List String → Growing → Option Growing
  | [], t => f t
  | name :: path, t =>
    match t.get? name with
    | none =>
      (descend? isDotted f path (empty (if isDotted then .dotted else .passed))).map fun c =>
        t.set name (.table c)
    | some (.table c) =>
      if isDotted && c.origin = .header then none
      else (descend? isDotted f path c).map fun c => t.set name (.table c)
    | some (.tables earlier last) =>
      (descend? isDotted f path last).map fun c => t.set name (.tables earlier c)
    | some (.value _) => none

/-- Adds an entry whose key is a path to a table and a name that is new there. Entries of dotted
keys go into tables that came about by dotted keys. -/
def addValue? (t : Growing) (path : List String) (name : String) (v : Setting) : Option Growing :=
  let isDotted := ! path.isEmpty
  t.descend? isDotted (fun parent =>
    if isDotted && parent.origin ≠ .dotted then none
    else if (parent.get? name).isSome then none
    else some (parent.set name (.value v))) path

/-- An entry of a plain key can be read back. -/
theorem get?_of_addValue? {t u : Growing} {name : String} {v : Setting}
    (h : t.addValue? [] name v = some u) : u.get? name = some (.value v) := by
  simp only [addValue?, descend?] at h
  split at h
  · simp at h
  · split at h
    · simp at h
    · obtain rfl := Option.some.inj h
      simp [get?_set]

/-- A plain key is given once only. -/
theorem addValue?_of_isSome {t : Growing} {name : String} (v : Setting)
    (h : (t.get? name).isSome) : t.addValue? [] name v = none := by
  simp [addValue?, descend?, h]

/-- Opens the table of a header; it may have been passed before, but not given. -/
def openTable? (t : Growing) (path : List String) (name : String) : Option Growing :=
  t.descend? false (fun parent =>
    match parent.get? name with
    | none => some (parent.set name (.table (empty .header)))
    | some (.table c) =>
      if c.origin = .passed then some (parent.set name (.table { c with origin := .header }))
      else none
    | _ => none) path

/-- Opens one more table of the list of a header. -/
def openElement? (t : Growing) (path : List String) (name : String) : Option Growing :=
  t.descend? false (fun parent =>
    match parent.get? name with
    | none => some (parent.set name (.tables [] (empty .header)))
    | some (.tables earlier last) =>
      some (parent.set name (.tables (earlier ++ [last]) (empty .header)))
    | _ => none) path

end Growing

mutual

/-- What stands in a table, as a value. -/
def Node.setting : Node → Setting
  | .value v => v
  | .table t => Growing.setting t
  | .tables earlier last => .array (Growing.settingList earlier ++ [Growing.setting last])

/-- A table as a value. -/
def Growing.setting : Growing → Setting
  | ⟨_, ⟨entries⟩⟩ => .table ⟨Node.settingEntries entries⟩

/-- Tables as values. -/
def Growing.settingList : List Growing → List Setting
  | [] => []
  | t :: ts => Growing.setting t :: Growing.settingList ts

/-- Named things of a table as values. -/
def Node.settingEntries : List (String × Node) → List (String × Setting)
  | [] => []
  | (name, n) :: rest => (name, n.setting) :: Node.settingEntries rest

end

end DataCube
