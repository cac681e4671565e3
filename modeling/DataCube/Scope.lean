import DataCube.Shape
import DataCube.Workspace

/-!
# Scopes

A scope says what a name stands for. At the root there are bound values, or only the shapes of
values, and the rules of a workspace. Inside a row only its components and `this` are visible,
inside a bracket the dataset as `this`, its components, and everything outside. Rules are always
those of the root, and are evaluated there.

* `Scope.describe` finds the shape that a name stands for, `Scope.resolve` its value; either answer
  can also be a rule.
* `Scope.shapeEntry` and `Scope.valueEntry` are what a variable means: a name that the scope does
  not contain is still looked for among the rules.
-/

namespace DataCube

/-- What names stand for. -/
inductive Scope where
  /-- Bound values and rules. -/
  | engine (values : Bindings Value) (workspace : Workspace)
  /-- Declared shapes and rules, for typing before any data exists. -/
  | compile (shapes : Bindings Shape) (workspace : Workspace)
  /-- The components of a row; without the row only their domains are known. -/
  | row (schema : Schema) (row : Option Row) (parent : Scope)
  /-- A dataset and its components; without the dataset only its schema is known. -/
  | this (schema : Schema) (dataset : Option DataSet) (parent : Scope)

/-- What a name was found to stand for. -/
inductive Entry (α : Type) where
  | found (x : α)
  /-- A rule, which is to be evaluated at the root. -/
  | rule (s : Statement)

/-- The name is the reserved one of the enclosing row or dataset, in any letter case. -/
def isThis (name : String) : Bool := foldCase name = "this"

namespace Scope

/-- The scope of a row. -/
def ofRow (r : Row) (parent : Scope) : Scope := row r.schema (some r) parent

/-- The scope inside a bracket on a dataset. -/
def ofDataSet (d : DataSet) (parent : Scope) : Scope := this d.schema (some d) parent

/-- The outermost scope, which rules are evaluated in. -/
def root : Scope → Scope
  | row _ _ parent => parent.root
  | this _ _ parent => parent.root
  | s => s

/-- The rules. -/
def workspace : Scope → Workspace
  | engine _ w => w
  | compile _ w => w
  | row _ _ parent => parent.workspace
  | this _ _ parent => parent.workspace

/-- The rule that a name refers to. -/
def rule (s : Scope) (name : String) : Except EvalError Statement :=
  match s.workspace.rule? name with
  | some statement => .ok statement
  | none => .error (.unboundName name)

/-- The scope knows the name. -/
def contains : Scope → String → Bool
  | engine values w, name => (values.find? name).isSome || (w.rule? name).isSome
  | compile shapes w, name => (shapes.find? name).isSome || (w.rule? name).isSome
  | row schema _ _, name => isThis name || (schema.component? name).isSome
  | this schema _ parent, name =>
    isThis name || (schema.component? name).isSome || parent.contains name

/-- The shape that a name stands for. -/
def describe : Scope → String → Except EvalError (Entry Shape)
  | engine values w, name =>
    match values.find? name with
    | some v => .ok (.found v.shape)
    | none => (engine values w).rule name |>.map .rule
  | compile shapes w, name =>
    match shapes.find? name with
    | some shape => .ok (.found shape)
    | none => (compile shapes w).rule name |>.map .rule
  | row schema _ _, name =>
    if isThis name then .ok (.found (.dataset schema))
    else
      match schema.component? name with
      | some c => .ok (.found (.scalar c.domain))
      | none => .error (.unboundName name)
  | this schema _ parent, name =>
    if isThis name then .ok (.found (.dataset schema))
    else if (schema.component? name).isSome then
      (schema.membership name).map fun s => .found (.dataset s)
    else parent.describe name

/-- The value that a name stands for. -/
def resolve : Scope → String → Except EvalError (Entry Value)
  | engine values w, name =>
    match values.find? name with
    | some v => .ok (.found v)
    | none => (engine values w).rule name |>.map .rule
  | compile _ _, name => .error (.metadataOnly name)
  | row _ none _, name => .error (.metadataOnly name)
  | row schema (some r) _, name =>
    if isThis name then .ok (.found (.dataset (.ofRows schema [r])))
    else
      match r.lookup? name with
      | some v => .ok (.found (.scalar v))
      | none => .error (.unboundName name)
  | this schema dataset parent, name =>
    if ! isThis name && (schema.component? name).isNone then parent.resolve name
    else
      match dataset with
      | none => .error (.metadataOnly name)
      | some d =>
        if isThis name then .ok (.found (.dataset d))
        else (d.membership name (d.displayName ++ "#" ++ name)).map fun m => .found (.dataset m)

/-- The shape that a variable stands for. -/
def shapeEntry (s : Scope) (name : String) : Except EvalError (Entry Shape) :=
  if s.contains name then s.describe name else (s.rule name).map .rule

/-- The value that a variable stands for. -/
def valueEntry (s : Scope) (name : String) : Except EvalError (Entry Value) :=
  if s.contains name then s.resolve name else (s.rule name).map .rule

end Scope

end DataCube
