import DataCube.Lineage
import DataCube.Scalar.Cast

/-!
# Rows

A row has one value for every component of its schema, in order, and a lineage.

* Lookup in a row is by exact name (`get?`), under the quoting rule (`lookup?`), or by place
  (`valueAt`).
* A `Draft` collects values by exact name; `Draft.build` makes a row of a schema from it and casts
  every value to the domain of its component.
-/

namespace DataCube

/-- A row of values. -/
structure Row where
  schema : Schema
  values : List Scalar
  lineage : Lineage

namespace Row

/-- The components with their values, in order. -/
def entries (r : Row) : List (Component × Scalar) := r.schema.components.zip r.values

/-- The components in a role with their values, in order. -/
def entriesWith (r : Row) (role : Role) : List (Component × Scalar) :=
  r.entries.filter fun e => e.1.role = role

/-- The value of the component with exactly this name. -/
def get? (r : Row) (name : String) : Option Scalar :=
  (r.schema.positionOf? name).bind fun i => r.values[i]?

/-- The value of the component that a name refers to under the quoting rule. -/
def lookup? (r : Row) (name : String) : Option Scalar :=
  (r.schema.component? name).bind fun c => r.get? c.name

/-- The value at a place; beyond the last one there are only nulls. -/
def valueAt (r : Row) (i : Nat) : Scalar := (r.values[i]?).getD (.null .null)

/-- The values at the given places. -/
def key (r : Row) (positions : List Nat) : List Scalar := positions.map r.valueAt

/-- How a row is written. -/
def text (r : Row) : String :=
  "\x7b" ++ ", ".intercalate (r.entries.map fun e => e.1.name ++ "=" ++ e.2.text) ++ "\x7d"

end Row

/-- The value as a component holds it, unless its domain does not fit there. -/
def Component.store (c : Component) (v : Scalar) : Except EvalError Scalar :=
  if v.domain = c.domain then .ok v
  else if ! c.domain.accepts v.domain then
    .error (.incompatibleDomain (.valueOf c.name) c.domain v.domain)
  else v.cast c.domain

/-- Values by exact name; of several for one name the one set last counts and stands first. -/
structure Draft where
  values : List (String × Scalar)

namespace Draft

/-- No values. -/
def empty : Draft := ⟨[]⟩

/-- Sets the value of a name. -/
def set (d : Draft) (name : String) (v : Scalar) : Draft := ⟨(name, v) :: d.values⟩

/-- Sets the values of the given components, one after the other. -/
def setAll (d : Draft) (entries : List (Component × Scalar)) : Draft :=
  entries.foldl (fun d e => d.set e.1.name e.2) d

/-- The value of a name. -/
def get? (d : Draft) (name : String) : Option Scalar :=
  (d.values.find? fun e => e.1 = name).map Prod.snd

@[simp] theorem get?_empty (name : String) : empty.get? name = none := rfl

/-- A name has the value set for it last, and setting it changes no other name. -/
theorem get?_set (d : Draft) (name other : String) (v : Scalar) :
    (d.set name v).get? other = if name = other then some v else d.get? other := by
  by_cases h : name = other <;> simp [set, get?, h]

/-- The value for a component of a schema. -/
def valueFor (d : Draft) (schema : Schema) (c : Component) : Except EvalError Scalar :=
  match d.get? c.name with
  | some v => c.store v
  | none => .error (.missingComponent c.name schema)

/-- Makes a row of a schema. -/
def build (d : Draft) (schema : Schema) (lineage : Lineage) : Except EvalError Row := do
  let values ← schema.components.mapM (d.valueFor schema)
  pure ⟨schema, values, lineage⟩

end Draft

end DataCube
