import DataCube.Row
import DataCube.Schema.Projection

/-!
# Datasets

A dataset couples a schema with a stream of rows. A stream is over after its first error, so it is a
list of rows with at most one error behind them. The stream of a derived dataset is computed when it
is first asked for: a rule may mention itself in a condition that no row is ever tested by.

* `RowStream`: pulling items, collecting all rows, and the row-wise changes.
* `DataSet.named` checks and casts given rows; `ofRows` takes rows that are there already.
* `DataSet.membership`, `filter` and `mapRows` derive one dataset from another.
-/

namespace DataCube

/-- Rows, and the error that ends them, if one does. -/
structure RowStream where
  rows : List Row
  fault : Option EvalError

namespace RowStream

/-- The stream of the given rows. -/
def ofRows (rows : List Row) : RowStream := ⟨rows, none⟩

/-- The stream of a result that is there as a whole or not at all. -/
def ofResult : Except EvalError (List Row) → RowStream
  | .ok rows => ⟨rows, none⟩
  | .error e => ⟨[], some e⟩

/-- All rows, unless there is an error. -/
def collect (s : RowStream) : Except EvalError (List Row) :=
  match s.fault with
  | none => .ok s.rows
  | some e => .error e

/-- The first item and the stream after it; `none` once the stream is over. -/
def next? : RowStream → Option (Except EvalError Row × RowStream)
  | ⟨r :: rows, fault⟩ => some (.ok r, ⟨rows, fault⟩)
  | ⟨[], some e⟩ => some (.error e, ⟨[], none⟩)
  | ⟨[], none⟩ => none

/-- Everything the stream yields. -/
def items (s : RowStream) : List (Except EvalError Row) :=
  s.rows.map .ok ++ (s.fault.map .error).toList

/-- The stream without its first `n` items. -/
def skip (s : RowStream) (n : Nat) : RowStream :=
  ⟨s.rows.drop n, if n ≤ s.rows.length then s.fault else none⟩

@[simp] theorem collect_ofRows (rows : List Row) : (ofRows rows).collect = .ok rows := rfl

/-- Pulling one item at a time yields all items. -/
theorem items_eq_next? (s : RowStream) :
    s.items = match s.next? with
      | none => []
      | some (item, rest) => item :: rest.items := by
  obtain ⟨rows, fault⟩ := s
  cases rows <;> cases fault <;> rfl

/-- A stream goes on where the items pulled from it ended. -/
theorem items_skip (s : RowStream) (n : Nat) : (s.skip n).items = s.items.drop n := by
  obtain ⟨rows, fault⟩ := s
  simp only [skip, items, List.drop_append, List.map_drop, List.length_map]
  congr 1
  by_cases h : n ≤ rows.length
  · simp [h]
  · cases fault with
    | none => simp
    | some e => simp [h]; omega

/-- Puts a row in front. -/
def push (r : Row) (s : RowStream) : RowStream := ⟨r :: s.rows, s.fault⟩

/-- Maps rows up to the first one that fails. -/
def mapFrom (f : Row → Except EvalError Row) (fault : Option EvalError) : List Row → RowStream
  | [] => ⟨[], fault⟩
  | r :: rows =>
    match f r with
    | .ok r' => push r' (mapFrom f fault rows)
    | .error e => ⟨[], some e⟩

/-- The stream of the images of all rows. -/
def mapRows (s : RowStream) (f : Row → Except EvalError Row) : RowStream :=
  mapFrom f s.fault s.rows

/-- Filters rows up to the first one that cannot be decided. -/
def filterFrom (p : Row → Except EvalError Bool) (fault : Option EvalError) :
    List Row → RowStream
  | [] => ⟨[], fault⟩
  | r :: rows =>
    match p r with
    | .ok true => push r (filterFrom p fault rows)
    | .ok false => filterFrom p fault rows
    | .error e => ⟨[], some e⟩

/-- The stream of the rows that pass. -/
def filterRows (s : RowStream) (p : Row → Except EvalError Bool) : RowStream :=
  filterFrom p s.fault s.rows

/-- How many rows a filter decides while `n` items are pulled from it. -/
def decided (p : Row → Except EvalError Bool) : Nat → List Row → Nat
  | 0, _ => 0
  | _, [] => 0
  | n + 1, r :: rows =>
    match p r with
    | .ok true => decided p n rows + 1
    | .ok false => decided p (n + 1) rows + 1
    | .error _ => 1

end RowStream

/-- A schema with a stream of rows of it. -/
structure DataSet where
  schema : Schema
  givenName : Option String
  /-- The stream, not computed before it is pulled. -/
  source : Thunk RowStream

namespace DataSet

/-- The stream of the rows. -/
def stream (d : DataSet) : RowStream := d.source.get

/-- The name of a dataset in texts. -/
def displayName (d : DataSet) : String := d.givenName.getD "Unnamed data set"

/-- All rows, unless there is an error. -/
def collect (d : DataSet) : Except EvalError (List Row) := d.stream.collect

/-- The unnamed dataset of the given rows. -/
def ofRows (schema : Schema) (rows : List Row) : DataSet := ⟨schema, none, .pure (.ofRows rows)⟩

/-- The unnamed dataset of a stream that is computed on demand. -/
def derived (schema : Schema) (stream : Unit → RowStream) : DataSet := ⟨schema, none, .mk stream⟩

@[simp] theorem stream_ofRows (schema : Schema) (rows : List Row) :
    (ofRows schema rows).stream = .ofRows rows := rfl

@[simp] theorem stream_derived (schema : Schema) (stream : Unit → RowStream) :
    (derived schema stream).stream = stream () := rfl

/-- A row of a named dataset, given as values in the order of the schema. -/
def namedRow (name : String) (schema : Schema) (values : List Scalar) : Except EvalError Row :=
  if values.length = schema.size then
    (Draft.empty.setAll (schema.components.zip values)).build schema (.known name)
  else .error (.rowLength name schema.size values.length)

/-- A dataset of the given rows under a name. -/
def named (name : String) (schema : Schema) (rows : List (List Scalar)) :
    Except EvalError DataSet := do
  let rows ← rows.mapM (namedRow name schema)
  pure ⟨schema, some name, .pure (.ofRows rows)⟩

/-- The lineage of a row that the transformation `label` makes from one row. -/
def derivedLineage (label : String) (r : Row) : Lineage := .node label [r.lineage]

/-- Maps every row to a row of another schema. -/
def mapRows (d : DataSet) (schema : Schema) (f : Row → Except EvalError Row) : DataSet :=
  derived schema fun _ => d.stream.mapRows f

/-- The rows that pass a test, unchanged. -/
def filter (d : DataSet) (p : Row → Except EvalError Bool) : DataSet :=
  derived d.schema fun _ => d.stream.filterRows p

/-- The row of the identifiers and one other component. -/
def memberRow (member : Component) (target : Schema) (label : String) (r : Row) :
    Except EvalError Row :=
  ((Draft.empty.setAll (r.entriesWith .identifier)).set member.name
    ((r.get? member.name).getD (.null member.domain))).build target (derivedLineage label r)

/-- Narrows to the identifiers and the named component, as a measure. -/
def membership (d : DataSet) (name label : String) : Except EvalError DataSet := do
  let target ← d.schema.membership name
  let member ← d.schema.require name
  pure (d.mapRows target (memberRow member target label))

/-- Narrows every row to the components of a schema, taking the values it has for them. -/
def projectRow (target : Schema) (label : String) (r : Row) : Except EvalError Row :=
  let values := target.components.filterMap fun c => (r.get? c.name).map fun v => (c, v)
  (Draft.empty.setAll values).build target (derivedLineage label r)

/-- The dataset narrowed to the components of a schema. -/
def project (d : DataSet) (target : Schema) (label : String) : DataSet :=
  d.mapRows target (projectRow target label)

end DataSet

end DataCube
