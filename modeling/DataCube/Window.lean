import DataCube.Expr
import DataCube.Grouping

/-!
# Windows

A window cuts a dataset into partitions and sorts each of them. Shifts and analytic reducers look at
the rows around a row in its sorted partition; identifiers and attributes always come from the row
itself.

* `Window.resolve?` checks the keys against a schema and fills in those left out.
* `Window.partitions` cuts and sorts: partitions in ascending order of key, rows with equal sort
  keys in the order of the input.
* `Shift.partition` and `Reducer.partition` are the rows that the two windowed operators give.
-/

namespace DataCube

/-- What a window uses where keys are left out. -/
inductive WindowDefaults where
  /-- Sort by every identifier ascending; partition by the identifiers that do not sort. -/
  | identifiers
  /-- One partition, in the order of the input. -/
  | whole
deriving DecidableEq

/-- Partition keys, and the places of the sort keys with their directions. -/
structure Window where
  partition : List Component
  ordering : List (Nat × SortDirection)
deriving DecidableEq

/-- The order of two values in a direction. -/
def SortDirection.apply : SortDirection → Ordering → Ordering
  | .asc, o => o
  | .desc, o => o.swap

namespace Window

/-- The sort keys, looked up. -/
def sortKeys? (schema : Schema) (items : List OrderItem) :
    Except EvalError (List (Component × SortDirection)) :=
  items.mapM fun item => (schema.require item.name).map fun c => (c, item.direction)

/-- A partition key, looked up; it may not sort as well. -/
def partitionKey? (schema : Schema) (ordering : List (Component × SortDirection)) (name : String) :
    Except EvalError Component := do
  let c ← schema.requireIdentifier .partitionBy name
  if ordering.any (·.1 = c) then throw (.partitionOrderConflict c.name) else pure c

/-- The sort keys with those left out filled in. -/
def defaultOrdering (schema : Schema) (defaults : WindowDefaults)
    (ordering : List (Component × SortDirection)) : List (Component × SortDirection) :=
  if defaults = .identifiers && ordering.isEmpty then schema.identifiers.map fun c => (c, .asc)
  else ordering

/-- The partition keys with those left out filled in. -/
def defaultPartition (schema : Schema) (defaults : WindowDefaults)
    (ordering : List (Component × SortDirection)) (partition : List Component) : List Component :=
  if defaults = .identifiers && partition.isEmpty then
    schema.identifiers.filter fun c => ! ordering.any (·.1 = c)
  else partition

/-- The window over a schema. -/
def resolve? (schema : Schema) (window : WindowSpec) (defaults : WindowDefaults) :
    Except EvalError Window := do
  let given ← sortKeys? schema window.orderBy
  let partition ← window.partitionBy.mapM (partitionKey? schema given)
  let ordering := defaultOrdering schema defaults given
  pure {
    partition := defaultPartition schema defaults ordering partition
    ordering := ordering.filterMap fun e => (schema.position? e.1).map fun i => (i, e.2) }

/-- The order of two rows by the sort keys from the first on. -/
def orderBy (a b : Row) : List (Nat × SortDirection) → Ordering
  | [] => .eq
  | (i, direction) :: rest =>
    (direction.apply ((a.valueAt i).order (b.valueAt i))).then (orderBy a b rest)

/-- The order of two rows. -/
def order (w : Window) (a b : Row) : Ordering := orderBy a b w.ordering

/-- The window sorts. -/
def isOrdered (w : Window) : Bool := ! w.ordering.isEmpty

/-- The rows of a partition in the order of the window. -/
def sortRows (w : Window) (rows : List Row) : List Row :=
  if w.isOrdered then rows.mergeSort fun a b => (w.order a b).isLE else rows

/-- The sorted partitions of a dataset. -/
def partitions (w : Window) (d : DataSet) : Except EvalError (List Group) := do
  let groups ← d.groupBy w.partition
  pure (groups.map fun g => { g with rows := w.sortRows g.rows })

/-- The rows that are made of each partition, one partition after the other. -/
def perPartition (groups : List Group) (process : List Row → Except EvalError (List Row)) :
    Except EvalError (List Row) :=
  List.flatten <$> groups.mapM fun g => process g.rows

/-- The identifiers and attributes of a row. -/
def ownValues (r : Row) : Draft :=
  (Draft.empty.setAll (r.entriesWith .identifier)).setAll (r.entriesWith .attribute)

end Window

/-! ## Shifts -/

/-- The place in a partition that a row takes its measures from. -/
def Shift.source? (direction : Shift) (offset i : Nat) : Option Nat :=
  match direction with
  | .lead => some (i + offset)
  | .lag => if offset ≤ i then some (i - offset) else none

/-- The measures of a row that has no row to take them from. -/
def Shift.fill (schema : Schema) (default : Option Scalar) :
    Except EvalError (List (Component × Scalar)) :=
  schema.measures.mapM fun m =>
    match default with
    | some v => (v.cast m.domain).map fun v => (m, v)
    | none => .ok (m, .null m.domain)

/-- The measures for the row in a place of a partition: those of the row so many places before or
after, or else the default. -/
def Shift.measuresAt (direction : Shift) (offset : Nat) (default : Option Scalar) (schema : Schema)
    (rows : List Row) (i : Nat) : Except EvalError (List (Component × Scalar)) :=
  match (direction.source? offset i).bind fun j => rows[j]? with
  | some source => .ok (source.entriesWith .measure)
  | none => Shift.fill schema default

/-- A row of a shifted partition. -/
def Shift.row (direction : Shift) (offset : Nat) (default : Option Scalar) (schema : Schema)
    (label : String) (rows : List Row) (r : Row) (i : Nat) : Except EvalError Row := do
  let measures ← direction.measuresAt offset default schema rows i
  ((Window.ownValues r).setAll measures).build schema (DataSet.derivedLineage label r)

/-- A sorted partition with its measures shifted. -/
def Shift.partition (direction : Shift) (offset : Nat) (default : Option Scalar) (schema : Schema)
    (label : String) (rows : List Row) : Except EvalError (List Row) :=
  rows.zipIdx.mapM fun e => direction.row offset default schema label rows e.1 e.2

/-- The dataset with its measures shifted within a window. -/
def Shift.run (direction : Shift) (offset : Nat) (default : Option Scalar) (w : Window)
    (label : String) (d : DataSet) : DataSet :=
  .derived d.schema fun _ => .ofResult do
    let groups ← w.partitions d
    Window.perPartition groups (direction.partition offset default d.schema label)

/-! ## Analytic reducers -/

namespace Reducer

/-- A reduced value as a column of the given domain holds it: the NaN of an empty window has no
place in a column that takes no numbers. -/
def fit (v : Scalar) (domain : Domain) : Except EvalError Scalar :=
  match v with
  | .number x =>
    if x.isNaN && ! domain.accepts .number then .ok (.null domain)
    else (Scalar.number x).cast domain
  | v => v.cast domain

/-- The results after each of the rows, going on from an accumulator. -/
def running (r : Reducer) (measure : Component) : Accumulator → List Row → List Scalar
  | _, [] => []
  | a, row :: rows =>
    let a := a.accumulate (r.extract measure row)
    r.finish a :: running r measure a rows

/-- The results for the rows of a partition: over the rows up to each one if the window sorts, else
over the whole partition. -/
def column (r : Reducer) (isRunning : Bool) (rows : List Row) (measure : Component) : List Scalar :=
  if isRunning then r.running measure r.accumulator rows
  else List.replicate rows.length (r.reduceRows measure rows)

/-- A row of a reduced partition. -/
def row (target : Schema) (label : String) (columns : List (Component × List Scalar)) (own : Row)
    (i : Nat) : Except EvalError Row := do
  let measures ← columns.mapM fun e => do
    let component ← target.require e.1.name
    let v ← fit (e.2.getD i (.null .null)) component.domain
    pure (e.1, v)
  ((Window.ownValues own).setAll measures).build target (DataSet.derivedLineage label own)

/-- A sorted partition with its measures reduced. -/
def partition (r : Reducer) (isRunning : Bool) (measures : List Component) (target : Schema)
    (label : String) (rows : List Row) : Except EvalError (List Row) :=
  let columns := measures.map fun m => (m, r.column isRunning rows m)
  rows.zipIdx.mapM fun e => row target label columns e.1 e.2

/-- The schema of the result over a window. -/
def outputSchema (r : Reducer) (schema : Schema) (window : WindowSpec) :
    Except EvalError Schema := do
  let _ ← Window.resolve? schema window .whole
  schema.mapMeasures fun m => r.outputDomain? m.domain

/-- The dataset with its measures reduced within a window. -/
def runWindow (r : Reducer) (w : Window) (target : Schema) (label : String) (d : DataSet) :
    DataSet :=
  .derived target fun _ => .ofResult do
    let groups ← w.partitions d
    Window.perPartition groups (r.partition w.isOrdered d.schema.measures target label)

end Reducer

end DataCube
