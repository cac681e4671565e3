import DataCube.DataSet

/-!
# Grouping

Rows are grouped by the values of key components. A partition map collects the rows of each key with
their places in the input; maps of adjacent parts of the input can be merged. Its groups come in
ascending order of key, and the rows of a group in the order of the input.
-/

namespace DataCube

/-- Rows that share the values of some key components. -/
structure Group where
  key : List Scalar
  rows : List Row

/-- The rows of each key with their places in the input. No two keys are equal as lists of values,
and the order of the keys carries no meaning. -/
abbrev PartitionMap := List (List Scalar × List (Nat × Row))

namespace PartitionMap

/-- Appends rows to those of a key. -/
def append (key : List Scalar) (rows : List (Nat × Row)) : PartitionMap → PartitionMap
  | [] => [(key, rows)]
  | (k, present) :: rest =>
    if Scalar.orderLists k key = .eq then (k, present ++ rows) :: rest
    else (k, present) :: append key rows rest

/-- The map of a list of rows with their places. -/
def ofRows (positions : List Nat) (rows : List (Nat × Row)) : PartitionMap :=
  rows.foldl (fun map e => append (e.2.key positions) [e] map) []

/-- The map of two adjacent parts of the input. -/
def merge (left right : PartitionMap) : PartitionMap :=
  right.foldl (fun map e => append e.1 e.2 map) left

/-- The groups, in ascending order of key. -/
def groups (map : PartitionMap) : List Group :=
  (map.map fun e => Group.mk e.1 ((e.2.mergeSort fun a b => a.1 ≤ b.1).map Prod.snd)).mergeSort
    fun a b => (Scalar.orderLists a.key b.key).isLE

end PartitionMap

namespace DataSet

/-- The places of the given components in the schema of a dataset. -/
def keyPositions (d : DataSet) (keys : List Component) : Except EvalError (List Nat) :=
  keys.mapM fun k =>
    match d.schema.positionOf? k.name with
    | some i => .ok i
    | none => .error (.missingComponent k.name d.schema)

/-- The groups of the rows by the values of the given components. -/
def groupBy (d : DataSet) (keys : List Component) : Except EvalError (List Group) := do
  let positions ← d.keyPositions keys
  let rows ← d.collect
  let numbered := rows.zipIdx.map fun e => (e.2, e.1)
  pure (PartitionMap.ofRows positions numbered).groups

end DataSet

end DataCube
