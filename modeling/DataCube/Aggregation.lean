import DataCube.Grouping
import DataCube.Reducer

/-!
# Aggregation

A statistic over the groups of a dataset that share some of its identifiers. The result has one row
per group with the key and every measure reduced; without keys the whole dataset is one group, even
when it is empty. The lineage of a row counts the rows of its group.
-/

namespace DataCube.Statistic

/-- The grouping keys, looked up. -/
def groupKeys? (schema : Schema) (names : List String) : Except EvalError (List Component) :=
  names.mapM (schema.requireIdentifier .groupBy)

/-- The schema of the result: the keys and the reduced measures, in the order of the schema. -/
def outputSchema (s : Statistic) (schema : Schema) (groupBy : List String) :
    Except EvalError Schema := do
  let keys ← groupKeys? schema groupBy
  (schema.restrict fun c => keys.contains c || c.role = .measure).mapMeasures fun m =>
    s.outputDomain? m.domain

/-- The groups to reduce. -/
def groups (keys : List Component) (d : DataSet) : Except EvalError (List Group) :=
  if keys.isEmpty then do
    let rows ← d.collect
    pure [⟨[], rows⟩]
  else d.groupBy keys

/-- The row of a group. -/
def groupRow (s : Statistic) (keys measures : List Component) (target : Schema) (g : Group) :
    Except EvalError Row :=
  let reduced := measures.map fun m => (m, s.reduceRows m g.rows)
  ((Draft.empty.setAll (keys.zip g.key)).setAll reduced).build target
    (.group (contributions g.rows))

/-- The dataset of the reduced groups. -/
def runGroups (s : Statistic) (keys : List Component) (target : Schema) (d : DataSet) : DataSet :=
  .derived target fun _ => .ofResult do
    let groups ← groups keys d
    groups.mapM (s.groupRow keys d.schema.measures target)

end DataCube.Statistic
