import DataCube.DataSet

/-!
# Values and shapes

The result of an expression is a scalar or a dataset. Its shape is what typing knows of it: the
domain of a scalar, the schema of a dataset, or nothing yet.
-/

namespace DataCube

/-- The result of an expression. -/
inductive Value where
  | scalar (v : Scalar)
  | dataset (d : DataSet)

/-- What is known of a result before any data is touched. -/
inductive Shape where
  | scalar (domain : Domain)
  | dataset (schema : Schema)
  | unknown
deriving DecidableEq

/-- The shape of a value. -/
def Value.shape : Value → Shape
  | .scalar v => .scalar v.domain
  | .dataset d => .dataset d.schema

namespace Shape

/-- How a shape is written. -/
def text : Shape → String
  | scalar domain => "scalar " ++ domain.text
  | dataset schema => "dataset " ++ schema.text
  | unknown => "unknown"

/-- Goes on with the schema of a dataset. Where nothing is known nothing follows, and a scalar
fails: `operator` names the expression that asks for a dataset. -/
def onDataset (shape : Shape) (operator : Unit → String) (next : Schema → Except EvalError Shape) :
    Except EvalError Shape :=
  match shape with
  | dataset schema => next schema
  | unknown => .ok unknown
  | scalar domain => .error (.invalidShape (operator ()) .dataset (scalar domain).text)

/-- The domain of a measure that is computed with this shape. -/
def computedDomain : Shape → Except EvalError Domain
  | scalar domain => .ok domain
  | unknown => .ok .unknown
  | dataset schema => .error (.invalidShape "calc" .scalar (dataset schema).text)

end Shape

end DataCube
