import DataCube.Scalar
import DataCube.Schema

/-!
# Evaluation errors

What can go wrong when an expression is typed or evaluated, as causes; `EvalError.message` has all
the wording.
-/

namespace DataCube

/-- The two forms an operand can have. -/
inductive Form where
  | scalar
  | dataset
deriving DecidableEq

/-- The name of a form. -/
def Form.text : Form → String
  | .scalar => "scalar"
  | .dataset => "dataset"

/-- The uses that ask for a component in a certain role. -/
inductive ComponentUse where
  | membership
  | keep
  | drop
  | calc
  | groupBy
  | partitionBy
deriving DecidableEq

/-- The name of a use. -/
def ComponentUse.text : ComponentUse → String
  | .membership => "membership"
  | .keep => "keep"
  | .drop => "drop"
  | .calc => "calc"
  | .groupBy => "group by"
  | .partitionBy => "partition by"

/-- The places that ask for a value of a certain domain. -/
inductive Place where
  | operandOf (operator : String)
  | rightOperandOf (operator : String)
  | castOf (value : Scalar)
  | valueOf (component : String)
  | filterCondition (condition : String)
  | defaultOf (operator measure : String)
deriving DecidableEq

/-- How a place is described. -/
def Place.text : Place → String
  | .operandOf operator => "operand of " ++ operator
  | .rightOperandOf operator => "right operand of " ++ operator
  | .castOf value => "cast of " ++ value.text
  | .valueOf component => "value of " ++ component
  | .filterCondition condition => "filter condition " ++ condition
  | .defaultOf operator measure => "default value of " ++ operator ++ " for " ++ measure

/-- Why an expression has no type or no value. -/
inductive EvalError where
  /-- An operand of the other form; `found` is the text of what was found. -/
  | invalidShape (operator : String) (expected : Form) (found : String)
  | missingComponent (name : String) (schema : Schema)
  | incompatibleRole (use : ComponentUse) (component : String) (expected : Role)
  /-- A component both partitions and orders a window. -/
  | partitionOrderConflict (component : String)
  | incompatibleDomain (place : Place) (expected found : Domain)
  /-- A row of a named dataset has too few or too many values. -/
  | rowLength (dataset : String) (expected found : Nat)
  | duplicateComponent (name : String)
  | unboundName (name : String)
  /-- A value was asked for where only types are known. -/
  | metadataOnly (name : String)
  | unsupported (operator : String) (operands : List Form)
  | integerOverflow (operator : String) (operands : List Int64)
  /-- The rules refer to each other without end. -/
  | circularRule (name : String)
deriving DecidableEq

namespace EvalError

/-- The role as an error names it. -/
def roleText : Role → String
  | .identifier => "Identifier"
  | .measure => "Measure"
  | .attribute => "Attribute"

/-- The wording of an error. -/
def message : EvalError → String
  | invalidShape operator expected found =>
    operator ++ ": expected a " ++ expected.text ++ " operand but found " ++ found
  | missingComponent name schema => "Component " ++ name ++ " not found in " ++ schema.text
  | incompatibleRole use component expected =>
    "Component " ++ component ++ " used in " ++ use.text ++ " must be " ++ roleText expected
  | partitionOrderConflict component =>
    "Cannot order by " ++ component ++ " because the component is used in partition by"
  | incompatibleDomain place expected found =>
    place.text ++ ": expected domain " ++ expected.text ++ " but found " ++ found.text
  | rowLength dataset expected found =>
    "Row of " ++ dataset ++ " has " ++ found.repr ++ " values but the structure has "
      ++ expected.repr ++ " components"
  | duplicateComponent name => "Duplicate component " ++ name ++ " in structure"
  | unboundName name => "Unbound name: " ++ name
  | metadataOnly name => "Can't resolve the value of " ++ name ++ " during compilation"
  | unsupported operator operands =>
    "Operator " ++ operator ++ " is not supported on "
      ++ "-".intercalate (operands.map Form.text) ++ " operands"
  | integerOverflow operator operands =>
    "Integer overflow in " ++ operator ++ " ("
      ++ ", ".intercalate (operands.map fun i => i.toInt.repr) ++ ")"
  | circularRule name => "Circular rule: " ++ name

end EvalError

end DataCube
