import DataCube.Typing

/-!
# Evaluation

The value of an expression in a scope. Operators work on scalars directly and on datasets measure by
measure; every other node asks for a dataset. The conditions and values of bracket clauses are
evaluated row by row, each in the scope of its row over the rules.

As in typing, `Expr.evalWith` evaluates an expression given the shapes and values of rules, and
`Expr.eval` bounds the depth of rules within rules. Rules are nested at most as deep as there are
rules before a dataset is there, and once more so when a clause is evaluated for one of its rows. No
evaluation pulls rows, so there is no third time, and twice the number of rules is enough: only a
rule whose value depends on itself is refused. A rule may well mention itself in a clause.
-/

namespace DataCube

/-- The dataset of a value, or else the error of a scalar. -/
def Value.asDataSet (v : Value) (refuse : Scalar → EvalError) : Except EvalError DataSet :=
  match v with
  | .dataset d => .ok d
  | .scalar v => .error (refuse v)

/-- The error of an operator that works on no scalars. -/
def scalarUnsupported (operator : String) (_ : Scalar) : EvalError :=
  .unsupported operator [.scalar]

/-- The error of a bracket on a scalar. -/
def scalarBracketed (bracket : Expr) (v : Scalar) : EvalError :=
  .invalidShape bracket.text .dataset v.domain.text

namespace DataSet

/-- A row with its measures changed and everything else as it was. -/
def mapMeasuresRow (target : Schema) (label : String) (f : Scalar → Except EvalError Scalar)
    (r : Row) : Except EvalError Row := do
  let entries ← r.entries.mapM fun e =>
    if e.1.role = .measure then (f e.2).map fun v => (e.1, v) else .ok e
  (Draft.empty.setAll entries).build target (derivedLineage label r)

/-- Changes the measures of every row. -/
def mapMeasures (d : DataSet) (target : Schema) (label : String)
    (f : Scalar → Except EvalError Scalar) : DataSet :=
  d.mapRows target (mapMeasuresRow target label f)

/-- A row with one more value computed from it. -/
def computedRow (computed : Component) (target : Schema) (label : String)
    (valueOf : Row → Except EvalError Scalar) (r : Row) : Except EvalError Row := do
  let v ← valueOf r
  ((Draft.empty.setAll r.entries).set computed.name v).build target (derivedLineage label r)

end DataSet

/-- The result of a unary operator. -/
def UnaryOp.onValue (op : UnaryOp) (label : String) : Value → Except EvalError Value
  | .scalar v => (op.apply v).map .scalar
  | .dataset d => do
    let target ← d.schema.mapMeasures fun m => op.resultDomain? m.domain
    pure (.dataset (d.mapMeasures target label op.apply))

/-- The result of a binary operator. -/
def BinaryOp.onValues (op : BinaryOp) (label : String) : Value → Value → Except EvalError Value
  | .scalar l, .scalar r => (op.apply l r).map .scalar
  | .dataset d, .scalar r => do
    let target ← d.schema.mapMeasures fun m => op.resultDomain? m.domain r.domain
    pure (.dataset (d.mapMeasures target label fun v => op.apply v r))
  | .scalar l, .dataset d => do
    let target ← d.schema.mapMeasures fun m => op.resultDomain? l.domain m.domain
    pure (.dataset (d.mapMeasures target label fun v => op.apply l v))
  | .dataset _, .dataset _ => .error (.unsupported op.text [.dataset, .dataset])

/-- What a filter makes of the value of its condition; a null drops the row. -/
def Value.asCondition (condition : Expr) : Value → Except EvalError Bool
  | .scalar (.boolean b) => .ok b
  | .scalar (.null _) => .ok false
  | .scalar v => .error (.incompatibleDomain (.filterCondition condition.text) .boolean v.domain)
  | .dataset _ => .error (.invalidShape "filter" .scalar "dataset")

/-- The scalar that a computed measure takes. -/
def Value.asComputed : Value → Except EvalError Scalar
  | .scalar v => .ok v
  | .dataset _ => .error (.invalidShape "calc" .scalar "dataset")

/-- The shapes and values of rules. -/
structure RuleMeaning where
  shape : Statement → Except EvalError Shape
  value : Statement → Except EvalError Value

namespace Expr

/-- The value of an expression, given the meaning of rules. -/
def evalWith (rules : RuleMeaning) (e : Expr) (scope : Scope) : Except EvalError Value :=
  match e with
  | constant v => .ok (.scalar v)
  | var name => do
    match ← scope.valueEntry name with
    | .found v => pure v
    | .rule s => rules.value s
  | unary op x => do
    op.onValue e.text (← x.evalWith rules scope)
  | binary op l r => do
    let left ← l.evalWith rules scope
    let right ← r.evalWith rules scope
    op.onValues e.text left right
  | member x name => do
    let d ← (← x.evalWith rules scope).asDataSet (scalarBracketed e)
    (d.membership name e.text).map .dataset
  | filter x condition => do
    let d ← (← x.evalWith rules scope).asDataSet (scalarBracketed e)
    pure (.dataset (d.filter fun r => do
      (← condition.evalWith rules (.ofRow r scope.root)).asCondition condition))
  | keep x names => do
    let d ← (← x.evalWith rules scope).asDataSet (scalarBracketed e)
    pure (.dataset (d.project (← d.schema.keep names) e.text))
  | drop x names => do
    let d ← (← x.evalWith rules scope).asDataSet (scalarBracketed e)
    pure (.dataset (d.project (← d.schema.drop names) e.text))
  | compute x name value => do
    let d ← (← x.evalWith rules scope).asDataSet (scalarBracketed e)
    let row := Scope.row d.schema none (.ofDataSet d scope)
    let domain ← (← value.shapeWith rules.shape row).computedDomain
    let target ← d.schema.withMeasure name domain
    let computed ← target.require name
    pure (.dataset (d.mapRows target (DataSet.computedRow computed target e.text fun r => do
      (← value.evalWith rules (.ofRow r scope.root)).asComputed)))
  | within x body => do
    let d ← (← x.evalWith rules scope).asDataSet (scalarBracketed e)
    body.evalWith rules (.ofDataSet d scope)
  | shift direction x offset default window => do
    let d ← (← x.evalWith rules scope).asDataSet (scalarUnsupported direction.text)
    let w ← Window.resolve? d.schema window .identifiers
    pure (.dataset (direction.run offset default w e.text d))
  | aggregate s x groupBy => do
    let d ← (← x.evalWith rules scope).asDataSet (scalarUnsupported s.text)
    let target ← s.outputSchema d.schema groupBy
    let keys ← Statistic.groupKeys? d.schema groupBy
    pure (.dataset (s.runGroups keys target d))
  | analytic r x window => do
    let d ← (← x.evalWith rules scope).asDataSet (scalarUnsupported r.text)
    let target ← r.outputSchema d.schema window
    let w ← Window.resolve? d.schema window .whole
    pure (.dataset (r.runWindow w target e.text d))

end Expr

namespace Scope

/-- The value of a rule at the root, for rules nested at most so deep. -/
def valueOfRule (root : Scope) : (depth : Nat) → Statement → Except EvalError Value
  | 0, s => .error (.circularRule s.name)
  | depth + 1, s => s.expr.evalWith ⟨root.ruleShape, root.valueOfRule depth⟩ root

/-- The meaning of the rules of the workspace. -/
def ruleMeaning (scope : Scope) : RuleMeaning where
  shape := scope.ruleShape
  value := scope.root.valueOfRule (2 * scope.workspace.size)

/-- The value that a name stands for in a scope. -/
def valueOf? (scope : Scope) (name : String) : Except EvalError Value := do
  match ← scope.resolve name with
  | .found v => pure v
  | .rule s => scope.ruleMeaning.value s

end Scope

/-- The value of an expression in a scope. -/
def Expr.eval (e : Expr) (scope : Scope) : Except EvalError Value :=
  e.evalWith scope.ruleMeaning scope

end DataCube
