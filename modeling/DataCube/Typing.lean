import DataCube.Aggregation
import DataCube.Scope
import DataCube.Window

/-!
# Typing

The shape of an expression in a scope, worked out without touching any data.

A variable can stand for a rule, whose expression is typed at the root of the scope, so the
recursion is not over one expression alone. `Expr.shapeWith` types an expression given the shapes of
rules, and `Scope.shapeOfRule` gives those for a bounded depth of rules within rules. The shape of a
rule depends on nothing but the root, so one that is met again while it is worked out leads nowhere.
Rules are thus never nested deeper than there are rules, which is the bound of `Expr.shape?`: only a
rule whose shape depends on itself is refused.
-/

namespace DataCube

namespace UnaryOp

/-- The shape of the result. -/
def resultShape (op : UnaryOp) : Shape → Except EvalError Shape
  | .unknown => .ok .unknown
  | .scalar d => (op.resultDomain? d).map .scalar
  | .dataset s => (s.mapMeasures fun m => op.resultDomain? m.domain).map .dataset

end UnaryOp

namespace BinaryOp

/-- The shape of the result. -/
def resultShape (op : BinaryOp) : Shape → Shape → Except EvalError Shape
  | .unknown, _ | _, .unknown => .ok .unknown
  | .scalar l, .scalar r => (op.resultDomain? l r).map .scalar
  | .dataset s, .scalar r => (s.mapMeasures fun m => op.resultDomain? m.domain r).map .dataset
  | .scalar l, .dataset s => (s.mapMeasures fun m => op.resultDomain? l m.domain).map .dataset
  | .dataset _, .dataset _ => .error (.unsupported op.text [.dataset, .dataset])

end BinaryOp

/-- The shape of a filter whose condition has the given shape. -/
def Shape.filtered (schema : Schema) (condition : Expr) : Shape → Except EvalError Shape
  | scalar d =>
    if Domain.boolean.accepts d then .ok (dataset schema)
    else .error (.incompatibleDomain (.filterCondition condition.text) .boolean d)
  | unknown => .ok (dataset schema)
  | dataset s => .error (.invalidShape "filter" .scalar (dataset s).text)

/-- The default of a shift fits every measure. -/
def Shift.checkDefault (direction : Shift) (schema : Schema) (default : Option Scalar) :
    Except EvalError Unit :=
  match default with
  | none => .ok ()
  | some v =>
    schema.measures.forM fun m =>
      if m.domain.accepts v.domain then .ok ()
      else .error (.incompatibleDomain (.defaultOf direction.text m.name) m.domain v.domain)

namespace Expr

/-- The shape of an expression, given the shapes of rules. -/
def shapeWith (rule : Statement → Except EvalError Shape) (e : Expr) (scope : Scope) :
    Except EvalError Shape :=
  match e with
  | constant v => .ok (.scalar v.domain)
  | var name => do
    match ← scope.shapeEntry name with
    | .found shape => pure shape
    | .rule s => rule s
  | unary op x => do
    op.resultShape (← x.shapeWith rule scope)
  | binary op l r => do
    let left ← l.shapeWith rule scope
    let right ← r.shapeWith rule scope
    op.resultShape left right
  | member x name => do
    (← x.shapeWith rule scope).onDataset (fun _ => e.text) fun schema =>
      (schema.membership name).map .dataset
  | filter x condition => do
    (← x.shapeWith rule scope).onDataset (fun _ => e.text) fun schema => do
      let row := Scope.row schema none (.this schema none scope)
      (← condition.shapeWith rule row).filtered schema condition
  | keep x names => do
    (← x.shapeWith rule scope).onDataset (fun _ => e.text) fun schema =>
      (schema.keep names).map .dataset
  | drop x names => do
    (← x.shapeWith rule scope).onDataset (fun _ => e.text) fun schema =>
      (schema.drop names).map .dataset
  | compute x name value => do
    (← x.shapeWith rule scope).onDataset (fun _ => e.text) fun schema => do
      let row := Scope.row schema none (.this schema none scope)
      let domain ← (← value.shapeWith rule row).computedDomain
      (schema.withMeasure name domain).map .dataset
  | within x body => do
    (← x.shapeWith rule scope).onDataset (fun _ => e.text) fun schema =>
      body.shapeWith rule (.this schema none scope)
  | shift direction x _ default window => do
    (← x.shapeWith rule scope).onDataset (fun _ => direction.text) fun schema => do
      let _ ← Window.resolve? schema window .identifiers
      direction.checkDefault schema default
      pure (.dataset schema)
  | aggregate s x groupBy => do
    (← x.shapeWith rule scope).onDataset (fun _ => s.text) fun schema =>
      (s.outputSchema schema groupBy).map .dataset
  | analytic r x window => do
    (← x.shapeWith rule scope).onDataset (fun _ => r.text) fun schema =>
      (r.outputSchema schema window).map .dataset

end Expr

namespace Scope

/-- The shape of a rule at the root, for rules nested at most so deep. -/
def shapeOfRule (root : Scope) : (depth : Nat) → Statement → Except EvalError Shape
  | 0, s => .error (.circularRule s.name)
  | depth + 1, s => s.expr.shapeWith (root.shapeOfRule depth) root

/-- The shape of a rule of the workspace. -/
def ruleShape (scope : Scope) (s : Statement) : Except EvalError Shape :=
  scope.root.shapeOfRule scope.workspace.size s

/-- The shape that a name stands for in a scope. -/
def shapeOf? (scope : Scope) (name : String) : Except EvalError Shape := do
  match ← scope.describe name with
  | .found shape => pure shape
  | .rule s => scope.ruleShape s

end Scope

/-- The shape of an expression in a scope. -/
def Expr.shape? (e : Expr) (scope : Scope) : Except EvalError Shape :=
  e.shapeWith scope.ruleShape scope

end DataCube
