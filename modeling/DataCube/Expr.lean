import DataCube.Operator
import DataCube.Reducer

/-!
# Expressions

The expression tree of the transformation language: constants, variables, operators, membership and
bracket clauses, shifts within windows, aggregation and analytic reduction.

* `Expr.text` writes an expression; the text of a node also names it in the lineage of its rows.
* `Expr.operands` are the direct sub-expressions, `Expr.at?` walks down to a sub-expression.
* `Expr.same` is structural equality, where constants are equal as values.
* `Expr.lineage` is the provenance of an expression.
-/

namespace DataCube

/-- The direction a window is sorted in by one of its keys. -/
inductive SortDirection where
  | asc
  | desc
deriving DecidableEq

/-- The name of a direction. -/
def SortDirection.text : SortDirection → String
  | .asc => "asc"
  | .desc => "desc"

/-- A sort key of a window. -/
structure OrderItem where
  name : String
  direction : SortDirection
deriving DecidableEq

/-- How a sort key is written. -/
def OrderItem.text (o : OrderItem) : String := o.name ++ " " ++ o.direction.text

/-- The partition keys and sort keys of a window, as written. -/
structure WindowSpec where
  partitionBy : List String
  orderBy : List OrderItem
deriving DecidableEq

/-- How a window is written behind its operator. -/
def WindowSpec.text (o : WindowSpec) : String :=
  let partition :=
    if o.partitionBy.isEmpty then [] else ["partition by " ++ ", ".intercalate o.partitionBy]
  let order :=
    if o.orderBy.isEmpty then []
    else ["order by " ++ ", ".intercalate (o.orderBy.map OrderItem.text)]
  " over (" ++ " ".intercalate (partition ++ order) ++ ")"

/-- Where a shifted measure is taken from: an earlier or a later row. -/
inductive Shift where
  | lag
  | lead
deriving DecidableEq

/-- The name of a shift. -/
def Shift.text : Shift → String
  | .lag => "lag"
  | .lead => "lead"

/-- An expression. -/
inductive Expr where
  | constant (v : Scalar)
  | var (name : String)
  | unary (op : UnaryOp) (operand : Expr)
  | binary (op : BinaryOp) (left right : Expr)
  /-- The identifiers of a dataset and one other component. -/
  | member (operand : Expr) (name : String)
  /-- The rows for which the condition holds. -/
  | filter (operand condition : Expr)
  | keep (operand : Expr) (names : List String)
  | drop (operand : Expr) (names : List String)
  /-- A measure computed row by row. -/
  | compute (operand : Expr) (name : String) (value : Expr)
  /-- Any expression over the dataset and its components. -/
  | within (operand body : Expr)
  /-- The measures of the row so many places before or after; `default` stands in for a missing row.
  -/
  | shift (direction : Shift) (operand : Expr) (offset : Nat) (default : Option Scalar)
      (window : WindowSpec)
  | aggregate (statistic : Statistic) (operand : Expr) (groupBy : List String)
  | analytic (reducer : Reducer) (operand : Expr) (window : WindowSpec)
deriving DecidableEq

namespace Expr

/-! ## Text -/

/-- How an expression is written. -/
def text : Expr → String
  | constant v => v.text
  | var name => name
  | unary .neg e => "-" ++ e.text
  | unary .not e => "not " ++ e.text
  | unary .isNull e => "isnull(" ++ e.text ++ ")"
  | binary op l r => "(" ++ l.text ++ " " ++ op.text ++ " " ++ r.text ++ ")"
  | member e name => e.text ++ "#" ++ name
  | filter e c => e.text ++ "[filter " ++ c.text ++ "]"
  | keep e names => e.text ++ "[keep " ++ ", ".intercalate names ++ "]"
  | drop e names => e.text ++ "[drop " ++ ", ".intercalate names ++ "]"
  | compute e name v => e.text ++ "[calc " ++ name ++ " := " ++ v.text ++ "]"
  | within e b => e.text ++ "[" ++ b.text ++ "]"
  | shift d e offset default window =>
    d.text ++ "(" ++ e.text ++ ", " ++ offset.repr
      ++ (match default with
          | some v => ", " ++ v.text
          | none => "")
      ++ window.text ++ ")"
  | aggregate s e groupBy =>
    s.text ++ "(" ++ e.text
      ++ (if groupBy.isEmpty then "" else " group by " ++ ", ".intercalate groupBy) ++ ")"
  | analytic r e window => r.text ++ "(" ++ e.text ++ window.text ++ ")"

/-- How the clause of a bracket is written, for a bracket. -/
def clauseText? : Expr → Option String
  | filter _ c => some ("filter " ++ c.text)
  | keep _ names => some ("keep " ++ ", ".intercalate names)
  | drop _ names => some ("drop " ++ ", ".intercalate names)
  | compute _ name v => some ("calc " ++ name ++ " := " ++ v.text)
  | within _ b => some b.text
  | _ => none

/-! ## Structure -/

/-- The direct sub-expressions, the operand of a bracket before the expression of its clause. -/
def operands : Expr → List Expr
  | constant _ | var _ => []
  | binary _ l r => [l, r]
  | filter e x | compute e _ x | within e x => [e, x]
  | unary _ e | member e _ | keep e _ | drop e _ | shift _ e _ _ _ | aggregate _ e _
  | analytic _ e _ => [e]

/-- Constants and variables are terminal. -/
def isTerminal : Expr → Bool
  | constant _ | var _ => true
  | _ => false

/-- The sub-expression at the end of a path of operand numbers. -/
def at? (e : Expr) : List Nat → Option Expr
  | [] => some e
  | i :: path => (e.operands[i]?).bind fun x => x.at? path

/-- Equality of optional scalars as values. -/
def sameDefault : Option Scalar → Option Scalar → Bool
  | none, none => true
  | some a, some b => a.same b
  | _, _ => false

/-- Structural equality, where constants are equal as values. -/
def same : Expr → Expr → Bool
  | constant a, constant b => a.same b
  | var a, var b => a = b
  | unary op a, unary op' b => op = op' && a.same b
  | binary op a x, binary op' b y => op = op' && a.same b && x.same y
  | member a n, member b n' => a.same b && n = n'
  | filter a x, filter b y => a.same b && x.same y
  | keep a ns, keep b ns' => a.same b && ns = ns'
  | drop a ns, drop b ns' => a.same b && ns = ns'
  | compute a n x, compute b n' y => a.same b && n = n' && x.same y
  | within a x, within b y => a.same b && x.same y
  | shift d a k v o, shift d' b k' v' o' =>
    d = d' && a.same b && k = k' && sameDefault v v' && o = o'
  | aggregate s a ns, aggregate s' b ns' => s = s' && a.same b && ns = ns'
  | analytic r a o, analytic r' b o' => r = r' && a.same b && o = o'
  | _, _ => false

/-- The expression with every constant replaced by the one that stands for all those equal to it. -/
def canonical : Expr → Expr
  | constant v => constant v.canonical
  | var name => var name
  | unary op e => unary op e.canonical
  | binary op l r => binary op l.canonical r.canonical
  | member e name => member e.canonical name
  | filter e c => filter e.canonical c.canonical
  | keep e names => keep e.canonical names
  | drop e names => drop e.canonical names
  | compute e name v => compute e.canonical name v.canonical
  | within e b => within e.canonical b.canonical
  | shift d e offset default window =>
    shift d e.canonical offset (default.map Scalar.canonical) window
  | aggregate s e groupBy => aggregate s e.canonical groupBy
  | analytic r e window => analytic r e.canonical window

/-! ## Lineage -/

/-- The provenance of an expression: its literals and names, put together by its nodes. -/
def lineage (e : Expr) : Lineage :=
  match e with
  | constant v => .known v.text
  | var name => .known name
  | binary _ x y | filter x y | compute x _ y | within x y => .node e.text [x.lineage, y.lineage]
  | unary _ x | member x _ | keep x _ | drop x _ | shift _ x _ _ _ | aggregate _ x _
  | analytic _ x _ => .node e.text [x.lineage]

end Expr

end DataCube
