import DataCube.Scalar.Cast

/-!
# Scalar operators

The unary and binary operators on scalars: the domain of the result, and the result itself. A null
operand gives a null of the result domain, except in `isnull` and where three-valued logic decides
`and` and `or` regardless. Integer arithmetic stays in the integers and fails when its result is
beyond them.
-/

namespace DataCube

/-- The place asks for a domain that the one found cannot stand for. -/
def requireDomain (operator : String) (expected found : Domain) : Except EvalError Unit :=
  if expected.accepts found then .ok ()
  else .error (.incompatibleDomain (.operandOf operator) expected found)

/-- The operators with one operand. -/
inductive UnaryOp where
  | neg
  | not
  | isNull
deriving DecidableEq

namespace UnaryOp

/-- The name of an operator. -/
def text : UnaryOp → String
  | neg => "-"
  | not => "not"
  | isNull => "isnull"

/-- The domain of the result. -/
def resultDomain? (op : UnaryOp) (operand : Domain) : Except EvalError Domain :=
  match op with
  | neg => do
    requireDomain op.text .number operand
    pure (match operand with
      | .integer => .integer
      | .unknown => .unknown
      | _ => .number)
  | not => do
    requireDomain op.text .boolean operand
    pure .boolean
  | isNull => pure .boolean

/-- The result. -/
def apply (op : UnaryOp) (v : Scalar) : Except EvalError Scalar := do
  let domain ← op.resultDomain? v.domain
  match op, v with
  | isNull, v => pure (.boolean v.isNull)
  | _, .null _ => pure (.null domain)
  | neg, .integer i =>
    match exactInt64? (-i.toInt) with
    | some n => pure (.integer n)
    | none => throw (.integerOverflow op.text [i])
  | neg, .number x => pure (.number (-x))
  | not, .boolean b => pure (.boolean (! b))
  | op, v => throw (.incompatibleDomain (.operandOf op.text) domain v.domain)

end UnaryOp

/-- The operators with two operands. -/
inductive BinaryOp where
  | add
  | sub
  | mul
  | div
  | eq
  | ne
  | lt
  | le
  | gt
  | ge
  | and
  | or
deriving DecidableEq

namespace BinaryOp

/-- The symbol of an operator. -/
def text : BinaryOp → String
  | add => "+"
  | sub => "-"
  | mul => "*"
  | div => "/"
  | eq => "="
  | ne => "<>"
  | lt => "<"
  | le => "<="
  | gt => ">"
  | ge => ">="
  | and => "and"
  | or => "or"

/-- The three families of operators. -/
inductive Family where
  | arithmetic
  | comparison
  | logic
deriving DecidableEq

/-- The family of an operator. -/
def family : BinaryOp → Family
  | add | sub | mul | div => .arithmetic
  | eq | ne | lt | le | gt | ge => .comparison
  | and | or => .logic

/-- The domain of the result. -/
def resultDomain? (op : BinaryOp) (left right : Domain) : Except EvalError Domain :=
  match op.family with
  | .logic => do
    requireDomain op.text .boolean left
    requireDomain op.text .boolean right
    pure .boolean
  | .comparison =>
    match left.common right with
    | some _ => pure .boolean
    | none => throw (.incompatibleDomain (.rightOperandOf op.text) left right)
  | .arithmetic => do
    requireDomain op.text .number left
    requireDomain op.text .number right
    pure <|
      if op = div then .number
      else if left = .unknown || right = .unknown then .unknown
      else if Domain.integer.accepts left && Domain.integer.accepts right then .integer
      else .number

/-- A comparison holds for the order of its operands, which is absent next to a NaN. -/
def holds : BinaryOp → Option Ordering → Bool
  | ne, none => true
  | _, none => false
  | eq, some o => o = .eq
  | ne, some o => o ≠ .eq
  | lt, some o => o = .lt
  | le, some o => o ≠ .gt
  | gt, some o => o = .gt
  | _, some o => o ≠ .lt

/-- The result of a comparison: numerically if both operands have a number, else in value order. -/
def compare (op : BinaryOp) (left right : Scalar) : Bool :=
  op.holds <|
    match left.number?, right.number? with
    | some l, some r => l.compareValues? r
    | _, _ => some (left.order right)

/-- The exact result of an operation on integers. -/
def onIntegers (op : BinaryOp) (l r : Int) : Int :=
  match op with
  | add => l + r
  | sub => l - r
  | _ => l * r

/-- The result of an operation on numbers. -/
def onNumbers (op : BinaryOp) (l r : Binary64) : Binary64 :=
  match op with
  | add => l + r
  | sub => l - r
  | mul => l * r
  | _ => l / r

/-- The result of arithmetic: an integer for two integers, unless they are divided. -/
def compute (op : BinaryOp) (left right : Scalar) : Except EvalError Scalar :=
  match if op = div then none else left.integer?, right.integer? with
  | some l, some r =>
    match exactInt64? (op.onIntegers l.toInt r.toInt) with
    | some n => .ok (.integer n)
    | none => .error (.integerOverflow op.text [l, r])
  | _, _ =>
    .ok (.number (op.onNumbers (left.number?.getD .nan) (right.number?.getD .nan)))

/-- The result of `and`: false decides, and without it a null leaves the result open. -/
def conjunction : Option Bool → Option Bool → Scalar
  | some false, _ | _, some false => .boolean false
  | some true, some true => .boolean true
  | _, _ => .null .boolean

/-- The result of `or`: true decides, and without it a null leaves the result open. -/
def disjunction : Option Bool → Option Bool → Scalar
  | some true, _ | _, some true => .boolean true
  | some false, some false => .boolean false
  | _, _ => .null .boolean

/-- The result. -/
def apply (op : BinaryOp) (left right : Scalar) : Except EvalError Scalar := do
  let domain ← op.resultDomain? left.domain right.domain
  match op with
  | and => pure (conjunction left.boolean? right.boolean?)
  | or => pure (disjunction left.boolean? right.boolean?)
  | op =>
    if left.isNull || right.isNull then pure (.null domain)
    else if op.family = .comparison then pure (.boolean (op.compare left right))
    else op.compute left right

end BinaryOp

end DataCube
