/-!
# Domains

The kinds of value that a scalar or a component of a schema holds, and the small lattice that says
which kind may stand for which.

* `Domain.accepts`: assignability. A null fits everywhere, an integer fits where a number is asked
  for, and an unknown domain is compatible with everything.
* `Domain.common`: the narrower of two domains that both are assignable to.
* The order of domains is the order of their declaration.
-/

namespace DataCube

/-- The kind of value a scalar or a component holds. -/
inductive Domain where
  | null
  | boolean
  | integer
  | number
  | string
  /-- Not yet known; it only appears while the typing of an expression is incomplete. -/
  | unknown
deriving DecidableEq

namespace Domain

/-- Every domain, in ascending order. -/
def all : List Domain := [null, boolean, integer, number, string, unknown]

/-- The name of a domain. -/
def text : Domain → String
  | null => "null"
  | boolean => "boolean"
  | integer => "integer"
  | number => "number"
  | string => "string"
  | unknown => "unknown"

/-- The place of a domain in the ascending order. -/
def rank : Domain → Nat
  | null => 0
  | boolean => 1
  | integer => 2
  | number => 3
  | string => 4
  | unknown => 5

instance : Ord Domain where
  compare a b := compare a.rank b.rank

/-- A value of domain `found` may stand where `expected` is asked for. -/
def accepts : (expected found : Domain) → Bool
  | _, null => true
  | unknown, _ => true
  | _, unknown => true
  | number, integer => true
  | expected, found => expected = found

/-- Integers and numbers are numeric. -/
def isNumeric : Domain → Bool
  | integer | number => true
  | _ => false

/-- The domain that values of both `left` and `right` are assignable to, if there is one. An unknown
left domain takes over the right one. -/
def common (left right : Domain) : Option Domain :=
  if left.accepts right && left ≠ unknown then some left
  else if right.accepts left then some right
  else none

@[simp] theorem accepts_self (d : Domain) : d.accepts d = true := by cases d <;> rfl

@[simp] theorem accepts_null (d : Domain) : d.accepts null = true := by cases d <;> rfl

@[simp] theorem accepts_unknown (d : Domain) : d.accepts unknown = true := by cases d <;> rfl

@[simp] theorem unknown_accepts (d : Domain) : unknown.accepts d = true := by cases d <;> rfl

end Domain

end DataCube
