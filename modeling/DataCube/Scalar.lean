import DataCube.Domain
import DataCube.Number.Text

/-!
# Scalars

Immutable values of a single domain, with nulls tagged by the domain they stand in for.

* Views of a scalar: its domain, its number, its text.
* The value order: nulls, booleans, numbers, texts. Integers and numbers sort together by value, an
  integer before the number equal to it; NaN comes after every other number and equals itself.
* `Scalar.same` is equality under that order, and `Scalar.canonical` picks one scalar out of every
  class of equal ones.
-/

namespace DataCube

/-- A value of a single domain. -/
inductive Scalar where
  | integer (i : Int64)
  | number (x : Binary64)
  | string (s : String)
  | boolean (b : Bool)
  | null (domain : Domain)
deriving DecidableEq

namespace Scalar

/-! ## Views -/

/-- The domain of a scalar; a null has the domain it is tagged with. -/
def domain : Scalar → Domain
  | integer _ => .integer
  | number _ => .number
  | string _ => .string
  | boolean _ => .boolean
  | null d => d

/-- A null of any domain. -/
def isNull : Scalar → Bool
  | null _ => true
  | _ => false

/-- The number of a numeric scalar; an integer is rounded to a double. -/
def number? : Scalar → Option Binary64
  | integer i => some (Binary64.ofInt i.toInt)
  | number x => some x
  | _ => none

/-- The integer of an integer scalar. -/
def integer? : Scalar → Option Int64
  | integer i => some i
  | _ => none

/-- The truth value of a boolean scalar. -/
def boolean? : Scalar → Option Bool
  | boolean b => some b
  | _ => none

/-- The text of a string scalar. -/
def string? : Scalar → Option String
  | string s => some s
  | _ => none

/-- How a scalar is written. Text stands between double quotes, and what it holds is not escaped. -/
def text : Scalar → String
  | integer i => i.toInt.repr
  | number x => x.text
  | string s => "\"" ++ s ++ "\""
  | boolean b => if b then "true" else "false"
  | null .null => "null"
  | null d => "null<" ++ d.text ++ ">"

/-! ## Order -/

/-- The place of a scalar among scalars that cannot be compared by value. -/
def rank : Scalar → Nat
  | null _ => 0
  | boolean _ => 1
  | integer _ | number _ => 2
  | string _ => 3

/-- The value order. -/
def order : Scalar → Scalar → Ordering
  | null a, null b => compare a b
  | integer a, integer b => compare a.toInt b.toInt
  | number a, number b => a.compareValues b
  | integer a, number b => ((Binary64.ofInt a.toInt).compareValues b).then .lt
  | number a, integer b => (a.compareValues (Binary64.ofInt b.toInt)).then .gt
  | string a, string b => compare a b
  | boolean a, boolean b => compare a b
  | a, b => compare a.rank b.rank

instance : Ord Scalar := ⟨order⟩

/-- Equality under the value order. -/
def same (a b : Scalar) : Bool := a.order b = .eq

/-- The scalar that stands for all those equal to it: there is one NaN and one zero among numbers.
-/
def canonical : Scalar → Scalar
  | number x => number (if x.isNaN then .nan else if x.magnitude = 0 then 0 else x)
  | v => v

/-- The order of two lists of scalars: by the first place where they differ, then by length. -/
def orderLists : List Scalar → List Scalar → Ordering
  | [], [] => .eq
  | [], _ :: _ => .lt
  | _ :: _, [] => .gt
  | a :: as, b :: bs => (a.order b).then (orderLists as bs)

end Scalar

end DataCube
