import DataCube.Error
import DataCube.Number.Integer

/-!
# Casts

Conversion of a scalar to a domain. Integers widen to numbers, a number narrows to an integer only
when it has no fractional part, and any null becomes a null of the target domain. Numbers beyond the
integers narrow to the nearest integer there is.
-/

namespace DataCube

namespace Scalar

/-- Converts a scalar to a domain. -/
def cast (v : Scalar) (target : Domain) : Except EvalError Scalar :=
  match v, target with
  | null d, .unknown => .ok (null d)
  | null _, target => .ok (null target)
  | v, .unknown => .ok v
  | integer i, .number => .ok (number (Binary64.ofInt i.toInt))
  | number x, .integer =>
    if x.isIntegral then .ok (integer (clampInt64 x.truncate))
    else .error (.incompatibleDomain (.castOf (number x)) .integer .number)
  | v, target =>
    if v.domain = target then .ok v
    else .error (.incompatibleDomain (.castOf v) target v.domain)

end Scalar

end DataCube
