import DataCube.Reducer.Moments
import DataCube.Scalar.Cast

/-!
# Accumulators

The partial state of a reduction of a sequence of scalars. Values are folded in one by one, and the
states of neighbouring parts of the sequence are combined. Nulls are skipped by every reduction but
the count. Beside the state an accumulator tells whether every value so far fits an integer, which
decides whether a sum or an average is given as an integer.
-/

namespace DataCube

namespace Accumulator

/-- What a reduction keeps of the values it has seen. -/
inductive State where
  | count (n : Nat)
  | sum (total : Binary64)
  | average (total : Binary64) (n : Nat)
  | median (values : List Binary64)
  | least (value : Option Scalar)
  | greatest (value : Option Scalar)
  | moments (m : Moments Binary64)
  | first (value : Option Scalar)
  | last (value : Option Scalar)
deriving DecidableEq

end Accumulator

/-- The partial state of a reduction. -/
structure Accumulator where
  state : Accumulator.State
  integerOnly : Bool
deriving DecidableEq

namespace Accumulator

/-- The accumulator that has seen nothing. -/
def start (state : State) : Accumulator := ⟨state, true⟩

/-- The number of a scalar; typing keeps scalars without one away from the reductions that ask. -/
def numberOf (v : Scalar) : Binary64 := v.number?.getD .nan

/-- The present value, or the new one if there is none or it compares to it as wanted. -/
def prefer (wanted : Ordering) (present : Option Scalar) (v : Scalar) : Option Scalar :=
  match present with
  | none => some v
  | some p => if v.order p = wanted then some v else some p

namespace State

/-- Folds in a value that is not null. -/
def push (v : Scalar) : State → State
  | count n => count (n + 1)
  | sum total => sum (total + numberOf v)
  | average total n => average (total + numberOf v) (n + 1)
  | median values => median (values ++ [numberOf v])
  | least value => least (prefer .lt value v)
  | greatest value => greatest (prefer .gt value v)
  | moments m => moments (m.push (numberOf v))
  | first value => first (value.or (some v))
  | last _ => last (some v)

/-- The better of two extremes, the left one if neither is. -/
def pick (wanted : Ordering) (left right : Option Scalar) : Option Scalar :=
  match right with
  | none => left
  | some v => prefer wanted left v

/-- The state of two neighbouring parts; parts of different reductions leave the left one. -/
def combine : State → State → State
  | count m, count n => count (m + n)
  | sum a, sum b => sum (a + b)
  | average a m, average b n => average (a + b) (m + n)
  | median as, median bs => median (as ++ bs)
  | least a, least b => least (pick .lt a b)
  | greatest a, greatest b => greatest (pick .gt a b)
  | moments a, moments b => moments (a.merge b)
  | first a, first b => first (a.or b)
  | last a, last b => last (b.or a)
  | a, _ => a

end State

/-- Folds in a value, or for `none` the mere presence of a row, which only a count notices. -/
def accumulate (a : Accumulator) (value : Option Scalar) : Accumulator :=
  match a.state, value with
  | .count n, _ => { a with state := .count (n + 1) }
  | _, none => a
  | state, some v =>
    { state := if v.isNull then state else state.push v
      integerOnly := a.integerOnly && Domain.integer.accepts v.domain }

/-- The accumulator of two neighbouring parts. -/
def combine (a b : Accumulator) : Accumulator :=
  ⟨a.state.combine b.state, a.integerOnly && b.integerOnly⟩

/-- The middle of the values in total order, or the mean of the two middle ones; NaN for none. -/
def medianOf (values : List Binary64) : Binary64 :=
  let sorted := values.mergeSort fun a b => a.totalKey ≤ b.totalKey
  let middle := sorted.length / 2
  if sorted.length = 0 then .nan
  else if sorted.length % 2 = 1 then sorted.getD middle .nan
  else (sorted.getD (middle - 1) .nan + sorted.getD middle .nan) / .ofNat 2

/-- A number as an integer if only integers went into it and an integer equals it. -/
def narrowed (x : Binary64) (integerOnly : Bool) : Scalar :=
  match if integerOnly && x.isIntegral then exactInt64? x.truncate else none with
  | some i => .integer i
  | none => .number x

end Accumulator

end DataCube
