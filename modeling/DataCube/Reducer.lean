import DataCube.Reducer.Accumulator
import DataCube.Reducer.Split
import DataCube.Row

/-!
# Reducers

The closed set of statistical reductions. A statistic collapses a group of rows (the aggregate form)
or is given for the window of every row (the analytic form); two more reducers only exist in the
analytic form. The forms differ in what the extremes of nothing are.

* `accumulator`, `finish`: how a reduction starts and what it makes of the final state.
* `reduce`, `reduceSplit`: a reduction in one pass, and one shared over adjacent slices.
* `outputDomain?`: the domain of the result for a measure.
-/

namespace DataCube

/-- The reducers that have an aggregate form. -/
inductive Statistic where
  | count
  | sum
  | average
  | median
  | least
  | greatest
  | varPop
  | varSamp
  | stddevPop
  | stddevSamp
deriving DecidableEq

/-- The reducers of the analytic form. -/
inductive Reducer where
  | statistic (s : Statistic)
  | firstValue
  | lastValue
deriving DecidableEq

/-- The name of a statistic. -/
def Statistic.text : Statistic → String
  | .count => "count"
  | .sum => "sum"
  | .average => "avg"
  | .median => "median"
  | .least => "min"
  | .greatest => "max"
  | .varPop => "var_pop"
  | .varSamp => "var_samp"
  | .stddevPop => "stddev_pop"
  | .stddevSamp => "stddev_samp"

namespace Reducer

/-- The name of a reducer. -/
def text : Reducer → String
  | statistic s => s.text
  | firstValue => "first_value"
  | lastValue => "last_value"

/-- The state a reducer starts with. -/
def initialState : Reducer → Accumulator.State
  | statistic .count => .count 0
  | statistic .sum => .sum 0
  | statistic .average => .average 0 0
  | statistic .median => .median []
  | statistic .least => .least none
  | statistic .greatest => .greatest none
  | statistic .varPop | statistic .varSamp | statistic .stddevPop | statistic .stddevSamp =>
    .moments .empty
  | firstValue => .first none
  | lastValue => .last none

/-- The accumulator of a reducer that has seen nothing. -/
def accumulator (r : Reducer) : Accumulator := .start r.initialState

/-- The value of moments under a reducer of the variance family. -/
def ofMoments (m : Moments Binary64) : Reducer → Binary64
  | statistic .varPop => m.population
  | statistic .varSamp => m.sample
  | statistic .stddevPop => m.population.sqrt
  | _ => m.sample.sqrt

/-- What a reducer makes of a final state; `emptyExtreme` stands for the extreme of nothing. -/
def finishWith (r : Reducer) (emptyExtreme : Scalar) (a : Accumulator) : Scalar :=
  match a.state with
  | .count n => .integer (Int64.ofNat n)
  | .sum total => Accumulator.narrowed total a.integerOnly
  | .average total n =>
    Accumulator.narrowed (if n = 0 then 0 else total / .ofNat n) a.integerOnly
  | .median values => .number (Accumulator.medianOf values)
  | .least value | .greatest value => value.getD emptyExtreme
  | .moments m => .number (r.ofMoments m)
  | .first value | .last value => value.getD (.null .number)

/-- The result of the analytic form: the extreme of nothing is NaN. -/
def finish (r : Reducer) (a : Accumulator) : Scalar := r.finishWith (.number .nan) a

/-- What a reducer reads of a row; a count reads nothing. -/
def extract (r : Reducer) (measure : Component) (row : Row) : Option Scalar :=
  match r with
  | statistic .count => none
  | _ => some ((row.get? measure.name).getD (.null measure.domain))

/-- The accumulator of a list of scalars. -/
def run (r : Reducer) (values : List Scalar) : Accumulator :=
  values.foldl (fun a v => a.accumulate (some v)) r.accumulator

/-- The accumulator of a list of scalars that is cut into slices. -/
def runSplit (r : Reducer) (values : Split Scalar) : Accumulator :=
  values.reduce r.run Accumulator.combine

/-- The accumulator of a measure over rows. -/
def runRows (r : Reducer) (measure : Component) (rows : List Row) : Accumulator :=
  rows.foldl (fun a row => a.accumulate (r.extract measure row)) r.accumulator

/-- The analytic reduction of a list of scalars. -/
def reduce (r : Reducer) (values : List Scalar) : Scalar := r.finish (r.run values)

/-- The analytic reduction of a list of scalars that is cut into slices. -/
def reduceSplit (r : Reducer) (values : Split Scalar) : Scalar := r.finish (r.runSplit values)

/-- The analytic reduction of a measure over rows. -/
def reduceRows (r : Reducer) (measure : Component) (rows : List Row) : Scalar :=
  r.finish (r.runRows measure rows)

/-- A domain that the numeric reducers take. -/
def takesNumbers : Domain → Bool
  | .integer | .number | .null | .unknown => true
  | _ => false

/-- The domain of the result for a measure, without regard to the extremes of nothing. -/
def resultDomain? (r : Reducer) (input : Domain) : Except EvalError Domain :=
  match r with
  | statistic .count => .ok .integer
  | statistic .least | statistic .greatest | firstValue | lastValue => .ok input
  | r =>
    if ! takesNumbers input then .error (.incompatibleDomain (.operandOf r.text) .number input)
    else if r = statistic .sum && input = .integer then .ok .integer
    else .ok .number

/-- The domain of the result of the analytic form. The extreme of nothing is a number, so the
extremes of a numeric measure are numbers. -/
def outputDomain? (r : Reducer) (input : Domain) : Except EvalError Domain :=
  match r with
  | statistic .least | statistic .greatest =>
    if input.isNumeric then .ok .number else r.resultDomain? input
  | r => r.resultDomain? input

end Reducer

namespace Statistic

/-- The accumulator of a statistic that has seen nothing. -/
def accumulator (s : Statistic) : Accumulator := (Reducer.statistic s).accumulator

/-- The result of the aggregate form: the extreme of nothing is an untyped null. -/
def finish (s : Statistic) (a : Accumulator) : Scalar :=
  (Reducer.statistic s).finishWith (.null .null) a

/-- What a statistic reads of a row; a count reads nothing. -/
def extract (s : Statistic) (measure : Component) (row : Row) : Option Scalar :=
  (Reducer.statistic s).extract measure row

/-- The aggregate reduction of a list of scalars. -/
def reduce (s : Statistic) (values : List Scalar) : Scalar :=
  s.finish ((Reducer.statistic s).run values)

/-- The aggregate reduction of a list of scalars that is cut into slices. -/
def reduceSplit (s : Statistic) (values : Split Scalar) : Scalar :=
  s.finish ((Reducer.statistic s).runSplit values)

/-- The aggregate reduction of a measure over rows. -/
def reduceRows (s : Statistic) (measure : Component) (rows : List Row) : Scalar :=
  s.finish ((Reducer.statistic s).runRows measure rows)

/-- The lineages of rows, counted. -/
def contributions (rows : List Row) : Lineage.Group := Lineage.Group.ofList (rows.map Row.lineage)

/-- The domain of the result of the aggregate form. -/
def outputDomain? (s : Statistic) (input : Domain) : Except EvalError Domain :=
  (Reducer.statistic s).resultDomain? input

end Statistic

end DataCube
