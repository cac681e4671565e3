/-!
# Moments

The count, mean and sum of squared deviations of the numbers seen so far, kept up to date one number
at a time and merged from two parts. The arithmetic is that of any type with the four operations, so
the same formulas run on doubles and can be read on exact numbers.
-/

namespace DataCube

/-- The count, the mean and the sum of squared deviations from the mean. -/
structure Moments (α : Type) where
  count : α
  mean : α
  deviations : α
deriving DecidableEq

namespace Moments

variable {α : Type} [Zero α] [One α] [Add α] [Sub α] [Mul α] [Div α] [DecidableEq α]

/-- The moments of no number. -/
def empty : Moments α := ⟨0, 0, 0⟩

/-- The moments with one more number. -/
def push (s : Moments α) (x : α) : Moments α :=
  let count := s.count + 1
  let delta := x - s.mean
  let mean := s.mean + delta / count
  ⟨count, mean, s.deviations + delta * (x - mean)⟩

/-- The moments of a list of numbers. -/
def ofList (xs : List α) : Moments α := xs.foldl push empty

/-- The moments of two parts together. -/
def merge (s t : Moments α) : Moments α :=
  if t.count = 0 then s
  else if s.count = 0 then t
  else
    let delta := t.mean - s.mean
    let count := s.count + t.count
    { count
      mean := s.mean + delta * t.count / count
      deviations :=
        s.deviations + t.deviations + delta * delta * s.count * t.count / count }

/-- The mean squared deviation. -/
def population (s : Moments α) : α := s.deviations / s.count

/-- The sum of squared deviations over one more than the count. -/
def sample (s : Moments α) : α := s.deviations / (s.count + 1)

end Moments

end DataCube
