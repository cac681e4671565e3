/-!
# Splits

A binary tree of adjacent slices of a list. Work on a list can be shared by working on the slices
and joining the results of neighbours.
-/

namespace DataCube

/-- A list cut into adjacent slices, which may be empty. -/
inductive Split (α : Type) where
  | slice (xs : List α)
  | join (left right : Split α)

namespace Split

variable {α β : Type}

/-- The list that is cut. -/
def toList : Split α → List α
  | slice xs => xs
  | join left right => left.toList ++ right.toList

/-- Works on every slice and joins the results of neighbours. -/
def reduce (work : List α → β) (combine : β → β → β) : Split α → β
  | slice xs => work xs
  | join left right => combine (left.reduce work combine) (right.reduce work combine)

/-- Work that turns appending into combining comes to the same for every way to cut the list. -/
theorem reduce_eq {work : List α → β} {combine : β → β → β}
    (h : ∀ xs ys, work (xs ++ ys) = combine (work xs) (work ys)) (split : Split α) :
    split.reduce work combine = work split.toList := by
  induction split with
  | slice xs => rfl
  | join left right hleft hright => rw [reduce, hleft, hright, toList, h]

/-- Cuts a list in halves, and the halves again, `depth` times. -/
def halve : (depth : Nat) → List α → Split α
  | 0, xs => slice xs
  | depth + 1, xs =>
    join (halve depth (xs.take (xs.length / 2))) (halve depth (xs.drop (xs.length / 2)))

@[simp] theorem toList_halve (depth : Nat) (xs : List α) : (halve depth xs).toList = xs := by
  induction depth generalizing xs with
  | zero => rfl
  | succ depth ih => simp [halve, toList, ih]

end Split

end DataCube
