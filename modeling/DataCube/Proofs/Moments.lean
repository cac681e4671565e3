import Mathlib.Algebra.BigOperators.Group.List.Basic
import Mathlib.Algebra.Field.Rat
import Mathlib.Algebra.Order.Ring.Rat
import Mathlib.Tactic.FieldSimp
import Mathlib.Tactic.Ring
import DataCube.Reducer.Moments
import DataCube.Reducer.Split

/-!
# Moments of exact numbers

Read on exact numbers, the moments of a list can be told from how many numbers there are, their sum
and the sum of their squares.  All three add up when lists are appended, and taking in one number
and merging two parts are both additions of them.

* `Moments.ofSums`: the moments in these terms.  `push_ofSums` and `merge_ofSums` are the two
  recurrences.
* `Moments.ofList_eq_ofSums`, `Moments.ofList_eq`: the moments of a list in closed form.
* `Moments.merge_ofList`: merging the moments of two lists gives those of the list of both.
* `moments_mergeable`: these together, and what follows for splits.
-/

namespace DataCube

namespace Moments

variable {α : Type} [Field α]

/-- The moments of so many numbers with this sum and this sum of squares. -/
def ofSums (n : ℕ) (sum squares : α) : Moments α := ⟨n, sum / n, squares - sum ^ 2 / n⟩

/-! ## Recurrences -/

section Recurrences

variable [CharZero α]

/-- One more number is added to the sums. -/
theorem push_ofSums {n : ℕ} {sum : α} (squares : α) (h : n = 0 → sum = 0) (x : α) :
    (ofSums n sum squares).push x = ofSums (n + 1) (sum + x) (squares + x ^ 2) := by
  rcases Nat.eq_zero_or_pos n with rfl | hn
  · rw [h rfl]
    simp [ofSums, push]
  · have hn : (n : α) ≠ 0 := Nat.cast_ne_zero.2 hn.ne'
    have hn' : (n : α) + 1 ≠ 0 := Nat.cast_add_one_ne_zero n
    simp only [ofSums, push, Nat.cast_add, Nat.cast_one, mk.injEq, true_and]
    constructor
    · field_simp
      ring
    · field_simp
      ring

/-- The sums of two parts are added, where a part without numbers has none. -/
theorem merge_ofSums [DecidableEq α] {m n : ℕ} {sum sum' squares squares' : α}
    (hm : m = 0 → sum = 0 ∧ squares = 0) (hn : n = 0 → sum' = 0 ∧ squares' = 0) :
    (ofSums m sum squares).merge (ofSums n sum' squares') =
      ofSums (m + n) (sum + sum') (squares + squares') := by
  rcases Nat.eq_zero_or_pos n with rfl | hn'
  · obtain ⟨rfl, rfl⟩ := hn rfl
    simp [ofSums, merge]
  · rcases Nat.eq_zero_or_pos m with rfl | hm'
    · obtain ⟨rfl, rfl⟩ := hm rfl
      simp [ofSums, merge, hn'.ne']
    · have hm : (m : α) ≠ 0 := Nat.cast_ne_zero.2 hm'.ne'
      have hn : (n : α) ≠ 0 := Nat.cast_ne_zero.2 hn'.ne'
      have hmn : (m : α) + n ≠ 0 := by
        rw [← Nat.cast_add]
        exact Nat.cast_ne_zero.2 (by omega)
      rw [merge, if_neg (show (ofSums n sum' squares').count ≠ 0 from hn),
        if_neg (show (ofSums m sum squares).count ≠ 0 from hm)]
      simp only [ofSums, Nat.cast_add, mk.injEq, true_and]
      constructor
      · field_simp
        ring
      · field_simp
        ring

end Recurrences

/-! ## Lists -/

/-- The sum of the squares. -/
def squareSum (xs : List α) : α := (xs.map (· ^ 2)).sum

/-- The mean, which is zero for no numbers. -/
def meanOf (xs : List α) : α := xs.sum / xs.length

/-- The sum of the squared deviations from the mean. -/
def squaredDeviations (xs : List α) : α := (xs.map fun x => (x - meanOf xs) ^ 2).sum

theorem squareSum_append (xs ys : List α) : squareSum (xs ++ ys) = squareSum xs + squareSum ys := by
  rw [squareSum, List.map_append, List.sum_append]
  rfl

/-- A sum of squared differences in terms of the sums. -/
theorem sum_map_sub_sq (c : α) (xs : List α) :
    (xs.map fun x => (x - c) ^ 2).sum = squareSum xs - 2 * c * xs.sum + xs.length * c ^ 2 := by
  unfold squareSum
  induction xs with
  | nil => simp
  | cons x xs ih =>
    simp only [List.map_cons, List.sum_cons, List.length_cons, Nat.cast_add, Nat.cast_one, ih]
    ring

variable [CharZero α]

theorem squaredDeviations_eq (xs : List α) :
    squaredDeviations xs = squareSum xs - xs.sum ^ 2 / xs.length := by
  rw [squaredDeviations, sum_map_sub_sq, meanOf]
  cases xs with
  | nil => simp
  | cons x xs =>
    have hne : (((x :: xs).length : ℕ) : α) ≠ 0 := Nat.cast_ne_zero.2 (Nat.succ_ne_zero _)
    generalize (((x :: xs).length : ℕ) : α) = n at hne
    field_simp
    ring

/-- Taking in a list adds its sums. -/
theorem foldl_push_ofSums (xs : List α) {n : ℕ} {sum : α} (squares : α) (h : n = 0 → sum = 0) :
    xs.foldl push (ofSums n sum squares) =
      ofSums (n + xs.length) (sum + xs.sum) (squares + squareSum xs) := by
  induction xs generalizing n sum squares with
  | nil => simp [squareSum]
  | cons x xs ih =>
    rw [List.foldl_cons, push_ofSums squares h, ih _ (by omega)]
    simp only [squareSum, List.length_cons, List.sum_cons, List.map_cons]
    rw [add_assoc sum, add_assoc squares, Nat.add_assoc, Nat.add_comm 1]

theorem ofList_eq_ofSums (xs : List α) : ofList xs = ofSums xs.length xs.sum (squareSum xs) := by
  have hempty : (empty : Moments α) = ofSums 0 0 0 := by simp [empty, ofSums]
  rw [ofList, hempty, foldl_push_ofSums xs 0 fun _ => rfl]
  simp

/-- The moments of a list. -/
theorem ofList_eq (xs : List α) : ofList xs = ⟨xs.length, meanOf xs, squaredDeviations xs⟩ := by
  rw [ofList_eq_ofSums, squaredDeviations_eq]
  rfl

theorem ofList_append_comm (xs ys : List α) : ofList (xs ++ ys) = ofList (ys ++ xs) := by
  rw [ofList_eq_ofSums, ofList_eq_ofSums, List.length_append, List.length_append, List.sum_append,
    List.sum_append, squareSum_append, squareSum_append, Nat.add_comm, add_comm xs.sum,
    add_comm (squareSum xs)]

/-- Merging the moments of two lists gives those of the list of both. -/
theorem merge_ofList [DecidableEq α] (xs ys : List α) :
    (ofList xs).merge (ofList ys) = ofList (xs ++ ys) := by
  have hnone (zs : List α) (h : zs.length = 0) : zs.sum = 0 ∧ squareSum zs = 0 := by
    rw [List.length_eq_zero_iff.1 h]
    exact ⟨rfl, rfl⟩
  rw [ofList_eq_ofSums, ofList_eq_ofSums, ofList_eq_ofSums,
    merge_ofSums (hnone xs) (hnone ys), List.length_append, List.sum_append, squareSum_append]

end Moments

/-- On exact numbers the moments of a list are its length, its mean and the sum of the squared
deviations from it, and merging is appending.  So merging is associative and commutative, nothing
changes by merging with the moments of no number, and both variances are those of the whole list
however it is cut into slices. -/
theorem moments_mergeable {α : Type} [Field α] [CharZero α] [DecidableEq α] :
    (∀ xs : List α, Moments.ofList xs =
        ⟨xs.length, Moments.meanOf xs, Moments.squaredDeviations xs⟩) ∧
      Moments.ofList ([] : List α) = .empty ∧
      (∀ xs ys : List α,
        (Moments.ofList xs).merge (Moments.ofList ys) = Moments.ofList (xs ++ ys)) ∧
      (∀ xs ys : List α, (Moments.ofList xs).merge (Moments.ofList ys) =
        (Moments.ofList ys).merge (Moments.ofList xs)) ∧
      (∀ xs ys zs : List α,
        ((Moments.ofList xs).merge (Moments.ofList ys)).merge (Moments.ofList zs) =
          (Moments.ofList xs).merge ((Moments.ofList ys).merge (Moments.ofList zs))) ∧
      (∀ xs : List α, (Moments.ofList xs).merge .empty = Moments.ofList xs ∧
        Moments.empty.merge (Moments.ofList xs) = Moments.ofList xs) ∧
      ∀ slices : Split α,
        slices.reduce Moments.ofList Moments.merge = Moments.ofList slices.toList ∧
        (slices.reduce Moments.ofList Moments.merge).population =
          Moments.squaredDeviations slices.toList / slices.toList.length ∧
        (slices.reduce Moments.ofList Moments.merge).sample =
          Moments.squaredDeviations slices.toList / (slices.toList.length + 1) := by
  refine ⟨Moments.ofList_eq, rfl, Moments.merge_ofList, ?_, ?_, ?_, ?_⟩
  · intro xs ys
    rw [Moments.merge_ofList, Moments.merge_ofList, Moments.ofList_append_comm]
  · intro xs ys zs
    rw [Moments.merge_ofList, Moments.merge_ofList, Moments.merge_ofList, Moments.merge_ofList,
      List.append_assoc]
  · intro xs
    have hright := Moments.merge_ofList xs []
    have hleft := Moments.merge_ofList [] xs
    rw [List.append_nil] at hright
    exact ⟨hright, hleft⟩
  · intro slices
    have hreduce : slices.reduce Moments.ofList Moments.merge = Moments.ofList slices.toList :=
      slices.reduce_eq fun xs ys => (Moments.merge_ofList xs ys).symm
    rw [hreduce, Moments.ofList_eq]
    exact ⟨rfl, rfl, rfl⟩

/-- Eight numbers cut in the middle have the variance 4. -/
theorem moments_mergeable_halves :
    ((Split.join (.slice [2, 4, 4, 4]) (.slice [5, 5, 7, 9])).reduce Moments.ofList
      Moments.merge : Moments ℚ).population = 4 := by
  have h := @moments_mergeable ℚ _ _ _
  rw [(h.2.2.2.2.2.2 _).2.1]
  norm_num [Moments.squaredDeviations, Moments.meanOf, Split.toList]

end DataCube
