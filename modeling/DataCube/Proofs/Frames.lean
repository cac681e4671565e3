import DataCube.Proofs.WholePartitions

/-!
# Frames

Every row of an analytic is computed from its frame: the whole partition if the window names no sort
keys, else the rows of the sorted partition up to the row itself.  The values of a sorted partition
come from one pass, which takes a result after each row.  Each of these results is that of a pass of
its own over the frame.

* `Reducer.getElem?_running`: the result that a pass takes after a row.
* `WindowSpec.frame`, `Reducer.column_frame`: the column of a measure, place by place.
* `Reducer.FramesOf`: the rows that are made of a sorted partition.
* `analytic_frames`: the rows of an analytic, partition by partition.
-/

namespace DataCube

/-! ## Passes over rows -/

namespace Reducer

/-- The result that a pass takes after a row is that of the rows up to it. -/
theorem getElem?_running (r : Reducer) (m : Component) (a : Accumulator) {rows : List Row} {i : Nat}
    (hi : i < rows.length) :
    (r.running m a rows)[i]? = some (r.finish
      ((rows.take (i + 1)).foldl (fun a row => a.accumulate (r.extract m row)) a)) := by
  induction rows generalizing a i with
  | nil => nomatch hi
  | cons row rows ih =>
    cases i with
    | zero => rfl
    | succ i =>
      rw [running, List.getElem?_cons_succ, ih _ (Nat.lt_of_succ_lt_succ hi), List.take_succ_cons,
        List.foldl_cons]

end Reducer

/-! ## Frames -/

/-- The rows that the measures for a place in a sorted partition are reduced from: those up to the
place if the window names sort keys, else all of them. -/
def WindowSpec.frame (spec : WindowSpec) (sorted : List Row) (i : Nat) : List Row :=
  if spec.orderBy.isEmpty then sorted else sorted.take (i + 1)

/-- A window that fills in no sort keys sorts if it names some. -/
theorem Window.isOrdered_of_resolve? {schema : Schema} {spec : WindowSpec} {w : Window}
    (hw : resolve? schema spec .whole = .ok w) : w.isOrdered = ! spec.orderBy.isEmpty := by
  obtain ⟨ordering, hkeys, hplaces⟩ := keys_of_resolve? hw
  rw [isOrdered, ← forall₂_isEmpty hplaces, forall₂_isEmpty (hkeys.ordering_given (Or.inl rfl))]

namespace Reducer

variable {r : Reducer} {target : Schema} {label : String} {spec : WindowSpec} {w : Window}
  {d : DataSet} {sorted part : List Row}

/-- Each place of a column has the reduction of the frame. -/
theorem column_frame (r : Reducer) (hw : w.isOrdered = ! spec.orderBy.isEmpty) (m : Component)
    {i : Nat} (hi : i < sorted.length) :
    (r.column w.isOrdered sorted m).getD i (.null .null) =
      r.reduce ((spec.frame sorted i).map (·.valueOf m)) := by
  rw [hw, WindowSpec.frame, ← reduceRows_eq_reduce]
  cases spec.orderBy.isEmpty with
  | true => exact getD_column_whole r m hi
  | false =>
    have hget := r.getElem?_running m r.accumulator hi
    rw [column, Bool.not_false, if_pos rfl, List.getD_eq_getElem?_getD, hget]
    rfl

/-- The rows that are made of a sorted partition, in its order, each measure reduced from the frame
of its row. -/
structure FramesOf (r : Reducer) (spec : WindowSpec) (target : Schema) (label : String)
    (sorted made : List Row) : Prop where
  length : made.length = sorted.length
  rowAt : ∀ (i : Nat) (own : Row), sorted[i]? = some own → ∃ row, made[i]? = some row ∧
    r.RowPlaced target label (fun m => r.reduce ((spec.frame sorted i).map (·.valueOf m))) own row

theorem framesOf_partition (hsorted : ∀ own ∈ sorted, own.schema = d.schema ∧ own.WellFormed)
    (htarget : d.schema.mapMeasures (fun m => r.outputDomain? m.domain) = .ok target)
    (hw : w.isOrdered = ! spec.orderBy.isEmpty)
    (h : r.partition w.isOrdered d.schema.measures target label sorted = .ok part) :
    r.FramesOf spec target label sorted part := by
  have hrows := rowPlaced_partition hsorted htarget h
  refine ⟨by simpa using hrows.length_eq.symm, fun i own hi => ?_⟩
  have hplace := forall₂_getElem? hrows i
  rw [List.getElem?_zipIdx, hi, Option.map_some, Nat.zero_add] at hplace
  generalize part[i]? = place at hplace
  cases hplace with
  | some hrow =>
    refine ⟨_, rfl, ?_⟩
    simp only [column_frame r hw _ (List.getElem?_eq_some_iff.1 hi).1] at hrow
    exact hrow

end Reducer

/-- If an analytic drains, there is one row for every row of the operand: partition by partition in
strictly ascending order of key, each in the stable order of the sort keys, or in the order of the
operand if there are none.  A row keeps its identifiers and attributes, and each of its measures is
reduced from the values of the measure in the frame of the row, and fitted into its column.  Where
the stored name of a measure refers to another one the value goes through the column of that one
first. -/
theorem analytic_frames {r : Reducer} {x : Expr} {spec : WindowSpec} {scope : Scope} {d : DataSet}
    {rows made : List Row} (hx : x.eval scope = .ok (.dataset d)) (hd : d.WellFormed)
    (hrows : d.collect = .ok rows) (hmade : (Expr.analytic r x spec).DrainsTo scope made) :
    ∃ ordering partition groups target parts,
      Window.Keys d.schema spec .whole ordering partition ∧
      Window.Partitioned ordering partition rows groups ∧
      (spec.orderBy = [] → ∀ g ∈ groups, g.rows =
        rows.filter fun row => Scalar.orderLists (partition.map row.valueOf) g.key = .eq) ∧
      d.schema.mapMeasures (fun m => r.outputDomain? m.domain) = .ok target ∧
      made.length = rows.length ∧ made = parts.flatten ∧
      List.Forall₂ (fun g part => r.FramesOf spec target (Expr.analytic r x spec).text g.rows part)
        groups parts := by
  obtain ⟨w, target, groups, parts, hw, htarget, hgroups, hparts, rfl⟩ :=
    (Reducer.drainsTo_analytic hx).1 hmade
  obtain ⟨ordering, groups', hgroups', hkeys, hpartitioned⟩ :=
    Window.partitioned_partitions hd hrows hw
  cases hgroups.symm.trans hgroups'
  have hframes : List.Forall₂ (fun g part =>
      r.FramesOf spec target (Expr.analytic r x spec).text g.rows part) groups parts := by
    refine (forall₂_mem hparts).imp fun g part h => ?_
    exact Reducer.framesOf_partition (fun own hown => hd.of_mem hrows (hpartitioned.mem h.2.1 hown))
      htarget (Window.isOrdered_of_resolve? hw) h.1
  refine ⟨ordering, w.partition, groups, target, parts, hkeys, hpartitioned, fun hnone g hg => ?_,
    htarget, hpartitioned.length_flatten (hframes.imp fun _ _ h => h.length), rfl, hframes⟩
  have hordering := hkeys.ordering_given (Or.inl rfl)
  rw [hnone] at hordering
  cases hordering
  exact hpartitioned.rows_eq hg

/-- The number of rows up to each row, in descending order of the second identifier among the rows
with the same first one. -/
def countSoFar : Expr := .analytic (.statistic .count) (.var "ds") ⟨["k"], [⟨"j", .desc⟩]⟩

/-- The rows with these numbers. -/
def countsSoFar : List Row :=
  [⟨keyedTwice, [.string "a", .integer 2, .integer 1], .node countSoFar.text [.known "ds"]⟩,
    ⟨keyedTwice, [.string "a", .integer 1, .integer 2], .node countSoFar.text [.known "ds"]⟩,
    ⟨keyedTwice, [.string "b", .integer 1, .integer 1], .node countSoFar.text [.known "ds"]⟩]

/-- Each of the numbers is that of a frame. -/
theorem analytic_frames_countSoFar :
    keyedTwiceDataSet.WellFormed ∧ countSoFar.DrainsTo keyedTwiceScope countsSoFar ∧
      ∃ groups target parts, countsSoFar = List.flatten parts ∧
        List.Forall₂ (fun g part => (Reducer.statistic .count).FramesOf ⟨["k"], [⟨"j", .desc⟩]⟩
          target countSoFar.text (Group.rows g) part) groups parts := by
  have hd : keyedTwiceDataSet.WellFormed := DataSet.wellFormed_named named_keyedTwiceDataSet
  have hx : (Expr.var "ds").eval keyedTwiceScope = .ok (.dataset keyedTwiceDataSet) := rfl
  have hpartitions : Window.partitions ⟨[⟨"k", .identifier, .string⟩], [(1, .desc)]⟩
      keyedTwiceDataSet = .ok
        [⟨[.string "a"], [⟨keyedTwice, [.string "a", .integer 2, .integer 7], .known "ds"⟩,
            ⟨keyedTwice, [.string "a", .integer 1, .integer 4], .known "ds"⟩]⟩,
          ⟨[.string "b"],
            [⟨keyedTwice, [.string "b", .integer 1, .null .integer], .known "ds"⟩]⟩] := by
    rw [Window.partitions, groupBy_keyedTwiceDataSet]
    show Except.ok [Group.mk _ (Window.sortRows _ _), Group.mk _ (Window.sortRows _ _)] = _
    rw [Window.sortRows_pair (by decide), Window.sortRows_of_pairwise (List.pairwise_singleton _ _)]
  have hcounts : countSoFar.DrainsTo keyedTwiceScope countsSoFar :=
    (Reducer.drainsTo_analytic hx).2
      ⟨_, _, _, _, rfl, rfl, hpartitions, .cons rfl (.cons rfl .nil), rfl⟩
  obtain ⟨-, -, groups, target, parts, -, -, -, -, -, hflatten, hframes⟩ :=
    analytic_frames hx hd rfl hcounts
  exact ⟨hd, hcounts, groups, target, parts, hflatten, hframes⟩

end DataCube
