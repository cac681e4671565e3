import DataCube.Proofs.Contributions
import DataCube.Proofs.Grouping
import DataCube.Proofs.IntegerSums
import DataCube.Proofs.ReducedRows
import DataCube.Proofs.RuleDepth

/-!
# Evaluation with shared work

Datasets with many rows are worked on in parallel: rows are grouped in slices, and so are the
measures of a group or of a partition reduced and its lineages counted.  How the rows are cut is
open.  Grouping and counting give the same for every cut, and so do reducers that do not round; sums
and averages do where no sum of neighbours has to be rounded.  Then an expression evaluates to the
same datasets however the work is shared, in its operands and rules as in itself.

* `Sharing`: how the work is shared.  `Statistic.runShared`, `Reducer.runShared` and
  `Shift.runShared` are what the operators make of a dataset in this way.
* `Reducer.Shareable`: it makes no difference how these rows are cut.
* `Meaning.sharedNode`: one step of evaluation.  `sharedNode_eq` says that it comes to the same.
* `shared_evaluation`: the induction over the steps.
-/

namespace DataCube

/-! ## Slices -/

namespace Split

variable {α β γ : Type}

/-- The same cut of the list of images. -/
def map (f : α → β) : Split α → Split β
  | slice xs => slice (xs.map f)
  | join left right => join (left.map f) (right.map f)

theorem toList_map (f : α → β) (split : Split α) : (split.map f).toList = split.toList.map f := by
  induction split with
  | slice xs => rfl
  | join left right hleft hright => rw [map, toList, hleft, hright, toList, List.map_append]

theorem reduce_map (f : α → β) (work : List β → γ) (combine : γ → γ → γ) (split : Split α) :
    (split.map f).reduce work combine = split.reduce (fun xs => work (xs.map f)) combine := by
  induction split with
  | slice xs => rfl
  | join left right hleft hright => rw [map, reduce, hleft, hright, reduce]

end Split

/-- How the work on rows is shared: the slices that the rows of a group are cut into to reduce a
measure, those that all rows are cut into to group them, and the tables of groups that a pass over
these ends with, in which keys are found by a hash. -/
structure Sharing where
  slices : Component → List Row → Split Row
  toList_slices : ∀ m rows, (slices m rows).toList = rows
  parts : List (Nat × Row) → Split (Nat × Row)
  toList_parts : ∀ rows, (parts rows).toList = rows
  hash : List Scalar → UInt64
  table : List Nat → Split (Nat × Row) → PartitionMap
  built : ∀ positions split, PartitionMap.Built hash positions split (table positions split)

namespace Sharing

/-- Everything is cut in halves, and the halves again, `depth` times. -/
def halving (depth : Nat) : Sharing where
  slices _ := Split.halve depth
  toList_slices _ := Split.toList_halve depth
  parts := Split.halve depth
  toList_parts := Split.toList_halve depth
  hash _ := 0
  table positions split := split.reduce (PartitionMap.ofRows positions) PartitionMap.merge
  built := PartitionMap.built_reduce fun _ => 0

/-- The accumulator of a measure over rows. -/
def runRows (sharing : Sharing) (r : Reducer) (m : Component) (rows : List Row) : Accumulator :=
  (sharing.slices m rows).reduce (r.runRows m) Accumulator.combine

/-- The lineages of rows, counted along with the first measure if there is one. -/
def contributions (sharing : Sharing) (measures : List Component) (rows : List Row) :
    Lineage.Group :=
  match measures with
  | [] => Statistic.contributions rows
  | m :: _ => (sharing.slices m rows).reduce Statistic.contributions Lineage.Group.merge

/-- The groups of the rows by the values of the given components. -/
def groupBy (sharing : Sharing) (d : DataSet) (keys : List Component) :
    Except EvalError (List Group) := do
  let positions ← d.keyPositions keys
  let rows ← d.collect
  pure (sharing.table positions (sharing.parts (numbered rows))).groups

/-- The sorted partitions of a dataset. -/
def partitions (sharing : Sharing) (w : Window) (d : DataSet) : Except EvalError (List Group) := do
  let groups ← sharing.groupBy d w.partition
  pure (groups.map fun g => { g with rows := w.sortRows g.rows })

variable (sharing : Sharing)

/-- Lineages are counted alike however they are cut. -/
theorem contributions_eq (measures : List Component) (rows : List Row) :
    sharing.contributions measures rows = Statistic.contributions rows := by
  cases measures with
  | nil => rfl
  | cons m _ => rw [contributions, Statistic.contributions_slices, sharing.toList_slices]

/-- Rows are grouped alike however they are cut and whatever the tables are. -/
theorem groupBy_eq (d : DataSet) (keys : List Component) :
    sharing.groupBy d keys = d.groupBy keys := by
  have hgroups (positions : List Nat) (rows : List Row) :
      (sharing.table positions (sharing.parts (numbered rows))).groups =
        (PartitionMap.ofRows positions (numbered rows)).groups := by
    have hrepresents := (sharing.built positions (sharing.parts (numbered rows))).represents
    rw [sharing.toList_parts] at hrepresents
    exact hrepresents.grouped.unique (grouped_ofRows positions rows)
  simp only [groupBy, hgroups]
  rfl

theorem partitions_eq (w : Window) (d : DataSet) : sharing.partitions w d = w.partitions d := by
  rw [partitions, sharing.groupBy_eq, Window.partitions]

end Sharing

/-! ## Operators -/

/-- The dataset with its measures shifted within a window. -/
def Shift.runShared (direction : Shift) (sharing : Sharing) (offset : Nat) (default : Option Scalar)
    (w : Window) (label : String) (d : DataSet) : DataSet :=
  .derived d.schema fun _ => .ofResult do
    let groups ← sharing.partitions w d
    Window.perPartition groups (direction.partition offset default d.schema label)

theorem Shift.runShared_eq (direction : Shift) (sharing : Sharing) (offset : Nat)
    (default : Option Scalar) (w : Window) (label : String) (d : DataSet) :
    direction.runShared sharing offset default w label d =
      direction.run offset default w label d := by
  rw [runShared, run, sharing.partitions_eq]

namespace Reducer

/-- The accumulator of a measure over the rows is that of a single pass, however they are cut. -/
def Shareable (r : Reducer) (m : Component) (rows : List Row) : Prop :=
  ∀ split : Split Row, split.toList = rows →
    split.reduce (r.runRows m) Accumulator.combine = r.runRows m rows

theorem shareable_of_roundingFree {r : Reducer} (hr : r ∈ roundingFree) (m : Component)
    (rows : List Row) : r.Shareable m rows := by
  rintro split rfl
  exact reduce_runRows_eq hr m split

theorem shareable_of_exactSums {s : Statistic} (hs : s = .sum ∨ s = .average) {m : Component}
    {rows : List Row} (hvalues : ∀ row ∈ rows, (row.valueOf m).domain = .integer)
    (hexact : Binary64.ExactSums
      ((Scalar.integersOf (rows.map (·.valueOf m))).map Binary64.ofInt)) :
    (statistic s).Shareable m rows := by
  rintro split rfl
  have hdomains : ∀ v ∈ (split.map (·.valueOf m)).toList, v.domain = .integer := by
    rw [Split.toList_map]
    exact List.forall_mem_map.2 hvalues
  have hnumbers := Accumulator.numbers_eq hdomains
  calc split.reduce ((statistic s).runRows m) Accumulator.combine
      = (statistic s).runSplit (split.map (·.valueOf m)) := by
        rw [runSplit, Split.reduce_map]
        exact congrArg (split.reduce · Accumulator.combine)
          (funext fun rows => runRows_eq_run _ m rows)
    _ = (statistic s).run (split.map (·.valueOf m)).toList := by
        refine runSplit_eq_run_of_exactSums hs hdomains ?_
        rw [hnumbers, Split.toList_map]
        exact hexact
    _ = (statistic s).runRows m split.toList := by rw [Split.toList_map, runRows_eq_run]

variable {r : Reducer} {m : Component} {rows : List Row}

theorem Shareable.runRows_eq (h : r.Shareable m rows) (sharing : Sharing) :
    sharing.runRows r m rows = r.runRows m rows := h _ (sharing.toList_slices m rows)

/-- The results for the rows of a partition. Those up to each row are found one after the other. -/
def sharedColumn (r : Reducer) (sharing : Sharing) (isRunning : Bool) (rows : List Row)
    (measure : Component) : List Scalar :=
  if isRunning then r.running measure r.accumulator rows
  else List.replicate rows.length (r.finish (sharing.runRows r measure rows))

/-- A sorted partition with its measures reduced. -/
def sharedPartition (r : Reducer) (sharing : Sharing) (isRunning : Bool) (measures : List Component)
    (target : Schema) (label : String) (rows : List Row) : Except EvalError (List Row) :=
  let columns := measures.map fun m => (m, r.sharedColumn sharing isRunning rows m)
  rows.zipIdx.mapM fun e => row target label columns e.1 e.2

/-- The dataset with its measures reduced within a window. -/
def runShared (r : Reducer) (sharing : Sharing) (w : Window) (target : Schema) (label : String)
    (d : DataSet) : DataSet :=
  .derived target fun _ => .ofResult do
    let groups ← sharing.partitions w d
    Window.perPartition groups
      (r.sharedPartition sharing w.isOrdered d.schema.measures target label)

theorem sharedPartition_eq {isRunning : Bool} {measures : List Component}
    (h : isRunning = false → ∀ m ∈ measures, r.Shareable m rows) (sharing : Sharing)
    (target : Schema) (label : String) :
    r.sharedPartition sharing isRunning measures target label rows =
      r.partition isRunning measures target label rows := by
  have hcolumns : (measures.map fun m => (m, r.sharedColumn sharing isRunning rows m)) =
      measures.map fun m => (m, r.column isRunning rows m) := by
    refine List.map_congr_left fun m hm => ?_
    cases isRunning with
    | true => rfl
    | false => rw [sharedColumn, column, (h rfl m hm).runRows_eq]; rfl
  rw [sharedPartition, hcolumns, partition]

theorem runShared_eq {w : Window} {d : DataSet}
    (h : w.isOrdered = false → ∀ groups, w.partitions d = .ok groups → ∀ g ∈ groups,
      ∀ m ∈ d.schema.measures, r.Shareable m g.rows)
    (sharing : Sharing) (target : Schema) (label : String) :
    r.runShared sharing w target label d = r.runWindow w target label d := by
  have hrows : (sharing.partitions w d >>= fun groups => Window.perPartition groups
        (r.sharedPartition sharing w.isOrdered d.schema.measures target label)) =
      (w.partitions d >>= fun groups => Window.perPartition groups
        (r.partition w.isOrdered d.schema.measures target label)) := by
    rw [sharing.partitions_eq]
    cases hgroups : w.partitions d with
    | error e => rfl
    | ok groups =>
      refine congrArg (List.flatten <$> ·) (mapM_congr fun g hg => ?_)
      exact sharedPartition_eq (fun hw => h hw groups hgroups g hg) sharing target label
  rw [runShared, runWindow, hrows]

end Reducer

namespace Statistic

/-- The groups to reduce. -/
def sharedGroups (sharing : Sharing) (keys : List Component) (d : DataSet) :
    Except EvalError (List Group) :=
  if keys.isEmpty then do
    let rows ← d.collect
    pure [⟨[], rows⟩]
  else sharing.groupBy d keys

/-- The row of a group. -/
def sharedGroupRow (s : Statistic) (sharing : Sharing) (keys measures : List Component)
    (target : Schema) (g : Group) : Except EvalError Row :=
  let reduced := measures.map fun m => (m, s.finish (sharing.runRows (.statistic s) m g.rows))
  ((Draft.empty.setAll (keys.zip g.key)).setAll reduced).build target
    (.group (sharing.contributions measures g.rows))

/-- The dataset of the reduced groups. -/
def runShared (s : Statistic) (sharing : Sharing) (keys : List Component) (target : Schema)
    (d : DataSet) : DataSet :=
  .derived target fun _ => .ofResult do
    let groups ← sharedGroups sharing keys d
    groups.mapM (s.sharedGroupRow sharing keys d.schema.measures target)

variable {s : Statistic}

theorem sharedGroupRow_eq {measures : List Component} {g : Group}
    (h : ∀ m ∈ measures, (Reducer.statistic s).Shareable m g.rows) (sharing : Sharing)
    (keys : List Component) (target : Schema) :
    s.sharedGroupRow sharing keys measures target g = s.groupRow keys measures target g := by
  have hreduced : (measures.map fun m =>
        (m, s.finish (sharing.runRows (.statistic s) m g.rows))) =
      measures.map fun m => (m, s.reduceRows m g.rows) :=
    List.map_congr_left fun m hm => by rw [(h m hm).runRows_eq, reduceRows]
  rw [sharedGroupRow, hreduced, sharing.contributions_eq, groupRow]

theorem runShared_eq {keys : List Component} {d : DataSet}
    (h : ∀ gs, groups keys d = .ok gs → ∀ g ∈ gs, ∀ m ∈ d.schema.measures,
      (Reducer.statistic s).Shareable m g.rows)
    (sharing : Sharing) (target : Schema) :
    s.runShared sharing keys target d = s.runGroups keys target d := by
  have hrows : (sharedGroups sharing keys d >>= fun gs =>
        gs.mapM (s.sharedGroupRow sharing keys d.schema.measures target)) =
      (groups keys d >>= fun gs => gs.mapM (s.groupRow keys d.schema.measures target)) := by
    have hgroups : sharedGroups sharing keys d = groups keys d := by
      rw [sharedGroups, sharing.groupBy_eq, groups]
    rw [hgroups]
    cases hgs : groups keys d with
    | error e => rfl
    | ok gs => exact mapM_congr fun g hg => sharedGroupRow_eq (h gs hgs g hg) sharing keys target
  rw [runShared, runGroups, hrows]

end Statistic

/-! ## Expressions -/

/-- What is made of the dataset of a value matters only where there is one. -/
theorem bind_asDataSet_congr {c : Except EvalError Value} {refuse : Scalar → EvalError}
    {f g : DataSet → Except EvalError Value} (h : ∀ d, c = .ok (.dataset d) → f d = g d) :
    (do f (← (← c).asDataSet refuse)) = (do g (← (← c).asDataSet refuse)) := by
  cases c with
  | error e => rfl
  | ok v =>
    cases v with
    | scalar v => rfl
    | dataset d => exact h d rfl

namespace Expr

/-- The work on the operand of the node can be shared: whatever the node reduces over several rows
comes to the same for every cut. -/
def Shareable (e : Expr) (scope : Scope) : Prop :=
  match e with
  | aggregate s x _ => ∀ d, x.eval scope = .ok (.dataset d) →
    ∀ keys gs, Statistic.groups keys d = .ok gs → ∀ g ∈ gs,
      ∀ m ∈ d.schema.measures, (Reducer.statistic s).Shareable m g.rows
  | analytic r x _ => ∀ d, x.eval scope = .ok (.dataset d) →
    ∀ w : Window, w.isOrdered = false → ∀ gs, w.partitions d = .ok gs → ∀ g ∈ gs,
      ∀ m ∈ d.schema.measures, r.Shareable m g.rows
  | _ => True

/-- The reducer of an aggregate or an analytic. -/
def reducer? : Expr → Option Reducer
  | aggregate s _ _ => some (.statistic s)
  | analytic r _ _ => some r
  | _ => none

theorem shareable_of_roundingFree {e : Expr}
    (h : ∀ r, e.reducer? = some r → r ∈ Reducer.roundingFree) (scope : Scope) :
    e.Shareable scope := by
  cases e with
  | aggregate s x names =>
    exact fun _ _ _ _ _ g _ m _ => Reducer.shareable_of_roundingFree (h _ rfl) m g.rows
  | analytic r x spec =>
    exact fun _ _ _ _ _ _ g _ m _ => Reducer.shareable_of_roundingFree (h _ rfl) m g.rows
  | _ => trivial

end Expr

namespace Meaning

variable {m : Meaning} {e : Expr} {scope : Scope}

/-- The value of an expression with shared work on its operand, given what the operands, the clauses
and the rules mean. -/
def sharedNode (m : Meaning) (sharing : Sharing) (e : Expr) (scope : Scope) :
    Except EvalError Value :=
  match e with
  | .shift direction x offset default window => do
    let d ← (← m.value x scope).asDataSet (scalarUnsupported direction.text)
    let w ← Window.resolve? d.schema window .identifiers
    pure (.dataset (direction.runShared sharing offset default w e.text d))
  | .aggregate s x groupBy => do
    let d ← (← m.value x scope).asDataSet (scalarUnsupported s.text)
    let target ← s.outputSchema d.schema groupBy
    let keys ← Statistic.groupKeys? d.schema groupBy
    pure (.dataset (s.runShared sharing keys target d))
  | .analytic r x window => do
    let d ← (← m.value x scope).asDataSet (scalarUnsupported r.text)
    let target ← r.outputSchema d.schema window
    let w ← Window.resolve? d.schema window .whole
    pure (.dataset (r.runShared sharing w target e.text d))
  | e => m.valueNode e scope

/-- So many steps with shared work within one another. -/
def sharedWithin (cut : Meaning) (sharing : Sharing) : (depth : Nat) → Meaning
  | 0 => cut
  | depth + 1 =>
    let m := cut.sharedWithin sharing depth
    ⟨m.shapeNode, m.sharedNode sharing⟩

/-- Typing has no rows to share work on. -/
theorem shape_sharedWithin (cut : Meaning) (sharing : Sharing) (n : Nat) :
    (cut.sharedWithin sharing n).shape = (cut.within n).shape := by
  induction n with
  | zero => rfl
  | succ n ih =>
    show (cut.sharedWithin sharing n).shapeNode = (cut.within n).shapeNode
    funext e scope
    cases e <;> simp only [shapeNode, ih]

/-- One step comes to the same, where operands are evaluated rightly. -/
theorem sharedNode_eq (hvalue : ∀ x ∈ e.operands, m.value x scope = x.eval scope)
    (h : e.Shareable scope) (sharing : Sharing) :
    m.sharedNode sharing e scope = m.valueNode e scope := by
  cases e with
  | shift direction x offset default window =>
    simp only [sharedNode, valueNode, Shift.runShared_eq]
  | aggregate s x groupBy =>
    simp only [sharedNode, valueNode, hvalue x List.mem_cons_self]
    refine bind_asDataSet_congr fun d hd => ?_
    have hrun (keys : List Component) (target : Schema) :
        s.runShared sharing keys target d = s.runGroups keys target d :=
      Statistic.runShared_eq (h d hd keys) sharing target
    simp only [hrun]
  | analytic r x window =>
    simp only [sharedNode, valueNode, hvalue x List.mem_cons_self]
    refine bind_asDataSet_congr fun d hd => ?_
    have hrun (w : Window) (target : Schema) (label : String) :
        r.runShared sharing w target label d = r.runWindow w target label d :=
      Reducer.runShared_eq (h d hd w) sharing target label
    simp only [hrun]
  | _ => rfl

end Meaning

section

variable {w : Workspace} {rank : Statement → Nat} {n depth : Nat} {e : Expr} {scope : Scope}

/-- The nodes that evaluation can come to: those of the expression and of the rules. -/
def Workspace.Reaches (w : Workspace) (e x : Expr) : Prop :=
  e.Has x ∨ ∃ s ∈ w.rules.values, s.expr.Has x

theorem Workspace.Reaches.of_operand {x y : Expr} (hx : x ∈ e.operands) (h : w.Reaches x y) :
    w.Reaches e y := h.imp_left (·.of_operand hx)

theorem Workspace.Reaches.of_rule {s : Statement} {y : Expr} (hs : s ∈ w.rules.values)
    (h : w.Reaches s.expr y) : w.Reaches e y := Or.inr (h.elim (⟨s, hs, ·⟩) id)

/-- With enough steps, evaluation with shared work is not cut off and comes to the same. -/
theorem value_sharedWithin (hw : w.Ranked rank) (cut : Meaning) (sharing : Sharing)
    (hscope : scope.workspace = w) (h : w.Affords rank e n depth)
    (hshare : ∀ x, w.Reaches e x → ∀ inner : Scope, inner.root = scope.root → x.Shareable inner) :
    (cut.sharedWithin sharing n).value e scope =
      e.evalWith ⟨scope.root.ruleShape, scope.root.valueOfRule depth⟩ scope := by
  induction n generalizing e scope depth with
  | zero => exact absurd rfl h.pos
  | succ n ih =>
    have hinside (x : Expr) (inner : Scope) (depth' : Nat)
        (hx : x ∈ e.operands ∨ ∃ s ∈ w.rules.values, x = s.expr) (hroot : inner.root = scope.root)
        (hinner : inner.workspace = w) (h' : w.Affords rank x n depth') :
        (cut.sharedWithin sharing n).value x inner =
          x.evalWith ⟨inner.root.ruleShape, inner.root.valueOfRule depth'⟩ inner := by
      refine ih hinner h' fun y hy inner' hroot' => ?_
      refine hshare y ?_ inner' (hroot'.trans hroot)
      rcases hx with hx | ⟨s, hs, rfl⟩
      · exact hy.of_operand hx
      · exact hy.of_rule hs
    -- the operands are evaluated to the datasets that the work is shared on
    have hoperand (x : Expr) (hx : x ∈ e.operands) :
        (cut.sharedWithin sharing n).value x scope = x.eval scope :=
      (hinside x scope depth (Or.inl hx) rfl hscope (h.operand hx)).trans
        ((value_within hw cut hscope (h.operand hx)).symm.trans
          (value_within_eq_eval hw cut hscope (h.operand hx)))
    calc (cut.sharedWithin sharing (n + 1)).value e scope
        = (cut.sharedWithin sharing n).valueNode e scope :=
          Meaning.sharedNode_eq hoperand (hshare e (Or.inl e.has_self) scope rfl) sharing
      _ = e.evalWith ⟨scope.root.ruleShape, scope.root.valueOfRule depth⟩ scope :=
          valueNode_eq_evalWith hw cut hscope h (Meaning.shape_sharedWithin cut sharing n) hinside

/-- However the work is shared, an expression evaluates to the same, if it makes no difference for
the aggregates and analytics in it and in the rules.  The rows of clauses are evaluated with shared
work too. -/
theorem shared_evaluation (hw : w.Ranked rank) (cut : Meaning) (sharing : Sharing)
    (hscope : scope.workspace = w) (hn : e.height + w.height ≤ n)
    (hshare : ∀ x, w.Reaches e x → ∀ inner : Scope, inner.root = scope.root → x.Shareable inner) :
    (cut.sharedWithin sharing n).value e scope = e.eval scope := by
  have h : w.Affords rank e n w.size := .all hn le_rfl
  calc (cut.sharedWithin sharing n).value e scope
      = e.evalWith ⟨scope.root.ruleShape, scope.root.valueOfRule w.size⟩ scope :=
        value_sharedWithin hw cut sharing hscope h hshare
    _ = (cut.within n).value e scope := (value_within hw cut hscope h).symm
    _ = e.eval scope := value_within_eq_eval hw cut hscope h

/-- In particular where all reducers are free of rounding. -/
theorem shared_evaluation_of_roundingFree (hw : w.Ranked rank) (cut : Meaning) (sharing : Sharing)
    (hscope : scope.workspace = w) (hn : e.height + w.height ≤ n)
    (hfree : ∀ x, w.Reaches e x → ∀ r, x.reducer? = some r → r ∈ Reducer.roundingFree) :
    (cut.sharedWithin sharing n).value e scope = e.eval scope :=
  shared_evaluation hw cut sharing hscope hn fun x hx inner _ =>
    Expr.shareable_of_roundingFree (hfree x hx) inner

end

end DataCube
