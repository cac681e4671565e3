import Mathlib.Data.List.ReduceOption
import DataCube.Proofs.Iterators

/-!
# How streams end

An error ends a stream, and nothing comes behind it.  An expression that maps or filters the rows of
its operand still yields what it made of the rows before the error.  One that computes its rows of
all rows of the operand yields nothing but the error: it has none before it has them all.

* `RowStep`: what an expression does with one row, and `RowStream.Images` what becomes of a stream.
* `Expr.RowWise`, `Expr.Gathers`: the operand of an expression, with what is done to its rows or to
  their groups.  Every expression that makes a dataset of a dataset is of one of the two kinds
  (`exists_rowWise`, `exists_gathers`).
* `faults_end_streams`: how every stream of every dataset ends, however often it is pulled.
-/

namespace DataCube

/-! ## Row by row -/

/-- What is done with one row. -/
inductive RowStep where
  | map (f : Row → Except EvalError Row)
  | test (p : Row → Except EvalError Bool)

namespace RowStep

/-- The row that is made of a row, if there is one. -/
def apply : RowStep → Row → Except EvalError (Option Row)
  | map f, r => (f r).map some
  | test p, r => (p r).map fun passes => if passes then some r else none

/-- The rows of an iterator, each of them changed. -/
def iterator : RowStep → RowIterator → RowIterator
  | map f, source => .mapped f source
  | test p, source => .filtered p source

/-- The rows of a dataset, each of them changed. -/
def dataSet (d : DataSet) (schema : Schema) : RowStep → DataSet
  | map f => d.mapRows schema f
  | test p => d.filter p

end RowStep

namespace RowStream

/-- What is made of the rows of a stream one by one: as far as that goes, and then the error. -/
inductive Images (step : RowStep) (given made : RowStream) : Prop where
  /-- Something is made of every row, and an error of the given stream stays where it is. -/
  | all {images : List (Option Row)} :
      List.Forall₂ (fun r image => step.apply r = .ok image) given.rows images →
      made.rows = images.reduceOption → made.fault = given.fault → Images step given made
  /-- The first row of which nothing can be made ends the stream. -/
  | upTo {before after : List Row} {r : Row} {images : List (Option Row)} {e : EvalError} :
      given.rows = before ++ r :: after →
      List.Forall₂ (fun r image => step.apply r = .ok image) before images →
      step.apply r = .error e →
      made.rows = images.reduceOption → made.fault = some e → Images step given made

variable {step : RowStep} {r : Row} {rows : List Row} {fault : Option EvalError} {made : RowStream}

theorem Images.cons_some {image : Row} (hr : step.apply r = .ok (some image))
    (h : Images step ⟨rows, fault⟩ made) : Images step ⟨r :: rows, fault⟩ (made.push image) := by
  cases h with
  | all himages hmade hfault =>
    exact .all (.cons hr himages) (by rw [push, hmade, List.reduceOption_cons_of_some]) hfault
  | upTo hrows himages herror hmade hfault =>
    exact .upTo (congrArg (r :: ·) hrows) (.cons hr himages) herror
      (by rw [push, hmade, List.reduceOption_cons_of_some]) hfault

theorem Images.cons_none (hr : step.apply r = .ok none) (h : Images step ⟨rows, fault⟩ made) :
    Images step ⟨r :: rows, fault⟩ made := by
  cases h with
  | all himages hmade hfault =>
    exact .all (.cons hr himages) (by rw [hmade, List.reduceOption_cons_of_none]) hfault
  | upTo hrows himages herror hmade hfault =>
    exact .upTo (congrArg (r :: ·) hrows) (.cons hr himages) herror
      (by rw [hmade, List.reduceOption_cons_of_none]) hfault

theorem images_mapRows (f : Row → Except EvalError Row) (s : RowStream) :
    Images (.map f) s (s.mapRows f) := by
  obtain ⟨rows, fault⟩ := s
  induction rows with
  | nil => exact .all .nil rfl rfl
  | cons r rows ih =>
    show Images (.map f) _ (mapFrom f fault (r :: rows))
    unfold mapFrom
    cases hr : f r with
    | ok image => exact .cons_some (by rw [RowStep.apply, hr]; rfl) ih
    | error e => exact .upTo (List.nil_append _).symm .nil (by rw [RowStep.apply, hr]; rfl) rfl rfl

theorem images_filterRows (p : Row → Except EvalError Bool) (s : RowStream) :
    Images (.test p) s (s.filterRows p) := by
  obtain ⟨rows, fault⟩ := s
  induction rows with
  | nil => exact .all .nil rfl rfl
  | cons r rows ih =>
    show Images (.test p) _ (filterFrom p fault (r :: rows))
    unfold filterFrom
    cases hr : p r with
    | error e => exact .upTo (List.nil_append _).symm .nil (by rw [RowStep.apply, hr]; rfl) rfl rfl
    | ok passes =>
      cases passes with
      | true => exact .cons_some (by rw [RowStep.apply, hr]; rfl) ih
      | false => exact .cons_none (by rw [RowStep.apply, hr]; rfl) ih

end RowStream

theorem RowStep.images (step : RowStep) (d : DataSet) (schema : Schema) :
    RowStream.Images step d.stream (step.dataSet d schema).stream := by
  cases step with
  | map f => exact d.stream.images_mapRows f
  | test p => exact d.stream.images_filterRows p

theorem RowStep.opens (step : RowStep) {d : DataSet} {i : RowIterator} (h : d.Opens i)
    (schema : Schema) :
    (step.dataSet d schema).Opens (.untilError (.opening (step.iterator i))) := by
  cases step with
  | map f => exact h.mapRows
  | test p => exact h.filter

/-! ## Group by group -/

/-- What is made of all rows of a stream, group by group: an error anywhere is all there is. -/
structure RowStream.Gathered (given : RowStream) (groups : Except EvalError (List Group))
    (process : Group → Except EvalError (List Row)) (made : RowStream) : Prop where
  /-- An error of the given stream. -/
  fault : ∀ e, given.fault = some e → made.items = [.error e]
  /-- Without one there are groups. -/
  cuts : given.fault = none → ∃ gs, groups = .ok gs
  /-- A group of which nothing can be made. -/
  refused : ∀ gs, groups = .ok gs → (∃ g ∈ gs, ∃ e, process g = .error e) →
    ∃ g ∈ gs, ∃ e, process g = .error e ∧ made.items = [.error e]
  /-- Rows are made of every group. -/
  all : ∀ gs parts, groups = .ok gs →
    List.Forall₂ (fun g part => process g = .ok part) gs parts →
      made.items = parts.flatten.map .ok

theorem RowStream.gathered (s : RowStream) {groups : Except EvalError (List Group)}
    {cut : List Row → List Group} (hgroups : groups = s.collect.map cut)
    (process : Group → Except EvalError (List Row)) :
    Gathered s groups process
      (.ofResult (groups >>= fun groups => List.flatten <$> groups.mapM process)) where
  fault e he := by
    rw [hgroups, collect, he]
    rfl
  cuts hnone := ⟨cut s.rows, by rw [hgroups, collect, hnone]; rfl⟩
  refused gs hgs := by
    rintro ⟨g, hg, e, he⟩
    cases hall : gs.mapM process with
    | ok parts =>
      obtain ⟨part, -, hpart⟩ := exists_of_forall₂ (mapM_eq_ok.1 hall) hg
      rw [he] at hpart
      nomatch hpart
    | error e' =>
      obtain ⟨before, g', after, hsplit, -, he'⟩ := mapM_eq_error.1 hall
      refine ⟨g', by rw [hsplit]; exact List.mem_append_right _ List.mem_cons_self, e', he', ?_⟩
      rw [hgs, ok_bind, hall]
      rfl
  all gs parts hgs hparts := by
    rw [hgs, ok_bind, mapM_eq_ok.2 hparts]
    exact items_ofResult_ok parts.flatten

/-- One row of each group. -/
theorem mapM_eq_flatten (f : Group → Except EvalError Row) (groups : List Group) :
    groups.mapM f = List.flatten <$> groups.mapM fun g => (f g).map fun r => [r] := by
  induction groups with
  | nil => rfl
  | cons g groups ih =>
    rw [List.mapM_cons, List.mapM_cons, ih]
    cases f g with
    | error e => rfl
    | ok r => cases groups.mapM fun g => (f g).map fun r => [r] <;> rfl

/-! ## Expressions -/

namespace Expr

/-- A dataset of a dataset, row by row. -/
def isRowWise : Expr → Bool
  | unary _ _ | binary _ _ _ | member _ _ | filter _ _ | keep _ _ | drop _ _ | compute _ _ _ => true
  | _ => false

/-- A dataset of a dataset, of the groups of its rows. -/
def isGathering : Expr → Bool
  | shift _ _ _ _ _ | aggregate _ _ _ | analytic _ _ _ => true
  | _ => false

/-- The operand of an expression, what is done with each of its rows, and the schema of the result.
-/
inductive RowWise (scope : Scope) : Expr → DataSet → RowStep → Schema → Prop where
  | unary {op : UnaryOp} {x : Expr} {d : DataSet} {target : Schema} :
      x.eval scope = .ok (.dataset d) →
      (d.schema.mapMeasures fun m => op.resultDomain? m.domain) = .ok target →
      RowWise scope (.unary op x) d
        (.map (DataSet.mapMeasuresRow target (Expr.unary op x).text op.apply)) target
  | binaryLeft {op : BinaryOp} {l r : Expr} {d : DataSet} {v : Scalar} {target : Schema} :
      l.eval scope = .ok (.dataset d) → r.eval scope = .ok (.scalar v) →
      (d.schema.mapMeasures fun m => op.resultDomain? m.domain v.domain) = .ok target →
      RowWise scope (.binary op l r) d
        (.map (DataSet.mapMeasuresRow target (Expr.binary op l r).text fun x => op.apply x v))
        target
  | binaryRight {op : BinaryOp} {l r : Expr} {d : DataSet} {v : Scalar} {target : Schema} :
      l.eval scope = .ok (.scalar v) → r.eval scope = .ok (.dataset d) →
      (d.schema.mapMeasures fun m => op.resultDomain? v.domain m.domain) = .ok target →
      RowWise scope (.binary op l r) d
        (.map (DataSet.mapMeasuresRow target (Expr.binary op l r).text fun x => op.apply v x))
        target
  | member {x : Expr} {name : String} {d : DataSet} {target : Schema} {component : Component} :
      x.eval scope = .ok (.dataset d) → d.schema.membership name = .ok target →
      d.schema.require name = .ok component →
      RowWise scope (.member x name) d
        (.map (DataSet.memberRow component target (Expr.member x name).text)) target
  | filter {x condition : Expr} {d : DataSet} :
      x.eval scope = .ok (.dataset d) →
      RowWise scope (.filter x condition) d
        (.test fun r => do
          (← condition.evalWith scope.ruleMeaning (.ofRow r scope.root)).asCondition condition)
        d.schema
  | keep {x : Expr} {names : List String} {d : DataSet} {target : Schema} :
      x.eval scope = .ok (.dataset d) → d.schema.keep names = .ok target →
      RowWise scope (.keep x names) d
        (.map (DataSet.projectRow target (Expr.keep x names).text)) target
  | drop {x : Expr} {names : List String} {d : DataSet} {target : Schema} :
      x.eval scope = .ok (.dataset d) → d.schema.drop names = .ok target →
      RowWise scope (.drop x names) d
        (.map (DataSet.projectRow target (Expr.drop x names).text)) target
  | compute {x value : Expr} {name : String} {d : DataSet} {domain : Domain} {target : Schema}
      {computed : Component} :
      x.eval scope = .ok (.dataset d) → d.schema.withMeasure name domain = .ok target →
      target.require name = .ok computed →
      RowWise scope (.compute x name value) d
        (.map (DataSet.computedRow computed target (Expr.compute x name value).text fun r => do
          (← value.evalWith scope.ruleMeaning (.ofRow r scope.root)).asComputed)) target

/-- The operand of an expression, the groups of its rows, what is made of each of them, and the
schema of the result. -/
inductive Gathers (scope : Scope) : Expr → DataSet → Except EvalError (List Group) →
    (Group → Except EvalError (List Row)) → Schema → Prop where
  | shift {direction : Shift} {x : Expr} {offset : Nat} {default : Option Scalar}
      {window : WindowSpec} {d : DataSet} {w : Window} :
      x.eval scope = .ok (.dataset d) → Window.resolve? d.schema window .identifiers = .ok w →
      Gathers scope (.shift direction x offset default window) d (w.partitions d)
        (fun g => direction.partition offset default d.schema
          (Expr.shift direction x offset default window).text g.rows) d.schema
  | analytic {r : Reducer} {x : Expr} {window : WindowSpec} {d : DataSet} {w : Window}
      {target : Schema} :
      x.eval scope = .ok (.dataset d) → r.outputSchema d.schema window = .ok target →
      Window.resolve? d.schema window .whole = .ok w →
      Gathers scope (.analytic r x window) d (w.partitions d)
        (fun g => r.partition w.isOrdered d.schema.measures target (Expr.analytic r x window).text
          g.rows) target
  | aggregate {s : Statistic} {x : Expr} {names : List String} {d : DataSet}
      {keys : List Component} {target : Schema} :
      x.eval scope = .ok (.dataset d) → s.outputSchema d.schema names = .ok target →
      Statistic.groupKeys? d.schema names = .ok keys →
      Gathers scope (.aggregate s x names) d (Statistic.groups keys d)
        (fun g => (s.groupRow keys d.schema.measures target g).map fun r => [r]) target

end Expr

variable {scope : Scope} {e : Expr} {d out : DataSet}

/-- What a row-wise expression amounts to is its operand, row by row. -/
theorem exists_rowWise (he : e.isRowWise = true) (hout : e.eval scope = .ok (.dataset out)) :
    ∃ d step target, e.RowWise scope d step target ∧ out = step.dataSet d target := by
  cases e with
  | unary op x =>
    obtain ⟨v, hv, hout⟩ := bind_eq_ok.1 hout
    cases v with
    | scalar v =>
      obtain ⟨_, -, hout⟩ := map_eq_ok.1 hout
      nomatch hout
    | dataset d =>
      obtain ⟨target, htarget, hout⟩ := bind_eq_ok.1 hout
      cases hout
      exact ⟨d, _, target, .unary hv htarget, rfl⟩
  | binary op l r =>
    obtain ⟨left, hleft, hout⟩ := bind_eq_ok.1 hout
    obtain ⟨right, hright, hout⟩ := bind_eq_ok.1 hout
    cases left with
    | scalar v =>
      cases right with
      | scalar v' =>
        obtain ⟨_, -, hout⟩ := map_eq_ok.1 hout
        nomatch hout
      | dataset d =>
        obtain ⟨target, htarget, hout⟩ := bind_eq_ok.1 hout
        cases hout
        exact ⟨d, _, target, .binaryRight hleft hright htarget, rfl⟩
    | dataset d =>
      cases right with
      | scalar v =>
        obtain ⟨target, htarget, hout⟩ := bind_eq_ok.1 hout
        cases hout
        exact ⟨d, _, target, .binaryLeft hleft hright htarget, rfl⟩
      | dataset d' => nomatch hout
  | member x name =>
    obtain ⟨v, hv, hout⟩ := bind_eq_ok.1 hout
    obtain ⟨d, hd, hout⟩ := bind_eq_ok.1 hout
    obtain ⟨m, hm, hout⟩ := map_eq_ok.1 hout
    obtain ⟨target, htarget, hm⟩ := bind_eq_ok.1 hm
    obtain ⟨component, hcomponent, hm⟩ := bind_eq_ok.1 hm
    cases Value.asDataSet_eq_ok.1 hd
    cases hm
    cases hout
    exact ⟨d, _, target, .member hv htarget hcomponent, rfl⟩
  | filter x condition =>
    obtain ⟨v, hv, hout⟩ := bind_eq_ok.1 hout
    obtain ⟨d, hd, hout⟩ := bind_eq_ok.1 hout
    cases hout
    cases Value.asDataSet_eq_ok.1 hd
    exact ⟨d, _, _, .filter hv, rfl⟩
  | keep x names =>
    obtain ⟨v, hv, hout⟩ := bind_eq_ok.1 hout
    obtain ⟨d, hd, hout⟩ := bind_eq_ok.1 hout
    obtain ⟨target, htarget, hout⟩ := bind_eq_ok.1 hout
    cases hout
    cases Value.asDataSet_eq_ok.1 hd
    exact ⟨d, _, target, .keep hv htarget, rfl⟩
  | drop x names =>
    obtain ⟨v, hv, hout⟩ := bind_eq_ok.1 hout
    obtain ⟨d, hd, hout⟩ := bind_eq_ok.1 hout
    obtain ⟨target, htarget, hout⟩ := bind_eq_ok.1 hout
    cases hout
    cases Value.asDataSet_eq_ok.1 hd
    exact ⟨d, _, target, .drop hv htarget, rfl⟩
  | compute x name value =>
    obtain ⟨v, hv, hout⟩ := bind_eq_ok.1 hout
    obtain ⟨d, hd, hout⟩ := bind_eq_ok.1 hout
    obtain ⟨_, -, hout⟩ := bind_eq_ok.1 hout
    obtain ⟨domain, -, hout⟩ := bind_eq_ok.1 hout
    obtain ⟨target, htarget, hout⟩ := bind_eq_ok.1 hout
    obtain ⟨computed, hcomputed, hout⟩ := bind_eq_ok.1 hout
    cases hout
    cases Value.asDataSet_eq_ok.1 hd
    exact ⟨d, _, target, .compute hv htarget hcomputed, rfl⟩
  | constant _ | var _ | within _ _ | shift _ _ _ _ _ | aggregate _ _ _ | analytic _ _ _ =>
    nomatch he

/-- What a gathering expression amounts to is made of all rows of its operand, group by group. -/
theorem exists_gathers (he : e.isGathering = true) (hout : e.eval scope = .ok (.dataset out)) :
    ∃ d groups process target cut, e.Gathers scope d groups process target ∧
      groups = d.collect.map cut ∧
      out = .derived target fun _ =>
        .ofResult (groups >>= fun groups => List.flatten <$> groups.mapM process) := by
  cases e with
  | shift direction x offset default window =>
    obtain ⟨v, hv, hout⟩ := bind_eq_ok.1 hout
    obtain ⟨d, hd, hout⟩ := bind_eq_ok.1 hout
    obtain ⟨w, hw, hout⟩ := bind_eq_ok.1 hout
    cases hout
    cases Value.asDataSet_eq_ok.1 hd
    obtain ⟨cut, hcut⟩ := Window.partitions_eq_map hw
    exact ⟨d, _, _, _, cut, .shift hv hw, hcut, rfl⟩
  | aggregate s x names =>
    obtain ⟨v, hv, hout⟩ := bind_eq_ok.1 hout
    obtain ⟨d, hd, hout⟩ := bind_eq_ok.1 hout
    obtain ⟨target, htarget, hout⟩ := bind_eq_ok.1 hout
    obtain ⟨keys, hkeys, hout⟩ := bind_eq_ok.1 hout
    cases hout
    cases Value.asDataSet_eq_ok.1 hd
    obtain ⟨cut, hcut⟩ := Statistic.groups_eq_map hkeys
    refine ⟨d, _, _, target, cut, .aggregate hv htarget hkeys, hcut, ?_⟩
    unfold Statistic.runGroups
    simp only [mapM_eq_flatten]
  | analytic r x window =>
    obtain ⟨v, hv, hout⟩ := bind_eq_ok.1 hout
    obtain ⟨d, hd, hout⟩ := bind_eq_ok.1 hout
    obtain ⟨target, htarget, hout⟩ := bind_eq_ok.1 hout
    obtain ⟨w, hw, hout⟩ := bind_eq_ok.1 hout
    cases hout
    cases Value.asDataSet_eq_ok.1 hd
    obtain ⟨cut, hcut⟩ := Window.partitions_eq_map hw
    exact ⟨d, _, _, target, cut, .analytic hv htarget hw, hcut, rfl⟩
  | constant _ | var _ | unary _ _ | binary _ _ _ | member _ _ | filter _ _ | keep _ _ | drop _ _
  | compute _ _ _ | within _ _ => nomatch he

/-- However often a stream of a dataset is pulled, and wherever in an expression the dataset is
made, it yields rows and then at most one error, and then is over for good.  A row-wise expression
yields what it makes of the rows before the first one of which nothing can be made, and the error
with that one, or else that of its operand.  A gathering expression yields an error of its operand,
or of a group, and no row. -/
theorem faults_end_streams (hscope : scope.Holds fun d => ∃ i, d.Opens i)
    (hout : e.eval scope = .ok (.dataset out)) :
    (∃ i, out.Opens i) ∧
    (∀ i, out.Opens i →
      (∀ n, ∃ answers last, i.Pulls answers last ∧ answers.length = n) ∧
      ∀ answers last, i.Pulls answers last → ∀ n, n < answers.length →
        answers[n]? =
          some ((out.stream.rows.map .ok ++ (out.stream.fault.map .error).toList)[n]?)) ∧
    (e.isRowWise = true → ∃ d step target, e.RowWise scope d step target ∧
      RowStream.Images step d.stream out.stream ∧
      ∀ i, d.Opens i → out.Opens (.untilError (.opening (step.iterator i)))) ∧
    (e.isGathering = true → ∃ d groups process target, e.Gathers scope d groups process target ∧
      RowStream.Gathered d.stream groups process out.stream ∧
      ∀ i, d.Opens i → ∃ compute, out.Opens (.untilError (.gathering [] i compute))) := by
  refine ⟨DataSet.invariant_opens.eval hscope hout, fun i hi => ⟨i.exists_pulls, ?_⟩, ?_, ?_⟩
  · intro answers last hpulls n hn
    rw [hpulls.getElem?_eq hn, hi.items_eq]
    rfl
  · intro he
    obtain ⟨d, step, target, hstep, rfl⟩ := exists_rowWise he hout
    exact ⟨d, step, target, hstep, step.images d target, fun i hi => step.opens hi target⟩
  · intro he
    obtain ⟨d, groups, process, target, cut, hgathers, hcut, rfl⟩ := exists_gathers he hout
    exact ⟨d, groups, process, target, hgathers, d.stream.gathered hcut process,
      fun i hi => ⟨_, hi.groups hcut⟩⟩

/-- Three rows, the second with a measure that nothing more can be added to. -/
def nearlyFull : DataSet :=
  ⟨keyed, some "ds", .pure (.ofRows [⟨keyed, [.string "a", .integer 1], .known "ds"⟩,
    ⟨keyed, [.string "b", .integer Int64.maxValue], .known "ds"⟩,
    ⟨keyed, [.string "c", .integer 3], .known "ds"⟩])⟩

/-- The dataset with one added to its measure. -/
def overfilled : DataSet :=
  nearlyFull.mapMeasures keyed "(ds + 1)" fun v => BinaryOp.add.apply v (.integer 1)

theorem faults_end_streams_overfilled :
    (Expr.binary .add (.var "ds") (.constant (.integer 1))).eval
        (.engine ⟨[("ds", .dataset nearlyFull)]⟩ .empty) = .ok (.dataset overfilled) ∧
      ∃ i answers last, overfilled.Opens i ∧ i.Pulls answers last ∧
        answers = [some (.ok ⟨keyed, [.string "a", .integer 2], .node "(ds + 1)" [.known "ds"]⟩),
          some (.error (.integerOverflow "+" [Int64.maxValue, 1])), none, none] := by
  have heval : (Expr.binary .add (.var "ds") (.constant (.integer 1))).eval
      (.engine ⟨[("ds", .dataset nearlyFull)]⟩ .empty) = .ok (.dataset overfilled) := rfl
  have hscope : (Scope.engine ⟨[("ds", .dataset nearlyFull)]⟩ .empty).Holds
      fun d => ∃ i, d.Opens i := by
    refine .engine fun v hv => ?_
    rw [List.mem_singleton.1 hv]
    exact ⟨_, .given⟩
  obtain ⟨⟨i, hi⟩, hends, -⟩ := faults_end_streams hscope heval
  obtain ⟨hpulls, hanswers⟩ := hends i hi
  obtain ⟨answers, last, hrun, hlength⟩ := hpulls 4
  refine ⟨heval, i, answers, last, hi, hrun, List.ext_getElem (by rw [hlength]; rfl) ?_⟩
  intro n hn hn'
  have hanswer := hanswers answers last hrun n hn
  rw [List.getElem?_eq_getElem hn] at hanswer
  rw [Option.some.inj hanswer]
  match n, hn' with
  | 0, _ | 1, _ | 2, _ | 3, _ => rfl

end DataCube
