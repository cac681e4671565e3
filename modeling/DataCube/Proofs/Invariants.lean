import DataCube.Evaluation
import DataCube.Proofs.Rows

/-!
# Invariants of evaluation

Expressions make datasets out of datasets, and there are few operations that do.  A property of
datasets that these hand on holds of whatever an expression amounts to, wherever its clauses are
evaluated and however its rules are nested, as long as the bound datasets have it.

* `Expr.Totals`: the datasets that aggregates without keys are computed of when an expression is
  evaluated.
* `DataSet.Invariant P`: every operation hands the property on.  An operation is given with what
  evaluation knows when it comes to it: the schema it makes rows of, and its keys.  An invariant may
  ask for something of the datasets that are totalled.
* `Value.Holds P`, `Scope.Holds P`: the property of a value, and of all that a scope is made of.
* `Scope.Yields P`: whatever the names of a scope stand for has the property.
* `DataSet.Invariant.evalWith` is the induction over the expression, `DataSet.Invariant.valueOfRule`
  that over the depth of rules, and `DataSet.Invariant.eval` puts them together.
-/

namespace DataCube

variable {P totalled : DataSet → Prop}

/-! ## Datasets that are totalled -/

/-- The operands that are evaluated in the scope of the expression.  Conditions, computed values and
bodies of brackets have scopes of their own. -/
def Expr.sources : Expr → List Expr
  | constant _ | var _ => []
  | binary _ l r => [l, r]
  | unary _ x | member x _ | filter x _ | keep x _ | drop x _ | compute x _ _ | within x _
  | shift _ x _ _ _ | aggregate _ x _ | analytic _ x _ => [x]

theorem Expr.sources_subset (e : Expr) : e.sources ⊆ e.operands := by
  cases e <;> simp [sources, operands]

/-- The datasets that aggregates without keys are computed of in the course of evaluation, given
those for rules. -/
inductive Expr.TotalsWith (rules : RuleMeaning) (ofRule : Statement → DataSet → Prop) :
    Expr → Scope → DataSet → Prop where
  | aggregate {s : Statistic} {x : Expr} {scope : Scope} {d : DataSet} :
      x.evalWith rules scope = .ok (.dataset d) →
      TotalsWith rules ofRule (.aggregate s x []) scope d
  | source {e x : Expr} {scope : Scope} {d : DataSet} :
      x ∈ e.sources → TotalsWith rules ofRule x scope d → TotalsWith rules ofRule e scope d
  | rule {name : String} {scope : Scope} {s : Statement} {d : DataSet} :
      scope.valueEntry name = .ok (.rule s) → ofRule s d →
      TotalsWith rules ofRule (.var name) scope d
  | body {x body : Expr} {scope : Scope} {d t : DataSet} :
      x.evalWith rules scope = .ok (.dataset d) →
      TotalsWith rules ofRule body (.ofDataSet d scope) t →
      TotalsWith rules ofRule (.within x body) scope t

/-- Those for a rule at the root, for rules nested at most so deep. -/
def Scope.totalsOfRule (root : Scope) : (depth : Nat) → Statement → DataSet → Prop
  | 0, _ => fun _ => False
  | depth + 1, s =>
    s.expr.TotalsWith ⟨root.ruleShape, root.valueOfRule depth⟩ (root.totalsOfRule depth) root

/-- The datasets that aggregates without keys are computed of when an expression is evaluated. -/
def Expr.Totals (e : Expr) (scope : Scope) : DataSet → Prop :=
  e.TotalsWith scope.ruleMeaning (scope.root.totalsOfRule (2 * scope.workspace.size)) scope

/-! ## Properties -/

/-- Every operation on datasets hands the property on, an aggregate without keys if it is computed
of such a dataset. -/
structure DataSet.Invariant (P : DataSet → Prop) (totalled : DataSet → Prop := fun _ => True) :
    Prop where
  membership : ∀ {d m : DataSet} {name label : String},
    P d → d.membership name label = .ok m → P m
  filter : ∀ {d : DataSet} (p : Row → Except EvalError Bool), P d → P (d.filter p)
  keep : ∀ {d : DataSet} {names : List String} {target : Schema} (label : String),
    P d → d.schema.keep names = .ok target → P (d.project target label)
  drop : ∀ {d : DataSet} {names : List String} {target : Schema} (label : String),
    P d → d.schema.drop names = .ok target → P (d.project target label)
  mapMeasures : ∀ {d : DataSet} {domainOf : Component → Except EvalError Domain} {target : Schema}
    (label : String) (f : Scalar → Except EvalError Scalar),
    P d → d.schema.mapMeasures domainOf = .ok target → P (d.mapMeasures target label f)
  compute : ∀ {d : DataSet} {name : String} {domain : Domain} {target : Schema}
    {computed : Component} (label : String) (valueOf : Row → Except EvalError Scalar),
    P d → d.schema.withMeasure name domain = .ok target → target.require name = .ok computed →
      P (d.mapRows target (DataSet.computedRow computed target label valueOf))
  shift : ∀ {d : DataSet} {spec : WindowSpec} {w : Window} (direction : Shift) (offset : Nat)
    (default : Option Scalar) (label : String),
    P d → Window.resolve? d.schema spec .identifiers = .ok w →
      P (direction.run offset default w label d)
  aggregate : ∀ {d : DataSet} {names : List String} {keys : List Component} {target : Schema}
    (s : Statistic), P d → (keys = [] → totalled d) →
      Statistic.groupKeys? d.schema names = .ok keys →
      s.outputSchema d.schema names = .ok target → P (s.runGroups keys target d)
  analytic : ∀ {d : DataSet} {spec : WindowSpec} {w : Window} {target : Schema} (r : Reducer)
    (label : String), P d → Window.resolve? d.schema spec .whole = .ok w →
      r.outputSchema d.schema spec = .ok target → P (r.runWindow w target label d)

/-- The dataset, if it is one, has the property. -/
def Value.Holds (P : DataSet → Prop) : Value → Prop
  | .scalar _ => True
  | .dataset d => P d

/-- All datasets of the scope have the property, and so does each row around, as a dataset. -/
inductive Scope.Holds (P : DataSet → Prop) : Scope → Prop where
  | engine {values : Bindings Value} {workspace : Workspace} :
      (∀ v ∈ values.values, v.Holds P) → Holds P (.engine values workspace)
  | compile (shapes : Bindings Shape) (workspace : Workspace) :
      Holds P (.compile shapes workspace)
  | row {r : Row} {parent : Scope} :
      P (.ofRows r.schema [r]) → Holds P parent → Holds P (.ofRow r parent)
  | this {d : DataSet} {parent : Scope} :
      P d → Holds P parent → Holds P (.ofDataSet d parent)

/-- Whatever the names of the scope stand for has the property. -/
def Scope.Yields (P : DataSet → Prop) (a : Scope) : Prop :=
  ∀ (name : String) (v : Value), a.resolve name = .ok (.found v) → v.Holds P

theorem Value.asDataSet_eq_ok {v : Value} {refuse : Scalar → EvalError} {d : DataSet} :
    v.asDataSet refuse = .ok d ↔ v = .dataset d := by
  cases v with
  | scalar v => exact ⟨fun h => (nomatch h), fun h => (nomatch h)⟩
  | dataset d' =>
    constructor
    · intro h
      cases h
      rfl
    · intro h
      cases h
      rfl

theorem Bindings.mem_values_of_find? {α : Type} {b : Bindings α} {name : String} {x : α}
    (h : b.find? name = some x) : x ∈ b.values := by
  have hmem : ∃ e ∈ b.entries, e.2 = x := by
    simp only [find?, get?, Option.or_eq_some_iff, Option.map_eq_some_iff] at h
    rcases h with ⟨e, he, hx⟩ | ⟨-, e, he, hx⟩
    · exact ⟨e, List.mem_of_find?_eq_some he, hx⟩
    · exact ⟨e, NamePattern.mem_of_find? he, hx⟩
  obtain ⟨e, he, rfl⟩ := hmem
  exact List.mem_map_of_mem he

theorem Scope.Holds.root {a : Scope} (h : a.Holds P) : a.root.Holds P := by
  induction h with
  | engine hvalues => exact .engine hvalues
  | compile shapes workspace => exact .compile shapes workspace
  | row _ _ ih => exact ih
  | this _ _ ih => exact ih

namespace DataSet.Invariant

/-! ## Names -/

/-- Inside a bracket on a dataset that has the property. -/
theorem yields_this (hP : Invariant P totalled) {d : DataSet} {parent : Scope} (hd : P d)
    (h : parent.Yields P) : (Scope.ofDataSet d parent).Yields P := by
  intro name v hv
  unfold Scope.ofDataSet Scope.resolve at hv
  split at hv
  · exact h name v hv
  · simp only at hv
    split at hv
    · cases hv
      exact hd
    · obtain ⟨m, hm, heq⟩ := map_eq_ok.1 hv
      cases heq
      exact hP.membership hd hm

/-- What a name stands for has the property, be it a bound value or made from the row or dataset
around. -/
theorem yields (hP : Invariant P totalled) {a : Scope} (h : a.Holds P) : a.Yields P := by
  induction h with
  | @engine values workspace hvalues =>
    intro name v hv
    unfold Scope.resolve at hv
    cases hfind : values.find? name with
    | some w =>
      rw [hfind] at hv
      cases hv
      exact hvalues v (Bindings.mem_values_of_find? hfind)
    | none =>
      rw [hfind] at hv
      obtain ⟨s, -, hs⟩ := map_eq_ok.1 hv
      nomatch hs
  | compile shapes workspace => exact fun _ _ hv => nomatch hv
  | @row r parent hr _ _ =>
    intro name v hv
    unfold Scope.ofRow Scope.resolve at hv
    split at hv
    · cases hv
      exact hr
    · split at hv
      · cases hv
        trivial
      · nomatch hv
  | this hd _ ih => exact hP.yields_this hd ih

theorem valueEntry {a : Scope} (h : a.Yields P) {name : String} {v : Value}
    (hv : a.valueEntry name = .ok (.found v)) : v.Holds P := by
  unfold Scope.valueEntry at hv
  split at hv
  · exact h name v hv
  · obtain ⟨s, -, hs⟩ := map_eq_ok.1 hv
    nomatch hs

/-! ## Operators -/

theorem onValue (hP : Invariant P totalled) {op : UnaryOp} {label : String} {v w : Value}
    (h : v.Holds P) (hw : op.onValue label v = .ok w) : w.Holds P := by
  cases v with
  | scalar v =>
    obtain ⟨x, -, rfl⟩ := map_eq_ok.1 hw
    trivial
  | dataset d =>
    obtain ⟨target, htarget, hw⟩ := bind_eq_ok.1 hw
    cases hw
    exact hP.mapMeasures label _ h htarget

theorem onValues (hP : Invariant P totalled) {op : BinaryOp} {label : String} {l r w : Value}
    (hl : l.Holds P) (hr : r.Holds P) (hw : op.onValues label l r = .ok w) : w.Holds P := by
  cases l with
  | scalar l =>
    cases r with
    | scalar r =>
      obtain ⟨x, -, rfl⟩ := map_eq_ok.1 hw
      trivial
    | dataset d =>
      obtain ⟨target, htarget, hw⟩ := bind_eq_ok.1 hw
      cases hw
      exact hP.mapMeasures label _ hr htarget
  | dataset d =>
    cases r with
    | scalar r =>
      obtain ⟨target, htarget, hw⟩ := bind_eq_ok.1 hw
      cases hw
      exact hP.mapMeasures label _ hl htarget
    | dataset d' => nomatch hw

/-! ## Expressions -/

theorem totalled_source {rules : RuleMeaning} {ofRule : Statement → DataSet → Prop} {e x : Expr}
    {scope : Scope} (h : ∀ t, e.TotalsWith rules ofRule scope t → totalled t)
    (hx : x ∈ e.sources) : ∀ t, x.TotalsWith rules ofRule scope t → totalled t :=
  fun t ht => h t (.source hx ht)

/-- What an expression amounts to has the property.  Conditions and computed values play no part:
they are evaluated for single rows and end up in scalars. -/
theorem evalWith (hP : Invariant P totalled) {e : Expr} {rules : RuleMeaning}
    {ofRule : Statement → DataSet → Prop} {scope : Scope} {v : Value} (h : scope.Yields P)
    (hrules : ∀ s w, (∀ t, ofRule s t → totalled t) → rules.value s = .ok w → w.Holds P)
    (htotals : ∀ t, e.TotalsWith rules ofRule scope t → totalled t)
    (hv : e.evalWith rules scope = .ok v) : v.Holds P := by
  induction e generalizing scope v with
  | constant x =>
    cases hv
    trivial
  | var name =>
    obtain ⟨entry, hentry, hv⟩ := bind_eq_ok.1 hv
    cases entry with
    | found w =>
      cases hv
      exact valueEntry h hentry
    | rule s => exact hrules s v (fun t ht => htotals t (.rule hentry ht)) hv
  | unary op x ih =>
    obtain ⟨w, hw, hv⟩ := bind_eq_ok.1 hv
    exact hP.onValue (ih h (totalled_source htotals List.mem_cons_self) hw) hv
  | binary op l r ihl ihr =>
    obtain ⟨left, hleft, hv⟩ := bind_eq_ok.1 hv
    obtain ⟨right, hright, hv⟩ := bind_eq_ok.1 hv
    have hl := ihl h (totalled_source htotals List.mem_cons_self) hleft
    have hr := ihr h (totalled_source htotals (List.mem_cons_of_mem l List.mem_cons_self)) hright
    exact hP.onValues hl hr hv
  | member x name ih =>
    obtain ⟨w, hw, hv⟩ := bind_eq_ok.1 hv
    obtain ⟨d, hd, hv⟩ := bind_eq_ok.1 hv
    cases Value.asDataSet_eq_ok.1 hd
    obtain ⟨m, hm, rfl⟩ := map_eq_ok.1 hv
    exact hP.membership (ih h (totalled_source htotals List.mem_cons_self) hw) hm
  | filter x condition ih _ =>
    obtain ⟨w, hw, hv⟩ := bind_eq_ok.1 hv
    obtain ⟨d, hd, hv⟩ := bind_eq_ok.1 hv
    cases Value.asDataSet_eq_ok.1 hd
    cases hv
    exact hP.filter _ (ih h (totalled_source htotals List.mem_cons_self) hw)
  | keep x names ih =>
    obtain ⟨w, hw, hv⟩ := bind_eq_ok.1 hv
    obtain ⟨d, hd, hv⟩ := bind_eq_ok.1 hv
    obtain ⟨target, htarget, hv⟩ := bind_eq_ok.1 hv
    cases hv
    cases Value.asDataSet_eq_ok.1 hd
    exact hP.keep _ (ih h (totalled_source htotals List.mem_cons_self) hw) htarget
  | drop x names ih =>
    obtain ⟨w, hw, hv⟩ := bind_eq_ok.1 hv
    obtain ⟨d, hd, hv⟩ := bind_eq_ok.1 hv
    obtain ⟨target, htarget, hv⟩ := bind_eq_ok.1 hv
    cases hv
    cases Value.asDataSet_eq_ok.1 hd
    exact hP.drop _ (ih h (totalled_source htotals List.mem_cons_self) hw) htarget
  | compute x name value ih _ =>
    obtain ⟨w, hw, hv⟩ := bind_eq_ok.1 hv
    obtain ⟨d, hd, hv⟩ := bind_eq_ok.1 hv
    obtain ⟨m, -, hv⟩ := bind_eq_ok.1 hv
    obtain ⟨domain, -, hv⟩ := bind_eq_ok.1 hv
    obtain ⟨target, htarget, hv⟩ := bind_eq_ok.1 hv
    obtain ⟨computed, hcomputed, hv⟩ := bind_eq_ok.1 hv
    cases hv
    cases Value.asDataSet_eq_ok.1 hd
    exact hP.compute _ _ (ih h (totalled_source htotals List.mem_cons_self) hw) htarget hcomputed
  | within x body ih ihb =>
    obtain ⟨w, hw, hv⟩ := bind_eq_ok.1 hv
    obtain ⟨d, hd, hv⟩ := bind_eq_ok.1 hv
    cases Value.asDataSet_eq_ok.1 hd
    have hinside := hP.yields_this (ih h (totalled_source htotals List.mem_cons_self) hw) h
    exact ihb hinside (fun t ht => htotals t (.body hw ht)) hv
  | shift direction x offset default window ih =>
    obtain ⟨w, hw, hv⟩ := bind_eq_ok.1 hv
    obtain ⟨d, hd, hv⟩ := bind_eq_ok.1 hv
    obtain ⟨window, hwindow, hv⟩ := bind_eq_ok.1 hv
    cases hv
    cases Value.asDataSet_eq_ok.1 hd
    exact hP.shift direction offset default _
      (ih h (totalled_source htotals List.mem_cons_self) hw) hwindow
  | aggregate s x groupBy ih =>
    obtain ⟨w, hw, hv⟩ := bind_eq_ok.1 hv
    obtain ⟨d, hd, hv⟩ := bind_eq_ok.1 hv
    obtain ⟨target, htarget, hv⟩ := bind_eq_ok.1 hv
    obtain ⟨keys, hkeys, hv⟩ := bind_eq_ok.1 hv
    cases hv
    cases Value.asDataSet_eq_ok.1 hd
    refine hP.aggregate s (ih h (totalled_source htotals List.mem_cons_self) hw) (fun hnone => ?_)
      hkeys htarget
    subst hnone
    cases groupBy with
    | nil => exact htotals d (.aggregate hw)
    | cons name names => nomatch mapM_eq_ok.1 hkeys
  | analytic r x window ih =>
    obtain ⟨w, hw, hv⟩ := bind_eq_ok.1 hv
    obtain ⟨d, hd, hv⟩ := bind_eq_ok.1 hv
    obtain ⟨target, htarget, hv⟩ := bind_eq_ok.1 hv
    obtain ⟨window, hwindow, hv⟩ := bind_eq_ok.1 hv
    cases hv
    cases Value.asDataSet_eq_ok.1 hd
    exact hP.analytic r _ (ih h (totalled_source htotals List.mem_cons_self) hw) hwindow htarget

/-! ## Rules -/

theorem valueOfRule (hP : Invariant P totalled) {a : Scope} (h : a.Yields P) (depth : Nat)
    (s : Statement) (v : Value) (htotals : ∀ t, a.totalsOfRule depth s t → totalled t)
    (hv : a.valueOfRule depth s = .ok v) : v.Holds P := by
  induction depth generalizing s v with
  | zero => nomatch hv
  | succ depth ih => exact hP.evalWith h ih htotals hv

theorem eval_of_yields (hP : Invariant P totalled) {e : Expr} {scope : Scope} {v : Value}
    (h : scope.Yields P) (hroot : scope.root.Yields P)
    (htotals : ∀ t, e.Totals scope t → totalled t) (hv : e.eval scope = .ok v) : v.Holds P :=
  hP.evalWith h (hP.valueOfRule hroot _) htotals hv

/-- For an invariant that asks for something of the datasets that are totalled. -/
theorem eval_totalled (hP : Invariant P totalled) {e : Expr} {scope : Scope} {v : Value}
    (h : scope.Holds P) (htotals : ∀ t, e.Totals scope t → totalled t)
    (hv : e.eval scope = .ok v) : v.Holds P :=
  hP.eval_of_yields (hP.yields h) (hP.yields h.root) htotals hv

theorem eval (hP : Invariant P) {e : Expr} {scope : Scope} {v : Value} (h : scope.Holds P)
    (hv : e.eval scope = .ok v) : v.Holds P :=
  hP.eval_totalled h (fun _ _ => trivial) hv

end DataSet.Invariant

end DataCube
