import DataCube.Evaluation
import DataCube.Proofs.OperatorResults
import DataCube.Proofs.Typing.Monotone

/-!
# Typing predicts evaluation

Typing and evaluation are two recursions over an expression.  Where both have a result, the type
describes the value.  Typing sees less than evaluation does in two places only: the components of a
row can be of unknown domain while the values in the row are not, and what is computed from such
components is known less well in turn.

* `Scope.Typed p a b`: what typing finds in `a` describes what evaluation finds in `b`.
* `consistent_evalWith`: the induction over the expression, for any meaning of rules that agrees
  with itself.  `consistent_ruleMeaning` provides that by induction on the depth of rules.
* `Scope.Live S`: the scopes of evaluation.  Bound values and rules are at the root, and around it
  lie rows and datasets.
* `type_describes_value`: the type of an expression describes its value.
-/

namespace DataCube

variable {p : Precision}

/-! ## Operators -/

theorem UnaryOp.resultDomain?_of_apply {op : UnaryOp} {v w : Scalar} (h : op.apply v = .ok w) :
    op.resultDomain? v.domain = .ok w.domain := by
  obtain ⟨d, hd, -⟩ := bind_eq_ok.1 (show (op.resultDomain? v.domain >>= _) = .ok w from h)
  rw [hd, (op.outcome_apply hd).result h]

theorem BinaryOp.resultDomain?_of_apply {op : BinaryOp} {l r w : Scalar}
    (h : op.apply l r = .ok w) : op.resultDomain? l.domain r.domain = .ok w.domain := by
  obtain ⟨d, hd, -⟩ := bind_eq_ok.1 (show (op.resultDomain? l.domain r.domain >>= _) = .ok w from h)
  rw [hd, (op.outcome_apply hd).result h]

/-- The result of an operator has the shape that typing finds for its operand. -/
theorem UnaryOp.resultShape_of_onValue {op : UnaryOp} {label : String} {v w : Value}
    (h : op.onValue label v = .ok w) : op.resultShape v.shape = .ok w.shape := by
  cases v with
  | scalar v =>
    obtain ⟨x, hx, rfl⟩ := map_eq_ok.1 h
    exact map_eq_ok.2 ⟨x.domain, resultDomain?_of_apply hx, rfl⟩
  | dataset d =>
    obtain ⟨target, htarget, hw⟩ := bind_eq_ok.1 h
    rw [← Except.ok.inj hw]
    exact map_eq_ok.2 ⟨target, htarget, rfl⟩

theorem BinaryOp.resultShape_of_onValues {op : BinaryOp} {label : String} {l r w : Value}
    (h : op.onValues label l r = .ok w) : op.resultShape l.shape r.shape = .ok w.shape := by
  cases l with
  | scalar l =>
    cases r with
    | scalar r =>
      obtain ⟨x, hx, rfl⟩ := map_eq_ok.1 h
      exact map_eq_ok.2 ⟨x.domain, resultDomain?_of_apply hx, rfl⟩
    | dataset d =>
      obtain ⟨target, htarget, hw⟩ := bind_eq_ok.1 h
      rw [← Except.ok.inj hw]
      exact map_eq_ok.2 ⟨target, htarget, rfl⟩
  | dataset d =>
    cases r with
    | scalar r =>
      obtain ⟨target, htarget, hw⟩ := bind_eq_ok.1 h
      rw [← Except.ok.inj hw]
      exact map_eq_ok.2 ⟨target, htarget, rfl⟩
    | dataset d' => nomatch h

theorem DataSet.schema_of_membership {d m : DataSet} {name label : String}
    (h : d.membership name label = .ok m) : d.schema.membership name = .ok m.schema := by
  obtain ⟨target, htarget, h⟩ := bind_eq_ok.1 h
  obtain ⟨member, -, h⟩ := bind_eq_ok.1 h
  rw [htarget, ← Except.ok.inj h]
  rfl

/-! ## Scopes -/

/-- A shape that says of a value no more than is true. -/
def Shape.Predicts (p : Precision) (m : Shape) (v : Value) : Prop := m.Rel p v.shape

/-- What typing finds in the left scope describes what evaluation finds in the right one. -/
structure Scope.Typed (p : Precision) (a b : Scope) : Prop where
  contains : ∀ name, a.contains name = b.contains name
  workspace : a.workspace = b.workspace
  resolve : ∀ name, Consistent (Entry.Rel (Shape.Predicts p)) (a.describe name) (b.resolve name)

namespace Scope

theorem consistent_rule {a b : Scope} (h : a.workspace = b.workspace) (name : String) :
    Consistent (Entry.Rel (Shape.Predicts p)) ((a.rule name).map .rule)
      ((b.rule name).map .rule) := by
  rw [rule_eq h]
  intro x y hx hy
  obtain ⟨s, hs, rfl⟩ := map_eq_ok.1 hx
  obtain ⟨t, ht, rfl⟩ := map_eq_ok.1 hy
  rw [hs] at ht
  cases ht
  exact .rule s

theorem Typed.valueEntry {a b : Scope} (h : a.Typed p b) (name : String) :
    Consistent (Entry.Rel (Shape.Predicts p)) (a.shapeEntry name) (b.valueEntry name) := by
  unfold Scope.shapeEntry Scope.valueEntry
  rw [h.contains name]
  split
  · exact h.resolve name
  · exact consistent_rule h.workspace name

/-- Inside a bracket on a dataset. -/
theorem Typed.this {a b : Scope} {s : Schema} {d : DataSet} {d' : Option DataSet}
    (h : a.Typed p b) (hs : s.Rel p.column d.schema) :
    (Scope.this s d' a).Typed p (.ofDataSet d b) where
  contains name := by
    simp only [ofDataSet, Scope.contains, Schema.component?_isSome hs name, h.contains name]
  workspace := h.workspace
  resolve name := by
    unfold ofDataSet describe Scope.resolve
    rw [Schema.component?_isSome hs name, ← Option.not_isSome]
    cases hthis : isThis name with
    | true => exact Consistent.ok (.found (.dataset hs))
    | false =>
      cases hc : (d.schema.component? name).isSome with
      | true =>
        refine Consistent.map ((Schema.dominates_membership hs name).consistent_of
          fun m hm => DataSet.schema_of_membership hm) fun _ _ hm => ?_
        exact .found (.dataset hm)
      | false => exact h.resolve name

end Scope

/-! ## Expressions -/

/-- A node that asks for a dataset. -/
theorem consistent_onDataset {m : Shape} {v : Value} {operator : Unit → String}
    {refuse : Scalar → EvalError} {next : Schema → Except EvalError Shape}
    {next' : DataSet → Except EvalError Value} (h : m.Predicts p v)
    (hnext : ∀ s d, s.Rel p.column d.schema → Consistent (Shape.Predicts p) (next s) (next' d)) :
    Consistent (Shape.Predicts p) (m.onDataset operator next) (v.asDataSet refuse >>= next') := by
  cases v with
  | scalar v => exact fun a b _ hb => nomatch hb
  | dataset d =>
    cases h with
    | dataset hs => exact hnext _ d hs
    | hidden h =>
      intro a b ha _
      rw [← Except.ok.inj ha]
      exact .hidden h

/-- A node whose value is a dataset of the schema that typing derives. -/
theorem consistent_dataset {x y : Except EvalError Schema} {z : Except EvalError Value}
    (h : Dominates (Schema.Rel p.column) x y)
    (hz : ∀ w, z = .ok w → ∃ s, y = .ok s ∧ w.shape = .dataset s) :
    Consistent (Shape.Predicts p) (x.map .dataset) z := by
  intro m w hm hw
  obtain ⟨s, hs, rfl⟩ := map_eq_ok.1 hm
  obtain ⟨s', hs', hshape⟩ := hz w hw
  unfold Shape.Predicts
  rw [hshape]
  exact .dataset (h.consistent s s' hs hs')

/-- The type of an expression describes its value, given that of every rule does. -/
theorem consistent_evalWith (e : Expr) (rules : RuleMeaning) {a b : Scope} (h : a.Typed p b)
    (hrules : ∀ s, Consistent (Shape.Predicts p) (rules.shape s) (rules.value s)) :
    Consistent (Shape.Predicts p) (e.shapeWith rules.shape a) (e.evalWith rules b) := by
  induction e generalizing a b with
  | constant v => exact Consistent.ok (Shape.rel_refl p _)
  | var name =>
    refine Consistent.bind (h.valueEntry name) fun entry entry' hentry => ?_
    cases hentry with
    | found hm => exact Consistent.ok hm
    | rule s => exact hrules s
  | unary op x ih =>
    refine Consistent.bind (ih h) fun m v hm => ?_
    exact (op.dominates_resultShape hm).consistent_of fun _ => UnaryOp.resultShape_of_onValue
  | binary op l r ihl ihr =>
    refine Consistent.bind (ihl h) fun m v hm => Consistent.bind (ihr h) fun n w hn => ?_
    exact (op.dominates_resultShape hm hn).consistent_of fun _ => BinaryOp.resultShape_of_onValues
  | member x name ih =>
    refine Consistent.bind (ih h) fun m v hm => consistent_onDataset hm fun s d hs => ?_
    refine Consistent.map ((Schema.dominates_membership hs name).consistent_of
      fun m hm => DataSet.schema_of_membership hm) fun _ _ => .dataset
  | filter x condition ih _ =>
    refine Consistent.bind (ih h) fun m v hm => consistent_onDataset hm fun s d hs => ?_
    intro n w hn hw
    obtain ⟨c, -, hn⟩ := bind_eq_ok.1 hn
    rw [Shape.eq_of_filtered hn, ← Except.ok.inj hw]
    exact .dataset hs
  | keep x names ih =>
    refine Consistent.bind (ih h) fun m v hm => consistent_onDataset hm fun s d hs => ?_
    refine consistent_dataset (Schema.dominates_keep hs names) fun w hw => ?_
    obtain ⟨target, htarget, hw⟩ := bind_eq_ok.1 hw
    exact ⟨target, htarget, by rw [← Except.ok.inj hw]; rfl⟩
  | drop x names ih =>
    refine Consistent.bind (ih h) fun m v hm => consistent_onDataset hm fun s d hs => ?_
    refine consistent_dataset (Schema.dominates_drop hs names) fun w hw => ?_
    obtain ⟨target, htarget, hw⟩ := bind_eq_ok.1 hw
    exact ⟨target, htarget, by rw [← Except.ok.inj hw]; rfl⟩
  | compute x name value ih _ =>
    refine Consistent.bind (ih h) fun m v hm => consistent_onDataset hm fun s d hs => ?_
    intro n w hn hw
    obtain ⟨c, hc, hn⟩ := bind_eq_ok.1 hn
    obtain ⟨domain, hdomain, hn⟩ := bind_eq_ok.1 hn
    obtain ⟨target, htarget, rfl⟩ := map_eq_ok.1 hn
    obtain ⟨c', hc', hw⟩ := bind_eq_ok.1 hw
    obtain ⟨domain', hdomain', hw⟩ := bind_eq_ok.1 hw
    obtain ⟨target', htarget', hw⟩ := bind_eq_ok.1 hw
    obtain ⟨computed, -, hw⟩ := bind_eq_ok.1 hw
    -- evaluation types the computed value again, in a scope that may know more
    have hrow : (Scope.row s none (.this s none a)).Coarser p.ofColumns
        (.row d.schema none (.ofDataSet d b)) := Scope.coarser_row hs h.workspace
    have hcc := (dominates_shapeWith value hrow
      fun t n hn => ⟨n, hn, n.rel_refl _⟩).consistent c c' hc hc'
    have hdd := (Shape.dominates_computedDomain hcc).consistent domain domain' hdomain hdomain'
    rw [← Except.ok.inj hw]
    exact .dataset
      ((Schema.dominates_withMeasure hs name hdd).consistent target target' htarget htarget')
  | within x body ih ihb =>
    refine Consistent.bind (ih h) fun m v hm => consistent_onDataset hm fun s d hs => ?_
    exact ihb (h.this hs)
  | shift direction x offset default window ih =>
    refine Consistent.bind (ih h) fun m v hm => consistent_onDataset hm fun s d hs => ?_
    intro n w hn hw
    obtain ⟨_, -, hn⟩ := bind_eq_ok.1 hn
    obtain ⟨_, -, hn⟩ := bind_eq_ok.1 hn
    obtain ⟨_, -, hw⟩ := bind_eq_ok.1 hw
    rw [← Except.ok.inj hn, ← Except.ok.inj hw]
    exact .dataset hs
  | aggregate statistic x groupBy ih =>
    refine Consistent.bind (ih h) fun m v hm => consistent_onDataset hm fun s d hs => ?_
    have hschema := dominates_aggregateSchema statistic (p.statistics statistic) hs groupBy
    refine consistent_dataset hschema fun w hw => ?_
    obtain ⟨target, htarget, hw⟩ := bind_eq_ok.1 hw
    obtain ⟨_, -, hw⟩ := bind_eq_ok.1 hw
    exact ⟨target, htarget, by rw [← Except.ok.inj hw]; rfl⟩
  | analytic r x window ih =>
    refine Consistent.bind (ih h) fun m v hm => consistent_onDataset hm fun s d hs => ?_
    refine consistent_dataset (dominates_analyticSchema r (p.reducers r) hs window) fun w hw => ?_
    obtain ⟨target, htarget, hw⟩ := bind_eq_ok.1 hw
    obtain ⟨_, -, hw⟩ := bind_eq_ok.1 hw
    exact ⟨target, htarget, by rw [← Except.ok.inj hw]; rfl⟩

/-! ## Rules -/

namespace Scope

/-- The root describes itself: it holds values, or no value can be found in it. -/
theorem typed_engine (p : Precision) (values : Bindings Value) (workspace : Workspace) :
    (engine values workspace).Typed p (engine values workspace) where
  contains _ := rfl
  workspace := rfl
  resolve name := by
    unfold describe Scope.resolve
    cases values.find? name with
    | some v => exact Consistent.ok (.found (Shape.rel_refl p v.shape))
    | none => exact consistent_rule rfl name

/-- The scopes of evaluation: bound values and rules, seen from within rows whose values go with
their components and from within datasets. -/
inductive Live (S : Domain → Domain → Prop) : Scope → Prop where
  | engine (values : Bindings Value) (workspace : Workspace) : Live S (.engine values workspace)
  | row {r : Row} {parent : Scope} : r.Fits S → Live S parent → Live S (.ofRow r parent)
  | this {d : DataSet} {parent : Scope} : Live S parent → Live S (.ofDataSet d parent)

variable {S : Domain → Domain → Prop}

theorem Live.root {a : Scope} (h : a.Live S) : a.root.Live S := by
  induction h with
  | engine values workspace => exact .engine values workspace
  | row _ _ ih => exact ih
  | this _ ih => exact ih

/-- A row describes its values as well as its components do. -/
theorem typed_row {r : Row} (h : r.Fits p.scalar) (parent : Scope) :
    (ofRow r parent).Typed p (ofRow r parent) where
  contains _ := rfl
  workspace := rfl
  resolve name := by
    unfold ofRow describe Scope.resolve
    cases isThis name with
    | true => exact Consistent.ok (.found (Shape.rel_refl p _))
    | false =>
      rcases h.lookup? name with ⟨hc, hv⟩ | ⟨c, v, hc, hv, -, hS⟩
      · simp only [hc]
        exact Consistent.of_error
      · simp only [hc, hv]
        exact Consistent.ok (.found (.scalar hS))

theorem Live.typed {a : Scope} (h : a.Live p.scalar) : a.Typed p a := by
  induction h with
  | engine values workspace => exact typed_engine p values workspace
  | row hr _ _ => exact typed_row hr _
  | this _ ih => exact ih.this (Schema.rel_refl p.column_operators.refl _)

/-- The shape of every rule describes its value. -/
theorem consistent_valueOfRule {a : Scope} (h : a.root.Typed p a.root) (depth : Nat)
    (s : Statement) :
    Consistent (Shape.Predicts p) (a.ruleShape s) (a.root.valueOfRule depth s) := by
  induction depth generalizing s with
  | zero => exact fun _ _ _ hv => nomatch hv
  | succ depth ih =>
    intro m v hm hv
    rw [← ruleShape_root] at ih
    exact consistent_evalWith s.expr ⟨a.root.ruleShape, a.root.valueOfRule depth⟩ h ih m v
      (shape?_of_ruleShape hm) hv

end Scope

/-- The type of an expression predicts its value. -/
theorem predicts_eval {e : Expr} {scope : Scope} {m : Shape} {v : Value}
    (h : scope.Live p.scalar) (hm : e.shape? scope = .ok m) (hv : e.eval scope = .ok v) :
    m.Predicts p v :=
  consistent_evalWith e scope.ruleMeaning h.typed
    (Scope.consistent_valueOfRule h.root.typed _) m v hm hv

/-- The type of an expression is never unknown.  A scalar has the domain it is typed with, unless
that is unknown.  A dataset has the components it is typed with; the domain of one can be typed as
unknown, or as number where it is integer, and only if a row lies around the expression with a value
of another domain than its component. -/
theorem type_describes_value {e : Expr} {scope : Scope} {m : Shape} {v : Value}
    (h : scope.Live Domain.Describes) (hm : e.shape? scope = .ok m) (hv : e.eval scope = .ok v) :
    m ≠ .unknown ∧
      (∀ d, m = .scalar d → ∃ x, v = .scalar x ∧ (d = x.domain ∨ d = .unknown)) ∧
      (∀ s, m = .dataset s → ∃ d, v = .dataset d ∧ s.Rel Domain.Covers d.schema) ∧
      (scope.Live Eq → m = v.shape) := by
  have hgradual : m.Rel .gradual v.shape := predicts_eval (p := .gradual) h hm hv
  refine ⟨?_, ?_, ?_, ?_⟩
  · rintro rfl
    cases v with
    | scalar x => cases hgradual with | hidden hp => exact hp
    | dataset d => cases hgradual with | hidden hp => exact hp
  · rintro d rfl
    cases v with
    | scalar x => cases hgradual with | scalar hd => exact ⟨x, rfl, hd⟩
    | dataset d' => nomatch hgradual
  · rintro s rfl
    cases v with
    | scalar x => nomatch hgradual
    | dataset d => cases hgradual with | dataset hs => exact ⟨d, rfl, hs⟩
  · exact fun hexact => Shape.eq_of_rel (predicts_eval (p := .exact) hexact hm hv)

/-- Two measures, the first of unknown domain. -/
def partlyKnown : Schema := ⟨[⟨"u", .measure, .unknown⟩, ⟨"x", .measure, .integer⟩], by decide⟩

/-- A row of integers whose first component is of unknown domain. -/
def partlyKnownRow : Row := ⟨partlyKnown, [.integer 5, .integer 3], .known "ds"⟩

/-- Inside that row. -/
def partlyKnownScope : Scope :=
  .ofRow partlyKnownRow
    (.engine ⟨[("ds", .dataset ⟨partlyKnown, some "ds", .pure (.ofRows [partlyKnownRow])⟩)]⟩ .empty)

theorem partlyKnownScope_live : partlyKnownScope.Live Domain.Describes :=
  .row (.cons (Or.inr rfl) (.cons (Or.inl rfl) .nil)) (.engine _ _)

/-- Added to every measure, an unknown component makes all of them unknown. -/
def sumWithUnknown : Expr := .binary .add (.var "this") (.var "u")

theorem type_describes_value_sumWithUnknown :
    ∃ s d, sumWithUnknown.shape? partlyKnownScope = .ok (.dataset s) ∧
      sumWithUnknown.eval partlyKnownScope = .ok (.dataset d) ∧ s.Rel Domain.Covers d.schema := by
  refine ⟨_, _, rfl, rfl, ?_⟩
  obtain ⟨-, -, h, -⟩ := type_describes_value (e := sumWithUnknown) partlyKnownScope_live rfl rfl
  obtain ⟨d, hd, hs⟩ := h _ rfl
  cases hd
  exact hs

/-- The domains of a dataset are not always those it is typed with. -/
theorem type_not_always_exact :
    ¬ ∀ (e : Expr) (scope : Scope) (m : Shape) (v : Value), scope.Live Domain.Describes →
      e.shape? scope = .ok m → e.eval scope = .ok v →
        m ≠ .unknown ∧
          (∀ d, m = .scalar d → ∃ x, v = .scalar x ∧ (d = x.domain ∨ d = .unknown)) ∧
          (∀ s, m = .dataset s → ∃ d, v = .dataset d ∧ d.schema = s) := by
  intro hall
  obtain ⟨-, -, h⟩ := hall sumWithUnknown partlyKnownScope _ _ partlyKnownScope_live rfl rfl
  obtain ⟨d, hd, hs⟩ := h _ rfl
  cases hd
  -- the second measure is typed as unknown and is an integer
  have hdomains := congrArg (fun s => s.components.map Component.domain) hs
  revert hdomains
  decide

end DataCube
