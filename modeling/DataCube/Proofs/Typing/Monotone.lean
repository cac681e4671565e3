import DataCube.Typing
import DataCube.Proofs.Typing.Schemas

/-!
# Typing in coarser scopes

Typing an expression in a scope that knows less succeeds wherever typing it in a scope that knows
more does, and gives a shape that says less in the same way.  The relation is that of a `Precision`.

* `Shape.Rel p`: one shape says less than another.
* `Scope.Coarser p a b`: the names of `a` are those of `b`, with shapes that say less.
* `dominates_shapeWith` is the result.  At `Precision.exact` it says that a type does not depend on
  how deep rules were allowed to nest while it was found: `shapeOfRule_le` and `shapeWith_depth`.
-/

namespace DataCube

variable {p : Precision}

/-! ## Defaults -/

/-- A default is accepted if it fits every measure. -/
theorem checkDefault_eq_ok {direction : Shift} {schema : Schema} {default : Option Scalar}
    {u : Unit} :
    direction.checkDefault schema default = .ok u ↔
      ∀ v, default = some v → ∀ m ∈ schema.measures, m.domain.accepts v.domain = true := by
  cases default with
  | none => exact ⟨fun _ v hv => (nomatch hv), fun _ => rfl⟩
  | some v =>
    rw [Shift.checkDefault, forM_eq_ok]
    constructor
    · rintro h v' ⟨⟩ m hm
      by_contra hm'
      have := h m hm
      rw [if_neg hm'] at this
      nomatch this
    · intro h m hm
      exact if_pos (h v rfl m hm)

/-- A default that fits the known domains fits those that are known less well. -/
theorem dominates_checkDefault {R : Domain → Domain → Prop} {s s' : Schema}
    (hdefault : ∀ {d d' v}, R d d' → d'.accepts v = true → d.accepts v = true)
    (h : s.Rel R s') (direction : Shift) (default : Option Scalar) :
    Dominates (fun _ _ => True) (direction.checkDefault s default)
      (direction.checkDefault s' default) := by
  intro u hu
  refine ⟨u, ?_, trivial⟩
  rw [checkDefault_eq_ok] at hu ⊢
  intro v hv m hm
  obtain ⟨m', hm', hrel⟩ := exists_of_forall₂ (Schema.rel_measures h) hm
  exact hdefault hrel.domain (hu v hv m' hm')

/-! ## Shapes -/

/-- The left shape says of a result what the right one says, or less. -/
inductive Shape.Rel (p : Precision) : Shape → Shape → Prop where
  | scalar {d d' : Domain} : p.scalar d d' → Rel p (.scalar d) (.scalar d')
  | dataset {s s' : Schema} : s.Rel p.column s' → Rel p (.dataset s) (.dataset s')
  | unknown : Rel p .unknown .unknown
  | hidden {m : Shape} : p.hidden → Rel p .unknown m

namespace Shape

theorem rel_refl (p : Precision) (m : Shape) : m.Rel p m := by
  cases m with
  | scalar d => exact .scalar (p.scalar_operators.refl d)
  | dataset s => exact .dataset (Schema.rel_refl p.column_operators.refl s)
  | unknown => exact .unknown

theorem Rel.ofColumns {m m' : Shape} (h : m.Rel p m') : m.Rel p.ofColumns m' := by
  cases h with
  | scalar h => exact .scalar (p.column_of_scalar h)
  | dataset h => exact .dataset h
  | unknown => exact .unknown
  | hidden h => exact .hidden h

theorem eq_of_rel {m m' : Shape} (h : m.Rel .exact m') : m = m' := by
  cases h with
  | scalar h => exact congrArg Shape.scalar h
  | dataset h => exact congrArg Shape.dataset (Schema.eq_of_rel h)
  | unknown => rfl
  | hidden h => exact h.elim

theorem dominates_onDataset {m m' : Shape} {operator operator' : Unit → String}
    {next next' : Schema → Except EvalError Shape} (h : m.Rel p m')
    (hnext : ∀ s s', s.Rel p.column s' → Dominates (Rel p) (next s) (next' s')) :
    Dominates (Rel p) (m.onDataset operator next) (m'.onDataset operator' next') := by
  cases h with
  | scalar h => exact Dominates.of_error
  | dataset h => exact hnext _ _ h
  | unknown => exact Dominates.ok .unknown
  | hidden h => exact fun b _ => ⟨.unknown, rfl, .hidden h⟩

/-- A filter has the schema of its operand. -/
theorem eq_of_filtered {m m' : Shape} {s : Schema} {condition : Expr}
    (h : m.filtered s condition = .ok m') : m' = .dataset s := by
  unfold filtered at h
  cases m with
  | scalar d =>
    simp only at h
    split at h
    · exact (Except.ok.inj h).symm
    · nomatch h
  | dataset _ => nomatch h
  | unknown => exact (Except.ok.inj h).symm

theorem dominates_filtered {m m' : Shape} {s s' : Schema} (condition : Expr)
    (h : m.Rel p.ofColumns m') (hs : s.Rel p.column s') :
    Dominates (Rel p) (m.filtered s condition) (m'.filtered s' condition) := by
  cases h with
  | @scalar d d' h =>
    simp only [filtered]
    by_cases hd' : Domain.boolean.accepts d' = true
    · rw [if_pos hd', if_pos (p.condition h hd')]
      exact Dominates.ok (.dataset hs)
    · rw [if_neg hd']
      exact Dominates.of_error
  | dataset h => exact Dominates.of_error
  | unknown => exact Dominates.ok (.dataset hs)
  | hidden h =>
    intro b hb
    rw [eq_of_filtered hb]
    exact ⟨.dataset s, rfl, .dataset hs⟩

theorem dominates_computedDomain {m m' : Shape} (h : m.Rel p.ofColumns m') :
    Dominates p.column m.computedDomain m'.computedDomain := by
  cases h with
  | scalar h => exact Dominates.ok h
  | dataset h => exact Dominates.of_error
  | unknown => exact Dominates.ok (p.column_operators.refl .unknown)
  | hidden h => exact fun b _ => ⟨.unknown, rfl, p.hidden_column h b⟩

end Shape

theorem UnaryOp.dominates_resultShape (op : UnaryOp) {m m' : Shape} (h : m.Rel p m') :
    Dominates (Shape.Rel p) (op.resultShape m) (op.resultShape m') := by
  cases h with
  | scalar h => exact Dominates.map (p.scalar_operators.unary op h) fun d d' hd => .scalar hd
  | dataset h =>
    refine Dominates.map (Schema.dominates_mapMeasures h fun c c' hc => ?_)
      fun s s' hs => .dataset hs
    exact p.column_operators.unary op hc.domain
  | unknown => exact Dominates.ok .unknown
  | hidden h => exact fun b _ => ⟨.unknown, rfl, .hidden h⟩

theorem BinaryOp.dominates_resultShape (op : BinaryOp) {l l' r r' : Shape} (hl : l.Rel p l')
    (hr : r.Rel p r') : Dominates (Shape.Rel p) (op.resultShape l r) (op.resultShape l' r') := by
  cases hl with
  | hidden h => exact fun b _ => ⟨.unknown, rfl, .hidden h⟩
  | unknown => exact Dominates.ok .unknown
  | scalar hl =>
    cases hr with
    | scalar hr =>
      exact Dominates.map (p.scalar_operators.binary op hl hr) fun d d' hd => .scalar hd
    | dataset hr =>
      refine Dominates.map (Schema.dominates_mapMeasures hr fun c c' hc => ?_)
        fun s s' hs => .dataset hs
      exact p.column_operators.binary op (p.column_of_scalar hl) hc.domain
    | unknown => exact Dominates.ok .unknown
    | hidden h => exact fun b _ => ⟨.unknown, rfl, .hidden h⟩
  | dataset hl =>
    cases hr with
    | scalar hr =>
      refine Dominates.map (Schema.dominates_mapMeasures hl fun c c' hc => ?_)
        fun s s' hs => .dataset hs
      exact p.column_operators.binary op hc.domain (p.column_of_scalar hr)
    | dataset hr => exact Dominates.of_error
    | unknown => exact Dominates.ok .unknown
    | hidden h => exact fun b _ => ⟨.unknown, rfl, .hidden h⟩

/-! ## Bindings -/

/-- The same names in the same order, bound to things that `Q` relates. -/
def Bindings.Rel {α β : Type} (Q : α → β → Prop) (b : Bindings α) (b' : Bindings β) : Prop :=
  List.Forall₂ (fun e e' => e.1 = e'.1 ∧ Q e.2 e'.2) b.entries b'.entries

/-- A name refers to related things, or to nothing in either. -/
theorem Bindings.Rel.find?_pair {α β : Type} {Q : α → β → Prop} {b : Bindings α} {b' : Bindings β}
    (h : b.Rel Q b') (name : String) :
    b.find? name = none ∧ b'.find? name = none ∨
      ∃ x y, b.find? name = some x ∧ b'.find? name = some y ∧ Q x y := by
  refine rel_cases (rel_or (rel_map (forall₂_find? h fun e e' he => ?_) fun _ _ he => he.2) ?_)
  · rw [he.1]
  · exact rel_map (NamePattern.rel_find? _ h fun _ _ he => he.1) fun _ _ he => he.2

/-! ## Scopes -/

/-- Both answers to a lookup are rules, the same one, or both are found, and `Q` relates them. -/
inductive Entry.Rel {α β : Type} (Q : α → β → Prop) : Entry α → Entry β → Prop where
  | found {x : α} {y : β} : Q x y → Rel Q (.found x) (.found y)
  | rule (s : Statement) : Rel Q (.rule s) (.rule s)

/-- The same names, with shapes that say less, and the same rules. -/
structure Scope.Coarser (p : Precision) (a b : Scope) : Prop where
  contains : ∀ name, a.contains name = b.contains name
  workspace : a.workspace = b.workspace
  describe : ∀ name, Dominates (Entry.Rel (Shape.Rel p)) (a.describe name) (b.describe name)

namespace Scope

/-- Scopes of the same workspace have the same rules. -/
theorem rule_eq {a b : Scope} (h : a.workspace = b.workspace) (name : String) :
    a.rule name = b.rule name := by
  unfold rule
  rw [h]

theorem dominates_rule {a b : Scope} {Q : Shape → Shape → Prop} (h : a.workspace = b.workspace)
    (name : String) :
    Dominates (Entry.Rel Q) ((a.rule name).map .rule) ((b.rule name).map .rule) := by
  rw [rule_eq h]
  intro entry hentry
  obtain ⟨s, -, rfl⟩ := map_eq_ok.1 hentry
  exact ⟨.rule s, hentry, .rule s⟩

theorem Coarser.refl (p : Precision) (a : Scope) : a.Coarser p a where
  contains _ := rfl
  workspace := rfl
  describe name entry hentry := by
    refine ⟨entry, hentry, ?_⟩
    cases entry with
    | found m => exact .found (m.rel_refl p)
    | rule s => exact .rule s

theorem Coarser.shapeEntry {a b : Scope} (h : a.Coarser p b) (name : String) :
    Dominates (Entry.Rel (Shape.Rel p)) (a.shapeEntry name) (b.shapeEntry name) := by
  unfold Scope.shapeEntry
  rw [h.contains name]
  split
  · exact h.describe name
  · exact dominates_rule h.workspace name

/-- Inside a row the components are the scalars, and nothing outside is seen. -/
theorem coarser_row {s s' : Schema} {r r' : Option Row} {a b : Scope}
    (hs : s.Rel p.column s') (hw : a.workspace = b.workspace) :
    (row s r a).Coarser p.ofColumns (row s' r' b) where
  contains name := by
    simp only [contains, Schema.component?_isSome hs name]
  workspace := hw
  describe name := by
    unfold describe
    split
    · exact Dominates.ok (.found (.dataset hs))
    · rcases Schema.component?_pair hs name with ⟨hc, hc'⟩ | ⟨c, c', hc, hc', h⟩
      · rw [hc']
        exact Dominates.of_error
      · rw [hc, hc']
        exact Dominates.ok (.found (.scalar h.rel.domain))

theorem Coarser.this {s s' : Schema} {d d' : Option DataSet} {a b : Scope}
    (h : a.Coarser p b) (hs : s.Rel p.column s') :
    (Scope.this s d a).Coarser p (Scope.this s' d' b) where
  contains name := by
    simp only [Scope.contains, Schema.component?_isSome hs name, h.contains name]
  workspace := h.workspace
  describe name := by
    unfold Scope.describe
    rw [Schema.component?_isSome hs name]
    split
    · exact Dominates.ok (.found (.dataset hs))
    · split
      · exact Dominates.map (Schema.dominates_membership hs name) fun _ _ h => .found (.dataset h)
      · exact h.describe name

end Scope

/-! ## Expressions -/

/-- An expression has a type wherever it has one in a scope that knows more. -/
theorem dominates_shapeWith (e : Expr) {p : Precision} {a b : Scope} (h : a.Coarser p b)
    {rule rule' : Statement → Except EvalError Shape}
    (hrule : ∀ s, Dominates (Shape.Rel p) (rule s) (rule' s)) :
    Dominates (Shape.Rel p) (e.shapeWith rule a) (e.shapeWith rule' b) := by
  induction e generalizing p a b with
  | constant v => exact Dominates.ok (Shape.rel_refl p _)
  | var name =>
    refine Dominates.bind (h.shapeEntry name) fun entry entry' hentry => ?_
    cases hentry with
    | found hm => exact Dominates.ok hm
    | rule s => exact hrule s
  | unary op x ih =>
    exact Dominates.bind (ih h hrule) fun m m' hm => op.dominates_resultShape hm
  | binary op l r ihl ihr =>
    refine Dominates.bind (ihl h hrule) fun m m' hm => ?_
    exact Dominates.bind (ihr h hrule) fun n n' hn => op.dominates_resultShape hm hn
  | member x name ih =>
    refine Dominates.bind (ih h hrule) fun m m' hm => ?_
    refine Shape.dominates_onDataset hm fun s s' hs => ?_
    exact Dominates.map (Schema.dominates_membership hs name) fun _ _ => .dataset
  | filter x condition ih ihc =>
    refine Dominates.bind (ih h hrule) fun m m' hm => ?_
    refine Shape.dominates_onDataset hm fun s s' hs => ?_
    -- inside a row the components are scalars, so the relation changes on the way down
    refine Dominates.bind (ihc (Scope.coarser_row hs h.workspace)
      fun t => (hrule t).mono fun _ _ => .ofColumns) fun n n' hn => ?_
    exact Shape.dominates_filtered condition hn hs
  | keep x names ih =>
    refine Dominates.bind (ih h hrule) fun m m' hm => ?_
    refine Shape.dominates_onDataset hm fun s s' hs => ?_
    exact Dominates.map (Schema.dominates_keep hs names) fun _ _ => .dataset
  | drop x names ih =>
    refine Dominates.bind (ih h hrule) fun m m' hm => ?_
    refine Shape.dominates_onDataset hm fun s s' hs => ?_
    exact Dominates.map (Schema.dominates_drop hs names) fun _ _ => .dataset
  | compute x name value ih ihv =>
    refine Dominates.bind (ih h hrule) fun m m' hm => ?_
    refine Shape.dominates_onDataset hm fun s s' hs => ?_
    refine Dominates.bind (ihv (Scope.coarser_row hs h.workspace)
      fun t => (hrule t).mono fun _ _ => .ofColumns) fun n n' hn => ?_
    refine Dominates.bind (Shape.dominates_computedDomain hn) fun d d' hd => ?_
    exact Dominates.map (Schema.dominates_withMeasure hs name hd) fun _ _ => .dataset
  | within x body ih ihb =>
    refine Dominates.bind (ih h hrule) fun m m' hm => ?_
    refine Shape.dominates_onDataset hm fun s s' hs => ?_
    exact ihb (h.this hs) hrule
  | shift direction x offset default window ih =>
    refine Dominates.bind (ih h hrule) fun m m' hm => ?_
    refine Shape.dominates_onDataset hm fun s s' hs => ?_
    refine Dominates.bind (dominates_resolve? hs window .identifiers) fun _ _ _ => ?_
    refine Dominates.bind (dominates_checkDefault p.default hs direction default) fun _ _ _ => ?_
    exact Dominates.ok (.dataset hs)
  | aggregate statistic x groupBy ih =>
    refine Dominates.bind (ih h hrule) fun m m' hm => ?_
    refine Shape.dominates_onDataset hm fun s s' hs => ?_
    exact Dominates.map (dominates_aggregateSchema statistic (p.statistics statistic) hs groupBy)
      fun _ _ => .dataset
  | analytic r x window ih =>
    refine Dominates.bind (ih h hrule) fun m m' hm => ?_
    refine Shape.dominates_onDataset hm fun s s' hs => ?_
    exact Dominates.map (dominates_analyticSchema r (p.reducers r) hs window) fun _ _ => .dataset

/-! ## Rules -/

namespace Scope

@[simp] theorem root_root (a : Scope) : a.root.root = a.root := by
  induction a with
  | engine _ _ => rfl
  | compile _ _ => rfl
  | row _ _ _ ih => exact ih
  | this _ _ _ ih => exact ih

@[simp] theorem workspace_root (a : Scope) : a.root.workspace = a.workspace := by
  induction a with
  | engine _ _ => rfl
  | compile _ _ => rfl
  | row _ _ _ ih => exact ih
  | this _ _ _ ih => exact ih

/-- Rules mean the same everywhere over one root. -/
theorem ruleShape_root (a : Scope) : a.root.ruleShape = a.ruleShape := by
  funext s
  unfold ruleShape
  rw [root_root, workspace_root]

theorem dominates_shapeOfRule (a : Scope) (depth : Nat) (s : Statement) :
    Dominates (Shape.Rel .exact) (a.shapeOfRule (depth + 1) s) (a.shapeOfRule depth s) := by
  induction depth generalizing s with
  | zero => exact Dominates.of_error
  | succ depth ih => exact dominates_shapeWith s.expr (.refl .exact a) ih

/-- A rule that has a shape keeps it when rules may nest deeper. -/
theorem shapeOfRule_le {a : Scope} {depth depth' : Nat} {s : Statement} {m : Shape}
    (h : depth ≤ depth') (hm : a.shapeOfRule depth s = .ok m) : a.shapeOfRule depth' s = .ok m := by
  obtain ⟨more, rfl⟩ := Nat.exists_eq_add_of_le h
  induction more with
  | zero => exact hm
  | succ more ih =>
    obtain ⟨m', hm', hrel⟩ := a.dominates_shapeOfRule (depth + more) s m (ih (by omega))
    rw [← Nat.add_assoc, hm', Shape.eq_of_rel hrel]

/-- The shape of a rule is that of its expression at the root. -/
theorem shape?_of_ruleShape {a : Scope} {s : Statement} {m : Shape} (h : a.ruleShape s = .ok m) :
    s.expr.shape? a.root = .ok m := by
  unfold ruleShape at h
  cases hdepth : a.workspace.size with
  | zero =>
    rw [hdepth] at h
    nomatch h
  | succ depth =>
    rw [hdepth] at h
    have hle (t : Statement) : Dominates (Shape.Rel .exact) (a.root.ruleShape t)
        (a.root.shapeOfRule depth t) := by
      intro n hn
      refine ⟨n, ?_, n.rel_refl _⟩
      unfold ruleShape
      rw [root_root, workspace_root]
      exact shapeOfRule_le (by omega) hn
    obtain ⟨m', hm', hrel⟩ := dominates_shapeWith s.expr (.refl .exact a.root) hle m h
    rw [← Shape.eq_of_rel hrel]
    exact hm'

end Scope

end DataCube
