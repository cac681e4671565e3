import Mathlib.Algebra.GroupWithZero.Nat
import Mathlib.Algebra.Order.BigOperators.Group.List
import Mathlib.Algebra.Order.Group.Nat
import DataCube.Evaluation
import DataCube.Proofs.Safety.Scopes

/-!
# How deep rules are nested

A variable can stand for a rule, and then typing and evaluation start again on another expression,
at the root.  If the rules can be ranked, so that those mentioned in a rule have smaller ranks than
the rule itself, this comes to an end, and how deep typing and evaluation are nested is bounded by
the heights of the expression and of the rules.  It does not matter which of the names are shadowed.
Looking up a name in scopes within one another is not counted: they were there before.

* `Meaning.node`: one step of typing and evaluation, which leaves to a given meaning what is to be
  done for operands, for the rows of clauses, and for rules.  `Meaning.within cut n` is cut off
  after `n` steps within one another.
* `Expr.height`, `Workspace.height`: the bounds.
* `Workspace.Ranked`: the rules can be ranked.
* `within_eq`: where the rules are ranked, nothing is ever cut off.
-/

namespace DataCube

/-! ## Steps -/

/-- What typing and evaluation make of every expression in every scope. -/
structure Meaning where
  shape : Expr → Scope → Except EvalError Shape
  value : Expr → Scope → Except EvalError Value

namespace Meaning

/-- The shape of an expression, given what its operands and the rules mean. -/
def shapeNode (m : Meaning) (e : Expr) (scope : Scope) : Except EvalError Shape :=
  match e with
  | .constant v => .ok (.scalar v.domain)
  | .var name => do
    match ← scope.shapeEntry name with
    | .found shape => pure shape
    | .rule s => m.shape s.expr scope.root
  | .unary op x => do
    op.resultShape (← m.shape x scope)
  | .binary op l r => do
    let left ← m.shape l scope
    let right ← m.shape r scope
    op.resultShape left right
  | .member x name => do
    (← m.shape x scope).onDataset (fun _ => e.text) fun schema =>
      (schema.membership name).map .dataset
  | .filter x condition => do
    (← m.shape x scope).onDataset (fun _ => e.text) fun schema => do
      let row := Scope.row schema none (.this schema none scope)
      (← m.shape condition row).filtered schema condition
  | .keep x names => do
    (← m.shape x scope).onDataset (fun _ => e.text) fun schema =>
      (schema.keep names).map .dataset
  | .drop x names => do
    (← m.shape x scope).onDataset (fun _ => e.text) fun schema =>
      (schema.drop names).map .dataset
  | .compute x name value => do
    (← m.shape x scope).onDataset (fun _ => e.text) fun schema => do
      let row := Scope.row schema none (.this schema none scope)
      let domain ← (← m.shape value row).computedDomain
      (schema.withMeasure name domain).map .dataset
  | .within x body => do
    (← m.shape x scope).onDataset (fun _ => e.text) fun schema =>
      m.shape body (.this schema none scope)
  | .shift direction x _ default window => do
    (← m.shape x scope).onDataset (fun _ => direction.text) fun schema => do
      let _ ← Window.resolve? schema window .identifiers
      direction.checkDefault schema default
      pure (.dataset schema)
  | .aggregate s x groupBy => do
    (← m.shape x scope).onDataset (fun _ => s.text) fun schema =>
      (s.outputSchema schema groupBy).map .dataset
  | .analytic r x window => do
    (← m.shape x scope).onDataset (fun _ => r.text) fun schema =>
      (r.outputSchema schema window).map .dataset

/-- The value of an expression, given what its operands, its clauses and the rules mean. -/
def valueNode (m : Meaning) (e : Expr) (scope : Scope) : Except EvalError Value :=
  match e with
  | .constant v => .ok (.scalar v)
  | .var name => do
    match ← scope.valueEntry name with
    | .found v => pure v
    | .rule s => m.value s.expr scope.root
  | .unary op x => do
    op.onValue e.text (← m.value x scope)
  | .binary op l r => do
    let left ← m.value l scope
    let right ← m.value r scope
    op.onValues e.text left right
  | .member x name => do
    let d ← (← m.value x scope).asDataSet (scalarBracketed e)
    (d.membership name e.text).map .dataset
  | .filter x condition => do
    let d ← (← m.value x scope).asDataSet (scalarBracketed e)
    pure (.dataset (d.filter fun r => do
      (← m.value condition (.ofRow r scope.root)).asCondition condition))
  | .keep x names => do
    let d ← (← m.value x scope).asDataSet (scalarBracketed e)
    pure (.dataset (d.project (← d.schema.keep names) e.text))
  | .drop x names => do
    let d ← (← m.value x scope).asDataSet (scalarBracketed e)
    pure (.dataset (d.project (← d.schema.drop names) e.text))
  | .compute x name value => do
    let d ← (← m.value x scope).asDataSet (scalarBracketed e)
    let row := Scope.row d.schema none (.ofDataSet d scope)
    let domain ← (← m.shape value row).computedDomain
    let target ← d.schema.withMeasure name domain
    let computed ← target.require name
    pure (.dataset (d.mapRows target (DataSet.computedRow computed target e.text fun r => do
      (← m.value value (.ofRow r scope.root)).asComputed)))
  | .within x body => do
    let d ← (← m.value x scope).asDataSet (scalarBracketed e)
    m.value body (.ofDataSet d scope)
  | .shift direction x offset default window => do
    let d ← (← m.value x scope).asDataSet (scalarUnsupported direction.text)
    let w ← Window.resolve? d.schema window .identifiers
    pure (.dataset (direction.run offset default w e.text d))
  | .aggregate s x groupBy => do
    let d ← (← m.value x scope).asDataSet (scalarUnsupported s.text)
    let target ← s.outputSchema d.schema groupBy
    let keys ← Statistic.groupKeys? d.schema groupBy
    pure (.dataset (s.runGroups keys target d))
  | .analytic r x window => do
    let d ← (← m.value x scope).asDataSet (scalarUnsupported r.text)
    let target ← r.outputSchema d.schema window
    let w ← Window.resolve? d.schema window .whole
    pure (.dataset (r.runWindow w target e.text d))

/-- One step of typing and evaluation. -/
def node (m : Meaning) : Meaning := ⟨m.shapeNode, m.valueNode⟩

/-- So many steps within one another; what lies deeper is cut off. -/
def within (cut : Meaning) : (depth : Nat) → Meaning
  | 0 => cut
  | depth + 1 => (cut.within depth).node

end Meaning

/-! ## Heights -/

/-- How many nodes are within one another. -/
def Expr.height : Expr → Nat
  | constant _ | var _ => 1
  | binary _ l r => max l.height r.height + 1
  | filter x y | compute x _ y | within x y => max x.height y.height + 1
  | unary _ x | member x _ | keep x _ | drop x _ | shift _ x _ _ _ | aggregate _ x _
  | analytic _ x _ => x.height + 1

theorem Expr.height_pos (e : Expr) : 0 < e.height := by
  cases e <;> simp [height]

theorem Expr.height_operand {e x : Expr} (hx : x ∈ e.operands) : x.height < e.height := by
  cases e <;> simp [operands] at hx <;> grind [height]

/-- How many nodes are within one another in the expression of a rule. -/
def Statement.height (s : Statement) : Nat := s.expr.height

namespace Workspace

variable {w : Workspace} {rank f : Statement → Nat}

/-- The expressions of all rules within one another. -/
def height (w : Workspace) : Nat := (w.rules.values.map Statement.height).sum

/-- A rule has a greater rank than the rules that the names in its expression refer to, whatever
else the names may stand for where they are looked up. -/
def Ranked (w : Workspace) (rank : Statement → Nat) : Prop :=
  ∀ ⦃name : String⦄ ⦃s : Statement⦄, w.rule? name = some s →
    ∀ ⦃x : String⦄ ⦃t : Statement⦄, s.expr.Has (.var x) → w.rule? x = some t → rank t < rank s

/-! ## What the rules below a rank need -/

/-- The sum over the rules that are below a rank. -/
def sumBelow (w : Workspace) (rank f : Statement → Nat) (bound : Nat) : Nat :=
  ((w.rules.values.filter fun s => rank s < bound).map f).sum

/-- A member comes on top of those that are picked without it. -/
theorem add_sum_filter_le {p q : Statement → Bool} {ss : List Statement} {s : Statement}
    (hs : s ∈ ss) (hp : p s = false) (hq : q s = true) (hpq : ∀ t, p t = true → q t = true) :
    f s + ((ss.filter p).map f).sum ≤ ((ss.filter q).map f).sum := by
  have hsub : (ss.filter p).Sublist ((ss.filter q).erase s) := by
    have hnot : s ∉ ss.filter p := fun h => by
      rw [List.mem_filter, hp] at h
      nomatch h.2
    rw [← List.erase_of_not_mem hnot]
    exact (List.monotone_filter_right ss hpq).erase s
  have hperm := List.perm_cons_erase (List.mem_filter.2 ⟨hs, hq⟩)
  rw [(hperm.map f).sum_nat, List.map_cons, List.sum_cons]
  exact Nat.add_le_add_left ((hsub.map f).sum_le_sum fun _ _ => Nat.zero_le _) _

/-- A rule comes on top of those of smaller ranks. -/
theorem add_sumBelow_le {s : Statement} (hs : s ∈ w.rules.values) {bound : Nat}
    (h : rank s < bound) : f s + w.sumBelow rank f (rank s) ≤ w.sumBelow rank f bound := by
  refine add_sum_filter_le hs ?_ (decide_eq_true h) fun t ht => ?_
  · exact decide_eq_false (Nat.lt_irrefl _)
  · exact decide_eq_true ((of_decide_eq_true ht).trans h)

/-- The rules that the names in an expression refer to, those in their expressions and so on, need
no more than this when they are within one another. -/
def Needs (w : Workspace) (rank f : Statement → Nat) (e : Expr) (k : Nat) : Prop :=
  ∀ ⦃x : String⦄ ⦃t : Statement⦄, e.Has (.var x) → w.rule? x = some t →
    f t + w.sumBelow rank f (rank t) ≤ k

namespace Needs

variable {e x : Expr} {k : Nat}

theorem operand (h : w.Needs rank f e k) (hx : x ∈ e.operands) : w.Needs rank f x k :=
  fun _ _ hy ht => h (hy.of_operand hx) ht

/-- No more than all rules is needed. -/
theorem all (e : Expr) : w.Needs rank f e (w.rules.values.map f).sum := by
  intro x t _ ht
  have hadd := add_sum_filter_le (f := f) (p := fun s => rank s < rank t) (q := fun _ => true)
    (Bindings.mem_values_of_get? ht) (decide_eq_false (Nat.lt_irrefl _)) rfl fun _ _ => rfl
  rwa [List.filter_true] at hadd

/-- What is left for the expression of a rule. -/
theorem rule (hw : w.Ranked rank) {name : String} {s : Statement}
    (h : w.Needs rank f (.var name) k) (hs : w.rule? name = some s) :
    ∃ rest, k = f s + rest ∧ w.Needs rank f s.expr rest := by
  obtain ⟨more, hk⟩ := Nat.exists_eq_add_of_le (h (Expr.has_self _) hs)
  refine ⟨w.sumBelow rank f (rank s) + more, by omega, fun y t hy ht => ?_⟩
  have hbelow := add_sumBelow_le (f := f) (Bindings.mem_values_of_get? ht) (hw hs hy ht)
  omega

end Needs

/-- So many steps within one another, and rules nested so deep, are enough for the expression with
all rules that it refers to. -/
structure Affords (w : Workspace) (rank : Statement → Nat) (e : Expr) (n depth : Nat) : Prop where
  steps : ∃ k, w.Needs rank Statement.height e k ∧ e.height + k ≤ n
  depth : w.Needs rank (fun _ => 1) e depth

namespace Affords

variable {e x : Expr} {n depth : Nat}

theorem pos (h : w.Affords rank e n depth) : n ≠ 0 := by
  obtain ⟨k, -, hn⟩ := h.steps
  have hpos := e.height_pos
  omega

theorem operand (h : w.Affords rank e (n + 1) depth) (hx : x ∈ e.operands) :
    w.Affords rank x n depth := by
  obtain ⟨k, hk, hn⟩ := h.steps
  have hlt := Expr.height_operand hx
  exact ⟨⟨k, hk.operand hx, by omega⟩, h.depth.operand hx⟩

/-- A rule takes one step, and the rules in its expression are nested one deeper. -/
theorem rule (hw : w.Ranked rank) {name : String} {s : Statement}
    (h : w.Affords rank (.var name) (n + 1) depth) (hs : w.rule? name = some s) :
    ∃ depth', depth = depth' + 1 ∧ w.Affords rank s.expr n depth' := by
  obtain ⟨k, hk, hn⟩ := h.steps
  obtain ⟨k', rfl, hk'⟩ := hk.rule hw hs
  obtain ⟨depth', rfl, hdepth'⟩ := h.depth.rule hw hs
  simp only [Expr.height, Statement.height] at hn
  exact ⟨depth', Nat.add_comm 1 depth', ⟨k', hk', by omega⟩, hdepth'⟩

/-- All rules are enough. -/
theorem all (hn : e.height + w.height ≤ n) (hdepth : w.size ≤ depth) :
    w.Affords rank e n depth where
  steps := ⟨w.height, .all e, hn⟩
  depth x t hx ht := by
    have hall := @Needs.all w rank (fun _ => 1) e x t hx ht
    have hlength : w.rules.values.length = w.size := List.length_map _
    rw [List.map_const', List.sum_replicate_nat, hlength, Nat.mul_one] at hall
    exact hall.trans hdepth

end Affords

end Workspace

/-! ## Nothing is cut off -/

namespace Scope

theorem rule?_of_resolve {a : Scope} {name : String} {s : Statement}
    (h : a.resolve name = .ok (.rule s)) : a.workspace.rule? name = some s := by
  induction a with
  | engine values workspace =>
    unfold resolve at h
    split at h
    · cases h
    · obtain ⟨s', hs', heq⟩ := map_eq_ok.1 h
      cases heq
      exact rule?_of_rule hs'
  | compile shapes workspace => cases h
  | row schema row parent =>
    cases row with
    | none => cases h
    | some r =>
      unfold resolve at h
      split at h
      · cases h
      · split at h
        · cases h
        · cases h
  | this schema dataset parent ih =>
    unfold resolve at h
    split at h
    · exact ih h
    · cases dataset with
      | none => cases h
      | some d =>
        simp only at h
        split at h
        · cases h
        · obtain ⟨m, -, heq⟩ := map_eq_ok.1 h
          cases heq

theorem rule?_of_valueEntry {a : Scope} {name : String} {s : Statement}
    (h : a.valueEntry name = .ok (.rule s)) : a.workspace.rule? name = some s := by
  unfold valueEntry at h
  split at h
  · exact rule?_of_resolve h
  · obtain ⟨s', hs', heq⟩ := map_eq_ok.1 h
    cases heq
    exact rule?_of_rule hs'

end Scope

namespace Meaning

variable {m : Meaning} {e : Expr} {scope : Scope}

/-- One step of typing is right where operands are typed rightly, in the scopes that clauses are
typed in as well, and rules are. -/
theorem shapeNode_eq {rule : Statement → Except EvalError Shape}
    (hrule : ∀ name s, e = .var name → scope.shapeEntry name = .ok (.rule s) →
      m.shape s.expr scope.root = rule s)
    (hoperand : ∀ x ∈ e.operands, ∀ inner : Scope, inner.root = scope.root →
      inner.workspace = scope.workspace → m.shape x inner = x.shapeWith rule inner) :
    m.shapeNode e scope = e.shapeWith rule scope := by
  cases e with
  | constant v => rfl
  | var name =>
    simp only [shapeNode, Expr.shapeWith]
    cases hentry : scope.shapeEntry name with
    | error e => rfl
    | ok entry =>
      cases entry with
      | found m => rfl
      | rule s => exact hrule name s rfl hentry
  | binary op l r =>
    have hl := hoperand l List.mem_cons_self scope rfl rfl
    have hr := hoperand r (List.mem_cons_of_mem l List.mem_cons_self) scope rfl rfl
    simp only [shapeNode, Expr.shapeWith, hl, hr]
  | filter x condition =>
    have hx := hoperand x List.mem_cons_self scope rfl rfl
    have hcondition (schema : Schema) :=
      hoperand condition (List.mem_cons_of_mem x List.mem_cons_self)
        (.row schema none (.this schema none scope)) rfl rfl
    simp only [shapeNode, Expr.shapeWith, hx, hcondition]
  | compute x name value =>
    have hx := hoperand x List.mem_cons_self scope rfl rfl
    have hvalue (schema : Schema) :=
      hoperand value (List.mem_cons_of_mem x List.mem_cons_self)
        (.row schema none (.this schema none scope)) rfl rfl
    simp only [shapeNode, Expr.shapeWith, hx, hvalue]
  | within x body =>
    have hx := hoperand x List.mem_cons_self scope rfl rfl
    have hbody (schema : Schema) :=
      hoperand body (List.mem_cons_of_mem x List.mem_cons_self) (.this schema none scope) rfl rfl
    simp only [shapeNode, Expr.shapeWith, hx, hbody]
  | unary _ x | member x _ | keep x _ | drop x _ | shift _ x _ _ _ | aggregate _ x _
  | analytic _ x _ =>
    have hx := hoperand x List.mem_cons_self scope rfl rfl
    simp only [shapeNode, Expr.shapeWith, hx]

/-- One step of evaluation is right where operands are typed and evaluated rightly, in the scopes of
rows and of brackets as well, and rules are. -/
theorem valueNode_eq {rules : RuleMeaning}
    (hrule : ∀ name s, e = .var name → scope.valueEntry name = .ok (.rule s) →
      m.value s.expr scope.root = rules.value s)
    (hshape : ∀ x ∈ e.operands, ∀ inner : Scope, inner.root = scope.root →
      inner.workspace = scope.workspace → m.shape x inner = x.shapeWith rules.shape inner)
    (hoperand : ∀ x ∈ e.operands, ∀ inner : Scope, inner.root = scope.root →
      inner.workspace = scope.workspace → m.value x inner = x.evalWith rules inner) :
    m.valueNode e scope = e.evalWith rules scope := by
  have hrow (x : Expr) (hx : x ∈ e.operands) (r : Row) :
      m.value x (.ofRow r scope.root) = x.evalWith rules (.ofRow r scope.root) :=
    hoperand x hx (.ofRow r scope.root) scope.root_root scope.workspace_root
  cases e with
  | constant v => rfl
  | var name =>
    simp only [valueNode, Expr.evalWith]
    cases hentry : scope.valueEntry name with
    | error e => rfl
    | ok entry =>
      cases entry with
      | found v => rfl
      | rule s => exact hrule name s rfl hentry
  | binary op l r =>
    have hl := hoperand l List.mem_cons_self scope rfl rfl
    have hr := hoperand r (List.mem_cons_of_mem l List.mem_cons_self) scope rfl rfl
    simp only [valueNode, Expr.evalWith, hl, hr]
  | filter x condition =>
    have hx := hoperand x List.mem_cons_self scope rfl rfl
    have hcondition := hrow condition (List.mem_cons_of_mem x List.mem_cons_self)
    simp only [valueNode, Expr.evalWith, hx, hcondition]
  | compute x name value =>
    have hx := hoperand x List.mem_cons_self scope rfl rfl
    have hvalue := hrow value (List.mem_cons_of_mem x List.mem_cons_self)
    have hdomain (d : DataSet) :=
      hshape value (List.mem_cons_of_mem x List.mem_cons_self)
        (.row d.schema none (.ofDataSet d scope)) rfl rfl
    simp only [valueNode, Expr.evalWith, hx, hvalue, hdomain]
  | within x body =>
    have hx := hoperand x List.mem_cons_self scope rfl rfl
    have hbody (d : DataSet) :=
      hoperand body (List.mem_cons_of_mem x List.mem_cons_self) (.ofDataSet d scope) rfl rfl
    simp only [valueNode, Expr.evalWith, hx, hbody]
  | unary _ x | member x _ | keep x _ | drop x _ | shift _ x _ _ _ | aggregate _ x _
  | analytic _ x _ =>
    have hx := hoperand x List.mem_cons_self scope rfl rfl
    simp only [valueNode, Expr.evalWith, hx]

end Meaning

section

variable {w : Workspace} {rank : Statement → Nat} {n depth : Nat} {e : Expr} {scope : Scope}

/-- With enough steps, typing is not cut off. -/
theorem shape_within (hw : w.Ranked rank) (cut : Meaning) (hscope : scope.workspace = w)
    (h : w.Affords rank e n depth) :
    (cut.within n).shape e scope = e.shapeWith (scope.root.shapeOfRule depth) scope := by
  induction n generalizing e scope depth with
  | zero => exact absurd rfl h.pos
  | succ n ih =>
    refine Meaning.shapeNode_eq (fun name s he hentry => ?_) fun x hx inner hroot hinner => ?_
    · subst he
      have hs : w.rule? name = some s := hscope ▸ Scope.rule?_of_shapeEntry hentry
      obtain ⟨depth', rfl, h'⟩ := h.rule hw hs
      have hrule := ih (scope.workspace_root.trans hscope) h'
      rw [Scope.root_root] at hrule
      exact hrule
    · rw [← hroot]
      exact ih (hinner.trans hscope) (h.operand hx)

/-- Rules mean the same in all scopes over one root. -/
theorem Scope.shapeOfRule_size {inner : Scope} (hscope : scope.workspace = w)
    (hroot : inner.root = scope.root) : inner.root.shapeOfRule w.size = scope.root.ruleShape := by
  funext s
  unfold ruleShape
  rw [root_root, workspace_root, hscope, hroot]

/-- One more step of evaluation is right where so many steps are for the operands and the rules. -/
theorem valueNode_eq_evalWith (hw : w.Ranked rank) (cut : Meaning) (hscope : scope.workspace = w)
    (h : w.Affords rank e (n + 1) depth) {m : Meaning} (hshape : m.shape = (cut.within n).shape)
    (hvalue : ∀ (x : Expr) (inner : Scope) (depth' : Nat),
      (x ∈ e.operands ∨ ∃ s ∈ w.rules.values, x = s.expr) → inner.root = scope.root →
      inner.workspace = w → w.Affords rank x n depth' →
      m.value x inner = x.evalWith ⟨inner.root.ruleShape, inner.root.valueOfRule depth'⟩ inner) :
    m.valueNode e scope =
      e.evalWith ⟨scope.root.ruleShape, scope.root.valueOfRule depth⟩ scope := by
  refine Meaning.valueNode_eq (fun name s he hentry => ?_) (fun x hx inner hroot hinner => ?_)
    fun x hx inner hroot hinner => ?_
  · subst he
    have hs : w.rule? name = some s := hscope ▸ Scope.rule?_of_valueEntry hentry
    obtain ⟨depth', rfl, h'⟩ := h.rule hw hs
    have hrule := hvalue s.expr scope.root depth' (Or.inr ⟨s, Bindings.mem_values_of_get? hs, rfl⟩)
      scope.root_root (scope.workspace_root.trans hscope) h'
    rw [Scope.root_root] at hrule
    exact hrule
  · -- a clause is typed anew, and then rules may be nested as deep as there are rules
    obtain ⟨k, hk, hn⟩ := (h.operand hx).steps
    rw [hshape, ← Scope.shapeOfRule_size hscope hroot]
    exact shape_within hw cut (hinner.trans hscope)
      ⟨⟨k, hk, hn⟩, (Workspace.Affords.all le_rfl le_rfl).depth⟩
  · rw [← hroot]
    exact hvalue x inner depth (Or.inl hx) hroot (hinner.trans hscope) (h.operand hx)

/-- With enough steps, evaluation is not cut off, and neither are the clauses that are evaluated for
each row. -/
theorem value_within (hw : w.Ranked rank) (cut : Meaning) (hscope : scope.workspace = w)
    (h : w.Affords rank e n depth) :
    (cut.within n).value e scope =
      e.evalWith ⟨scope.root.ruleShape, scope.root.valueOfRule depth⟩ scope := by
  induction n generalizing e scope depth with
  | zero => exact absurd rfl h.pos
  | succ n ih =>
    exact valueNode_eq_evalWith hw cut hscope h rfl fun _ _ _ _ _ hinner hx => ih hinner hx

/-- So what they come to is what the expression evaluates to. -/
theorem value_within_eq_eval (hw : w.Ranked rank) (cut : Meaning) (hscope : scope.workspace = w)
    (h : w.Affords rank e n depth) : (cut.within n).value e scope = e.eval scope := by
  have henough : w.Affords rank e n (2 * w.size) :=
    ⟨h.steps, (Workspace.Affords.all le_rfl (by omega)).depth⟩
  unfold Expr.eval Scope.ruleMeaning
  rw [← Scope.ruleShape_root, hscope]
  exact value_within hw cut hscope henough

/-- A name that stands for a rule is evaluated as the expression of the rule is at the root. -/
theorem eval_var_of_rule (hw : w.Ranked rank) (hscope : scope.workspace = w) {name : String}
    {s : Statement} (h : scope.valueEntry name = .ok (.rule s)) :
    (Expr.var name).eval scope = s.expr.eval scope.root := by
  have hvar : w.Affords rank (.var name) (w.height + 1) w.size :=
    .all (Nat.add_comm 1 w.height).le le_rfl
  obtain ⟨depth', -, hs⟩ := hvar.rule hw (hscope ▸ Scope.rule?_of_valueEntry h)
  let cut : Meaning := ⟨Expr.shape?, Expr.eval⟩
  rw [← value_within_eq_eval hw cut hscope hvar,
    ← value_within_eq_eval hw cut (scope.workspace_root.trans hscope) hs]
  show (cut.within w.height).valueNode (.var name) scope = _
  rw [Meaning.valueNode, h]
  rfl

/-- Where the rules can be ranked, typing and evaluation are never nested deeper than the expression
and the expressions of all rules are high together, and neither are the clauses that are evaluated
for each row of the result: whatever is done beyond, it makes no difference. -/
theorem within_eq (hw : w.Ranked rank) (cut : Meaning) (hscope : scope.workspace = w)
    (hn : e.height + w.height ≤ n) :
    (cut.within n).shape e scope = e.shape? scope ∧
      (cut.within n).value e scope = e.eval scope := by
  constructor
  · unfold Expr.shape?
    rw [← Scope.ruleShape_root, ← Scope.shapeOfRule_size hscope rfl]
    exact shape_within hw cut hscope (.all hn le_rfl)
  · exact value_within_eq_eval hw cut hscope (.all hn le_rfl)

end

end DataCube
