import DataCube.Proofs.Safety.Scopes

/-!
# What typing leaves to evaluation

An expression that has a type has a value of this type, or ends in an error that is let pass.  The
clauses of brackets are typed once for all rows and evaluated row by row in another scope, and rules
are typed and evaluated at different depths, so a type has to be carried from one scope and depth to
the other.

* `shapeWith_ofRow`, `shapeWith_ofDataSet`: a clause has the type in the scope that it is evaluated
  in that it has in the one that it is typed in.
* `RuleMeaning.Meets`: the meaning of rules that evaluation uses agrees with their types.
* `Expr.Evaluates`: with such a meaning of rules, the expression has a value of its type.  One lemma
  a node, put together in `Expr.Sound.evaluates`.
* `Scope.outcome_valueOfRule`: the rules of a workspace agree with their types.
-/

namespace DataCube

variable {t : Tolerance}

/-! ## Carrying types over -/

/-- The components of a row decide all types in it, with rules that have the types they had. -/
theorem shapeWith_row {e : Expr} {rule rule' : Statement → Except EvalError Shape}
    {schema : Schema} {row row' : Option Row} {a b : Scope} {m : Shape}
    (hworkspace : b.workspace = a.workspace)
    (hrule : ∀ s, Dominates (Shape.Rel .exact) (rule' s) (rule s))
    (hm : e.shapeWith rule (.row schema row a) = .ok m) :
    e.shapeWith rule' (.row schema row' b) = .ok m := by
  have hcoarser : (Scope.row schema row' b).Coarser .exact (.row schema row a) :=
    Scope.coarser_row (p := .exact) (Schema.rel_refl (fun _ => rfl) schema) hworkspace
  obtain ⟨m', hm', hrel⟩ := dominates_shapeWith e hcoarser hrule m hm
  rw [hm', Shape.eq_of_rel hrel]

/-- A clause is typed without a row, and evaluated in a row over the root. -/
theorem shapeWith_ofRow {e : Expr} {rule : Statement → Except EvalError Shape} {schema : Schema}
    {r : Row} {a : Scope} {m : Shape} (hschema : r.schema = schema)
    (hm : e.shapeWith rule (.row schema none (.this schema none a)) = .ok m) :
    e.shapeWith rule (.ofRow r a.root) = .ok m := by
  subst hschema
  refine shapeWith_row ?_ (fun s n hn => ⟨n, hn, n.rel_refl _⟩) hm
  exact a.workspace_root

/-- A type in the scope of a schema is one in the scope of a dataset of it. -/
theorem shapeWith_ofDataSet {e : Expr} {rule : Statement → Except EvalError Shape} {d : DataSet}
    {a : Scope} {m : Shape} (hm : e.shapeWith rule (.this d.schema none a) = .ok m) :
    e.shapeWith rule (.ofDataSet d a) = .ok m := by
  have hcoarser : (Scope.ofDataSet d a).Coarser .exact (.this d.schema none a) :=
    (Scope.Coarser.refl .exact a).this (Schema.rel_refl (fun _ => rfl) d.schema)
  obtain ⟨m', hm', hrel⟩ :=
    dominates_shapeWith e hcoarser (fun s n hn => ⟨n, hn, n.rel_refl _⟩) m hm
  rw [hm', Shape.eq_of_rel hrel]

/-! ## Operators -/

namespace Value

theorem meets_scalar {v : Scalar} {d : Domain} (hd : d ≠ .unknown) (hv : v.domain = d) :
    (Value.scalar v).Meets t (.scalar d) :=
  ⟨congrArg Shape.scalar hv, fun h => hd (hv.symm.trans h)⟩

end Value

/-- New measures make a dataset of the type that is derived for them. -/
theorem DataSet.Sound.outcome_mapMeasures {d : DataSet} (h : d.Sound t)
    {domainOf : Component → Except EvalError Domain} {f : Scalar → Except EvalError Scalar}
    (label : String) {m : Shape} (hm : (d.schema.mapMeasures domainOf).map .dataset = .ok m)
    (hsound : m.Sound t)
    (hf : ∀ c d' v, domainOf c = .ok d' → v.domain = c.domain →
      Outcome EvalError.IsOverflow (fun w => w.domain = d') (f v)) :
    Outcome t.error (Value.Meets t m) (do
      let target ← d.schema.mapMeasures domainOf
      pure (.dataset (d.mapMeasures target label f))) := by
  obtain ⟨target, htarget, rfl⟩ := map_eq_ok.1 hm
  rw [htarget, ok_bind]
  refine ⟨rfl, h.mapMeasures hsound htarget label fun c d' v hd' hdomain => ?_⟩
  exact (hf c d' v hd' hdomain).mono_error t.overflow

theorem UnaryOp.outcome_onValue (op : UnaryOp) (label : String) {v : Value} {m : Shape}
    (hv : v.Sound t) (hm : op.resultShape v.shape = .ok m) :
    Outcome t.error (Value.Meets t m) (op.onValue label v) := by
  have hsound := op.sound_resultShape hv.shape hm
  cases v with
  | scalar v =>
    obtain ⟨d, hd, rfl⟩ := map_eq_ok.1 hm
    refine Outcome.map ((op.outcome_apply hd).mono_error t.overflow) fun w _ hw => ?_
    exact Value.meets_scalar hsound hw
  | dataset d =>
    exact DataSet.Sound.outcome_mapMeasures hv label hm hsound fun c d' v hd' hdomain =>
      op.outcome_apply (hdomain ▸ hd')

theorem BinaryOp.outcome_onValues (op : BinaryOp) (label : String) {l r : Value} {m : Shape}
    (hl : l.Sound t) (hr : r.Sound t) (hm : op.resultShape l.shape r.shape = .ok m) :
    Outcome t.error (Value.Meets t m) (op.onValues label l r) := by
  have hsound := op.sound_resultShape hl.shape hr.shape hm
  cases l with
  | scalar l =>
    cases r with
    | scalar r =>
      obtain ⟨d, hd, rfl⟩ := map_eq_ok.1 hm
      refine Outcome.map ((op.outcome_apply hd).mono_error t.overflow) fun w _ hw => ?_
      exact Value.meets_scalar hsound hw
    | dataset d =>
      exact DataSet.Sound.outcome_mapMeasures hr label hm hsound fun c d' v hd' hdomain =>
        op.outcome_apply (hdomain ▸ hd')
  | dataset d =>
    cases r with
    | scalar r =>
      exact DataSet.Sound.outcome_mapMeasures hl label hm hsound fun c d' v hd' hdomain =>
        op.outcome_apply (hdomain ▸ hd')
    | dataset d' => nomatch hm

/-! ## Clauses -/

/-- A node that asks for a dataset is given one. -/
theorem outcome_onDataset {m n : Shape} {x : Except EvalError Value} {operator : Unit → String}
    {refuse : Scalar → EvalError} {next : Schema → Except EvalError Shape}
    {next' : DataSet → Except EvalError Value} (hx : Outcome t.error (Value.Meets t m) x)
    (hn : m.onDataset operator next = .ok n)
    (hnext : ∀ d : DataSet, d.Sound t → next d.schema = .ok n →
      Outcome t.error (Value.Meets t n) (next' d)) :
    Outcome t.error (Value.Meets t n) (x >>= fun v => v.asDataSet refuse >>= next') := by
  refine Outcome.bind hx fun v _ hv => ?_
  obtain ⟨rfl, hsound⟩ := hv
  cases v with
  | scalar v => nomatch hn
  | dataset d => exact hnext d hsound hn

/-- A condition of the type that a filter accepts decides. -/
theorem outcome_asCondition {condition : Expr} {schema : Schema} {m n : Shape} {v : Value}
    (hv : v.shape = m) (hn : m.filtered schema condition = .ok n) :
    Outcome t.error (fun _ => True) (v.asCondition condition) := by
  subst hv
  cases v with
  | dataset d => nomatch hn
  | scalar v =>
    cases v with
    | boolean b => trivial
    | null d => trivial
    | _ => nomatch hn

theorem outcome_asComputed {m : Shape} {v : Value} {d : Domain} (hv : v.shape = m)
    (hd : m.computedDomain = .ok d) :
    Outcome t.error (fun x => x.domain = d) v.asComputed := by
  subst hv
  cases v with
  | dataset d => nomatch hd
  | scalar v => exact Except.ok.inj hd

/-! ## Expressions -/

/-- The types given to the rules in scope are those that evaluation finds as well, and the rules
have values of them. -/
structure RuleMeaning.Meets (t : Tolerance) (rules : RuleMeaning)
    (rule : Statement → Except EvalError Shape) (scope : Scope) : Prop where
  shape : ∀ s, Dominates (Shape.Rel .exact) (rules.shape s) (rule s)
  sound : ∀ s ∈ scope.statements, ∀ n, rule s = .ok n → n.Sound t
  value : ∀ s ∈ scope.statements, ∀ n, rule s = .ok n →
    Outcome t.error (Value.Meets t n) (rules.value s)

variable {rules : RuleMeaning} {rule : Statement → Except EvalError Shape} {scope : Scope}

theorem RuleMeaning.Meets.ofRow (h : rules.Meets t rule scope) (r : Row) :
    rules.Meets t rule (.ofRow r scope.root) := by
  have hstatements : (Scope.ofRow r scope.root).statements = scope.statements :=
    congrArg (fun w : Workspace => w.rules.values) scope.workspace_root
  constructor
  · exact h.shape
  · rw [hstatements]
    exact h.sound
  · rw [hstatements]
    exact h.value

/-- Wherever the expression has a type, and the rules have values of theirs, it has such a value. -/
def Expr.Evaluates (t : Tolerance) (rules : RuleMeaning)
    (rule : Statement → Except EvalError Shape) (e : Expr) : Prop :=
  ∀ (scope : Scope) (m : Shape), scope.Sound t → rules.Meets t rule scope →
    e.shapeWith rule scope = .ok m → Outcome t.error (Value.Meets t m) (e.evalWith rules scope)

namespace Expr.Evaluates

variable {x condition value body l r : Expr} {name : String} {names : List String}

/-- A clause has a value in every row, of the type that it has for the schema of the dataset. -/
theorem clause (hvalue : value.Evaluates t rules rule) (h : scope.Sound t)
    (hrules : rules.Meets t rule scope) {d : DataSet} (hd : d.Sound t) {m : Shape}
    (hm : value.shapeWith rule (.row d.schema none (.this d.schema none scope)) = .ok m) {r : Row}
    (hschema : r.schema = d.schema) (hexact : r.Exact) :
    Outcome t.error (Value.Meets t m) (value.evalWith rules (.ofRow r scope.root)) := by
  have hrow : (Scope.ofRow r scope.root).Sound t := .row hexact (hschema ▸ hd.schema) h.root
  exact hvalue _ m hrow (hrules.ofRow r) (shapeWith_ofRow hschema hm)

theorem var (name : String) : (Expr.var name).Evaluates t rules rule := by
  intro scope m h hrules hm
  obtain ⟨entry, hentry, hm⟩ := bind_eq_ok.1 hm
  refine Outcome.bind (h.outcome_valueEntry hentry) fun entry' _ hrel => ?_
  cases hrel with
  | found hv =>
    cases hm
    exact hv
  | rule s => exact hrules.value s (Scope.mem_of_shapeEntry hentry) m hm

theorem unary (op : UnaryOp) (hx : x.Evaluates t rules rule) :
    (Expr.unary op x).Evaluates t rules rule := by
  intro scope m h hrules hm
  obtain ⟨n, hn, hm⟩ := bind_eq_ok.1 hm
  refine Outcome.bind (hx scope n h hrules hn) fun v _ hv => ?_
  exact op.outcome_onValue _ hv.sound (hv.shape ▸ hm)

theorem binary (op : BinaryOp) (hl : l.Evaluates t rules rule) (hr : r.Evaluates t rules rule) :
    (Expr.binary op l r).Evaluates t rules rule := by
  intro scope m h hrules hm
  obtain ⟨left, hleft, hm⟩ := bind_eq_ok.1 hm
  obtain ⟨right, hright, hm⟩ := bind_eq_ok.1 hm
  refine Outcome.bind (hl scope left h hrules hleft) fun v _ hv => ?_
  refine Outcome.bind (hr scope right h hrules hright) fun w _ hw => ?_
  exact op.outcome_onValues _ hv.sound hw.sound (hv.shape ▸ hw.shape ▸ hm)

theorem member (hx : x.Evaluates t rules rule) (name : String) :
    (Expr.member x name).Evaluates t rules rule := by
  intro scope m h hrules hm
  obtain ⟨n, hn, hm⟩ := bind_eq_ok.1 hm
  refine outcome_onDataset (hx scope n h hrules hn) hm fun d hd hm => ?_
  obtain ⟨target, htarget, rfl⟩ := map_eq_ok.1 hm
  obtain ⟨_, hmember, hschema, hsound⟩ := hd.membership htarget (Expr.member x name).text
  show Outcome _ _ ((d.membership name _).map Value.dataset)
  rw [hmember]
  exact ⟨congrArg Shape.dataset hschema, hsound⟩

theorem filter (hx : x.Evaluates t rules rule) (hcondition : condition.Evaluates t rules rule) :
    (Expr.filter x condition).Evaluates t rules rule := by
  intro scope m h hrules hm
  obtain ⟨n, hn, hm⟩ := bind_eq_ok.1 hm
  refine outcome_onDataset (hx scope n h hrules hn) hm fun d hd hm => ?_
  obtain ⟨c, hc, hm⟩ := bind_eq_ok.1 hm
  have hdecides (r : Row) (hschema : r.schema = d.schema) (hexact : r.Exact) :
      Outcome t.error (fun _ => True)
        (condition.evalWith rules (.ofRow r scope.root) >>= fun v => v.asCondition condition) := by
    refine Outcome.bind (hcondition.clause h hrules hd hc hschema hexact) fun v _ hv => ?_
    exact outcome_asCondition hv.shape hm
  rw [Shape.eq_of_filtered hm]
  exact ⟨rfl, hd.filter hdecides⟩

theorem keep (hx : x.Evaluates t rules rule) : (Expr.keep x names).Evaluates t rules rule := by
  intro scope m h hrules hm
  obtain ⟨n, hn, hm⟩ := bind_eq_ok.1 hm
  refine outcome_onDataset (hx scope n h hrules hn) hm fun d hd hm => ?_
  obtain ⟨target, htarget, rfl⟩ := map_eq_ok.1 hm
  simp only [htarget]
  obtain ⟨keep, rfl⟩ := Schema.keep_eq_ok htarget
  exact ⟨rfl, hd.project keep _⟩

theorem drop (hx : x.Evaluates t rules rule) : (Expr.drop x names).Evaluates t rules rule := by
  intro scope m h hrules hm
  obtain ⟨n, hn, hm⟩ := bind_eq_ok.1 hm
  refine outcome_onDataset (hx scope n h hrules hn) hm fun d hd hm => ?_
  obtain ⟨target, htarget, rfl⟩ := map_eq_ok.1 hm
  simp only [htarget]
  obtain ⟨keep, rfl⟩ := Schema.drop_eq_ok htarget
  exact ⟨rfl, hd.project keep _⟩

theorem compute (he : (Expr.compute x name value).Sound t) (hx : x.Evaluates t rules rule)
    (hvalue : value.Evaluates t rules rule) :
    (Expr.compute x name value).Evaluates t rules rule := by
  intro scope m h hrules hm
  have htype := sound_shapeWith he h.described hrules.sound hm
  obtain ⟨n, hn, hm⟩ := bind_eq_ok.1 hm
  refine outcome_onDataset (hx scope n h hrules hn) hm fun d hd hm => ?_
  obtain ⟨c, hc, hm⟩ := bind_eq_ok.1 hm
  obtain ⟨domain, hdomain, hm⟩ := bind_eq_ok.1 hm
  obtain ⟨target, htarget, rfl⟩ := map_eq_ok.1 hm
  -- evaluation types the computed value again, with rules nested as deep as need be
  have hagain : value.shapeWith rules.shape (.row d.schema none (.ofDataSet d scope)) = .ok c :=
    shapeWith_row (a := .this d.schema none scope) rfl hrules.shape hc
  have hcomputed (r : Row) (hschema : r.schema = d.schema) (hexact : r.Exact) :
      Outcome t.error (fun v => v.domain = domain)
        (value.evalWith rules (.ofRow r scope.root) >>= Value.asComputed) := by
    refine Outcome.bind (hvalue.clause h hrules hd hc hschema hexact) fun v _ hv => ?_
    exact outcome_asComputed hv.shape hdomain
  simp only [hagain, hdomain, htarget, ok_bind]
  rcases Schema.component?_withMeasure htarget with ⟨stored, rfl, hfound⟩ | ⟨hlost, hmissing⟩
  · simp only [Schema.require_eq_ok.2 hfound, ok_bind]
    exact ⟨rfl, hd.computed htype _ hcomputed⟩
  · -- the name is stored in another form, and not found again
    have hrequire : target.require name = .error (.missingComponent name target) := by
      unfold Schema.require
      rw [hmissing]
    rw [hrequire, error_bind]
    exact he.allowed.2.resolve_left hlost target hmissing

theorem within (hx : x.Evaluates t rules rule) (hbody : body.Evaluates t rules rule) :
    (Expr.within x body).Evaluates t rules rule := by
  intro scope m h hrules hm
  obtain ⟨n, hn, hm⟩ := bind_eq_ok.1 hm
  refine outcome_onDataset (hx scope n h hrules hn) hm fun d hd hm => ?_
  have hinner : rules.Meets t rule (.ofDataSet d scope) :=
    ⟨hrules.shape, hrules.sound, hrules.value⟩
  exact hbody _ m (.this hd h) hinner (shapeWith_ofDataSet hm)

theorem shift (hx : x.Evaluates t rules rule) {direction : Shift} {offset : Nat}
    {default : Option Scalar} {window : WindowSpec} :
    (Expr.shift direction x offset default window).Evaluates t rules rule := by
  intro scope m h hrules hm
  obtain ⟨n, hn, hm⟩ := bind_eq_ok.1 hm
  refine outcome_onDataset (hx scope n h hrules hn) hm fun d hd hm => ?_
  obtain ⟨w, hw, hm⟩ := bind_eq_ok.1 hm
  obtain ⟨_, hdefault, hm⟩ := bind_eq_ok.1 hm
  cases hm
  simp only [hw]
  exact ⟨rfl, Shift.sound_run hd _ hw (checkDefault_eq_ok.1 hdefault)⟩

theorem aggregate {s : Statistic} {groupBy : List String} (hx : x.Evaluates t rules rule)
    (hsum : s = .sum → ∀ name, t.error (Statistic.sumRefused name)) :
    (Expr.aggregate s x groupBy).Evaluates t rules rule := by
  intro scope m h hrules hm
  obtain ⟨n, hn, hm⟩ := bind_eq_ok.1 hm
  refine outcome_onDataset (hx scope n h hrules hn) hm fun d hd hm => ?_
  obtain ⟨target, htarget, rfl⟩ := map_eq_ok.1 hm
  obtain ⟨keys, hkeys, -⟩ := bind_eq_ok.1 htarget
  simp only [htarget, hkeys]
  exact ⟨rfl, Statistic.sound_runGroups hd htarget hkeys hsum⟩

theorem analytic {r : Reducer} {window : WindowSpec} (hx : x.Evaluates t rules rule)
    (hnames : (∀ name, t.name name → NamePattern.unquote? name = none) ∨
      ∀ e : EvalError, e.IsMismatch → t.error e) :
    (Expr.analytic r x window).Evaluates t rules rule := by
  intro scope m h hrules hm
  obtain ⟨n, hn, hm⟩ := bind_eq_ok.1 hm
  refine outcome_onDataset (hx scope n h hrules hn) hm fun d hd hm => ?_
  obtain ⟨target, htarget, rfl⟩ := map_eq_ok.1 hm
  obtain ⟨w, hw, -⟩ := bind_eq_ok.1 htarget
  simp only [htarget, hw]
  exact ⟨rfl, Reducer.sound_runWindow hd _ htarget hw hnames⟩

end Expr.Evaluates

/-- Given what its nodes need, an expression has a value wherever it has a type. -/
theorem Expr.Sound.evaluates {e : Expr} (he : e.Sound t) : e.Evaluates t rules rule := by
  induction e with
  | constant v =>
    intro scope m _ _ hm
    cases hm
    exact Value.meets_scalar he.allowed rfl
  | var name => exact .var name
  | unary op x ih => exact .unary op (ih (he.operand List.mem_cons_self))
  | binary op l r ihl ihr =>
    have hr := he.operand (List.mem_cons_of_mem _ List.mem_cons_self)
    exact .binary op (ihl (he.operand List.mem_cons_self)) (ihr hr)
  | member x name ih => exact .member (ih (he.operand List.mem_cons_self)) name
  | filter x condition ih ihc =>
    have hcondition := he.operand (List.mem_cons_of_mem _ List.mem_cons_self)
    exact .filter (ih (he.operand List.mem_cons_self)) (ihc hcondition)
  | keep x names ih => exact .keep (ih (he.operand List.mem_cons_self))
  | drop x names ih => exact .drop (ih (he.operand List.mem_cons_self))
  | compute x name value ih ihv =>
    have hvalue := he.operand (List.mem_cons_of_mem _ List.mem_cons_self)
    exact .compute he (ih (he.operand List.mem_cons_self)) (ihv hvalue)
  | within x body ih ihb =>
    have hbody := he.operand (List.mem_cons_of_mem _ List.mem_cons_self)
    exact .within (ih (he.operand List.mem_cons_self)) (ihb hbody)
  | shift direction x offset default window ih =>
    exact .shift (ih (he.operand List.mem_cons_self))
  | aggregate s x groupBy ih => exact .aggregate (ih (he.operand List.mem_cons_self)) he.allowed
  | analytic r x window ih => exact .analytic (ih (he.operand List.mem_cons_self)) he.allowed

/-! ## Rules -/

namespace Scope

variable {values : Bindings Value} {workspace : Workspace}

/-- The types of rules are sound at every depth. -/
theorem sound_shapeOfRule (h : (engine values workspace).Sound t)
    (hrules : ∀ s ∈ (engine values workspace).statements, s.expr.Sound t) (depth : Nat)
    {s : Statement} (hs : s ∈ (engine values workspace).statements) {m : Shape}
    (hm : (engine values workspace).shapeOfRule depth s = .ok m) : m.Sound t := by
  induction depth generalizing s m with
  | zero => nomatch hm
  | succ depth ih => exact sound_shapeWith (hrules s hs) h.described (fun s' hs' _ => ih hs') hm

/-- A rule that is typed at some depth has a value of its type at every depth from there on. -/
theorem outcome_valueOfRule (h : (engine values workspace).Sound t)
    (hrules : ∀ s ∈ (engine values workspace).statements, s.expr.Sound t) {depth depth' : Nat}
    (hle : depth ≤ depth') (hsize : depth ≤ workspace.size) {s : Statement}
    (hs : s ∈ (engine values workspace).statements) {m : Shape}
    (hm : (engine values workspace).shapeOfRule depth s = .ok m) :
    Outcome t.error (Value.Meets t m) ((engine values workspace).valueOfRule depth' s) := by
  induction depth generalizing depth' s m with
  | zero => nomatch hm
  | succ depth ih =>
    obtain ⟨more, rfl⟩ := Nat.exists_eq_add_of_le' (Nat.le_trans (Nat.le_add_left 1 depth) hle)
    let rules : RuleMeaning :=
      ⟨(engine values workspace).ruleShape, (engine values workspace).valueOfRule more⟩
    have hmeets : rules.Meets t ((engine values workspace).shapeOfRule depth)
        (engine values workspace) := by
      constructor
      · exact fun s' n hn => ⟨n, shapeOfRule_le (Nat.le_of_succ_le hsize) hn, n.rel_refl _⟩
      · exact fun s' hs' _ => sound_shapeOfRule h hrules depth hs'
      · exact fun s' hs' _ => ih (Nat.le_of_succ_le_succ hle) (Nat.le_of_succ_le hsize) hs'
    exact (hrules s hs).evaluates _ m h hmeets hm

end Scope

/-- A typed expression has a value of its type, or ends in an error that is let pass. -/
theorem outcome_eval {e : Expr} {values : Bindings Value} {workspace : Workspace}
    (he : e.Sound t) (h : (Scope.engine values workspace).Sound t)
    (hrules : ∀ s ∈ workspace.rules.values, s.expr.Sound t) {m : Shape}
    (hm : e.shape? (.engine values workspace) = .ok m) :
    Outcome t.error (Value.Meets t m) (e.eval (.engine values workspace)) := by
  refine he.evaluates _ m h ⟨fun s n hn => ⟨n, hn, n.rel_refl _⟩, ?_, ?_⟩ hm
  · exact fun s hs _ => Scope.sound_shapeOfRule h hrules _ hs
  · exact fun s hs _ => Scope.outcome_valueOfRule h hrules (Nat.le_mul_of_pos_left _ Nat.two_pos)
      le_rfl hs

end DataCube
