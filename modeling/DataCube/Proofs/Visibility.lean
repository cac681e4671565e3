import DataCube.Proofs.RuleDepth

/-!
# What an expression sees

An expression looks up the names of its variables, and the rules that they refer to look up theirs,
at the root.  Scopes in which these names stand for the same things cannot be told apart, in any of
the rows and errors of the result.  Two things follow.  A row hides all that is bound outside of it,
so its clauses may be evaluated over the root instead of the scopes around them.  And a binding does
not matter to an expression if none of these names can stand for it.

* `Scope.SameShapesOn`, `Scope.SameOn`: some names have the same shapes, or the same values as well.
* `Expr.NamesIn`: the names of all variables of an expression are among these.
* `shapeWith_sameOn`, `evalWith_sameOn`: the inductions over the expression, through the scopes that
  are opened for rows and brackets.  `eval_sameOn` has the rules too.
* `rows_see_rules`: rows see themselves and the rules.
* `RefersTo`: a variable can stand for what is bound to a name.  `Bindings.find?_insert`: it finds
  what it found, whatever is bound to another name.
* `unmentioned_bindings`: binding a name that is not mentioned changes nothing.
-/

namespace DataCube

variable {w : Workspace} {names : String → Prop} {a b : Scope} {e : Expr}

/-! ## Scopes -/

namespace Scope

/-- Both scopes are over the workspace, and say the same of the shapes of the names. -/
structure SameShapesOn (w : Workspace) (names : String → Prop) (a b : Scope) : Prop where
  left : a.workspace = w
  right : b.workspace = w
  contains : ∀ name, names name → a.contains name = b.contains name
  describe : ∀ name, names name → a.describe name = b.describe name

/-- Both scopes are over the workspace, and the names stand for the same in them. -/
structure SameOn (w : Workspace) (names : String → Prop) (a b : Scope) : Prop
    extends a.SameShapesOn w names b where
  resolve : ∀ name, names name → a.resolve name = b.resolve name

theorem SameOn.refl (names : String → Prop) (h : a.workspace = w) : a.SameOn w names a :=
  ⟨⟨h, h, fun _ _ => rfl, fun _ _ => rfl⟩, fun _ _ => rfl⟩

variable {name : String}

/-- A variable of such a name has one shape in both scopes, or means one rule. -/
theorem SameShapesOn.shapeEntry (h : a.SameShapesOn w names b) (hname : names name) :
    a.shapeEntry name = b.shapeEntry name := by
  unfold Scope.shapeEntry
  rw [h.contains name hname, h.describe name hname, rule_eq (h.left.trans h.right.symm)]

theorem SameOn.valueEntry (h : a.SameOn w names b) (hname : names name) :
    a.valueEntry name = b.valueEntry name := by
  unfold Scope.valueEntry
  rw [h.contains name hname, h.resolve name hname, rule_eq (h.left.trans h.right.symm)]

/-- Inside a row nothing outside is seen but the rules. -/
theorem sameShapesOn_row (ha : a.workspace = w) (hb : b.workspace = w) (schema : Schema)
    (r r' : Option Row) : (row schema r a).SameShapesOn w names (row schema r' b) :=
  ⟨ha, hb, fun _ _ => rfl, fun _ _ => rfl⟩

theorem sameOn_ofRow (ha : a.workspace = w) (hb : b.workspace = w) (r : Row) :
    (ofRow r a).SameOn w names (ofRow r b) :=
  ⟨sameShapesOn_row ha hb r.schema (some r) (some r), fun _ _ => rfl⟩

theorem SameShapesOn.row (h : a.SameShapesOn w names b) (schema : Schema) (r r' : Option Row) :
    (row schema r a).SameShapesOn w names (row schema r' b) :=
  sameShapesOn_row h.left h.right schema r r'

/-- Inside a bracket, names that are no components are looked up outside. -/
theorem SameShapesOn.this (h : a.SameShapesOn w names b) (schema : Schema)
    (d d' : Option DataSet) : (this schema d a).SameShapesOn w names (this schema d' b) where
  left := h.left
  right := h.right
  contains name hname := by simp only [Scope.contains, h.contains name hname]
  describe name hname := by simp only [Scope.describe, h.describe name hname]

theorem SameOn.ofDataSet (h : a.SameOn w names b) (d : DataSet) :
    (ofDataSet d a).SameOn w names (ofDataSet d b) where
  toSameShapesOn := h.this d.schema (some d) (some d)
  resolve name hname := by simp only [Scope.ofDataSet, Scope.resolve, h.resolve name hname]

/-- Rules mean the same inside a row as outside of it. -/
theorem ruleMeaning_ofRow (r : Row) (parent : Scope) :
    (ofRow r parent).ruleMeaning = parent.ruleMeaning := rfl

theorem ruleMeaning_root (a : Scope) : a.root.ruleMeaning = a.ruleMeaning := by
  unfold ruleMeaning
  rw [ruleShape_root, root_root, workspace_root]

end Scope

/-! ## Expressions -/

/-- The names of the variables of an expression are among these. -/
def Expr.NamesIn (names : String → Prop) (e : Expr) : Prop :=
  ∀ name, e.Has (.var name) → names name

theorem Expr.NamesIn.operand {x : Expr} (h : e.NamesIn names) (hx : x ∈ e.operands) :
    x.NamesIn names :=
  fun name hname => h name (hname.of_operand hx)

theorem Expr.NamesIn.var {name : String} (h : names name) : (Expr.var name).NamesIn names := by
  intro other hother
  cases hother.eq_of_leaf rfl
  exact h

theorem Expr.NamesIn.of_operands (hvar : ∀ name, e ≠ .var name)
    (h : ∀ x ∈ e.operands, x.NamesIn names) : e.NamesIn names := by
  intro name hname
  obtain heq | ⟨x, hx, hname⟩ := has_iff.1 hname
  · exact (hvar name heq.symm).elim
  · exact h x hx name hname

/-- The rules of the workspace mean the same. -/
structure RuleMeaning.SameOn (w : Workspace) (m m' : RuleMeaning) : Prop where
  shape : ∀ s ∈ w.rules.values, m.shape s = m'.shape s
  value : ∀ s ∈ w.rules.values, m.value s = m'.value s

/-- An expression has one type in both scopes, or is refused with one error. -/
theorem shapeWith_sameOn {rule rule' : Statement → Except EvalError Shape}
    (hrule : ∀ s ∈ w.rules.values, rule s = rule' s) (he : e.NamesIn names)
    (h : a.SameShapesOn w names b) : e.shapeWith rule a = e.shapeWith rule' b := by
  induction e generalizing a b with
  | constant v => rfl
  | var name =>
    simp only [Expr.shapeWith]
    rw [← h.shapeEntry (he name (Expr.has_self _))]
    cases hentry : a.shapeEntry name with
    | error err => rfl
    | ok entry =>
      cases entry with
      | found shape => rfl
      | rule s =>
        refine hrule s ?_
        rw [← h.left]
        exact Scope.mem_of_shapeEntry hentry
  | unary op x ih => simp only [Expr.shapeWith, ih (he.operand (.head _)) h]
  | binary op l r ihl ihr =>
    simp only [Expr.shapeWith, ihl (he.operand (.head _)) h,
      ihr (he.operand (.tail _ (.head _))) h]
  | member x name ih => simp only [Expr.shapeWith, ih (he.operand (.head _)) h]
  | filter x condition ih ihc =>
    have hcondition (schema : Schema) :=
      ihc (he.operand (.tail _ (.head _))) ((h.this schema none none).row schema none none)
    simp only [Expr.shapeWith, ih (he.operand (.head _)) h, hcondition]
  | keep x names ih => simp only [Expr.shapeWith, ih (he.operand (.head _)) h]
  | drop x names ih => simp only [Expr.shapeWith, ih (he.operand (.head _)) h]
  | compute x name value ih ihv =>
    have hvalue (schema : Schema) :=
      ihv (he.operand (.tail _ (.head _))) ((h.this schema none none).row schema none none)
    simp only [Expr.shapeWith, ih (he.operand (.head _)) h, hvalue]
  | within x body ih ihb =>
    have hbody (schema : Schema) :=
      ihb (he.operand (.tail _ (.head _))) (h.this schema none none)
    simp only [Expr.shapeWith, ih (he.operand (.head _)) h, hbody]
  | shift direction x offset default window ih =>
    simp only [Expr.shapeWith, ih (he.operand (.head _)) h]
  | aggregate statistic x groupBy ih => simp only [Expr.shapeWith, ih (he.operand (.head _)) h]
  | analytic r x window ih => simp only [Expr.shapeWith, ih (he.operand (.head _)) h]

/-- An expression has one value in both scopes, with the same rows, or fails with one error. -/
theorem evalWith_sameOn {rules rules' : RuleMeaning} (hrules : rules.SameOn w rules')
    (he : e.NamesIn names) (h : a.SameOn w names b) :
    e.evalWith rules a = e.evalWith rules' b := by
  -- the rows of a clause are evaluated over the roots, which need not say the same of the names
  have hrow {a b : Scope} (h : a.SameOn w names b) (r : Row) :
      (Scope.ofRow r a.root).SameOn w names (.ofRow r b.root) :=
    Scope.sameOn_ofRow (a.workspace_root.trans h.left) (b.workspace_root.trans h.right) r
  induction e generalizing a b with
  | constant v => rfl
  | var name =>
    simp only [Expr.evalWith]
    rw [← h.valueEntry (he name (Expr.has_self _))]
    cases hentry : a.valueEntry name with
    | error err => rfl
    | ok entry =>
      cases entry with
      | found v => rfl
      | rule s =>
        refine hrules.value s ?_
        rw [← h.left]
        exact Bindings.mem_values_of_get? (Scope.rule?_of_valueEntry hentry)
  | unary op x ih => simp only [Expr.evalWith, ih (he.operand (.head _)) h]
  | binary op l r ihl ihr =>
    simp only [Expr.evalWith, ihl (he.operand (.head _)) h,
      ihr (he.operand (.tail _ (.head _))) h]
  | member x name ih => simp only [Expr.evalWith, ih (he.operand (.head _)) h]
  | filter x condition ih ihc =>
    have hcondition (r : Row) := ihc (he.operand (.tail _ (.head _))) (hrow h r)
    simp only [Expr.evalWith, ih (he.operand (.head _)) h, hcondition]
  | keep x names ih => simp only [Expr.evalWith, ih (he.operand (.head _)) h]
  | drop x names ih => simp only [Expr.evalWith, ih (he.operand (.head _)) h]
  | compute x name value ih ihv =>
    have hvalue := he.operand (x := value) (.tail _ (.head _))
    have hshape (d : DataSet) := shapeWith_sameOn hrules.shape hvalue
      ((h.ofDataSet d).toSameShapesOn.row d.schema none none)
    have hvalues (r : Row) := ihv hvalue (hrow h r)
    simp only [Expr.evalWith, ih (he.operand (.head _)) h, hshape, hvalues]
  | within x body ih ihb =>
    have hbody (d : DataSet) := ihb (he.operand (.tail _ (.head _))) (h.ofDataSet d)
    simp only [Expr.evalWith, ih (he.operand (.head _)) h, hbody]
  | shift direction x offset default window ih =>
    simp only [Expr.evalWith, ih (he.operand (.head _)) h]
  | aggregate statistic x groupBy ih => simp only [Expr.evalWith, ih (he.operand (.head _)) h]
  | analytic r x window ih => simp only [Expr.evalWith, ih (he.operand (.head _)) h]

/-! ## Rules -/

/-- The names of the variables in all rules are among these. -/
def Workspace.NamesIn (names : String → Prop) (w : Workspace) : Prop :=
  ∀ s ∈ w.rules.values, s.expr.NamesIn names

theorem shapeOfRule_sameOn (hw : w.NamesIn names) (h : a.SameShapesOn w names b) (depth : Nat) :
    ∀ s ∈ w.rules.values, a.shapeOfRule depth s = b.shapeOfRule depth s := by
  induction depth with
  | zero => exact fun s _ => rfl
  | succ depth ih => exact fun s hs => shapeWith_sameOn ih (hw s hs) h

theorem ruleShape_sameOn (hw : w.NamesIn names) (h : a.root.SameShapesOn w names b.root) :
    ∀ s ∈ w.rules.values, a.ruleShape s = b.ruleShape s := by
  intro s hs
  unfold Scope.ruleShape
  rw [← a.workspace_root, ← b.workspace_root, h.left, h.right]
  exact shapeOfRule_sameOn hw h w.size s hs

theorem valueOfRule_sameOn (hw : w.NamesIn names) (h : a.root.SameOn w names b.root)
    (depth : Nat) :
    ∀ s ∈ w.rules.values, a.root.valueOfRule depth s = b.root.valueOfRule depth s := by
  induction depth with
  | zero => exact fun s _ => rfl
  | succ depth ih =>
    intro s hs
    unfold Scope.valueOfRule
    rw [a.ruleShape_root, b.ruleShape_root]
    exact evalWith_sameOn ⟨ruleShape_sameOn hw h.toSameShapesOn, ih⟩ (hw s hs) h

theorem ruleMeaning_sameOn (hw : w.NamesIn names) (h : a.root.SameOn w names b.root) :
    a.ruleMeaning.SameOn w b.ruleMeaning := by
  refine ⟨ruleShape_sameOn hw h.toSameShapesOn, ?_⟩
  unfold Scope.ruleMeaning
  rw [← a.workspace_root, ← b.workspace_root, h.left, h.right]
  exact valueOfRule_sameOn hw h (2 * w.size)

/-- Of the names in an expression and in the rules nothing but the shapes matters for its type. -/
theorem shape?_sameOn (he : e.NamesIn names) (hw : w.NamesIn names) (h : a.SameShapesOn w names b)
    (hroot : a.root.SameShapesOn w names b.root) : e.shape? a = e.shape? b :=
  shapeWith_sameOn (ruleShape_sameOn hw hroot) he h

/-- If the names in an expression stand for the same in two scopes, and those in the rules do at
their roots, then the expression has the same type and the same value in both. -/
theorem eval_sameOn (he : e.NamesIn names) (hw : w.NamesIn names) (h : a.SameOn w names b)
    (hroot : a.root.SameOn w names b.root) : e.shape? a = e.shape? b ∧ e.eval a = e.eval b :=
  ⟨shape?_sameOn he hw h.toSameShapesOn hroot.toSameShapesOn,
    evalWith_sameOn (ruleMeaning_sameOn hw hroot) he h⟩

/-! ## Rows -/

theorem Expr.namesIn_all (e : Expr) : e.NamesIn fun _ => True := fun _ _ => trivial

/-- In a row nothing is seen of the scopes around it but the rules of the root. -/
theorem eval_ofRow (e : Expr) (r : Row) {p q : Scope} (h : p.root = q.root) :
    e.shape? (.ofRow r p) = e.shape? (.ofRow r q) ∧ e.eval (.ofRow r p) = e.eval (.ofRow r q) := by
  have hworkspace : p.workspace = q.workspace := by
    rw [← p.workspace_root, h, q.workspace_root]
  have hroot :
      (Scope.ofRow r p).root.SameOn q.workspace (fun _ => True) (Scope.ofRow r q).root := by
    show p.root.SameOn _ _ q.root
    rw [h]
    exact .refl _ q.workspace_root
  exact eval_sameOn e.namesIn_all (fun s _ => s.expr.namesIn_all)
    (Scope.sameOn_ofRow hworkspace rfl r) hroot

/-- The value of a clause for a row. -/
theorem evalWith_ofRow (e : Expr) (r : Row) {scope parent : Scope} (h : parent.root = scope.root) :
    e.evalWith scope.ruleMeaning (.ofRow r scope.root) = e.eval (.ofRow r parent) := by
  rw [(eval_ofRow e r (h.trans scope.root_root.symm)).2, Expr.eval, Scope.ruleMeaning_ofRow,
    Scope.ruleMeaning_root]

/-- An expression in a row has the type and the value, or the errors, that it has over the root of
the scopes around the row.  So the conditions of a filter and the values of a computed column, which
are evaluated over the root, are those in the rows inside of the bracket. -/
theorem rows_see_rules (e : Expr) (r : Row) (parent : Scope) :
    e.shape? (.ofRow r parent) = e.shape? (.ofRow r parent.root) ∧
      e.eval (.ofRow r parent) = e.eval (.ofRow r parent.root) ∧
      ∀ (x : Expr) (scope : Scope),
        (Expr.filter x e).eval scope = (do
          let d ← (← x.eval scope).asDataSet (scalarBracketed (.filter x e))
          pure (.dataset (d.filter fun r => do
            (← e.eval (.ofRow r (.ofDataSet d scope))).asCondition e))) ∧
        ∀ name, (Expr.compute x name e).eval scope = (do
          let d ← (← x.eval scope).asDataSet (scalarBracketed (.compute x name e))
          let row := Scope.row d.schema none (.ofDataSet d scope)
          let domain ← (← e.shape? row).computedDomain
          let target ← d.schema.withMeasure name domain
          let computed ← target.require name
          pure (.dataset (d.mapRows target
            (DataSet.computedRow computed target (Expr.compute x name e).text fun r => do
              (← e.eval (.ofRow r (.ofDataSet d scope))).asComputed)))) := by
  obtain ⟨hshape, heval⟩ := eval_ofRow e r parent.root_root.symm
  refine ⟨hshape, heval, fun x scope => ?_⟩
  have hclause (d : DataSet) (r : Row) :
      e.evalWith scope.ruleMeaning (.ofRow r scope.root) = e.eval (.ofRow r (.ofDataSet d scope)) :=
    evalWith_ofRow e r rfl
  simp only [← hclause]
  exact ⟨rfl, fun name => rfl⟩

/-! ## Bindings -/

/-- A variable of the name can stand for what is bound to another one: it is this name, or matches
it under the quoting rule. -/
def RefersTo (name bound : String) : Prop :=
  name = bound ∨ (NamePattern.ofName name).accepts bound = true

instance (name bound : String) : Decidable (RefersTo name bound) :=
  inferInstanceAs (Decidable (_ ∨ _))

namespace Bindings

variable {α : Type} {x : α} {name bound : String}

/-- Binding a name changes nothing for a search that it does not meet. -/
theorem find?_insertIn {p : String → Bool} (hp : p bound = false) (entries : List (String × α)) :
    (insertIn bound x entries).find? (fun e => p e.1) = entries.find? fun e => p e.1 := by
  induction entries with
  | nil => simp [insertIn, hp]
  | cons e rest ih =>
    unfold insertIn
    split
    · rename_i he
      rw [List.find?_cons_of_neg (by simp [hp]), List.find?_cons_of_neg (by simp [he, hp])]
    · rw [List.find?_cons, List.find?_cons, ih]

/-- Other names are found as before, wherever the new binding stands. -/
theorem find?_insert (b : Bindings α) (h : ¬ RefersTo name bound) :
    (b.insert bound x).find? name = b.find? name := by
  obtain ⟨hne, haccepts⟩ := not_or.1 h
  have hget : (b.insert bound x).get? name = b.get? name := by
    rw [get?_insert, if_neg fun h => hne h.symm]
  unfold find?
  rw [hget]
  congr 2
  cases hpattern : NamePattern.ofName name with
  | exact inner =>
    rw [hpattern] at haccepts
    have hinner : bound ≠ inner := fun h => haccepts (decide_eq_true h.symm)
    exact find?_insertIn (p := fun s => decide (s = inner)) (decide_eq_false hinner) b.entries
  | ignoringCase plain =>
    rw [hpattern] at haccepts
    have hplain : bound ≠ plain := fun h => haccepts (by rw [h]; exact decide_eq_true rfl)
    exact congrArg₂ Option.or
      (find?_insertIn (p := fun s => decide (s = plain)) (decide_eq_false hplain) b.entries)
      (find?_insertIn (Bool.eq_false_of_not_eq_true haccepts) b.entries)

end Bindings

/-- With another binding the names that cannot stand for it mean what they meant. -/
theorem Scope.sameOn_insert (values : Bindings Value) (w : Workspace) (bound : String) (v : Value) :
    (engine (values.insert bound v) w).SameOn w (¬ RefersTo · bound) (engine values w) where
  left := rfl
  right := rfl
  contains name hname := by simp only [Scope.contains, Bindings.find?_insert values hname]
  describe name hname := by
    simp only [Scope.describe, Bindings.find?_insert values hname]
    rfl
  resolve name hname := by
    simp only [Scope.resolve, Bindings.find?_insert values hname]
    rfl

/-- Where no variable of an expression and none of the rules can stand for a name, it does not
matter what is bound to that name: the expression has the same type, and the same value with the
same rows and faults, or is refused with the same errors. -/
theorem unmentioned_bindings (values : Bindings Value) (w : Workspace) (bound : String) (v : Value)
    (he : e.NamesIn (¬ RefersTo · bound)) (hw : w.NamesIn (¬ RefersTo · bound)) :
    e.shape? (.engine (values.insert bound v) w) = e.shape? (.engine values w) ∧
      e.eval (.engine (values.insert bound v) w) = e.eval (.engine values w) :=
  eval_sameOn he hw (Scope.sameOn_insert values w bound v) (Scope.sameOn_insert values w bound v)

/-- The rule filters a dataset. -/
def nullsRules : Workspace :=
  Workspace.empty.add ⟨"nulls", .filter (.var "ds") (.unary .isNull (.var "m"))⟩

/-- The dataset, and a value that the rule does not mention. -/
def ratedValues : Bindings Value :=
  ⟨[("rate", .scalar (.integer 1)), ("ds", .dataset keyedDataSet)]⟩

/-- A dataset takes the place of that value, and the rule filters the same rows. -/
theorem unmentioned_bindings_rate :
    (Expr.var "nulls").NamesIn (¬ RefersTo · "rate") ∧ nullsRules.NamesIn (¬ RefersTo · "rate") ∧
      ∃ d, (Expr.var "nulls").eval (.engine ratedValues nullsRules) = .ok (.dataset d) ∧
        (Expr.var "nulls").eval
          (.engine (ratedValues.insert "rate" (.dataset keyedDataSet)) nullsRules) =
            .ok (.dataset d) ∧
        d.stream.rows.map Row.values = [[.string "b", .null .integer]] := by
  have he : (Expr.var "nulls").NamesIn (¬ RefersTo · "rate") := .var (by decide)
  have hcondition : (Expr.unary .isNull (.var "m")).NamesIn (¬ RefersTo · "rate") :=
    .of_operands nofun (List.forall_mem_singleton.2 (.var (by decide)))
  have hw : nullsRules.NamesIn (¬ RefersTo · "rate") := by
    intro s hs
    rw [List.mem_singleton.1 hs]
    exact .of_operands nofun
      (List.forall_mem_cons.2 ⟨.var (by decide), List.forall_mem_singleton.2 hcondition⟩)
  obtain ⟨-, heval⟩ :=
    unmentioned_bindings ratedValues nullsRules "rate" (.dataset keyedDataSet) he hw
  exact ⟨he, hw, _, rfl, heval, rfl⟩

end DataCube
