import DataCube.Proofs.Interchange.Expressions
import DataCube.Proofs.Interchange.Groups
import DataCube.Proofs.Safety.Scopes

/-!
# Equal expressions evaluate alike

Expressions are equal if they have the same nodes and equal literals.  A caller that finds two equal
expressions may want to keep only one of them.  That is safe as long as their zeros have the same
signs: a zero is written with its sign, and dividing by it tells which of the two it is.  Then the
expressions are written alike and evaluate alike, but for a median, which puts a NaN at the end that
its sign points to.

* `Scope.Alike`: scopes over one root, inside rows and datasets that are alike.
* `Expr.Corresponds.shapeWith_eq`: types do not depend on what is alike.
* `Expr.Corresponds.agree_evalWith`: evaluation hands on what is alike.
* `equal_expressions`: what equal expressions have in common.
-/

namespace DataCube

variable {signs : Prop}

/-! ## Scopes -/

/-- Values that are alike, or one and the same rule. -/
inductive Entry.Alike (signs : Prop) : Entry Value → Entry Value → Prop where
  | found {v w : Value} : v.Alike signs w → Alike signs (.found v) (.found w)
  | rule (s : Statement) : Alike signs (.rule s) (.rule s)

theorem Entry.Alike.refl (e : Entry Value) : e.Alike signs e := by
  cases e with
  | found v => exact .found (.refl v)
  | rule s => exact .rule s

/-- The scopes have the same root, and are inside rows and datasets that are alike. -/
inductive Scope.Alike (signs : Prop) : Scope → Scope → Prop where
  | refl (s : Scope) : Alike signs s s
  | row (schema : Schema) {r r' : Option Row} {p p' : Scope} :
      Option.Rel (Row.Alike signs) r r' → Alike signs p p' →
      Alike signs (.row schema r p) (.row schema r' p')
  | this (schema : Schema) {d d' : Option DataSet} {p p' : Scope} :
      Option.Rel (DataSet.Alike signs) d d' → Alike signs p p' →
      Alike signs (.this schema d p) (.this schema d' p')

namespace Scope.Alike

variable {s s' p p' : Scope}

theorem ofRow {r r' : Row} (hr : r.Alike signs r') (hp : p.Alike signs p') :
    (Scope.ofRow r p).Alike signs (Scope.ofRow r' p') := by
  unfold Scope.ofRow
  rw [hr.schema]
  exact .row _ (.some hr) hp

theorem ofDataSet {d d' : DataSet} (hd : d.Alike signs d') (hp : p.Alike signs p') :
    (Scope.ofDataSet d p).Alike signs (Scope.ofDataSet d' p') := by
  unfold Scope.ofDataSet
  rw [hd.schema]
  exact .this _ (.some hd) hp

theorem root_eq (h : s.Alike signs s') : s.root = s'.root := by
  induction h with
  | refl s => rfl
  | row _ _ _ ih => exact ih
  | this _ _ _ ih => exact ih

theorem rule_eq (h : s.Alike signs s') (name : String) : s.rule name = s'.rule name := by
  have hworkspace : s.workspace = s'.workspace := by
    induction h with
    | refl s => rfl
    | row _ _ _ ih => exact ih
    | this _ _ _ ih => exact ih
  rw [Scope.rule, Scope.rule, hworkspace]

theorem contains_eq (h : s.Alike signs s') (name : String) :
    s.contains name = s'.contains name := by
  induction h with
  | refl s => rfl
  | row _ _ _ _ => rfl
  | this _ _ _ ih => simp only [contains, ih]

theorem describe_eq (h : s.Alike signs s') (name : String) :
    s.describe name = s'.describe name := by
  induction h with
  | refl s => rfl
  | row _ _ _ _ => rfl
  | this _ _ _ ih => simp only [describe, ih]

theorem shapeEntry_eq (h : s.Alike signs s') (name : String) :
    s.shapeEntry name = s'.shapeEntry name := by
  rw [shapeEntry, shapeEntry, h.contains_eq, h.describe_eq, h.rule_eq]

/-- A name stands for values that are alike, made from the row or the dataset around. -/
theorem agree_resolve (h : s.Alike signs s') (name : String) :
    Agree (Entry.Alike signs) (s.resolve name) (s'.resolve name) := by
  induction h with
  | refl s => exact Agree.refl .refl _
  | row schema hr _ _ =>
    cases hr with
    | none => exact .error (.refl _)
    | @some r r' hr =>
      have hlookup := hr.lookup? name
      simp only [resolve]
      split
      · exact .ok (.found (.dataset ⟨rfl, rfl, .ofRows (.cons hr .nil)⟩))
      · generalize r.lookup? name = x, r'.lookup? name = y at hlookup ⊢
        cases hlookup with
        | none => exact .error (.refl _)
        | some hv => exact .ok (.found (.scalar hv))
  | this schema hd _ ih =>
    simp only [resolve]
    split
    · exact ih
    · cases hd with
      | none => exact .error (.refl _)
      | @some d d' hd =>
        have hname : d.displayName = d'.displayName := congrArg (Option.getD · _) hd.givenName
        simp only [hname]
        split
        · exact .ok (.found (.dataset hd))
        · exact (hd.agree_membership name _).map fun _ _ hm => .found (.dataset hm)

theorem agree_valueEntry (h : s.Alike signs s') (name : String) :
    Agree (Entry.Alike signs) (s.valueEntry name) (s'.valueEntry name) := by
  unfold valueEntry
  rw [h.contains_eq, h.rule_eq]
  split
  · exact h.agree_resolve name
  · exact Agree.refl .refl _

end Scope.Alike

/-! ## Shapes -/

theorem Shift.checkDefault_congr (direction : Shift) (schema : Schema)
    {default default' : Option Scalar} (h : Option.Rel (Scalar.Alike signs) default default') :
    direction.checkDefault schema default = direction.checkDefault schema default' := by
  cases h with
  | none => rfl
  | some h => simp only [checkDefault, h.domain_eq]

namespace Expr

/-- Types do not depend on what is alike. -/
theorem Corresponds.shapeWith_eq {a b : Expr} (h : a.Corresponds (Scalar.Alike signs) b)
    (rule : Statement → Except EvalError Shape) {s s' : Scope} (hs : s.Alike signs s') :
    a.shapeWith rule s = b.shapeWith rule s' := by
  induction h generalizing s s' with
  | constant h => simp only [shapeWith, h.domain_eq]
  | var name => simp only [shapeWith, hs.shapeEntry_eq]
  | unary op _ ih => simp only [shapeWith, ih hs]
  | binary op _ _ ihl ihr => simp only [shapeWith, ihl hs, ihr hs]
  | member name hx ih => simp only [shapeWith, ih hs, (Corresponds.member name hx).text_eq]
  | @filter x y c c' hx hc ihx ihc =>
    have hcondition : ∀ schema, c.shapeWith rule (.row schema none (.this schema none s)) =
        c'.shapeWith rule (.row schema none (.this schema none s')) :=
      fun schema => ihc (.row schema .none (.this schema .none hs))
    simp only [shapeWith, ihx hs, hcondition, Shape.filtered, hc.text_eq,
      (Corresponds.filter hx hc).text_eq]
  | keep names hx ih => simp only [shapeWith, ih hs, (Corresponds.keep names hx).text_eq]
  | drop names hx ih => simp only [shapeWith, ih hs, (Corresponds.drop names hx).text_eq]
  | @compute x y e e' name hx he ihx ihe =>
    have hvalue : ∀ schema, e.shapeWith rule (.row schema none (.this schema none s)) =
        e'.shapeWith rule (.row schema none (.this schema none s')) :=
      fun schema => ihe (.row schema .none (.this schema .none hs))
    simp only [shapeWith, ihx hs, hvalue, (Corresponds.compute name hx he).text_eq]
  | @within x y e e' hx he ihx ihe =>
    have hbody : ∀ schema, e.shapeWith rule (.this schema none s) =
        e'.shapeWith rule (.this schema none s') := fun schema => ihe (.this schema .none hs)
    simp only [shapeWith, ihx hs, hbody, (Corresponds.within hx he).text_eq]
  | shift direction offset window hx hdefault ih =>
    simp only [shapeWith, ih hs, direction.checkDefault_congr _ hdefault]
  | aggregate statistic groupBy _ ih => simp only [shapeWith, ih hs]
  | analytic r window _ ih => simp only [shapeWith, ih hs]

end Expr

/-! ## Values -/

theorem Value.Alike.agree_asDataSet {v w : Value} (h : v.Alike signs w)
    {refuse refuse' : Scalar → EvalError}
    (hrefuse : ∀ x y : Scalar, x.domain = y.domain → refuse x = refuse' y) :
    Agree (DataSet.Alike signs) (v.asDataSet refuse) (w.asDataSet refuse') := by
  cases h with
  | scalar h =>
    have herror := hrefuse _ _ h.domain_eq
    simp only [asDataSet, herror]
    exact .error (.refl _)
  | dataset h => exact .ok h

/-- A node that asks its operand for a dataset. -/
theorem Agree.bind_asDataSet {α β : Type} {Q : α → β → Prop} {x y : Except EvalError Value}
    {f : DataSet → Except EvalError α} {g : DataSet → Except EvalError β}
    {refuse refuse' : Scalar → EvalError} (h : Agree (Value.Alike signs) x y)
    (hrefuse : ∀ v w : Scalar, v.domain = w.domain → refuse v = refuse' w)
    (hfg : ∀ d d', d.Alike signs d' → Agree Q (f d) (g d')) :
    Agree Q (x >>= fun v => v.asDataSet refuse >>= f) (y >>= fun v => v.asDataSet refuse' >>= g) :=
  h.bind fun _ _ hv => (hv.agree_asDataSet hrefuse).bind hfg

theorem scalarBracketed_congr {a b : Expr} (htext : a.text = b.text) (x y : Scalar)
    (h : x.domain = y.domain) : scalarBracketed a x = scalarBracketed b y := by
  rw [scalarBracketed, scalarBracketed, htext, h]

theorem Value.Alike.agree_asCondition {v w : Value} (h : v.Alike signs w) {c c' : Expr}
    (htext : c.text = c'.text) : Agree Eq (v.asCondition c) (w.asCondition c') := by
  cases h with
  | scalar h =>
    cases h with
    | refl =>
      rename_i v
      exact Agree.of_eq (by cases v <;> simp only [asCondition, htext])
    | number _ =>
      simp only [asCondition, htext]
      exact .error (.refl _)
  | dataset _ => exact .error (.refl _)

theorem Value.Alike.agree_asComputed {v w : Value} (h : v.Alike signs w) :
    Agree (Scalar.Alike signs) v.asComputed w.asComputed := by
  cases h with
  | scalar h => exact .ok h
  | dataset _ => exact .error (.refl _)

namespace Expr

/-- The node reduces by the median. -/
def isMedian : Expr → Bool
  | aggregate .median _ _ => true
  | analytic (.statistic .median) _ _ => true
  | _ => false

/-- No node reduces by the median. -/
def MedianFree (e : Expr) : Prop := ∀ n, e.Has n → n.isMedian = false

theorem MedianFree.operand {e x : Expr} (h : e.MedianFree) (hx : x ∈ e.operands) : x.MedianFree :=
  fun n hn => h n (hn.of_operand hx)

/-- All reducers of the expression make results that are alike of scalars that are. -/
def Respects (signs : Prop) (e : Expr) : Prop := signs ∨ e.MedianFree

theorem Respects.operand {e x : Expr} (h : e.Respects signs) (hx : x ∈ e.operands) :
    x.Respects signs :=
  h.imp_right fun h => h.operand hx

theorem Respects.statistic {s : Statistic} {x : Expr} {groupBy : List String}
    (h : (aggregate s x groupBy).Respects signs) : (Reducer.statistic s).Respects signs := by
  refine h.imp_right fun h hmedian => ?_
  cases hmedian
  nomatch h _ (has_self _)

theorem Respects.reducer {r : Reducer} {x : Expr} {window : WindowSpec}
    (h : (analytic r x window).Respects signs) : r.Respects signs := by
  refine h.imp_right fun h hmedian => ?_
  cases hmedian
  nomatch h _ (has_self _)

/-- Evaluation hands on what is alike.  A median does so if the signs of NaN are kept. -/
theorem Corresponds.agree_evalWith {a b : Expr} (h : a.Corresponds (Scalar.Alike signs) b)
    (hrespects : a.Respects signs) (rules : RuleMeaning) {s s' : Scope} (hs : s.Alike signs s') :
    Agree (Value.Alike signs) (a.evalWith rules s) (b.evalWith rules s') := by
  induction h generalizing s s' with
  | constant h => exact .ok (.scalar h)
  | var name =>
    refine (hs.agree_valueEntry name).bind fun entry entry' hentry => ?_
    cases hentry with
    | found hv => exact .ok hv
    | rule statement => exact Agree.refl .refl _
  | unary op hx ih =>
    have hoperand := ih (hrespects.operand (.head _)) hs
    exact hoperand.bind fun _ _ hv => op.agree_onValue (Corresponds.unary op hx).text_eq hv
  | binary op hl hr ihl ihr =>
    have hleft := ihl (hrespects.operand (.head _)) hs
    have hright := ihr (hrespects.operand (.tail _ (.head _))) hs
    exact hleft.bind fun _ _ hv => hright.bind fun _ _ hw =>
      op.agree_onValues (Corresponds.binary op hl hr).text_eq hv hw
  | member name hx ih =>
    have htext := (Corresponds.member name hx).text_eq
    have hoperand := ih (hrespects.operand (.head _)) hs
    refine hoperand.bind_asDataSet (scalarBracketed_congr htext) fun d d' hd => ?_
    rw [htext]
    exact (hd.agree_membership name _).map fun _ _ => .dataset
  | @filter x y c c' hx hc ihx ihc =>
    have htext := (Corresponds.filter hx hc).text_eq
    have hoperand := ihx (hrespects.operand (.head _)) hs
    refine hoperand.bind_asDataSet (scalarBracketed_congr htext) fun d d' hd => ?_
    refine .ok (.dataset (hd.filter fun r r' hr => ?_))
    rw [hs.root_eq]
    have hcondition := ihc (hrespects.operand (.tail _ (.head _))) (.ofRow hr (.refl s'.root))
    exact hcondition.bind fun _ _ hv => hv.agree_asCondition hc.text_eq
  | keep names hx ih =>
    have htext := (Corresponds.keep names hx).text_eq
    have hoperand := ih (hrespects.operand (.head _)) hs
    refine hoperand.bind_asDataSet (scalarBracketed_congr htext) fun d d' hd => ?_
    rw [htext, hd.schema]
    exact Agree.bind_same _ fun target _ => .ok (.dataset (hd.project target _))
  | drop names hx ih =>
    have htext := (Corresponds.drop names hx).text_eq
    have hoperand := ih (hrespects.operand (.head _)) hs
    refine hoperand.bind_asDataSet (scalarBracketed_congr htext) fun d d' hd => ?_
    rw [htext, hd.schema]
    exact Agree.bind_same _ fun target _ => .ok (.dataset (hd.project target _))
  | @compute x y e e' name hx he ihx ihe =>
    have htext := (Corresponds.compute name hx he).text_eq
    have hoperand := ihx (hrespects.operand (.head _)) hs
    refine hoperand.bind_asDataSet (scalarBracketed_congr htext) fun d d' hd => ?_
    have hshape := he.shapeWith_eq rules.shape
      (.row d'.schema .none (Scope.Alike.ofDataSet hd hs))
    dsimp only
    rw [htext, hd.schema, hs.root_eq, hshape]
    refine Agree.bind_same _ fun shape _ => Agree.bind_same _ fun domain _ => ?_
    refine Agree.bind_same _ fun target _ => Agree.bind_same _ fun computed _ => ?_
    refine .ok (.dataset (hd.mapRows target fun r r' hr => ?_))
    have hvalue := ihe (hrespects.operand (.tail _ (.head _))) (.ofRow hr (.refl s'.root))
    exact DataSet.Alike.agree_computedRow computed target _ hr
      (hvalue.bind fun _ _ hv => hv.agree_asComputed)
  | within hx hb ihx ihb =>
    have htext := (Corresponds.within hx hb).text_eq
    have hoperand := ihx (hrespects.operand (.head _)) hs
    refine hoperand.bind_asDataSet (scalarBracketed_congr htext) fun d d' hd => ?_
    exact ihb (hrespects.operand (.tail _ (.head _))) (.ofDataSet hd hs)
  | shift direction offset window hx hdefault ih =>
    have htext := (Corresponds.shift direction offset window hx hdefault).text_eq
    have hoperand := ih (hrespects.operand (.head _)) hs
    refine hoperand.bind_asDataSet (fun _ _ _ => rfl) fun d d' hd => ?_
    rw [htext, hd.schema]
    exact Agree.bind_same _ fun w _ => .ok (.dataset (hd.shift direction offset hdefault w _))
  | aggregate statistic groupBy hx ih =>
    have hoperand := ih (hrespects.operand (.head _)) hs
    refine hoperand.bind_asDataSet (fun _ _ _ => rfl) fun d d' hd => ?_
    rw [hd.schema]
    exact Agree.bind_same _ fun target _ => Agree.bind_same _ fun keys _ =>
      .ok (.dataset (hd.runGroups hrespects.statistic keys target))
  | analytic r window hx ih =>
    have htext := (Corresponds.analytic r window hx).text_eq
    have hoperand := ih (hrespects.operand (.head _)) hs
    refine hoperand.bind_asDataSet (fun _ _ _ => rfl) fun d d' hd => ?_
    rw [htext, hd.schema]
    exact Agree.bind_same _ fun target _ => Agree.bind_same _ fun w _ =>
      .ok (.dataset (hd.runWindow hrespects.reducer w target _))

end Expr

/-- Equal expressions have one canonical form, and one lineage just if their zeros have the same
signs.  Then they are also written alike and have the same types, and in every scope they evaluate
alike: to equal scalars or the same error, or to datasets of one schema whose streams yield equal
rows with equal lineages.  If they have medians, the signs of their NaN have to be the same too. -/
theorem equal_expressions {a b : Expr} (h : a.same b = true) :
    a.canonical = b.canonical ∧
      (a.lineage = b.lineage ↔ a.Corresponds Scalar.ZerosAgree b) ∧
      (a.Corresponds Scalar.ZerosAgree b →
        a.text = b.text ∧
        (∀ scope, a.shape? scope = b.shape? scope) ∧
        (a.Corresponds Scalar.NaNsAgree b →
          ∀ scope, Agree (Value.Alike True) (a.eval scope) (b.eval scope)) ∧
        (a.MedianFree → ∀ scope, Agree (Value.Alike False) (a.eval scope) (b.eval scope))) := by
  have hsame := Expr.corresponds_of_same h
  refine ⟨hsame.canonical_eq, ⟨hsame.zerosAgree_of_lineage, fun hzeros => ?_⟩, fun hzeros => ?_⟩
  · exact (hsame.alike hzeros False.elim).lineage_eq
  · have halike : a.Corresponds (Scalar.Alike False) b := hsame.alike hzeros False.elim
    refine ⟨halike.text_eq, fun scope => ?_, fun hnans scope => ?_, fun hmedian scope => ?_⟩
    · exact halike.shapeWith_eq scope.ruleShape (.refl scope)
    · exact (hsame.alike hzeros fun _ => hnans).agree_evalWith (Or.inl trivial) scope.ruleMeaning
        (.refl scope)
    · exact halike.agree_evalWith (Or.inr hmedian) scope.ruleMeaning (.refl scope)

/-- The two zeros are equal, but dividing by them is not. -/
example :
    (Expr.constant (.number 0)).same (.constant (.number (-0))) = true ∧
      (Expr.constant (.number 0)).text = "0" ∧ (Expr.constant (.number (-0))).text = "-0" ∧
      BinaryOp.div.apply (.number 1) (.number 0) = .ok (.number .infinity) ∧
      BinaryOp.div.apply (.number 1) (.number (-0)) = .ok (.number (-.infinity)) := by
  refine ⟨rfl, rfl, rfl, rfl, rfl⟩

/-- A NaN with other bits than the one that is read from a text. -/
def otherNaN : Binary64 := ⟨0x7FF0000000000001⟩

/-- The medians of all rows, with a NaN added to their measure. -/
def medianWith (x : Binary64) : Expr :=
  .aggregate .median (.binary .add (.var "ds") (.constant (.number x))) []

/-- NaN with different bits of one sign can stand for each other, even under a median. -/
theorem equal_expressions_medianWith :
    medianWith .nan ≠ medianWith otherNaN ∧
      (medianWith .nan).same (medianWith otherNaN) = true ∧
      (medianWith .nan).text = (medianWith otherNaN).text ∧
      (medianWith .nan).lineage = (medianWith otherNaN).lineage ∧
      ∀ scope, Agree (Value.Alike True) ((medianWith .nan).eval scope)
        ((medianWith otherNaN).eval scope) := by
  have hsame : (medianWith .nan).same (medianWith otherNaN) = true := rfl
  have hliteral {R : Scalar → Scalar → Prop} (hR : R (.number .nan) (.number otherNaN)) :
      (medianWith .nan).Corresponds R (medianWith otherNaN) :=
    .aggregate .median [] (.binary .add (.var "ds") (.constant hR))
  obtain ⟨-, hlineage, hzeros⟩ := equal_expressions hsame
  have hnoZeros : (medianWith .nan).Corresponds Scalar.ZerosAgree (medianWith otherNaN) :=
    hliteral fun x y hx _ hzero => by
      cases hx
      nomatch hzero
  obtain ⟨htext, -, heval, -⟩ := hzeros hnoZeros
  refine ⟨by decide, hsame, htext, hlineage.2 hnoZeros, heval (hliteral fun x y hx hy _ _ => ?_)⟩
  cases hx
  cases hy
  rfl

end DataCube
