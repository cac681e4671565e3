import DataCube.Proofs.RowStreams
import DataCube.Proofs.Typing.Monotone
import DataCube.Proofs.Visibility

/-!
# Filters fuse

A filter after a filter keeps the rows for which both conditions hold, whichever comes first, and so
does one filter on their conjunction.  The conditions are evaluated for each row in a scope of its
own, over the same root at either level, so a row decides them in the same way wherever it is asked.
A condition that is null drops its row, as a conjunction does that is null or false because of it.

* `Scalar.IsTruth`: the values of a condition: true, false and the nulls.
* `Expr.Decides`, `Expr.holds`: a condition has such a value for every row, and where it is true.
* `Expr.decides_and`, `Expr.holds_and`: the conjunction of two conditions.
* `Expr.exists_filter`: a filter on a condition that is decided keeps the rows for which it holds.
-/

namespace DataCube

/-! ## Conditions -/

/-- A truth value, or a null that can stand for one. -/
inductive Scalar.IsTruth : Scalar → Prop where
  | boolean (b : Bool) : IsTruth (.boolean b)
  | null : IsTruth (.null .boolean)
  | untyped : IsTruth (.null .null)

/-- The condition has a truth value for every row, or a null in its place. -/
def Expr.Decides (condition : Expr) (scope : Scope) (rows : List Row) : Prop :=
  ∀ r ∈ rows, ∃ v, condition.eval (.ofRow r scope.root) = .ok (.scalar v) ∧ v.IsTruth

/-- The condition is true for the row. -/
def Expr.holds (condition : Expr) (scope : Scope) (r : Row) : Bool :=
  match condition.eval (.ofRow r scope.root) with
  | .ok (.scalar (.boolean b)) => b
  | _ => false

/-- A truth value keeps the row just if it is true, and a null drops it. -/
theorem Scalar.IsTruth.asCondition {v : Scalar} (h : v.IsTruth) (condition : Expr) :
    (Value.scalar v).asCondition condition = .ok (v.boolean?.getD false) := by
  cases h <;> rfl

theorem BinaryOp.isTruth_conjunction (p q : Option Bool) : (conjunction p q).IsTruth := by
  rcases p with _ | _ | _ <;> rcases q with _ | _ | _ <;> constructor

/-- A conjunction is true just if both of its operands are. -/
theorem BinaryOp.boolean?_conjunction (p q : Option Bool) :
    (conjunction p q).boolean?.getD false = (p.getD false && q.getD false) := by
  rcases p with _ | _ | _ <;> rcases q with _ | _ | _ <;> rfl

/-- Truth values have a conjunction. -/
theorem Scalar.IsTruth.apply_and {v w : Scalar} (hv : v.IsTruth) (hw : w.IsTruth) :
    BinaryOp.and.apply v w = .ok (BinaryOp.conjunction v.boolean? w.boolean?) := by
  cases hv <;> cases hw <;> rfl

namespace Expr

variable {x a b condition : Expr} {scope : Scope} {d : DataSet} {r : Row} {rows : List Row}

theorem holds_eq {v : Scalar} (h : condition.eval (.ofRow r scope.root) = .ok (.scalar v)) :
    condition.holds scope r = v.boolean?.getD false := by
  unfold holds
  rw [h]
  cases v <;> rfl

/-- Where both conditions have a truth value, so has their conjunction. -/
theorem eval_and {v w : Scalar} {inner : Scope} (ha : a.eval inner = .ok (.scalar v))
    (hb : b.eval inner = .ok (.scalar w)) (hv : v.IsTruth) (hw : w.IsTruth) :
    (binary .and a b).eval inner =
      .ok (.scalar (BinaryOp.conjunction v.boolean? w.boolean?)) :=
  bind_eq_ok.2 ⟨_, ha, bind_eq_ok.2 ⟨_, hb, map_eq_ok.2 ⟨_, hv.apply_and hw, rfl⟩⟩⟩

theorem decides_and (ha : a.Decides scope rows) (hb : b.Decides scope rows) :
    (binary .and a b).Decides scope rows := by
  intro r hr
  obtain ⟨v, hv, hvtruth⟩ := ha r hr
  obtain ⟨w, hw, hwtruth⟩ := hb r hr
  exact ⟨_, eval_and hv hw hvtruth hwtruth, BinaryOp.isTruth_conjunction _ _⟩

/-- A conjunction holds for a row just if both conditions do. -/
theorem holds_and (ha : a.Decides scope rows) (hb : b.Decides scope rows) (hr : r ∈ rows) :
    (binary .and a b).holds scope r = (a.holds scope r && b.holds scope r) := by
  obtain ⟨v, hv, hvtruth⟩ := ha r hr
  obtain ⟨w, hw, hwtruth⟩ := hb r hr
  rw [holds_eq hv, holds_eq hw, holds_eq (eval_and hv hw hvtruth hwtruth)]
  exact BinaryOp.boolean?_conjunction _ _

/-- A filter on a condition that is decided for every row keeps the rows for which it holds. -/
theorem exists_filter (hx : x.eval scope = .ok (.dataset d))
    (h : condition.Decides scope d.stream.rows) :
    ∃ out, (filter x condition).eval scope = .ok (.dataset out) ∧ out.schema = d.schema ∧
      out.stream = ⟨d.stream.rows.filter (condition.holds scope), d.stream.fault⟩ := by
  refine ⟨_, bind_eq_ok.2 ⟨_, hx, bind_eq_ok.2 ⟨d, rfl, rfl⟩⟩, rfl, ?_⟩
  refine RowStream.filterRows_eq fun r hr => ?_
  obtain ⟨v, hv, htruth⟩ := h r hr
  have heval : condition.evalWith scope.ruleMeaning (.ofRow r scope.root) = .ok (.scalar v) :=
    (evalWith_ofRow condition r scope.root_root).trans hv
  rw [heval, holds_eq hv]
  exact htruth.asCondition condition

end Expr

/-! ## Filters after filters -/

variable {x a b : Expr} {scope : Scope} {d : DataSet}

/-- Where two conditions are decided for every row of a dataset, filtering by one and then by the
other, the other way round, and by their conjunction gives one and the same stream, of the rows of
the dataset for which both hold, with the schema of the dataset. -/
theorem filters_fuse (hx : x.eval scope = .ok (.dataset d)) (ha : a.Decides scope d.stream.rows)
    (hb : b.Decides scope d.stream.rows) :
    ∃ ab ba both, (Expr.filter (.filter x a) b).eval scope = .ok (.dataset ab) ∧
      (Expr.filter (.filter x b) a).eval scope = .ok (.dataset ba) ∧
      (Expr.filter x (.binary .and a b)).eval scope = .ok (.dataset both) ∧
      (ab.schema = d.schema ∧ ba.schema = d.schema ∧ both.schema = d.schema) ∧
      ab.stream = both.stream ∧ ba.stream = both.stream ∧
      both.stream =
        ⟨d.stream.rows.filter fun r => a.holds scope r && b.holds scope r, d.stream.fault⟩ := by
  have hsome {p : Row → Bool} {c : Expr} (hc : c.Decides scope d.stream.rows) :
      c.Decides scope (d.stream.rows.filter p) := fun r hr => hc r (List.mem_of_mem_filter hr)
  obtain ⟨onlyA, hevalA, hschemaA, hstreamA⟩ := Expr.exists_filter hx ha
  obtain ⟨onlyB, hevalB, hschemaB, hstreamB⟩ := Expr.exists_filter hx hb
  have hb' : b.Decides scope onlyA.stream.rows := by
    rw [hstreamA]
    exact hsome hb
  have ha' : a.Decides scope onlyB.stream.rows := by
    rw [hstreamB]
    exact hsome ha
  obtain ⟨ab, hab, hschemaAB, hstreamAB⟩ := Expr.exists_filter hevalA hb'
  obtain ⟨ba, hba, hschemaBA, hstreamBA⟩ := Expr.exists_filter hevalB ha'
  obtain ⟨both, hboth, hschema, hstream⟩ := Expr.exists_filter hx (Expr.decides_and ha hb)
  have hrows : d.stream.rows.filter ((Expr.binary .and a b).holds scope) =
      d.stream.rows.filter fun r => a.holds scope r && b.holds scope r :=
    List.filter_congr fun r hr => Expr.holds_and ha hb hr
  rw [hrows] at hstream
  refine ⟨ab, ba, both, hab, hba, hboth,
    ⟨hschemaAB.trans hschemaA, hschemaBA.trans hschemaB, hschema⟩, ?_, ?_, hstream⟩
  · rw [hstreamAB, hstreamA, List.filter_filter, hstream]
    simp only [Bool.and_comm]
  · rw [hstreamBA, hstreamB, List.filter_filter, hstream]

/-- A key, and two measures that can be conditions. -/
def flagged : Schema :=
  ⟨[⟨"k", .identifier, .integer⟩, ⟨"p", .measure, .boolean⟩, ⟨"q", .measure, .boolean⟩],
    by decide⟩

/-- A row with its two measures. -/
def flaggedRow (k : Int64) (p q : Scalar) : Row := ⟨flagged, [.integer k, p, q], .known "ds"⟩

/-- Four rows, of which the second and the third have a null for one of their measures. -/
def flaggedDataSet : DataSet :=
  .ofRows flagged [flaggedRow 1 (.boolean true) (.boolean true),
    flaggedRow 2 (.null .boolean) (.boolean true), flaggedRow 3 (.boolean false) (.null .boolean),
    flaggedRow 4 (.boolean true) (.boolean true)]

/-- The scope in which only that dataset is bound. -/
def flaggedScope : Scope := .engine ⟨[("ds", .dataset flaggedDataSet)]⟩ .empty

/-- The measures of the first and the last row are both true, and the nulls drop the others. -/
theorem filters_fuse_flagged :
    (Expr.var "p").Decides flaggedScope flaggedDataSet.stream.rows ∧
      (Expr.var "q").Decides flaggedScope flaggedDataSet.stream.rows ∧
      ∃ out, (Expr.filter (.filter (.var "ds") (.var "p")) (.var "q")).eval flaggedScope =
          .ok (.dataset out) ∧
        out.stream = .ofRows [flaggedRow 1 (.boolean true) (.boolean true),
          flaggedRow 4 (.boolean true) (.boolean true)] := by
  have hx : (Expr.var "ds").eval flaggedScope = .ok (.dataset flaggedDataSet) := rfl
  have hp : (Expr.var "p").Decides flaggedScope flaggedDataSet.stream.rows := by
    have hvalue (k : Int64) (p q : Scalar) :
        (Expr.var "p").eval (.ofRow (flaggedRow k p q) flaggedScope.root) = .ok (.scalar p) := rfl
    simp only [Expr.Decides, flaggedDataSet, DataSet.stream_ofRows, RowStream.ofRows,
      List.forall_mem_cons, hvalue]
    exact ⟨⟨_, rfl, .boolean true⟩, ⟨_, rfl, .null⟩, ⟨_, rfl, .boolean false⟩,
      ⟨_, rfl, .boolean true⟩, nofun⟩
  have hq : (Expr.var "q").Decides flaggedScope flaggedDataSet.stream.rows := by
    have hvalue (k : Int64) (p q : Scalar) :
        (Expr.var "q").eval (.ofRow (flaggedRow k p q) flaggedScope.root) = .ok (.scalar q) := rfl
    simp only [Expr.Decides, flaggedDataSet, DataSet.stream_ofRows, RowStream.ofRows,
      List.forall_mem_cons, hvalue]
    exact ⟨⟨_, rfl, .boolean true⟩, ⟨_, rfl, .boolean true⟩, ⟨_, rfl, .null⟩,
      ⟨_, rfl, .boolean true⟩, nofun⟩
  obtain ⟨out, -, both, hout, -, -, -, hsame, -, hstream⟩ := filters_fuse hx hp hq
  refine ⟨hp, hq, out, hout, hsame.trans (hstream.trans ?_)⟩
  rfl

end DataCube
