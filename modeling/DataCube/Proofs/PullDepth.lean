import DataCube.Proofs.Faults
import DataCube.Proofs.RuleDepth

/-!
# How deep pulling is nested

An iterator is pulled through those that it is wrapped around.  Every operation wraps a few more
around the iterator of its operand, so an expression, with the rules that it refers to, wraps a
bounded number of them around the iterators of the datasets that are there already.  Pulling does
not wrap any more.

* `RowIterator.depth`, `RowIterator.Pull.depth_le`: how many iterators are within one another, and
  that pulling makes them no more.
* `Openings`: the iterators of the datasets that names stand for.
* `Expr.Opens`: the iterator that evaluation puts together for an expression, node by node, out of
  those that the names in it give.
* `Expr.exists_opens`, `Expr.Opens.bounded`: there is one wherever there is a dataset, and it is no
  deeper than the steps that evaluation takes.
* `ranked_rules_terminate`: where rules can be ranked, typing, evaluation, and any number of pulls
  are nested to a bounded depth.
-/

namespace DataCube

/-! ## Iterators within one another -/

namespace RowIterator

/-- How many iterators are within one another. -/
def depth : RowIterator → Nat
  | rows _ | refused | ended => 1
  | mapped _ source | filtered _ source | opening source | gathering _ source _ | running source
  | untilError source => source.depth + 1

theorem depth_pos (i : RowIterator) : 0 < i.depth := by
  cases i with
  | rows _ | refused | ended => exact Nat.one_pos
  | mapped _ source | filtered _ source | opening source | gathering _ source _ | running source
  | untilError source => exact Nat.succ_pos _

variable {i j : RowIterator}

/-- A pull leaves no more iterators within one another than there were. -/
theorem Pull.depth_le {answer : Option (Except EvalError Row)} (h : Pull i answer j) :
    j.depth ≤ i.depth := by
  induction h with
  | row | noRow | refused | ended => exact le_rfl
  | map _ ih | keep _ _ ih | undecided _ _ ih | filterError _ ih | filterOver _ ih | start _ ih
  | run _ ih | hand _ ih => exact Nat.succ_le_succ ih
  | skip _ _ _ ih ihrest | gather _ _ ih ihrest => exact ihrest.trans (Nat.succ_le_succ ih)
  | @compute gathered made source next last _ _ _ _ _ ih ihrest =>
    -- the rows that were computed are on their own
    have hpos := source.depth_pos
    exact Nat.succ_le_succ (ihrest.trans hpos)
  | refuse _ _ _ | gatherError _ _ | stop _ _ | finish _ _ => exact Nat.succ_pos _

theorem Pulls.depth_le {answers : List (Option (Except EvalError Row))} (h : Pulls i answers j) :
    j.depth ≤ i.depth := by
  induction h with
  | done => exact le_rfl
  | pull hpull _ ih => exact ih.trans hpull.depth_le

end RowIterator

/-! ## Names -/

/-- The iterators that names give in a scope, and those that they give at its root. -/
structure Openings where
  here : String → RowIterator → Prop
  atRoot : String → RowIterator → Prop

/-- Every dataset that a name stands for in the scope is given an iterator, which is one of this
dataset and has no more than so many iterators within one another. -/
def Scope.ServedBy (scope : Scope) (opens : String → RowIterator → Prop) (k : Nat) : Prop :=
  ∀ name d, scope.valueEntry name = .ok (.found (.dataset d)) →
    (∃ i, opens name i) ∧ ∀ i, opens name i → d.Opens i ∧ i.depth ≤ k

theorem Scope.ServedBy.mono {scope : Scope} {opens : String → RowIterator → Prop} {k k' : Nat}
    (h : scope.ServedBy opens k) (hk : k ≤ k') : scope.ServedBy opens k' :=
  fun name d hd => ⟨(h name d hd).1, fun i hi => ((h name d hd).2 i hi).imp_right (·.trans hk)⟩

/-- Inside a bracket a name stands for the dataset, for one of its components, or for what it stands
for outside. -/
theorem Scope.valueEntry_inside {d out : DataSet} {scope : Scope} {name : String}
    (h : (ofDataSet d scope).valueEntry name = .ok (.found (.dataset out))) :
    isThis name = true ∧ out = d ∨
      isThis name = false ∧ (d.schema.component? name).isSome = true ∧
          d.membership name (d.displayName ++ "#" ++ name) = .ok out ∨
        isThis name = false ∧ (d.schema.component? name).isSome = false ∧
          scope.valueEntry name = .ok (.found (.dataset out)) := by
  unfold valueEntry ofDataSet at h
  cases hthis : isThis name with
  | true =>
    simp only [contains, resolve, hthis, Bool.true_or, Bool.not_true, Bool.false_and, if_true,
      Bool.false_eq_true, if_false] at h
    cases h
    exact .inl ⟨rfl, rfl⟩
  | false =>
    refine .inr ?_
    cases hcomponent : (d.schema.component? name).isSome with
    | true =>
      have hnone : (d.schema.component? name).isNone = false := by
        rw [← Option.not_isSome, hcomponent]
        rfl
      simp only [contains, resolve, hthis, hcomponent, hnone, Bool.false_or, Bool.true_or,
        Bool.and_false, if_true, Bool.false_eq_true, if_false] at h
      obtain ⟨m, hm, heq⟩ := map_eq_ok.1 h
      cases heq
      exact .inl ⟨rfl, rfl, hm⟩
    | false =>
      have hnone : (d.schema.component? name).isNone = true := by
        rw [← Option.not_isSome, hcomponent]
        rfl
      simp only [contains, resolve, hthis, hcomponent, hnone, Bool.false_or, Bool.not_false,
        Bool.and_self, if_true] at h
      split at h
      · rename_i hparent
        exact .inr ⟨rfl, rfl, by rw [valueEntry, if_pos hparent]; exact h⟩
      · obtain ⟨s, -, heq⟩ := map_eq_ok.1 h
        cases heq

namespace Openings

/-- Every dataset that a name stands for in the scope, or at its root, is given such an iterator. -/
structure Serve (o : Openings) (scope : Scope) (k : Nat) : Prop where
  here : scope.ServedBy o.here k
  atRoot : scope.root.ServedBy o.atRoot k

/-- The iterators at the root. -/
def root (o : Openings) : Openings := ⟨o.atRoot, o.atRoot⟩

/-- The iterators inside a bracket: that of the dataset, which is mapped for each of its components,
and those outside. -/
def inside (o : Openings) (d : DataSet) (i : RowIterator) : Openings where
  here name j :=
    if isThis name then j = i
    else if (d.schema.component? name).isSome then
      ∃ target member, d.schema.membership name = .ok target ∧
        d.schema.require name = .ok member ∧
          j = .untilError (.opening
            (.mapped (DataSet.memberRow member target (d.displayName ++ "#" ++ name)) i))
    else o.here name j
  atRoot := o.atRoot

variable {o : Openings} {scope : Scope} {k k' : Nat}

/-- At the root, names only stand for datasets that are bound. -/
theorem serve_engine {values : Bindings Value} {workspace : Workspace}
    {bound : String → RowIterator → Prop}
    (h : ∀ name d, values.find? name = some (.dataset d) →
      (∃ i, bound name i) ∧ ∀ i, bound name i → d.Opens i ∧ i.depth ≤ k) :
    Serve ⟨bound, bound⟩ (.engine values workspace) k := by
  have hfound : (Scope.engine values workspace).ServedBy bound k := by
    intro name d hd
    unfold Scope.valueEntry Scope.resolve at hd
    split at hd
    · split at hd
      · rename_i v hv
        cases hd
        exact h name d hv
      · obtain ⟨s, -, heq⟩ := map_eq_ok.1 hd
        cases heq
    · obtain ⟨s, -, heq⟩ := map_eq_ok.1 hd
      cases heq
  exact ⟨hfound, hfound⟩

namespace Serve

theorem root (h : o.Serve scope k) : o.root.Serve scope.root k where
  here := h.atRoot
  atRoot := by
    rw [Scope.root_root]
    exact h.atRoot

theorem mono (h : o.Serve scope k) (hk : k ≤ k') : o.Serve scope k' :=
  ⟨h.here.mono hk, h.atRoot.mono hk⟩

/-- A component of the dataset is one more operation on it. -/
theorem inside (h : o.Serve scope k) {d : DataSet} {i : RowIterator} (hi : d.Opens i)
    (hdepth : i.depth ≤ k) : (o.inside d i).Serve (.ofDataSet d scope) (k + 3) where
  here name out hout := by
    rcases Scope.valueEntry_inside hout with
      ⟨hthis, rfl⟩ | ⟨hthis, hcomponent, hm⟩ | ⟨hthis, hcomponent, houtside⟩
    · simp only [Openings.inside, hthis, if_true]
      refine ⟨⟨i, rfl⟩, ?_⟩
      rintro j rfl
      exact ⟨hi, hdepth.trans (Nat.le_add_right k 3)⟩
    · obtain ⟨target, htarget, hm⟩ := bind_eq_ok.1 hm
      obtain ⟨member, hmember, hm⟩ := bind_eq_ok.1 hm
      cases hm
      simp only [Openings.inside, hthis, hcomponent, if_true, Bool.false_eq_true, if_false]
      refine ⟨⟨_, target, member, htarget, hmember, rfl⟩, ?_⟩
      rintro j ⟨target', member', htarget', hmember', rfl⟩
      cases htarget.symm.trans htarget'
      cases hmember.symm.trans hmember'
      exact ⟨hi.mapRows, Nat.add_le_add_right hdepth 3⟩
    · simp only [Openings.inside, hthis, hcomponent, Bool.false_eq_true, if_false]
      exact h.here.mono (Nat.le_add_right k 3) name out houtside
  atRoot := h.atRoot.mono (Nat.le_add_right k 3)

end Serve

end Openings

/-! ## Expressions -/

/-- The iterator that the streams of an expression start with.  It is what the names in the
expression give, with what each node does to the rows of its operand wrapped around it; a rule
starts again at the root, and the body of a bracket goes on inside of it. -/
inductive Expr.Opens : Expr → Scope → Openings → RowIterator → Prop where
  | found {name : String} {scope : Scope} {o : Openings} {d : DataSet} {i : RowIterator} :
      scope.valueEntry name = .ok (.found (.dataset d)) → o.here name i →
      Opens (.var name) scope o i
  | rule {name : String} {scope : Scope} {o : Openings} {s : Statement} {i : RowIterator} :
      scope.valueEntry name = .ok (.rule s) → Opens s.expr scope.root o.root i →
      Opens (.var name) scope o i
  | rowWise {e x : Expr} {scope : Scope} {o : Openings} {d : DataSet} {step : RowStep}
      {target : Schema} {i : RowIterator} :
      x ∈ e.sources → x.eval scope = .ok (.dataset d) → Opens x scope o i →
      e.RowWise scope d step target → e.eval scope = .ok (.dataset (step.dataSet d target)) →
      Opens e scope o (.untilError (.opening (step.iterator i)))
  | gathers {e x : Expr} {scope : Scope} {o : Openings} {d : DataSet}
      {groups : Except EvalError (List Group)} {cut : List Row → List Group}
      {process : Group → Except EvalError (List Row)} {target : Schema} {i : RowIterator} :
      x ∈ e.sources → x.eval scope = .ok (.dataset d) → Opens x scope o i →
      e.Gathers scope d groups process target → groups = d.collect.map cut →
      e.eval scope = .ok (.dataset (.derived target fun _ =>
        .ofResult (groups >>= fun groups => List.flatten <$> groups.mapM process))) →
      Opens e scope o
        (.untilError (.gathering [] i fun rows => List.flatten <$> (cut rows).mapM process))
  | within {x body : Expr} {scope : Scope} {o : Openings} {d : DataSet} {i j : RowIterator} :
      x.eval scope = .ok (.dataset d) → Opens x scope o i →
      Opens body (.ofDataSet d scope) (o.inside d i) j → Opens (.within x body) scope o j

/-- The depth of iterators that so many steps within one another add. -/
def addedDepth (n : Nat) : Nat := 3 * (2 ^ n - 1)

theorem addedDepth_succ (n : Nat) : addedDepth (n + 1) = 2 * addedDepth n + 3 := by
  have hpos := Nat.two_pow_pos n
  unfold addedDepth
  rw [Nat.pow_succ]
  omega

theorem RowStep.depth_iterator (step : RowStep) (i : RowIterator) :
    (step.iterator i).depth = i.depth + 1 := by
  cases step <;> rfl

namespace Expr

variable {w : Workspace} {rank : Statement → Nat} {n depth k : Nat} {e : Expr} {scope : Scope}
  {o : Openings} {d : DataSet} {i : RowIterator}

theorem RowWise.exists_source {step : RowStep} {target : Schema}
    (h : e.RowWise scope d step target) : ∃ x ∈ e.sources, x.eval scope = .ok (.dataset d) := by
  cases h with
  | unary hx _ | member hx _ _ | filter hx | keep hx _ | drop hx _ | compute hx _ _
  | binaryLeft hx _ _ => exact ⟨_, List.mem_cons_self, hx⟩
  | binaryRight _ hx _ => exact ⟨_, List.mem_cons_of_mem _ List.mem_cons_self, hx⟩

theorem Gathers.exists_source {groups : Except EvalError (List Group)}
    {process : Group → Except EvalError (List Row)} {target : Schema}
    (h : e.Gathers scope d groups process target) :
    ∃ x ∈ e.sources, x.eval scope = .ok (.dataset d) := by
  cases h with
  | shift hx _ | analytic hx _ _ | aggregate hx _ _ => exact ⟨_, List.mem_cons_self, hx⟩

theorem eval_within_eq_ok {x body : Expr} {v : Value} (h : (within x body).eval scope = .ok v) :
    ∃ d, x.eval scope = .ok (.dataset d) ∧ body.eval (.ofDataSet d scope) = .ok v := by
  obtain ⟨u, hu, h⟩ := bind_eq_ok.1 h
  obtain ⟨d, hd, h⟩ := bind_eq_ok.1 h
  cases Value.asDataSet_eq_ok.1 hd
  exact ⟨d, hu, h⟩

theorem eval_var_of_found {name : String} {v : Value}
    (h : scope.valueEntry name = .ok (.found v)) : (var name).eval scope = .ok v := by
  rw [eval, evalWith, h]
  rfl

/-- It is an iterator of the dataset, and every step of evaluation has wrapped a few more around
those of its operand.  A bracket does what its body does on top of what its operand does. -/
theorem Opens.bounded (hw : w.Ranked rank) (hscope : scope.workspace = w)
    (h : w.Affords rank e n depth) (ho : o.Serve scope k) (hi : e.Opens scope o i)
    (hd : e.eval scope = .ok (.dataset d)) : d.Opens i ∧ i.depth ≤ k + addedDepth n := by
  induction n generalizing e scope o i d depth k with
  | zero => exact absurd rfl h.pos
  | succ n ih =>
    rw [addedDepth_succ]
    cases hi with
    | found hentry hi =>
      cases Except.ok.inj (hd.symm.trans (eval_var_of_found hentry))
      obtain ⟨hopens, hdepth⟩ := (ho.here _ _ hentry).2 i hi
      exact ⟨hopens, by omega⟩
    | rule hentry hi =>
      obtain ⟨depth', -, hs⟩ := h.rule hw (hscope ▸ Scope.rule?_of_valueEntry hentry)
      rw [eval_var_of_rule hw hscope hentry] at hd
      obtain ⟨hopens, hdepth⟩ := ih (scope.workspace_root.trans hscope) hs ho.root hi hd
      exact ⟨hopens, by omega⟩
    | rowWise hx hxd hi hstep hout =>
      cases Except.ok.inj (hd.symm.trans hout)
      obtain ⟨hopens, hdepth⟩ := ih hscope (h.operand (e.sources_subset hx)) ho hi hxd
      refine ⟨RowStep.opens _ hopens _, ?_⟩
      simp only [RowIterator.depth, RowStep.depth_iterator]
      omega
    | gathers hx hxd hi hgathers hcut hout =>
      cases Except.ok.inj (hd.symm.trans hout)
      obtain ⟨hopens, hdepth⟩ := ih hscope (h.operand (e.sources_subset hx)) ho hi hxd
      refine ⟨hopens.groups hcut, ?_⟩
      simp only [RowIterator.depth]
      omega
    | @within x body _ _ d' i' _ hxd hi hj =>
      obtain ⟨d'', hxd', hbody⟩ := eval_within_eq_ok hd
      cases hxd.symm.trans hxd'
      obtain ⟨hopens, hdepth⟩ := ih hscope (h.operand List.mem_cons_self) ho hi hxd
      have hinside := (ho.mono (Nat.le_add_right k _)).inside hopens hdepth
      have hworkspace : (Scope.ofDataSet d' scope).workspace = w := hscope
      have hafford := h.operand (List.mem_cons_of_mem x List.mem_cons_self)
      obtain ⟨hopens', hdepth'⟩ := ih hworkspace hafford hinside hj hbody
      exact ⟨hopens', by omega⟩

/-- There is an iterator wherever there is a dataset. -/
theorem exists_opens (hw : w.Ranked rank) (hscope : scope.workspace = w)
    (h : w.Affords rank e n depth) (ho : o.Serve scope k) (hd : e.eval scope = .ok (.dataset d)) :
    ∃ i, e.Opens scope o i := by
  induction n generalizing e scope o d depth k with
  | zero => exact absurd rfl h.pos
  | succ n ih =>
    have hsource {x : Expr} {d : DataSet} (hx : x ∈ e.sources)
        (hd : x.eval scope = .ok (.dataset d)) : ∃ i, x.Opens scope o i :=
      ih hscope (h.operand (e.sources_subset hx)) ho hd
    cases e with
    | constant v => nomatch hd
    | var name =>
      obtain ⟨entry, hentry, hv⟩ := bind_eq_ok.1 hd
      cases entry with
      | found v =>
        cases hv
        obtain ⟨i, hi⟩ := (ho.here name d hentry).1
        exact ⟨i, .found hentry hi⟩
      | rule s =>
        obtain ⟨depth', -, hs⟩ := h.rule hw (hscope ▸ Scope.rule?_of_valueEntry hentry)
        rw [eval_var_of_rule hw hscope hentry] at hd
        obtain ⟨i, hi⟩ := ih (scope.workspace_root.trans hscope) hs ho.root hd
        exact ⟨i, .rule hentry hi⟩
    | within x body =>
      obtain ⟨d', hx, hbody⟩ := eval_within_eq_ok hd
      obtain ⟨i, hi⟩ := hsource List.mem_cons_self hx
      have hopened := hi.bounded hw hscope (h.operand List.mem_cons_self) ho hx
      have hinside := (ho.mono (Nat.le_add_right k _)).inside hopened.1 hopened.2
      have hworkspace : (Scope.ofDataSet d' scope).workspace = w := hscope
      have hafford := h.operand (List.mem_cons_of_mem x List.mem_cons_self)
      obtain ⟨j, hj⟩ := ih hworkspace hafford hinside hbody
      exact ⟨j, .within hx hi hj⟩
    | unary _ _ | binary _ _ _ | member _ _ | filter _ _ | keep _ _ | drop _ _ | compute _ _ _ =>
      obtain ⟨d', step, target, hstep, rfl⟩ := exists_rowWise rfl hd
      obtain ⟨x, hx, hxd⟩ := hstep.exists_source
      obtain ⟨i, hi⟩ := hsource hx hxd
      exact ⟨_, .rowWise hx hxd hi hstep hd⟩
    | shift _ _ _ _ _ | aggregate _ _ _ | analytic _ _ _ =>
      obtain ⟨d', groups, process, target, cut, hgathers, hcut, rfl⟩ := exists_gathers rfl hd
      obtain ⟨x, hx, hxd⟩ := hgathers.exists_source
      obtain ⟨i, hi⟩ := hsource hx hxd
      exact ⟨_, .gathers hx hxd hi hgathers hcut hd⟩

end Expr

/-- Where the rules can be ranked, every expression is typed and evaluated within as many steps as
it and the expressions of all rules are high together: whatever is done beyond makes no difference,
neither to the result nor to the clauses that are evaluated for its rows.  For a resulting dataset
evaluation puts an iterator together, and any that it can put together yields this dataset and can
be pulled any number of times.  The iterators within one another are no more than a number that only
depends on these heights, on top of those of the datasets that were there already. -/
theorem ranked_rules_terminate {w : Workspace} {rank : Statement → Nat} (hw : w.Ranked rank)
    {scope : Scope} (hscope : scope.workspace = w) (e : Expr) (cut : Meaning) {n : Nat}
    (hn : e.height + w.height ≤ n) :
    (cut.within n).shape e scope = e.shape? scope ∧
      (cut.within n).value e scope = e.eval scope ∧
      ∀ (k : Nat) (o : Openings) (d : DataSet), o.Serve scope k →
        e.eval scope = .ok (.dataset d) →
        (∃ i, e.Opens scope o i) ∧
        ∀ i, e.Opens scope o i → d.Opens i ∧ i.depth ≤ k + addedDepth n ∧
          ∀ count, ∃ answers j, i.Pulls answers j ∧ answers.length = count ∧
            j.depth ≤ i.depth := by
  obtain ⟨hshape, hvalue⟩ := within_eq hw cut hscope hn
  have hafford : w.Affords rank e n w.size := .all hn le_rfl
  refine ⟨hshape, hvalue, fun k o d ho hd => ⟨e.exists_opens hw hscope hafford ho hd, ?_⟩⟩
  intro i hi
  obtain ⟨hopens, hdepth⟩ := hi.bounded hw hscope hafford ho hd
  refine ⟨hopens, hdepth, fun count => ?_⟩
  obtain ⟨answers, j, hpulls, hlength⟩ := i.exists_pulls count
  exact ⟨answers, j, hpulls, hlength, hpulls.depth_le⟩

/-- The meaning that refuses every expression. -/
def Meaning.refusing : Meaning :=
  ⟨fun e _ => .error (.unboundName e.text), fun e _ => .error (.unboundName e.text)⟩

/-- Three rules: two constants, and a filter that refers to both of them. -/
def filterRules : Workspace :=
  ((Workspace.empty.add ⟨"ds", .constant (.integer 0)⟩).add ⟨"limit", .constant (.integer 1)⟩).add
    ⟨"big", .filter (.var "ds") (.binary .ge (.var "m") (.var "limit"))⟩

/-- The filter is above the constants. -/
def filterRank (s : Statement) : Nat := if s.name = "big" then 1 else 0

theorem ranked_filterRules : filterRules.Ranked filterRank := by
  intro name s hs x t hx ht
  have hmem : s ∈ filterRules.rules.values := Bindings.mem_values_of_get? hs
  have hconstant {v : Scalar} (h : (Expr.constant v).Has (.var x)) : False :=
    nomatch h.eq_of_leaf rfl
  have hvar {z : String} (h : (Expr.var z).Has (.var x)) : x = z :=
    Expr.var.inj (h.eq_of_leaf rfl)
  rcases List.mem_cons.1 hmem with rfl | hmem
  · exact (hconstant hx).elim
  rcases List.mem_cons.1 hmem with rfl | hmem
  · exact (hconstant hx).elim
  rw [List.mem_singleton.1 hmem] at hx ⊢
  obtain h | ⟨y, hy, hx⟩ := Expr.has_iff.1 hx
  · nomatch h
  rcases List.mem_cons.1 hy with rfl | hy
  · cases hvar hx
    cases Option.some.inj ht
    decide
  rw [List.mem_singleton.1 hy] at hx
  obtain h | ⟨y, hy, hx⟩ := Expr.has_iff.1 hx
  · nomatch h
  rcases List.mem_cons.1 hy with rfl | hy
  · cases hvar hx
    nomatch ht
  · rw [List.mem_singleton.1 hy] at hx
    cases hvar hx
    cases Option.some.inj ht
    decide

/-- The scope in which a dataset is bound under the name of one of the constants. -/
def filterScope : Scope := .engine ⟨[("ds", .dataset keyedDataSet)]⟩ filterRules

/-- The rows of the dataset. -/
def keyedOpenings : Openings where
  here _ i := i = .rows keyedDataSet.stream.rows
  atRoot _ i := i = .rows keyedDataSet.stream.rows

/-- A condition that refers to a rule is evaluated for each row of a dataset with the name of
another one: six steps within one another are enough.  The iterator is the one that filters the
rows. -/
theorem ranked_rules_terminate_filterRules :
    filterRules.Ranked filterRank ∧ filterScope.workspace = filterRules ∧
      (Expr.var "big").height + filterRules.height ≤ 6 ∧
      ∃ d, (Expr.var "big").eval filterScope = .ok (.dataset d) ∧
        (Meaning.refusing.within 6).value (.var "big") filterScope = .ok (.dataset d) ∧
        keyedOpenings.Serve filterScope 1 ∧
        ∃ i p, i = .untilError (.opening (.filtered p (.rows keyedDataSet.stream.rows))) ∧
          (Expr.var "big").Opens filterScope keyedOpenings i ∧ d.Opens i ∧
            i.depth ≤ 1 + addedDepth 6 := by
  have hn : (Expr.var "big").height + filterRules.height ≤ 6 := by decide
  have hserve : keyedOpenings.Serve filterScope 1 := by
    refine Openings.serve_engine fun name d hd => ?_
    cases List.mem_singleton.1 (Bindings.mem_values_of_find? hd)
    refine ⟨⟨_, rfl⟩, ?_⟩
    rintro i rfl
    exact ⟨.given, le_rfl⟩
  have hopens : (Expr.var "big").Opens filterScope keyedOpenings _ :=
    .rule rfl (.rowWise List.mem_cons_self rfl (.found rfl rfl) (.filter rfl) rfl)
  have hworkspace : filterScope.workspace = filterRules := rfl
  obtain ⟨-, hvalue, hpull⟩ :=
    ranked_rules_terminate ranked_filterRules hworkspace (.var "big") .refusing hn
  obtain ⟨hd, hdepth, -⟩ := (hpull 1 keyedOpenings _ hserve rfl).2 _ hopens
  exact ⟨ranked_filterRules, rfl, hn, _, rfl, hvalue, hserve, _, _, rfl, hopens, hd, hdepth⟩

end DataCube
