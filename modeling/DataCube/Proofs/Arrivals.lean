import DataCube.Proofs.Windows

/-!
# The order in which rows arrive

A window sorts, so where its sort keys leave no choice it does not matter how the rows of a dataset
are arranged.  The groups of two arrangements correspond: their keys are equal as values, though the
first row with the key, which gives it, may be another one.  Their rows, once sorted, are the same
lists, and what is made of a partition is made of the list of its rows alone.

* `forall₂_of_ascending`: two strictly ascending lists with the same members up to equal keys.
* `Grouped.perm`: the groups of two arrangements.
* `Window.TieFree`: the sort keys tell the rows of every partition apart.
* `Window.sortRows_eq`, `Window.perPartition_perm`: the sorted partitions of two arrangements.
* `Expr.window?`: the expressions that work on a window.
* `windows_ignore_arrival`: they give the same rows for every arrangement.
-/

namespace DataCube

/-! ## Ascending lists -/

/-- Lists in strictly ascending order that have the same keys, up to equality under the order,
correspond member by member. -/
theorem forall₂_of_ascending {α κ : Type} {cmp : κ → κ → Ordering} [Std.TransCmp cmp] {key : α → κ}
    {xs ys : List α} (hxs : xs.Pairwise fun a b => cmp (key a) (key b) = .lt)
    (hys : ys.Pairwise fun a b => cmp (key a) (key b) = .lt)
    (hleft : ∀ x ∈ xs, ∃ y ∈ ys, cmp (key x) (key y) = .eq)
    (hright : ∀ y ∈ ys, ∃ x ∈ xs, cmp (key x) (key y) = .eq) :
    List.Forall₂ (fun x y => cmp (key x) (key y) = .eq) xs ys := by
  induction xs generalizing ys with
  | nil =>
    cases ys with
    | nil => exact .nil
    | cons y ys =>
      obtain ⟨x, hx, -⟩ := hright y List.mem_cons_self
      nomatch hx
  | cons x xs ih =>
    cases ys with
    | nil =>
      obtain ⟨y, hy, -⟩ := hleft x List.mem_cons_self
      nomatch hy
    | cons y ys =>
      obtain ⟨hx, hxs⟩ := List.pairwise_cons.1 hxs
      obtain ⟨hy, hys⟩ := List.pairwise_cons.1 hys
      -- the first members are the least, so neither can have its partner further back
      have hfirst : cmp (key x) (key y) = .eq := by
        obtain ⟨y', hy', hxy'⟩ := hleft x List.mem_cons_self
        obtain ⟨x', hx', hx'y⟩ := hright y List.mem_cons_self
        rcases List.mem_cons.1 hy' with rfl | hy'
        · exact hxy'
        rcases List.mem_cons.1 hx' with rfl | hx'
        · exact hx'y
        have hlt : cmp (key x) (key y') = .lt :=
          Std.TransCmp.lt_trans (Std.TransCmp.lt_of_lt_of_eq (hx x' hx') hx'y) (hy y' hy')
        rw [hxy'] at hlt
        nomatch hlt
      refine .cons hfirst (ih hxs hys (fun x' hx' => ?_) fun y' hy' => ?_)
      · obtain ⟨y', hy', hx'y'⟩ := hleft x' (List.mem_cons_of_mem x hx')
        rcases List.mem_cons.1 hy' with rfl | hy'
        · have heq : cmp (key x) (key x') = .eq :=
            Std.TransCmp.eq_trans hfirst (Std.OrientedCmp.eq_symm hx'y')
          rw [hx x' hx'] at heq
          nomatch heq
        · exact ⟨y', hy', hx'y'⟩
      · obtain ⟨x', hx', hx'y'⟩ := hright y' (List.mem_cons_of_mem y hy')
        rcases List.mem_cons.1 hx' with rfl | hx'
        · have heq : cmp (key y) (key y') = .eq :=
            Std.TransCmp.eq_trans (Std.OrientedCmp.eq_symm hfirst) hx'y'
          rw [hy y' hy'] at heq
          nomatch heq
        · exact ⟨x', hx', hx'y'⟩

/-! ## Groups -/

open Scalar (orderLists orderLists_symm)

namespace Grouped

variable {positions : List Nat} {rows rows' : List Row} {groups groups' : List Group}

/-- Each group of an arrangement has a partner in those of every other one. -/
theorem exists_partner (h : Grouped positions rows groups) (h' : Grouped positions rows' groups')
    (hperm : rows'.Perm rows) {g : Group} (hg : g ∈ groups) :
    ∃ g' ∈ groups', orderLists g.key g'.key = .eq := by
  obtain ⟨first, rest, hfirst, hkey⟩ := h.first g hg
  have hmem : first ∈ g.rows := by
    rw [hfirst]
    exact List.mem_cons_self
  rw [h.rows_eq g hg] at hmem
  rw [hkey]
  exact h'.covers first (hperm.mem_iff.2 (List.mem_of_mem_filter hmem))

/-- The groups of two arrangements correspond, and have the same rows in them. -/
theorem perm (h : Grouped positions rows groups) (h' : Grouped positions rows' groups')
    (hperm : rows'.Perm rows) :
    List.Forall₂ (fun g g' => g'.rows.Perm g.rows) groups groups' := by
  have hkeys : List.Forall₂ (fun g g' => orderLists g.key g'.key = .eq) groups groups' := by
    refine forall₂_of_ascending h.ascending h'.ascending
      (fun g hg => h.exists_partner h' hperm hg) fun g' hg' => ?_
    obtain ⟨g, hg, hkey⟩ := h'.exists_partner h hperm.symm hg'
    exact ⟨g, hg, orderLists_symm hkey⟩
  refine (forall₂_mem hkeys).imp fun g g' ⟨hkey, hg, hg'⟩ => ?_
  rw [h.rows_eq g hg, h'.rows_eq g' hg',
    Scalar.filter_orderLists_congr (fun r : Row => r.key positions) rows hkey]
  exact hperm.filter _

end Grouped

/-! ## Partitions -/

namespace Window

variable {w : Window} {d d' : DataSet} {rows rows' : List Row}

/-- No two rows of a partition compare equal under the sort keys. -/
def TieFree (w : Window) (d : DataSet) : Prop :=
  ∀ groups, w.partitions d = .ok groups →
    ∀ g ∈ groups, g.rows.Pairwise fun a b => w.order a b ≠ .eq

/-- Rows that the sort keys tell apart are sorted in one way only. -/
theorem sortRows_eq (hperm : rows'.Perm rows)
    (hties : (w.sortRows rows).Pairwise fun a b => w.order a b ≠ .eq) :
    w.sortRows rows' = w.sortRows rows := by
  have hsorted := w.stableSort_sortRows rows
  have hsorted' := w.stableSort_sortRows rows'
  have hsame : (w.sortRows rows').Perm (w.sortRows rows) :=
    (hsorted'.perm.trans hperm).trans hsorted.perm.symm
  have hsymm : Std.Symm fun a b : Row => w.order a b ≠ .eq :=
    ⟨fun _ _ hne heq => hne (Std.OrientedCmp.eq_symm heq)⟩
  refine hsame.eq_of_pairwise (fun a b ha hb hab hba => ?_) hsorted'.ascending hsorted.ascending
  -- rows that are in order both ways compare equal, so they are one and the same
  have heq : w.order a b = .eq := by
    have hswap : w.order a b = (w.order b a).swap := Std.OrientedCmp.eq_swap
    rw [hswap] at hab ⊢
    cases hc : w.order b a with
    | lt => rw [hc] at hab; cases hab
    | eq => rfl
    | gt => rw [hc] at hba; cases hba
  by_contra hne
  exact hties.forall (hsame.mem_iff.1 ha) hb hne heq

/-- What is made of partitions is made of the lists of their rows. -/
theorem perPartition_eq_mapM (groups : List Group)
    (process : List Row → Except EvalError (List Row)) :
    perPartition groups process = List.flatten <$> (groups.map Group.rows).mapM process := by
  rw [List.mapM_map]
  rfl

theorem keyPositions_eq (hschema : d'.schema = d.schema) (keys : List Component) :
    d'.keyPositions keys = d.keyPositions keys := by
  unfold DataSet.keyPositions
  rw [hschema]

/-- The sorted partitions of two arrangements have the same rows in the same order, so the same is
made of them. -/
theorem perPartition_perm {spec : WindowSpec} {defaults : WindowDefaults}
    (hw : resolve? d.schema spec defaults = .ok w) (hschema : d'.schema = d.schema)
    (hrows : d.collect = .ok rows) (hrows' : d'.collect = .ok rows') (hperm : rows'.Perm rows)
    (hties : w.TieFree d) (process : List Row → Except EvalError (List Row)) :
    (do perPartition (← w.partitions d') process) =
      (do perPartition (← w.partitions d) process) := by
  obtain ⟨positions, hpositions, -⟩ := keyPositions_eq_ok (resolve?_eq_ok hw).1
  have hpositions' := (keyPositions_eq hschema w.partition).trans hpositions
  have hgroups := (grouped_ofRows positions rows).perm (grouped_ofRows positions rows') hperm
  have hties := hties _ (partitions_eq_ok hpositions hrows)
  rw [partitions_eq_ok hpositions hrows, partitions_eq_ok hpositions' hrows', ok_bind, ok_bind,
    perPartition_eq_mapM, perPartition_eq_mapM, List.map_map, List.map_map]
  congr 2
  refine (map_eq_map_of_forall₂ (forall₂_mem hgroups) fun g g' ⟨hg', hg, _⟩ => ?_).symm
  exact (sortRows_eq hg' (hties _ (List.mem_map_of_mem hg))).symm

end Window

/-! ## Expressions -/

/-- The operand and the window of an expression that works on one. -/
def Expr.window? : Expr → Option (Expr × WindowSpec × WindowDefaults)
  | shift _ x _ _ window => some (x, window, .identifiers)
  | analytic _ x window => some (x, window, .whole)
  | _ => none

variable {e x : Expr} {spec : WindowSpec} {defaults : WindowDefaults}

/-- An expression on a window makes a dataset of the partitions of its operand, in a way that
depends on schemas alone. -/
theorem eval_window (he : e.window? = some (x, spec, defaults)) :
    ∃ (target : Schema → Except EvalError Schema)
      (process : Window → Schema → Schema → List Row → Except EvalError (List Row)),
      ∀ scope d, x.eval scope = .ok (.dataset d) →
        e.eval scope = (do
          let made ← target d.schema
          let w ← Window.resolve? d.schema spec defaults
          pure (.dataset (.derived made fun _ => .ofResult do
            Window.perPartition (← w.partitions d) (process w d.schema made)))) := by
  cases e with
  | shift direction x offset default window =>
    cases he
    refine ⟨.ok, fun w schema _ => direction.partition offset default schema
      (Expr.shift direction x offset default spec).text, fun scope d hx => ?_⟩
    show (x.eval scope >>= _) = _
    rw [hx]
    rfl
  | analytic r x window =>
    cases he
    refine ⟨fun schema => r.outputSchema schema spec, fun w schema made =>
      r.partition w.isOrdered schema.measures made (Expr.analytic r x spec).text,
      fun scope d hx => ?_⟩
    show (x.eval scope >>= _) = _
    rw [hx]
    rfl
  | constant _ | var _ | unary _ _ | binary _ _ _ | member _ _ | filter _ _ | keep _ _ | drop _ _
  | compute _ _ _ | within _ _ | aggregate _ _ _ => nomatch he

/-- Where the sort keys tell the rows of every partition apart, a windowed expression gives the same
rows in the same order, values and lineages included, for every arrangement of the rows of its
operand, and it drains for one arrangement if it does for another. -/
theorem windows_ignore_arrival {scope scope' : Scope} {d d' : DataSet} {rows rows' : List Row}
    (he : e.window? = some (x, spec, defaults))
    (hx : x.eval scope = .ok (.dataset d)) (hx' : x.eval scope' = .ok (.dataset d'))
    (hschema : d'.schema = d.schema) (hrows : d.collect = .ok rows)
    (hrows' : d'.collect = .ok rows') (hperm : rows'.Perm rows)
    (hties : ∀ w, Window.resolve? d.schema spec defaults = .ok w → w.TieFree d)
    (target : Schema) (made : List Row) :
    (∃ out, e.eval scope = .ok (.dataset out) ∧ out.schema = target ∧ out.collect = .ok made) ↔
      ∃ out, e.eval scope' = .ok (.dataset out) ∧ out.schema = target ∧ out.collect = .ok made := by
  obtain ⟨schemaOf, process, heval⟩ := eval_window he
  have hsame : e.eval scope' = e.eval scope := by
    rw [heval scope d hx, heval scope' d' hx', hschema]
    refine bind_congr fun made => ?_
    cases hw : Window.resolve? d.schema spec defaults with
    | error err => rfl
    | ok w =>
      rw [ok_bind, ok_bind,
        Window.perPartition_perm hw hschema hrows hrows' hperm (hties w hw)]
  rw [hsame]

/-- The first measure from the greatest one on, among the rows with the key of a row. -/
def firstOfZeros : Expr := .analytic .firstValue (.var "ds") ⟨["k"], [⟨"m", .desc⟩]⟩

/-- The scope in which a dataset of the given rows is bound. -/
def arrangement (rows : List Row) : Scope :=
  .engine ⟨[("ds", .dataset (.ofRows numberKeyed rows))]⟩ .empty

/-- What that gives, for any arrangement of the rows. -/
def firstsOfZeros : List Row :=
  [⟨numberKeyed, [.number 0, .integer 3], .node firstOfZeros.text [.known "ds"]⟩,
    ⟨numberKeyed, [.number (-0), .integer 3], .node firstOfZeros.text [.known "ds"]⟩,
    ⟨numberKeyed, [.number 1, .integer 2], .node firstOfZeros.text [.known "ds"]⟩]

theorem windows_ignore_arrival_zeros :
    zerosAndOne.reverse.Perm zerosAndOne ∧
      ∃ out out', firstOfZeros.eval (arrangement zerosAndOne) = .ok (.dataset out) ∧
        firstOfZeros.eval (arrangement zerosAndOne.reverse) = .ok (.dataset out') ∧
          out.collect = .ok firstsOfZeros ∧ out'.collect = .ok firstsOfZeros := by
  have hperm : zerosAndOne.reverse.Perm zerosAndOne := zerosAndOne.reverse_perm
  have hpartitions : Window.partitions ⟨[⟨"k", .identifier, .number⟩], [(1, .desc)]⟩
      (.ofRows numberKeyed zerosAndOne) = .ok
        [⟨[.number (-0)], [⟨numberKeyed, [.number 0, .integer 3], .known "ds"⟩,
          ⟨numberKeyed, [.number (-0), .integer 1], .known "ds"⟩]⟩,
        ⟨[.number 1], [⟨numberKeyed, [.number 1, .integer 2], .known "ds"⟩]⟩] := by
    rw [Window.partitions, @DataSet.groupBy_of_ascending (.ofRows numberKeyed zerosAndOne) _ [0] _
      rfl rfl (by decide) (by decide)]
    show Except.ok [Group.mk _ (Window.sortRows _ [_, _]), Group.mk _ (Window.sortRows _ [_])] = _
    rw [Window.sortRows_pair (by decide), Window.sortRows_of_pairwise (List.pairwise_singleton _ _)]
    rfl
  have hties : ∀ w, Window.resolve? numberKeyed ⟨["k"], [⟨"m", .desc⟩]⟩ .whole = .ok w →
      w.TieFree (.ofRows numberKeyed zerosAndOne) := by
    intro w hw groups hgroups
    cases hw
    cases hpartitions.symm.trans hgroups
    decide
  obtain ⟨out, hout, hcollect⟩ : ∃ out, firstOfZeros.eval (arrangement zerosAndOne) =
      .ok (.dataset out) ∧ out.collect = .ok firstsOfZeros :=
    ⟨_, rfl, (RowStream.collect_ofResult _).trans (bind_eq_ok.2 ⟨_, hpartitions, rfl⟩)⟩
  have hbound : ∀ rows, (Expr.var "ds").eval (arrangement rows) =
      .ok (.dataset (.ofRows numberKeyed rows)) := fun _ => rfl
  obtain ⟨out', hout', -, hcollect'⟩ :=
    (windows_ignore_arrival rfl (hbound zerosAndOne) (hbound zerosAndOne.reverse) rfl rfl rfl hperm
      hties out.schema firstsOfZeros).1 ⟨out, hout, rfl, hcollect⟩
  exact ⟨hperm, out, out', hout, hout', hcollect, hcollect'⟩

end DataCube
