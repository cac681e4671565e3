import DataCube.Proofs.Narrowing
import DataCube.Proofs.Typing.Preservation

/-!
# Defaults that typing rejects

Typing rejects a shift if its default is not assignable to the domain of some measure.  Evaluation
does not ask for that: it casts the default where a row has to be filled with it, and fails if the
cast does.  What is not assignable cannot be cast either, but for two kinds of default, nulls that
are tagged with another domain, and whole numbers where integers are asked for.

The type of the operand may say less of its measures than evaluation finds.  It never says less
about what is not assignable.

* `Scope.Proper`: all the scopes there are, those without data among them.
* `Scalar.Narrows`: the values that are cast without being assignable.
* `Shift.DrainsUnfilled`: a shift yields an error alone, or only rows with the measures of rows.
* `rejected_defaults`: a default that is rejected does not reach the data.
* `rejected_defaults_narrow`: but it may do so if it narrows.
-/

namespace DataCube

/-! ## Scopes -/

/-- The scopes there are.  The values at the root are well formed, if there are any, and so are the
rows and datasets around; of these the schema alone may be known. -/
inductive Scope.Proper : Scope → Prop where
  | engine {values : Bindings Value} {workspace : Workspace} :
      (∀ v ∈ values.values, v.WellFormed) → Proper (.engine values workspace)
  | compile (shapes : Bindings Shape) (workspace : Workspace) :
      Proper (.compile shapes workspace)
  | row {r : Row} {parent : Scope} : r.WellFormed → Proper parent → Proper (.ofRow r parent)
  | rowSchema (s : Schema) {parent : Scope} : Proper parent → Proper (.row s none parent)
  | this {d : DataSet} {parent : Scope} :
      d.WellFormed → Proper parent → Proper (.ofDataSet d parent)
  | thisSchema (s : Schema) {parent : Scope} : Proper parent → Proper (.this s none parent)

namespace Scope.Proper

variable {a : Scope}

theorem root (h : a.Proper) : a.root.Proper := by
  induction h with
  | engine hvalues => exact .engine hvalues
  | compile shapes workspace => exact .compile shapes workspace
  | row _ _ ih => exact ih
  | rowSchema _ _ ih => exact ih
  | this _ _ ih => exact ih
  | thisSchema _ _ ih => exact ih

/-- What is not there has no value that typing could be wrong about. -/
theorem typed (h : a.Proper) : a.Typed .gradual a := by
  induction h with
  | engine _ => exact typed_engine .gradual _ _
  | compile _ _ => exact ⟨fun _ => rfl, rfl, fun _ _ _ _ hv => nomatch hv⟩
  | row hr _ _ => exact typed_row (p := .gradual) hr _
  | rowSchema _ _ _ => exact ⟨fun _ => rfl, rfl, fun _ _ _ _ hv => nomatch hv⟩
  | this _ _ ih => exact ih.this (Schema.rel_refl (fun _ => Or.inl rfl) _)
  | thisSchema s _ ih =>
    refine ⟨fun _ => rfl, rfl, fun name m v hm hv => ?_⟩
    unfold Scope.resolve at hv
    split at hv
    · rename_i houter
      simp only [Bool.and_eq_true, Bool.not_eq_true', Option.isNone_iff_eq_none] at houter
      simp only [describe, houter.1, houter.2, Option.isSome_none, Bool.false_eq_true,
        if_false] at hm
      exact ih.resolve name m v hm hv
    · cases hv

/-- What a name stands for is well formed. -/
theorem yields (h : a.Proper) : a.Yields DataSet.WellFormed := by
  have hinvariant := DataSet.invariant_wellFormed
  induction h with
  | @engine values workspace hvalues =>
    exact hinvariant.yields (Scope.WellFormed.engine hvalues).holds
  | compile _ _ => exact fun _ _ hv => nomatch hv
  | @row r parent hr _ _ =>
    -- within a row the parent plays no part
    have hrow : (Scope.ofRow r (.compile ⟨[]⟩ .empty)).Yields DataSet.WellFormed :=
      hinvariant.yields (Scope.WellFormed.row hr (.compile _ _)).holds
    exact hrow
  | rowSchema _ _ _ => exact fun _ _ hv => nomatch hv
  | this hd _ ih => exact hinvariant.yields_this hd ih
  | thisSchema s _ ih =>
    intro name v hv
    unfold Scope.resolve at hv
    split at hv
    · exact ih name v hv
    · cases hv

end Scope.Proper

/-! ## Casts -/

/-- The value is cast to the domain whether or not it is assignable to it. -/
def Scalar.Narrows (v : Scalar) (d : Domain) : Prop :=
  match v with
  | .null _ => True
  | .number x => d = .integer ∧ x.isIntegral = true
  | _ => False

namespace Scalar

variable {v w : Scalar} {d : Domain}

/-- What is cast without being assignable is a null, or a whole number that becomes an integer. -/
theorem narrows_of_cast (hrefused : d.accepts v.domain = false) (h : v.cast d = .ok w) :
    v.Narrows d := by
  cases v with
  | null _ => trivial
  | number x =>
    cases d with
    | integer =>
      by_cases hintegral : x.isIntegral = true
      · exact ⟨rfl, hintegral⟩
      · simp [cast, hintegral] at h
    | number | unknown => cases hrefused
    | null | boolean | string => simp [cast, domain] at h
  | integer i =>
    cases d with
    | integer | number | unknown => cases hrefused
    | null | boolean | string => simp [cast, domain] at h
  | string _ =>
    cases d with
    | string | unknown => cases hrefused
    | null | boolean | integer | number => simp [cast, domain] at h
  | boolean _ =>
    cases d with
    | boolean | unknown => cases hrefused
    | null | string | integer | number => simp [cast, domain] at h

/-- If a component of which less is known refuses a value, and it does not narrow either, the value
is not cast to the domain found. -/
theorem not_cast_of_covers {found : Domain} (hcovers : d.Covers found)
    (hrefused : d.accepts v.domain = false) (hnarrows : ¬ v.Narrows d) :
    v.cast found ≠ .ok w := by
  intro hcast
  have hrefused' : found.accepts v.domain = false := by
    rw [← Bool.not_eq_true] at hrefused ⊢
    exact fun haccepts => hrefused (hcovers.accepts haccepts)
  have hnarrows' := narrows_of_cast hrefused' hcast
  rcases hcovers with rfl | rfl | ⟨rfl, rfl⟩
  · exact hnarrows hnarrows'
  · rw [Domain.unknown_accepts] at hrefused
    nomatch hrefused
  · cases v with
    | null _ => exact hnarrows trivial
    | number x => nomatch hrefused
    | _ => exact hnarrows'

end Scalar

/-! ## Shifts -/

namespace Shift

variable {direction : Shift} {offset : Nat} {v : Scalar} {label : String} {sorted made : List Row}
  {m : Component}

/-- Every row has the measures of the row of the partition that it points to. -/
structure Sourced (direction : Shift) (offset : Nat) (sorted made : List Row) : Prop where
  length : made.length = sorted.length
  source : ∀ (i : Nat) (own : Row), sorted[i]? = some own → ∃ r j source,
    made[i]? = some r ∧ direction.Points offset i j ∧ sorted[j]? = some source ∧
      ∀ m ∈ own.schema.measures, r.get? m.name = source.get? m.name

/-- The dataset drains without a row that is filled: it yields an error alone, or the rows that all
have the measures of a row of the other dataset. -/
def DrainsUnfilled (direction : Shift) (offset : Nat) (w : Window) (d out : DataSet) : Prop :=
  (∃ e, out.stream.items = [.error e]) ∨
    ∃ groups parts, w.partitions d = .ok groups ∧ out.stream.items = parts.flatten.map .ok ∧
      List.Forall₂ (fun g part => direction.Sourced offset (Group.rows g) part) groups parts

/-- Typing names the first measure that does not take the default. -/
theorem checkDefault_eq_error {s : Schema} (hm : m ∈ s.measures)
    (hrefused : m.domain.accepts v.domain = false) :
    ∃ m' ∈ s.measures, m'.domain.accepts v.domain = false ∧
      direction.checkDefault s (some v) =
        .error (.incompatibleDomain (.defaultOf direction.text m'.name) m'.domain v.domain) := by
  have hchecked : Outcome (fun e => ∃ m' ∈ s.measures, m'.domain.accepts v.domain = false ∧
      e = .incompatibleDomain (.defaultOf direction.text m'.name) m'.domain v.domain)
      (fun _ => True) (direction.checkDefault s (some v)) := by
    refine Outcome.forM fun m' hm' => ?_
    split
    · trivial
    · rename_i haccepts
      exact ⟨m', hm', Bool.eq_false_iff.2 haccepts, rfl⟩
  cases hcheck : direction.checkDefault s (some v) with
  | ok u =>
    rw [checkDefault_eq_ok.1 hcheck v rfl m hm] at hrefused
    nomatch hrefused
  | error e =>
    rw [hcheck] at hchecked
    obtain ⟨m', hm', hrefused', rfl⟩ := hchecked
    exact ⟨m', hm', hrefused', rfl⟩

/-- A partition that takes no default has a row in every place that its rows point to. -/
theorem sourced_of_partitionOf (h : PartitionOf direction offset (some v) label sorted made)
    (hcast : ∀ own ∈ sorted, ∃ m ∈ own.schema.measures, ∀ w, v.cast m.domain ≠ .ok w) :
    direction.Sourced offset sorted made := by
  refine ⟨h.length, fun i own hi => ?_⟩
  obtain ⟨r, hr, hrowAt⟩ := h.rowAt i own hi
  obtain ⟨m, hm, hcast⟩ := hcast own (List.mem_of_getElem? hi)
  by_cases hsource : direction.Unsourced offset sorted i
  · obtain ⟨w, -, hfills⟩ := hrowAt.filled hsource m hm
    exact absurd hfills (hcast w)
  · unfold Unsourced at hsource
    push Not at hsource
    obtain ⟨j, hpoints, hget⟩ := hsource
    obtain ⟨source, hget⟩ := Option.ne_none_iff_exists'.1 hget
    exact ⟨r, j, source, hr, hpoints, hget, hrowAt.shifted j source hpoints hget⟩

/-- A shift whose default cannot be cast to some measure drains without it. -/
theorem drainsUnfilled_run {d : DataSet} (hd : d.WellFormed) (hm : m ∈ d.schema.measures)
    (hcast : ∀ u, v.cast m.domain ≠ .ok u) (w : Window) :
    direction.DrainsUnfilled offset w d (direction.run offset (some v) w label d) := by
  unfold DrainsUnfilled
  rw [stream_run]
  cases hcollect : (direction.run offset (some v) w label d).collect with
  | error e => exact Or.inl ⟨e, rfl⟩
  | ok made =>
    right
    cases hgroups : w.partitions d with
    | error e =>
      rw [DataSet.collect, run, DataSet.stream_derived, hgroups, RowStream.collect_ofResult,
        error_bind] at hcollect
      cases hcollect
    | ok groups =>
      rw [collect_run hgroups] at hcollect
      obtain ⟨parts, hparts, rfl⟩ := Window.perPartition_eq_ok.1 hcollect
      refine ⟨groups, parts, rfl, ?_, (forall₂_mem hparts).imp fun g part h => ?_⟩
      · exact List.append_nil _
      have hsorted : ∀ r ∈ g.rows, r.schema = d.schema ∧ r.WellFormed :=
        fun r hr => hd r (Window.mem_of_partitions hgroups h.2.1 hr)
      refine sourced_of_partitionOf (partition_eq_ok hsorted h.1) fun own hown => ?_
      exact ⟨m, (hsorted own hown).1 ▸ hm, hcast⟩

theorem exists_collect_run {d : DataSet} {w : Window} {groups : List Group} (hd : d.WellFormed)
    (hgroups : w.partitions d = .ok groups)
    (hcast : ∀ m ∈ d.schema.measures, ∃ u, v.cast m.domain = .ok u) :
    ∃ made, (direction.run offset (some v) w label d).collect = .ok made := by
  have hfill : ∀ given ∈ some v, ∀ m ∈ d.schema.measures, ∃ u, given.cast m.domain = .ok u := by
    rintro _ ⟨⟩
    exact hcast
  exact (exists_collect_run_iff hgroups).2 fun g hg =>
    exists_partition (fun r hr => hd r (Window.mem_of_partitions hgroups hg hr)) hfill

/-- A default that can be cast to all measures does fill rows: those at one end of a partition point
out of it. -/
theorem not_drainsUnfilled_run {d : DataSet} {w : Window} {spec : WindowSpec} {rows : List Row}
    (hd : d.WellFormed) (hw : Window.resolve? d.schema spec .identifiers = .ok w)
    (hrows : d.collect = .ok rows) (hne : rows ≠ []) (hoffset : 0 < offset)
    (hcast : ∀ m ∈ d.schema.measures, ∃ u, v.cast m.domain = .ok u) :
    ¬ direction.DrainsUnfilled offset w d (direction.run offset (some v) w label d) := by
  obtain ⟨ordering, groups, hgroups, -, hpartitioned⟩ :=
    Window.partitioned_partitions hd hrows hw
  rintro (⟨e, he⟩ | ⟨groups', parts, hgroups', -, hparts⟩)
  · obtain ⟨made, hmade⟩ : ∃ made, (direction.run offset (some v) w label d).collect = .ok made :=
      exists_collect_run hd hgroups hcast
    rw [stream_run, hmade] at he
    have hfault := RowStream.error_mem_items.1 (he ▸ List.mem_singleton_self (Except.error e))
    nomatch hfault
  · cases hgroups.symm.trans hgroups'
    obtain ⟨r, hr⟩ := List.exists_mem_of_ne_nil rows hne
    obtain ⟨_, hpart, hr⟩ := List.mem_flatten.1 (hpartitioned.perm.mem_iff.2 hr)
    obtain ⟨g, hg, rfl⟩ := List.mem_map.1 hpart
    obtain ⟨part, -, hsourced⟩ := exists_of_forall₂ hparts hg
    have hpos : 0 < g.rows.length := List.length_pos_of_mem hr
    cases direction with
    | lag =>
      obtain ⟨-, j, -, -, hpoints, -⟩ :=
        hsourced.source 0 _ (List.getElem?_eq_getElem hpos)
      have hpoints : 0 = j + offset := hpoints
      omega
    | lead =>
      obtain ⟨_, j, _, -, hpoints, hget, -⟩ :=
        hsourced.source (g.rows.length - 1) _ (List.getElem?_eq_getElem (Nat.sub_one_lt_of_lt hpos))
      have hpoints : j = g.rows.length - 1 + offset := hpoints
      have hlt := (List.getElem?_eq_some_iff.1 hget).1
      omega

end Shift

/-- If the default of a shift is not assignable to a measure that the operand is typed with, typing
rejects the shift, because of this measure or another one like it.  Evaluation either fails, or its
dataset drains without a row that is filled with the default, unless the default narrows to the
measure. -/
theorem rejected_defaults {direction : Shift} {x : Expr} {offset : Nat} {v : Scalar}
    {spec : WindowSpec} {scope : Scope} {s : Schema} {m : Component} (hscope : scope.Proper)
    (hx : x.shape? scope = .ok (.dataset s)) (hm : m ∈ s.measures)
    (hrefused : m.domain.accepts v.domain = false) (hnarrows : ¬ v.Narrows m.domain) :
    (∀ w, Window.resolve? s spec .identifiers = .ok w →
        ∃ m' ∈ s.measures, m'.domain.accepts v.domain = false ∧
          (Expr.shift direction x offset (some v) spec).shape? scope =
            .error (.incompatibleDomain (.defaultOf direction.text m'.name) m'.domain v.domain)) ∧
      Outcome (fun _ => True)
        (fun result => ∃ d w out, x.eval scope = .ok (.dataset d) ∧
          Window.resolve? d.schema spec .identifiers = .ok w ∧ result = .dataset out ∧
            direction.DrainsUnfilled offset w d out)
        ((Expr.shift direction x offset (some v) spec).eval scope) := by
  constructor
  · intro w hw
    obtain ⟨m', hm', hrefused', hcheck⟩ := Shift.checkDefault_eq_error hm hrefused
    refine ⟨m', hm', hrefused', ?_⟩
    have hshape : (Expr.shift direction x offset (some v) spec).shape? scope =
        (x.shape? scope >>= fun shape => shape.onDataset (fun _ => direction.text) fun schema => do
          let _ ← Window.resolve? schema spec .identifiers
          direction.checkDefault schema (some v)
          pure (.dataset schema)) := rfl
    rw [hshape, hx, ok_bind, Shape.onDataset, hw, ok_bind, hcheck, error_bind]
  cases heval : (Expr.shift direction x offset (some v) spec).eval scope with
  | error e => trivial
  | ok result =>
    obtain ⟨operand, hoperand, h⟩ := bind_eq_ok.1 heval
    obtain ⟨d, hd, h⟩ := bind_eq_ok.1 h
    obtain ⟨w, hw, h⟩ := bind_eq_ok.1 h
    cases h
    cases Value.asDataSet_eq_ok.1 hd
    have hwellFormed : d.WellFormed :=
      DataSet.invariant_wellFormed.eval_of_yields hscope.yields hscope.root.yields
        (fun _ _ => trivial) hoperand
    -- what is known of the measure by its type refuses the default, and so does what it is
    have htyped : (Shape.dataset s).Rel .gradual (.dataset d.schema) :=
      consistent_evalWith x scope.ruleMeaning hscope.typed
        (Scope.consistent_valueOfRule hscope.root.typed _) _ _ hx hoperand
    cases htyped with
    | dataset hrel =>
      obtain ⟨found, hfound, hcomponent⟩ := exists_of_forall₂ (Schema.rel_measures hrel) hm
      refine ⟨d, w, _, hoperand, hw, rfl, Shift.drainsUnfilled_run hwellFormed hfound ?_ w⟩
      exact fun u => Scalar.not_cast_of_covers hcomponent.domain hrefused hnarrows

/-- The measures of the row before in ascending order of key, and the default for the first one. -/
def lagOfKeyed (default : Scalar) : Expr := .shift .lag (.var "ds") 1 (some default) ⟨[], []⟩

theorem keyedScope_proper : keyedScope.Proper := by
  refine .engine fun v hv => ?_
  rw [List.mem_singleton.1 hv]
  exact DataSet.wellFormed_named named_keyedDataSet

theorem rejected_defaults_lagOfKeyed :
    keyedScope.Proper ∧ (lagOfKeyed (.string "none")).shape? keyedScope =
        .error (.incompatibleDomain (.defaultOf "lag" "m") .integer .string) ∧
      ∃ out, (lagOfKeyed (.string "none")).eval keyedScope = .ok (.dataset out) ∧
        Shift.DrainsUnfilled .lag 1 ⟨[], [(0, .asc)]⟩ keyedDataSet out := by
  have hm : (⟨"m", .measure, .integer⟩ : Component) ∈ keyed.measures := by decide
  obtain ⟨-, heval⟩ := @rejected_defaults .lag (.var "ds") 1 (.string "none") ⟨[], []⟩
    keyedScope keyed ⟨"m", .measure, .integer⟩ keyedScope_proper rfl hm rfl id
  obtain ⟨d, w, out, hd, hw, hout, hdrains⟩ := heval.result rfl
  cases hd
  cases hw
  exact ⟨keyedScope_proper, rfl, out, congrArg Except.ok hout, hdrains⟩

/-- A shift with this default drains unfilled whenever typing rejects the default. -/
def Shift.Withheld (v : Scalar) : Prop :=
  ∀ (direction : Shift) (x : Expr) (offset : Nat) (spec : WindowSpec) (scope : Scope) (s : Schema)
    (e : EvalError) (d : DataSet) (w : Window) (out : DataSet), scope.Proper →
    x.shape? scope = .ok (.dataset s) → direction.checkDefault s (some v) = .error e →
    x.eval scope = .ok (.dataset d) → Window.resolve? d.schema spec .identifiers = .ok w →
    (Expr.shift direction x offset (some v) spec).eval scope = .ok (.dataset out) →
      direction.DrainsUnfilled offset w d out

/-- Whole numbers and tagged nulls fill the measures of integers although typing rejects them. -/
theorem rejected_defaults_narrow :
    ¬ Shift.Withheld (.number (.ofInt 2)) ∧ ¬ Shift.Withheld (.null .string) := by
  have hd : keyedDataSet.WellFormed := DataSet.wellFormed_named named_keyedDataSet
  have hw : Window.resolve? keyed ⟨[], []⟩ .identifiers = .ok ⟨[], [(0, .asc)]⟩ := rfl
  have hmeasures : ∀ m ∈ keyed.measures, m.domain = .integer := by decide
  have hwhole {x : Binary64} (hx : x.isIntegral = true) :
      ∃ u, (Scalar.number x).cast .integer = .ok u := ⟨_, if_pos hx⟩
  have hfills {v : Scalar} (hcast : ∃ u, v.cast .integer = .ok u) :
      ¬ Shift.DrainsUnfilled .lag 1 ⟨[], [(0, .asc)]⟩ keyedDataSet
        (Shift.lag.run 1 (some v) ⟨[], [(0, .asc)]⟩ (lagOfKeyed v).text keyedDataSet) :=
    Shift.not_drainsUnfilled_run hd hw rfl nofun (by decide) fun m hm => hmeasures m hm ▸ hcast
  constructor
  · intro h
    exact hfills (hwhole (by decide +kernel)) (h .lag (.var "ds") 1 ⟨[], []⟩ keyedScope keyed _
      keyedDataSet _ _ keyedScope_proper rfl rfl rfl rfl rfl)
  · intro h
    exact hfills ⟨_, rfl⟩ (h .lag (.var "ds") 1 ⟨[], []⟩ keyedScope keyed _ keyedDataSet _ _
      keyedScope_proper rfl rfl rfl rfl rfl)

end DataCube
