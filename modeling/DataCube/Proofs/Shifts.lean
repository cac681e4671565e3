import DataCube.Proofs.Safety.Groups
import DataCube.Proofs.Windows

/-!
# Shifted measures

Every row of a sorted partition keeps its identifiers and attributes and takes its measures from the
row so many places before or after it.  Where the partition has no such row, the measures are the
default as their domains hold it, or nulls of their domains.

* `Shift.Points`: the places of a partition that are so far apart.
* `Shift.Fills`: what stands in for a measure.
* `Shift.RowAt`: the row that a shift makes of a row in its place.
* `Shift.row_of_measuresAt`: once there are measures for a place, there is that row for it.
* `shift_rows`: the rows of a shift expression, partition by partition.
-/

namespace DataCube

namespace Shift

/-- The second place lies so many places behind the first, or before it. -/
def Points (direction : Shift) (offset i j : Nat) : Prop :=
  match direction with
  | .lead => j = i + offset
  | .lag => i = j + offset

/-- The value stands in for a measure of a missing row. -/
def Fills (default : Option Scalar) (m : Component) (v : Scalar) : Prop :=
  match default with
  | some given => given.cast m.domain = .ok v
  | none => v = .null m.domain

/-- The row that is made of the row in a place of a sorted partition. -/
structure RowAt (direction : Shift) (offset : Nat) (default : Option Scalar) (label : String)
    (sorted : List Row) (i : Nat) (own made : Row) : Prop where
  schema : made.schema = own.schema
  lineage : made.lineage = DataSet.derivedLineage label own
  kept : ∀ c ∈ own.schema.components, c.role ≠ .measure → made.get? c.name = own.get? c.name
  shifted : ∀ j source, direction.Points offset i j → sorted[j]? = some source →
    ∀ m ∈ own.schema.measures, made.get? m.name = source.get? m.name
  filled : (∀ j, direction.Points offset i j → sorted[j]? = none) →
    ∀ m ∈ own.schema.measures, ∃ v, made.get? m.name = some v ∧ Fills default m v

/-- The rows that are made of a sorted partition, in its order. -/
structure PartitionOf (direction : Shift) (offset : Nat) (default : Option Scalar) (label : String)
    (sorted made : List Row) : Prop where
  length : made.length = sorted.length
  rowAt : ∀ (i : Nat) (own : Row), sorted[i]? = some own →
    ∃ r, made[i]? = some r ∧ RowAt direction offset default label sorted i own r

variable {direction : Shift} {offset : Nat} {default : Option Scalar} {label : String}
  {schema : Schema} {sorted made : List Row} {own : Row} {i : Nat}

/-! ## Rows -/

theorem source?_eq_some {j : Nat} :
    direction.source? offset i = some j ↔ direction.Points offset i j := by
  cases direction with
  | lag =>
    unfold source? Points
    by_cases h : offset ≤ i
    · simp [h]; omega
    · simp [h]; omega
  | lead =>
    simp only [source?, Points, Option.some.injEq]
    exact eq_comm

theorem Fills.describes {m : Component} {v : Scalar} (h : Fills default m v) :
    m.domain.Describes v.domain := by
  cases default with
  | none =>
    have hnull : v = .null m.domain := h
    rw [hnull]
    exact Or.inl rfl
  | some given => exact Scalar.describes_cast h

/-- What stands in for the measures is one value for each of them. -/
theorem fill_eq_ok {measures : List (Component × Scalar)} (h : fill schema default = .ok measures) :
    ∃ f : Component → Scalar, measures = schema.measures.map (fun m => (m, f m)) ∧
      ∀ m ∈ schema.measures, Fills default m (f m) := by
  let f (m : Component) : Scalar :=
    match default with
    | some given => (given.cast m.domain).toOption.getD given
    | none => .null m.domain
  have hmembers : List.Forall₂ (fun m e => e = (m, f m) ∧ Fills default m (f m)) schema.measures
      measures := by
    refine (mapM_eq_ok.1 h).imp fun m e he => ?_
    cases default with
    | none =>
      cases he
      exact ⟨rfl, rfl⟩
    | some given =>
      obtain ⟨w, hw, rfl⟩ := map_eq_ok.1 he
      have hf : f m = w := by simp [f, hw, Except.toOption]
      rw [hf]
      exact ⟨rfl, hw⟩
  refine ⟨f, ?_, fun m hm => ?_⟩
  · rw [← List.forall₂_eq_eq_eq, List.forall₂_map_right_iff]
    exact hmembers.flip.imp fun e m he => he.1
  · obtain ⟨e, -, he⟩ := exists_of_forall₂ hmembers hm
    exact he.2

/-- There is a value to stand in for every measure if the default can be cast to their domains. -/
theorem exists_fill (h : ∀ v ∈ default, ∀ m ∈ schema.measures, ∃ w, v.cast m.domain = .ok w) :
    ∃ measures, fill schema default = .ok measures := by
  refine exists_mapM_eq_ok fun m hm => ?_
  cases default with
  | none => exact ⟨_, rfl⟩
  | some given =>
    obtain ⟨w, hw⟩ := h given rfl m hm
    exact ⟨_, map_eq_ok.2 ⟨w, hw, rfl⟩⟩

/-- The measures for a place are those of the row that it points to, or else stand in for them. -/
theorem measuresAt_eq_ok (hsorted : ∀ r ∈ sorted, r.schema = schema ∧ r.WellFormed)
    {measures : List (Component × Scalar)}
    (h : direction.measuresAt offset default schema sorted i = .ok measures) :
    ∃ f : Component → Scalar, measures = schema.measures.map (fun m => (m, f m)) ∧
      (∀ m ∈ schema.measures, m.domain.Describes (f m).domain) ∧
      (∀ j source, direction.Points offset i j → sorted[j]? = some source →
        ∀ m ∈ schema.measures, some (f m) = source.get? m.name) ∧
      ((∀ j, direction.Points offset i j → sorted[j]? = none) →
        ∀ m ∈ schema.measures, Fills default m (f m)) := by
  unfold measuresAt at h
  split at h
  · rename_i source hsource
    obtain ⟨j, hj, hget⟩ := Option.bind_eq_some_iff.1 hsource
    obtain ⟨rfl, hfits⟩ := hsorted source (List.mem_of_getElem? hget)
    have hpoints := source?_eq_some.1 hj
    have hmem : ∀ m ∈ source.schema.measures, m ∈ source.schema.components :=
      fun m hm => List.mem_of_mem_filter hm
    refine ⟨source.valueOf, ?_, fun m hm => hfits.describes_valueOf (hmem m hm), ?_, ?_⟩
    · rw [← Except.ok.inj h, hfits.entriesWith_eq]
      rfl
    · intro j' source' hpoints' hget' m hm
      have hplace := hj.symm.trans (source?_eq_some.2 hpoints')
      cases hplace
      have hsame := hget.symm.trans hget'
      cases hsame
      exact (hfits.get?_eq_valueOf (hmem m hm)).symm
    · intro hmissing
      have hnone := hget.symm.trans (hmissing j hpoints)
      nomatch hnone
  · rename_i hnone
    obtain ⟨f, hf, hfills⟩ := fill_eq_ok h
    refine ⟨f, hf, fun m hm => (hfills m hm).describes, ?_, fun _ => hfills⟩
    intro j source hpoints hget
    have hsome := Option.bind_eq_some_iff.2 ⟨j, source?_eq_some.2 hpoints, hget⟩
    rw [hnone] at hsome
    nomatch hsome

/-- Once there are measures for a place, there is the row for it. -/
theorem row_of_measuresAt (hsorted : ∀ r ∈ sorted, r.schema = schema ∧ r.WellFormed)
    (hi : sorted[i]? = some own) {measures : List (Component × Scalar)}
    (h : direction.measuresAt offset default schema sorted i = .ok measures) :
    ∃ r, direction.row offset default schema label sorted own i = .ok r ∧
      RowAt direction offset default label sorted i own r := by
  obtain ⟨rfl, hown⟩ := hsorted own (List.mem_of_getElem? hi)
  obtain ⟨f, hf, hdescribes, hshifted, hfilled⟩ := measuresAt_eq_ok hsorted h
  obtain ⟨r, hbuild, hschema, hlineage, hkept, hmeasures⟩ :=
    Window.build_recombined hown hdescribes (DataSet.derivedLineage label own)
  refine ⟨r, bind_eq_ok.2 ⟨measures, h, ?_⟩, hschema, hlineage, hkept, ?_, ?_⟩
  · rw [hf]
    exact hbuild
  · intro j source hpoints hget m hm
    rw [hmeasures m hm]
    exact hshifted j source hpoints hget m hm
  · exact fun hmissing m hm => ⟨f m, hmeasures m hm, hfilled hmissing m hm⟩

theorem Fills.unique {m : Component} {v v' : Scalar} (h : Fills default m v)
    (h' : Fills default m v') : v = v' := by
  cases default with
  | none =>
    have hnull : v = .null m.domain := h
    have hnull' : v' = .null m.domain := h'
    rw [hnull, hnull']
  | some given =>
    have hcast : given.cast m.domain = .ok v := h
    have hcast' : given.cast m.domain = .ok v' := h'
    rw [hcast] at hcast'
    exact Except.ok.inj hcast'

/-- Either a place points to a row, or there is nothing where it points to. -/
theorem source_cases (direction : Shift) (offset i : Nat) (sorted : List Row) :
    (∃ j source, direction.Points offset i j ∧ sorted[j]? = some source) ∨
      ∀ j, direction.Points offset i j → sorted[j]? = none := by
  by_cases h : ∃ j source, direction.Points offset i j ∧ sorted[j]? = some source
  · exact Or.inl h
  · refine Or.inr fun j hpoints => Option.eq_none_iff_forall_ne_some.2 fun source hget => ?_
    exact h ⟨j, source, hpoints, hget⟩

/-- There is one row for a place, but for the label in its lineage. -/
theorem RowAt.sameValues {label' : String} {r r' : Row}
    (h : RowAt direction offset default label sorted i own r)
    (h' : RowAt direction offset default label' sorted i own r') (hr : r.WellFormed)
    (hr' : r'.WellFormed) : r.SameValues r' := by
  refine hr.sameValues hr' (h.schema.trans h'.schema.symm) fun c hc => ?_
  rw [h.schema] at hc
  by_cases hrole : c.role = .measure
  · have hm : c ∈ own.schema.measures := Schema.mem_measures.2 ⟨hc, hrole⟩
    rcases source_cases direction offset i sorted with ⟨j, source, hpoints, hget⟩ | hmissing
    · rw [h.shifted j source hpoints hget c hm, h'.shifted j source hpoints hget c hm]
    · obtain ⟨v, hv, hfills⟩ := h.filled hmissing c hm
      obtain ⟨v', hv', hfills'⟩ := h'.filled hmissing c hm
      rw [hv, hv', hfills.unique hfills']
  · rw [h.kept c hc hrole, h'.kept c hc hrole]

/-! ## Partitions -/

/-- Every row is made of the row in its place. -/
theorem PartitionOf.exists_own (h : PartitionOf direction offset default label sorted made)
    {r : Row} (hr : made[i]? = some r) :
    ∃ own, sorted[i]? = some own ∧ RowAt direction offset default label sorted i own r := by
  have hlt : i < sorted.length := h.length ▸ (List.getElem?_eq_some_iff.1 hr).1
  have hown : sorted[i]? = some sorted[i] := List.getElem?_eq_getElem hlt
  obtain ⟨r', hr', hrow⟩ := h.rowAt i _ hown
  cases hr.symm.trans hr'
  exact ⟨_, hown, hrow⟩

theorem row_of_partition (h : direction.partition offset default schema label sorted = .ok made)
    {r : Row} (hr : made[i]? = some r) :
    ∃ own, sorted[i]? = some own ∧
      direction.row offset default schema label sorted own i = .ok r := by
  have hplace := forall₂_getElem? (mapM_eq_ok.1 h) i
  rw [hr, List.getElem?_zipIdx] at hplace
  cases hown : sorted[i]? with
  | none =>
    rw [hown] at hplace
    nomatch hplace
  | some own =>
    rw [hown, Option.map_some, Nat.zero_add] at hplace
    cases hplace with
    | some hrow => exact ⟨own, rfl, hrow⟩

theorem length_partition (h : direction.partition offset default schema label sorted = .ok made) :
    made.length = sorted.length := by
  simpa using (mapM_eq_ok.1 h).length_eq.symm

theorem partition_eq_ok (hsorted : ∀ r ∈ sorted, r.schema = schema ∧ r.WellFormed)
    (h : direction.partition offset default schema label sorted = .ok made) :
    PartitionOf direction offset default label sorted made := by
  have hlength := length_partition h
  refine ⟨hlength, fun i own hi => ?_⟩
  have hlt : i < made.length := hlength ▸ (List.getElem?_eq_some_iff.1 hi).1
  have hmade : made[i]? = some made[i] := List.getElem?_eq_getElem hlt
  obtain ⟨own', hown', hrow⟩ := row_of_partition h hmade
  cases hi.symm.trans hown'
  obtain ⟨measures, hmeasures, -⟩ := bind_eq_ok.1 hrow
  obtain ⟨r, hr, hrowAt⟩ := row_of_measuresAt hsorted hi hmeasures
  cases hrow.symm.trans hr
  exact ⟨_, hmade, hrowAt⟩

/-- A partition has its rows just if there are measures for every place. -/
theorem exists_partition_iff (hsorted : ∀ r ∈ sorted, r.schema = schema ∧ r.WellFormed) :
    (∃ made, direction.partition offset default schema label sorted = .ok made) ↔
      ∀ i < sorted.length, ∃ measures,
        direction.measuresAt offset default schema sorted i = .ok measures := by
  constructor
  · rintro ⟨made, h⟩ i hi
    have hlt : i < made.length := length_partition h ▸ hi
    obtain ⟨own, -, hrow⟩ := row_of_partition h (List.getElem?_eq_getElem hlt)
    obtain ⟨measures, hmeasures, -⟩ := bind_eq_ok.1 hrow
    exact ⟨measures, hmeasures⟩
  · intro h
    refine exists_mapM_eq_ok fun e he => ?_
    have hi : sorted[e.2]? = some e.1 := List.mk_mem_zipIdx_iff_getElem?.1 he
    obtain ⟨measures, hmeasures⟩ := h e.2 (List.getElem?_eq_some_iff.1 hi).1
    exact (row_of_measuresAt hsorted hi hmeasures).imp fun r hr => hr.1

theorem exists_partition (hsorted : ∀ r ∈ sorted, r.schema = schema ∧ r.WellFormed)
    (h : ∀ v ∈ default, ∀ m ∈ schema.measures, ∃ w, v.cast m.domain = .ok w) :
    ∃ made, direction.partition offset default schema label sorted = .ok made := by
  refine (exists_partition_iff hsorted).2 fun i _ => ?_
  unfold measuresAt
  split
  · exact ⟨_, rfl⟩
  · exact exists_fill h

/-- The only thing that keeps a row from being made is that it cannot be filled. -/
theorem outcome_row (hsorted : ∀ r ∈ sorted, r.schema = schema ∧ r.WellFormed)
    (hi : sorted[i]? = some own) :
    Outcome (fun e => fill schema default = .error e) (fun _ => True)
      (direction.row offset default schema label sorted own i) := by
  cases hgiven : direction.measuresAt offset default schema sorted i with
  | ok measures =>
    obtain ⟨r, hr, -⟩ : ∃ r, direction.row offset default schema label sorted own i = .ok r ∧ _ :=
      row_of_measuresAt hsorted hi hgiven
    rw [hr]
    trivial
  | error e =>
    rw [row, hgiven, error_bind]
    unfold measuresAt at hgiven
    split at hgiven
    · nomatch hgiven
    · exact hgiven

/-- A shift yields all rows that it drains to, or the error alone. -/
theorem stream_run {d : DataSet} {w : Window} :
    (direction.run offset default w label d).stream =
      .ofResult (direction.run offset default w label d).collect := by
  rw [DataSet.collect, run, DataSet.stream_derived, RowStream.collect_ofResult]

/-- A shift drains to what it makes of the partitions. -/
theorem collect_run {d : DataSet} {w : Window} {groups : List Group}
    (h : w.partitions d = .ok groups) :
    (direction.run offset default w label d).collect =
      Window.perPartition groups (direction.partition offset default d.schema label) := by
  rw [DataSet.collect, run, DataSet.stream_derived, h]
  exact RowStream.collect_ofResult _

/-- A shift drains just if every partition has its rows. -/
theorem exists_collect_run_iff {d : DataSet} {w : Window} {groups : List Group}
    (hgroups : w.partitions d = .ok groups) :
    (∃ made, (direction.run offset default w label d).collect = .ok made) ↔
      ∀ g ∈ groups, ∃ part, direction.partition offset default d.schema label (Group.rows g) =
        .ok part := by
  rw [collect_run hgroups]
  constructor
  · rintro ⟨made, h⟩ g hg
    obtain ⟨parts, hparts, -⟩ := Window.perPartition_eq_ok.1 h
    obtain ⟨part, -, hpart⟩ := exists_of_forall₂ hparts hg
    exact ⟨part, hpart⟩
  · intro h
    obtain ⟨parts, hparts⟩ := exists_forall₂ h
    exact ⟨parts.flatten, Window.perPartition_eq_ok.2 ⟨parts, hparts, rfl⟩⟩

theorem outcome_collect_run {d : DataSet} {w : Window} {groups : List Group} (hd : d.WellFormed)
    (hgroups : w.partitions d = .ok groups) :
    Outcome (fun e => fill d.schema default = .error e) (fun _ => True)
      (direction.run offset default w label d).collect := by
  rw [collect_run hgroups]
  refine Window.outcome_perPartition fun g hg => ?_
  refine (Outcome.mapM (R := fun _ _ => True) fun e he => ?_).mono fun _ _ _ => trivial
  exact outcome_row (fun r hr => hd r (Window.mem_of_partitions hgroups hg hr))
    (List.mk_mem_zipIdx_iff_getElem?.1 he)

/-- What a shift drains to is made partition by partition. -/
theorem exists_parts {d : DataSet} {w : Window} {groups : List Group} (hd : d.WellFormed)
    (hgroups : w.partitions d = .ok groups)
    (hmade : (direction.run offset default w label d).collect = .ok made) :
    ∃ parts, made = parts.flatten ∧
      List.Forall₂ (fun g part => PartitionOf direction offset default label (Group.rows g) part ∧
        ∀ r ∈ part, Row.WellFormed r) groups parts := by
  have hfits : ∀ r ∈ made, r.WellFormed := fun r hr =>
    ((wellFormed_run direction offset default w label d).of_mem hmade hr).2
  rw [collect_run hgroups] at hmade
  obtain ⟨parts, hparts, rfl⟩ := Window.perPartition_eq_ok.1 hmade
  refine ⟨parts, rfl, (forall₂_mem hparts).imp fun g part h => ?_⟩
  obtain ⟨hpart, hg, hmem⟩ := h
  exact ⟨partition_eq_ok (fun r hr => hd r (Window.mem_of_partitions hgroups hg hr)) hpart,
    fun r hr => hfits r (List.mem_flatten.2 ⟨part, hmem, hr⟩)⟩

end Shift

/-- A shift expression is a shift of its operand over the window. -/
theorem Expr.eval_shift {direction : Shift} {x : Expr} {offset : Nat} {default : Option Scalar}
    {spec : WindowSpec} {scope : Scope} {d : DataSet} {w : Window}
    (hx : x.eval scope = .ok (.dataset d))
    (hw : Window.resolve? d.schema spec .identifiers = .ok w) :
    (Expr.shift direction x offset default spec).eval scope = .ok (.dataset
      (direction.run offset default w (Expr.shift direction x offset default spec).text d)) :=
  bind_eq_ok.2 ⟨_, hx, bind_eq_ok.2 ⟨d, rfl, bind_eq_ok.2 ⟨w, hw, rfl⟩⟩⟩

/-- A shift gives a dataset of the same schema, which drains if the default can be cast to the
measures.  If it drains, there is one row for every row of the operand: partition by partition in
strictly ascending order of key, each in the stable order of the sort keys, a row keeps its
identifiers and attributes and takes its measures from the row so many places before or after it in
the partition, or where there is none from the default. -/
theorem shift_rows {direction : Shift} {x : Expr} {offset : Nat} {default : Option Scalar}
    {spec : WindowSpec} {scope : Scope} {d : DataSet} {rows : List Row} {w : Window}
    (hx : x.eval scope = .ok (.dataset d)) (hd : d.WellFormed) (hrows : d.collect = .ok rows)
    (hw : Window.resolve? d.schema spec .identifiers = .ok w) :
    ∃ out ordering partition groups,
      (Expr.shift direction x offset default spec).eval scope = .ok (.dataset out) ∧
      out.schema = d.schema ∧
      Window.Keys d.schema spec .identifiers ordering partition ∧
      Window.Partitioned ordering partition rows groups ∧
      ((∀ v ∈ default, ∀ m ∈ d.schema.measures, ∃ u, v.cast m.domain = .ok u) →
        ∃ made, out.collect = .ok made) ∧
      ∀ made, out.collect = .ok made →
        made.length = rows.length ∧
        ∃ parts, made = parts.flatten ∧
          List.Forall₂ (fun g part => Shift.PartitionOf direction offset default
            (Expr.shift direction x offset default spec).text g.rows part) groups parts := by
  obtain ⟨ordering, groups, hgroups, hkeys, hpartitioned⟩ :=
    Window.partitioned_partitions hd hrows hw
  let label := (Expr.shift direction x offset default spec).text
  have heval : (Expr.shift direction x offset default spec).eval scope =
      .ok (.dataset (direction.run offset default w label d)) :=
    bind_eq_ok.2 ⟨_, hx, bind_eq_ok.2 ⟨d, rfl, bind_eq_ok.2 ⟨w, hw, rfl⟩⟩⟩
  have hmember : ∀ g ∈ groups, ∀ r ∈ g.rows, r.schema = d.schema ∧ r.WellFormed :=
    fun g hg r hr => hd.of_mem hrows (hpartitioned.mem hg hr)
  refine ⟨_, ordering, w.partition, groups, heval, rfl, hkeys, hpartitioned, ?_, ?_⟩
  · intro hcast
    obtain ⟨parts, hparts⟩ := exists_mapM_eq_ok fun g hg =>
      Shift.exists_partition (hmember g hg) hcast
    rw [Shift.collect_run hgroups]
    exact ⟨parts.flatten, Window.perPartition_eq_ok.2 ⟨parts, mapM_eq_ok.1 hparts, rfl⟩⟩
  · intro made hmade
    rw [Shift.collect_run hgroups] at hmade
    obtain ⟨parts, hparts, rfl⟩ := Window.perPartition_eq_ok.1 hmade
    have hshifted : List.Forall₂ (fun g part =>
        Shift.PartitionOf direction offset default label g.rows part) groups parts :=
      (forall₂_mem hparts).imp fun g part h => Shift.partition_eq_ok (hmember g h.2.1) h.1
    exact ⟨hpartitioned.length_flatten (hshifted.imp fun _ _ h => h.length), parts, rfl, hshifted⟩

/-- The measures of the next row in descending order of key, and a seven for the last one. -/
def leadOfKeyed : Expr := .shift .lead (.var "ds") 1 (some (.integer 7)) ⟨[], [⟨"k", .desc⟩]⟩

theorem shift_rows_leadOfKeyed :
    Window.resolve? keyed ⟨[], [⟨"k", .desc⟩]⟩ .identifiers = .ok ⟨[], [(0, .desc)]⟩ ∧
      ∃ out made groups parts, leadOfKeyed.eval keyedScope = .ok (.dataset out) ∧
        out.collect = .ok made ∧ made.length = 2 ∧ made = parts.flatten ∧
          List.Forall₂ (fun g part => Shift.PartitionOf .lead 1 (some (.integer 7)) leadOfKeyed.text
            (Group.rows g) part) groups parts := by
  have hw : Window.resolve? keyed ⟨[], [⟨"k", .desc⟩]⟩ .identifiers = .ok ⟨[], [(0, .desc)]⟩ := rfl
  have hx : (Expr.var "ds").eval keyedScope = .ok (.dataset keyedDataSet) := rfl
  have hd : keyedDataSet.WellFormed := DataSet.wellFormed_named named_keyedDataSet
  obtain ⟨out, ordering, partition, groups, heval, -, -, -, hdrains, hmade⟩ :=
    @shift_rows .lead (.var "ds") 1 (some (.integer 7)) _ _ _ _ _ hx hd rfl hw
  obtain ⟨made, hcollect⟩ := hdrains fun v hv m hm => by
    have hdomain : m.domain = .integer :=
      (by decide : ∀ m ∈ keyed.measures, m.domain = .integer) m hm
    cases hv
    exact ⟨.integer 7, by rw [hdomain]; rfl⟩
  obtain ⟨hlength, parts, hparts, hshifted⟩ := hmade made hcollect
  exact ⟨hw, out, made, groups, parts, heval, hcollect, hlength, hparts, hshifted⟩

end DataCube
