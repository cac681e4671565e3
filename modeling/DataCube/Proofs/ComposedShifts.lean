import DataCube.Proofs.Arrivals
import DataCube.Proofs.Shifts
import DataCube.Proofs.WholePartitions

/-!
# Shifts of shifts

A shift of a shift works on rows that the first one has made.  Their identifiers and attributes are
those of the operand, so a window that sorts by no measures cuts them into the very partitions that
they were made of, in the order in which they were made.  A place of such a partition takes its
measures from a place that takes them from a third one, and where one of the two places is missing
there are nulls.

* `filter_flatten_of_ascending`: parts with ascending keys, found again in their concatenation.
* `Window.ReadsNoMeasure`: the keys of a window are in the part of a row that shifts leave alone.
* `Window.SamePlaces`, `Window.partitions_again`: what is made of partitions row by row, partitioned
  again.
* `Shift.RowAt.comp`: the row that two shifts make.
* `shifts_compose`: two shifts are one.
-/

namespace DataCube

open Scalar (orderLists orderLists_symm orderLists_trans)

/-! ## Partitioning again -/

/-- Parts with keys in strictly ascending order, each of members that carry its key, are what their
concatenation has for the keys. -/
theorem filter_flatten_of_ascending {α κ : Type} {cmp : κ → κ → Ordering} [Std.TransCmp cmp]
    (key : α → κ) {keys : List κ} {parts : List (List α)}
    (hkeys : keys.Pairwise fun k k' => cmp k k' = .lt)
    (hparts : List.Forall₂ (fun k part => ∀ x ∈ part, cmp (key x) k = .eq) keys parts) :
    List.Forall₂ (fun k part => (parts.flatten.filter fun x => cmp (key x) k = .eq) = part) keys
      parts := by
  induction hparts with
  | nil => exact .nil
  | @cons k part keys parts hpart hparts ih =>
    obtain ⟨hfirst, hkeys⟩ := List.pairwise_cons.1 hkeys
    -- a member with a later key is after every member of the first part
    have hlater : ∀ x ∈ part, ∀ k' ∈ keys, cmp (key x) k' ≠ .eq := by
      intro x hx k' hk' heq
      have hlt : cmp (key x) k' = .lt := Std.TransCmp.lt_of_eq_of_lt (hpart x hx) (hfirst k' hk')
      rw [heq] at hlt
      nomatch hlt
    refine .cons ?_ ((forall₂_mem (ih hkeys)).imp fun k' part' h => ?_)
    · have hrest : (parts.flatten.filter fun x => cmp (key x) k = .eq) = [] := by
        refine List.filter_eq_nil_iff.2 fun x hx => ?_
        obtain ⟨part', hpart', hx⟩ := List.mem_flatten.1 hx
        obtain ⟨k', hk', hkey⟩ := exists_of_forall₂ hparts.flip hpart'
        have hlt : cmp k (key x) = .lt :=
          Std.TransCmp.lt_of_lt_of_eq (hfirst k' hk') (Std.OrientedCmp.eq_symm (hkey x hx))
        simp [Std.OrientedCmp.gt_of_lt hlt]
      have hall : (part.filter fun x => cmp (key x) k = .eq) = part :=
        List.filter_eq_self.2 fun x hx => decide_eq_true (hpart x hx)
      rw [List.flatten_cons, List.filter_append, hall, hrest, List.append_nil]
    · obtain ⟨hpart', hk', -⟩ := h
      have hnone : (part.filter fun x => cmp (key x) k' = .eq) = [] :=
        List.filter_eq_nil_iff.2 fun x hx => by simpa using hlater x hx k' hk'
      rw [List.flatten_cons, List.filter_append, hnone, List.nil_append, hpart']

/-- Rows that are put together from parts with ascending keys are grouped into these parts. -/
theorem Grouped.rows_eq_parts {positions : List Nat} {keys : List (List Scalar)}
    {parts : List (List Row)} {groups : List Group} (h : Grouped positions parts.flatten groups)
    (hkeys : keys.Pairwise fun k k' => orderLists k k' = .lt)
    (hparts : List.Forall₂ (fun k part => part ≠ [] ∧
      ∀ r ∈ part, orderLists (Row.key r positions) k = .eq) keys parts) :
    groups.map Group.rows = parts := by
  have hfilter := filter_flatten_of_ascending (fun r : Row => r.key positions) hkeys
    (hparts.imp fun _ _ h => h.2)
  have hkeyed : List.Forall₂ (fun k k' => orderLists k k' = .eq) (groups.map Group.key) keys := by
    refine @forall₂_of_ascending _ _ orderLists _ id _ _ (List.pairwise_map.2 h.ascending) hkeys
      ?_ ?_
    · intro key hkey
      obtain ⟨g, hg, rfl⟩ := List.mem_map.1 hkey
      obtain ⟨first, rest, hfirst, hkey⟩ := h.first g hg
      have hmem : first ∈ g.rows := by
        rw [hfirst]
        exact List.mem_cons_self
      rw [h.rows_eq g hg] at hmem
      obtain ⟨part, hpart, hmem⟩ := List.mem_flatten.1 (List.mem_of_mem_filter hmem)
      obtain ⟨k, hk, -, hrows⟩ := exists_of_forall₂ hparts.flip hpart
      exact ⟨k, hk, hkey ▸ hrows first hmem⟩
    · intro k hk
      obtain ⟨part, hpart, hne, hrows⟩ := exists_of_forall₂ hparts hk
      obtain ⟨r, hr⟩ := List.exists_mem_of_ne_nil part hne
      obtain ⟨g, hg, hkey⟩ := h.covers r (List.mem_flatten.2 ⟨part, hpart, hr⟩)
      exact ⟨g.key, List.mem_map_of_mem hg, orderLists_trans (orderLists_symm hkey) (hrows r hr)⟩
  have hrows := forall₂_comp (List.forall₂_map_left_iff.1 hkeyed) hfilter
  rw [← List.forall₂_eq_eq_eq, List.forall₂_map_left_iff]
  refine (forall₂_mem hrows).imp fun g part hpart => ?_
  obtain ⟨⟨k, hkey, hfilter⟩, hg, -⟩ := hpart
  rw [h.rows_eq g hg, ← hfilter]
  exact Scalar.filter_orderLists_congr (fun r : Row => r.key positions) parts.flatten hkey

namespace Window

variable {schema : Schema} {spec : WindowSpec} {defaults : WindowDefaults} {w : Window}
  {positions : List Nat} {rows : List Row} {d d' : DataSet} {groups : List Group}

/-- The second row has what the first one has in the places that the window reads. -/
structure SamePlaces (w : Window) (positions : List Nat) (own made : Row) : Prop where
  key : made.key positions = own.key positions
  sorts : ∀ e ∈ w.ordering, made.valueAt e.1 = own.valueAt e.1

/-- The partition keys, in the given places, and the sort keys are no measures. -/
structure ReadsNoMeasure (w : Window) (schema : Schema) (positions : List Nat) : Prop where
  keys : ∀ p ∈ positions, ∃ c, schema.components[p]? = some c ∧ c.role ≠ .measure
  sorts : ∀ e ∈ w.ordering, ∃ c, schema.components[e.1]? = some c ∧ c.role ≠ .measure

/-- A window whose sort keys name no measures reads no measures. -/
theorem readsNoMeasure_of_resolve? (hw : resolve? schema spec defaults = .ok w)
    (hspec : ∀ item ∈ spec.orderBy, ∀ c, schema.component? item.name = some c → c.role ≠ .measure)
    (hplaces : List.Forall₂ (fun k i => schema.components[i]? = some k) w.partition positions) :
    w.ReadsNoMeasure schema positions := by
  obtain ⟨ordering, hkeys, hordering⟩ := keys_of_resolve? hw
  constructor
  case keys =>
    intro p hp
    obtain ⟨c, hc, hget⟩ := exists_of_forall₂ hplaces.flip hp
    refine ⟨c, hget, ?_⟩
    rw [hkeys.role_partition hc]
    decide
  case sorts =>
    intro e he
    obtain ⟨key, hkey, hget, -⟩ := exists_of_forall₂ hordering.flip he
    exact ⟨key.1, hget, hkeys.role_ordering hspec hkey⟩

theorem SamePlaces.order {a b a' b' : Row} (ha : w.SamePlaces positions a a')
    (hb : w.SamePlaces positions b b') : w.order a b = w.order a' b' := by
  unfold Window.order
  have hsorts (e : Nat × SortDirection) (he : e ∈ w.ordering) :=
    And.intro (ha.sorts e he) (hb.sorts e he)
  generalize w.ordering = ordering at hsorts
  induction ordering with
  | nil => rfl
  | cons e rest ih =>
    obtain ⟨hfirst, hfirst'⟩ := hsorts e List.mem_cons_self
    rw [orderBy, orderBy, hfirst, hfirst', ih fun e he => hsorts e (List.mem_cons_of_mem _ he)]

/-- What is made of sorted rows, keeping what the window reads, is sorted. -/
theorem sortRows_again {part : List Row}
    (h : List.Forall₂ (w.SamePlaces positions) (w.sortRows rows) part) :
    w.sortRows part = part := by
  have hsorted := (w.stableSort_sortRows rows).ascending
  refine sortRows_of_pairwise (forall₂_pairwise h hsorted fun a b a' b' ha hb hle => ?_)
  rw [← ha.order hb]
  exact hle

/-- What is made of the rows of a group, keeping what the window reads, carries its key. -/
theorem carries_key (h : Grouped positions rows groups) {g : Group} (hg : g ∈ groups)
    {part : List Row} (hpart : List.Forall₂ (w.SamePlaces positions) (w.sortRows g.rows) part) :
    part ≠ [] ∧ ∀ r ∈ part, orderLists (r.key positions) g.key = .eq := by
  have hperm := (w.stableSort_sortRows g.rows).perm
  constructor
  · intro hnone
    obtain ⟨first, rest, hfirst, -⟩ := h.first g hg
    have hlength := hpart.length_eq
    rw [hnone, hperm.length_eq, hfirst] at hlength
    nomatch hlength
  · intro r hr
    obtain ⟨own, hown, hsame⟩ := exists_of_forall₂ hpart.flip hr
    have hmem : own ∈ g.rows := hperm.mem_iff.1 hown
    rw [h.rows_eq g hg] at hmem
    rw [hsame.key]
    exact of_decide_eq_true (List.mem_filter.1 hmem).2

/-- What is made of sorted partitions row by row, keeping what the window reads, is cut into the
same partitions again, in the same order. -/
theorem partitions_again (hpositions : d.keyPositions w.partition = .ok positions)
    (hschema : d'.schema = d.schema) (hgroups : w.partitions d = .ok groups)
    {parts : List (List Row)} (hmade : d'.collect = .ok parts.flatten)
    (hparts : List.Forall₂ (fun g part => List.Forall₂ (w.SamePlaces positions) (Group.rows g) part)
      groups parts) :
    ∃ groups', w.partitions d' = .ok groups' ∧ groups'.map Group.rows = parts := by
  obtain ⟨unsorted, hunsorted, -⟩ := bind_eq_ok.1 hgroups
  obtain ⟨rows, hrows⟩ := exists_collect_of_groupBy hunsorted
  have hgrouped := grouped_ofRows positions rows
  cases hgroups.symm.trans (partitions_eq_ok hpositions hrows)
  have hparts := List.forall₂_map_left_iff.1 hparts
  have hcarries := (forall₂_mem hparts).imp fun g part h => carries_key hgrouped h.2.1 h.1
  have hagain := (grouped_ofRows positions parts.flatten).rows_eq_parts
    (List.pairwise_map.2 hgrouped.ascending) (List.forall₂_map_left_iff.2 hcarries)
  refine ⟨_, partitions_eq_ok ((keyPositions_eq hschema w.partition).trans hpositions) hmade, ?_⟩
  have hsorted : ∀ part ∈ parts, w.sortRows part = part := by
    intro part hpart
    obtain ⟨g, -, hsame⟩ := exists_of_forall₂ hparts.flip hpart
    exact sortRows_again hsame
  calc _ = ((PartitionMap.ofRows positions (numbered parts.flatten)).groups.map Group.rows).map
        w.sortRows := by rw [List.map_map, List.map_map]; rfl
    _ = parts.map w.sortRows := by rw [hagain]
    _ = parts.map id := List.map_congr_left hsorted
    _ = parts := List.map_id parts

end Window

/-! ## Two shifts -/

namespace Shift

variable {direction : Shift} {a b i j k : Nat} {label label' label'' : String} {schema : Schema}
  {sorted mids twice once : List Row} {own mid made : Row}

/-- On the way to a place there is one that splits the distance. -/
theorem Points.exists_between (h : direction.Points (a + b) i j) :
    ∃ k, direction.Points b i k ∧ direction.Points a k j ∧ k ≤ max i j := by
  cases direction with
  | lag =>
    have hplaces : i = j + (a + b) := h
    exact ⟨j + a, show i = j + a + b by omega, rfl, by omega⟩
  | lead =>
    have hplaces : j = i + (a + b) := h
    exact ⟨i + b, rfl, show j = i + b + a by omega, by omega⟩

theorem Points.trans (h : direction.Points b i k) (h' : direction.Points a k j) :
    direction.Points (a + b) i j := by
  cases direction with
  | lag =>
    have hplaces : i = k + b ∧ k = j + a := ⟨h, h'⟩
    exact show i = j + (a + b) by omega
  | lead =>
    have hplaces : k = i + b ∧ j = k + a := ⟨h, h'⟩
    exact show j = i + (a + b) by omega

/-- The row that a shift makes of the rows of another one is that of a single shift, but for the
lineage. -/
theorem RowAt.comp (hschema : ∀ r ∈ sorted, r.schema = schema)
    (hmids : PartitionOf direction a none label sorted mids) (hi : sorted[i]? = some own)
    (hmid : mids[i]? = some mid) (h : RowAt direction b none label' mids i mid made) :
    RowAt direction (a + b) none label'' sorted i own
      { made with lineage := DataSet.derivedLineage label'' own } := by
  have hmember {k : Nat} {r : Row} (hr : sorted[k]? = some r) : r.schema = schema :=
    hschema r (List.mem_of_getElem? hr)
  have hown : own.schema = schema := hmember hi
  obtain ⟨mid', hmid', hfirst⟩ := hmids.rowAt i own hi
  cases hmid.symm.trans hmid'
  refine ⟨h.schema.trans hfirst.schema, rfl, fun c hc hrole => ?_, ?_, ?_⟩
  · have hkept : made.get? c.name = mid.get? c.name := h.kept c (hfirst.schema ▸ hc) hrole
    exact hkept.trans (hfirst.kept c hc hrole)
  · intro j source hpoints hsource m hm
    obtain ⟨k, hik, hkj, hk⟩ := hpoints.exists_between
    have hlt : k < sorted.length := by
      have hilt := (List.getElem?_eq_some_iff.1 hi).1
      have hjlt := (List.getElem?_eq_some_iff.1 hsource).1
      omega
    have hthird : sorted[k]? = some sorted[k] := List.getElem?_eq_getElem hlt
    obtain ⟨midway, hmidway, hrow⟩ := hmids.rowAt k _ hthird
    have hshifted : made.get? m.name = midway.get? m.name :=
      h.shifted k midway hik hmidway m (hfirst.schema ▸ hm)
    rw [hown, ← hmember hthird] at hm
    exact hshifted.trans (hrow.shifted j source hkj hsource m hm)
  · intro hmissing m hm
    rcases source_cases direction b i mids with ⟨k, midway, hik, hmidway⟩ | hnone
    · obtain ⟨third, hthird, hrow⟩ := hmids.exists_own hmidway
      have hshifted : made.get? m.name = midway.get? m.name :=
        h.shifted k midway hik hmidway m (hfirst.schema ▸ hm)
      rw [hown, ← hmember hthird] at hm
      obtain ⟨v, hv, hfills⟩ := hrow.filled (fun j hkj => hmissing j (hik.trans hkj)) m hm
      exact ⟨v, hshifted.trans hv, hfills⟩
    · exact h.filled hnone m (hfirst.schema ▸ hm)

/-- Two shifts of a partition make the rows of a single one. -/
theorem PartitionOf.comp (hschema : ∀ r ∈ sorted, r.schema = schema)
    (hmids : PartitionOf direction a none label sorted mids)
    (htwice : PartitionOf direction b none label' mids twice)
    (honce : PartitionOf direction (a + b) none label'' sorted once)
    (htwiceFits : ∀ r ∈ twice, r.WellFormed) (honceFits : ∀ r ∈ once, r.WellFormed) :
    List.Forall₂ Row.SameValues twice once := by
  have hlength : twice.length = once.length :=
    (htwice.length.trans hmids.length).trans honce.length.symm
  refine forall₂_of_getElem? hlength fun i made made' hmade hmade' => ?_
  obtain ⟨mid, hmid, hrow⟩ := htwice.exists_own hmade
  obtain ⟨own, hown, hrow'⟩ := honce.exists_own hmade'
  have hcomp : RowAt direction (a + b) none label'' sorted i own
      { made with lineage := DataSet.derivedLineage label'' own } :=
    hrow.comp hschema hmids hown hmid
  exact hcomp.sameValues hrow' (htwiceFits made (List.mem_of_getElem? hmade))
    (honceFits made' (List.mem_of_getElem? hmade'))

/-- A shift changes nothing that a window reads if that is no measure. -/
theorem RowAt.samePlaces {offset : Nat} {default : Option Scalar} {w : Window}
    {positions : List Nat} (h : RowAt direction offset default label sorted i own made)
    (hown : own.WellFormed) (hmade : made.WellFormed)
    (hreads : w.ReadsNoMeasure own.schema positions) : w.SamePlaces positions own made := by
  have hplace {p : Nat} (hp : ∃ c, own.schema.components[p]? = some c ∧ c.role ≠ .measure) :
      made.valueAt p = own.valueAt p := by
    obtain ⟨c, hc, hrole⟩ := hp
    have hkept := h.kept c (List.mem_of_getElem? hc) hrole
    rw [hown.valueAt_eq hc, hmade.valueAt_eq (h.schema ▸ hc), Row.valueOf, Row.valueOf, hkept]
  exact ⟨List.map_congr_left fun p hp => hplace (hreads.keys p hp),
    fun e he => hplace (hreads.sorts e he)⟩

theorem PartitionOf.samePlaces {offset : Nat} {default : Option Scalar} {w : Window}
    {positions : List Nat} (h : PartitionOf direction offset default label sorted mids)
    (hsorted : ∀ r ∈ sorted, r.schema = schema ∧ r.WellFormed) (hmids : ∀ r ∈ mids, r.WellFormed)
    (hreads : w.ReadsNoMeasure schema positions) :
    List.Forall₂ (w.SamePlaces positions) sorted mids := by
  refine forall₂_of_getElem? h.length.symm fun i own mid hown hmid => ?_
  obtain ⟨own', hown', hrow⟩ := h.exists_own hmid
  cases hown.symm.trans hown'
  obtain ⟨rfl, hfits⟩ := hsorted own (List.mem_of_getElem? hown)
  exact hrow.samePlaces hfits (hmids mid (List.mem_of_getElem? hmid)) hreads

/-- Without a default every measure can be filled. -/
theorem exists_collect_unfilled (direction : Shift) (offset : Nat) (label : String) {d : DataSet}
    {w : Window} {groups : List Group} (hd : d.WellFormed)
    (hgroups : w.partitions d = .ok groups) :
    ∃ made, (direction.run offset none w label d).collect = .ok made := by
  refine (exists_collect_run_iff hgroups).2 fun g hg => exists_partition (fun r hr => ?_) ?_
  · exact hd r (Window.mem_of_partitions hgroups hg hr)
  · exact fun v hv => nomatch hv

end Shift

/-- Under a window that does not sort by measures, shifting by one offset and then by another one in
the same direction gives the rows of a single shift by both together, in the same order and with the
same values. -/
theorem shifts_compose {direction : Shift} {x : Expr} {a b : Nat} {spec : WindowSpec}
    {scope : Scope} {d : DataSet} {rows : List Row} {w : Window}
    (hx : x.eval scope = .ok (.dataset d)) (hd : d.WellFormed) (hrows : d.collect = .ok rows)
    (hw : Window.resolve? d.schema spec .identifiers = .ok w)
    (hspec : ∀ item ∈ spec.orderBy, ∀ c, d.schema.component? item.name = some c →
      c.role ≠ .measure) :
    ∃ twice once,
      (Expr.shift direction (.shift direction x a none spec) b none spec).DrainsTo scope twice ∧
      (Expr.shift direction x (a + b) none spec).DrainsTo scope once ∧
      List.Forall₂ Row.SameValues twice once := by
  obtain ⟨positions, hpositions, hplaces⟩ := keyPositions_eq_ok (Window.resolve?_eq_ok hw).1
  have hreads := Window.readsNoMeasure_of_resolve? hw hspec hplaces
  obtain ⟨groups, hgroups⟩ : ∃ groups, w.partitions d = .ok groups :=
    ⟨_, Window.partitions_eq_ok hpositions hrows⟩
  have hmember : ∀ g ∈ groups, ∀ r ∈ g.rows, r.schema = d.schema ∧ r.WellFormed :=
    fun g hg r hr => hd r (Window.mem_of_partitions hgroups hg hr)
  let inner := Expr.shift direction x a none spec
  let out := direction.run a none w inner.text d
  have hinner : inner.eval scope = .ok (.dataset out) := Expr.eval_shift hx hw
  have hout : out.WellFormed := Shift.wellFormed_run direction a none w inner.text d
  obtain ⟨made, hmade⟩ := Shift.exists_collect_unfilled direction a inner.text hd hgroups
  obtain ⟨mids, rfl, hfirst⟩ := Shift.exists_parts hd hgroups hmade
  have hsame : List.Forall₂ (fun g part =>
      List.Forall₂ (w.SamePlaces positions) (Group.rows g) part) groups mids :=
    (forall₂_mem hfirst).imp fun g part h =>
      h.1.1.samePlaces (hmember g h.2.1) h.1.2 hreads
  obtain ⟨groups', hgroups', hagain⟩ :=
    Window.partitions_again hpositions (show out.schema = d.schema from rfl) hgroups hmade hsame
  obtain ⟨twice, htwice⟩ := Shift.exists_collect_unfilled direction b
    (Expr.shift direction inner b none spec).text hout hgroups'
  obtain ⟨once, honce⟩ := Shift.exists_collect_unfilled direction (a + b)
    (Expr.shift direction x (a + b) none spec).text hd hgroups
  refine ⟨twice, once, ⟨_, Expr.eval_shift hinner hw, htwice⟩,
    ⟨_, Expr.eval_shift hx hw, honce⟩, ?_⟩
  obtain ⟨parts, rfl, hsecond⟩ := Shift.exists_parts hout hgroups' htwice
  obtain ⟨parts', rfl, hsingle⟩ := Shift.exists_parts hd hgroups honce
  refine List.rel_flatten ?_
  -- the partitions of both operands correspond, and so does what is made of them
  rw [← hagain] at hfirst
  have hmade := forall₂_comp (forall₂_comp hsecond.flip (List.forall₂_map_left_iff.1 hfirst.flip))
    (forall₂_mem hsingle)
  refine hmade.imp fun part part' h => ?_
  obtain ⟨g, ⟨g', htwice, hmids⟩, honce, hg, -⟩ := h
  exact hmids.1.comp (fun r hr => (hmember g hg r hr).1) htwice.1 honce.1 htwice.2 honce.2

/-- A window that sorts by both identifiers, and so has all rows in one partition. -/
def byBothKeys : WindowSpec := ⟨[], [⟨"j", .asc⟩, ⟨"k", .asc⟩]⟩

/-- The measure of the previous row. -/
def lagOnce : Expr := .shift .lag (.var "ds") 1 none byBothKeys

/-- The measure two rows before each row, in two steps. -/
def lagOfLag : Expr := .shift .lag lagOnce 1 none byBothKeys

/-- A row with the measure of the previous row. -/
def laggedOnce (k : String) (j : Int64) (m : Scalar) : Row :=
  ⟨keyedTwice, [.string k, .integer j, m], .node lagOnce.text [.known "ds"]⟩

/-- A row with the measure two rows before it. -/
def laggedTwice (k : String) (j : Int64) (m : Scalar) : Row :=
  ⟨keyedTwice, [.string k, .integer j, m], .node lagOfLag.text [(laggedOnce k j m).lineage]⟩

theorem drainsTo_lagOfLag :
    lagOfLag.DrainsTo keyedTwiceScope [laggedTwice "a" 1 (.null .integer),
      laggedTwice "b" 1 (.null .integer), laggedTwice "a" 2 (.integer 4)] := by
  let w : Window := ⟨[], [(1, .asc), (0, .asc)]⟩
  have hgroups : w.partitions keyedTwiceDataSet = .ok
      [⟨[], [⟨keyedTwice, [.string "a", .integer 1, .integer 4], .known "ds"⟩,
        ⟨keyedTwice, [.string "b", .integer 1, .null .integer], .known "ds"⟩,
        ⟨keyedTwice, [.string "a", .integer 2, .integer 7], .known "ds"⟩]⟩] := by
    rw [Window.partitions_whole rfl (List.cons_ne_nil _ _), Window.sortRows_of_pairwise (by decide)]
  let once := Shift.lag.run 1 none w lagOnce.text keyedTwiceDataSet
  have honce : once.collect = .ok [laggedOnce "a" 1 (.null .integer),
      laggedOnce "b" 1 (.integer 4), laggedOnce "a" 2 (.null .integer)] :=
    (Shift.collect_run hgroups).trans rfl
  have hgroups' : w.partitions once = .ok [⟨[], [laggedOnce "a" 1 (.null .integer),
      laggedOnce "b" 1 (.integer 4), laggedOnce "a" 2 (.null .integer)]⟩] := by
    rw [Window.partitions_whole honce (List.cons_ne_nil _ _),
      Window.sortRows_of_pairwise (by decide)]
  exact ⟨_, rfl, (Shift.collect_run hgroups').trans rfl⟩

/-- The last of three rows has the measure of the first one, at once as in two steps. -/
theorem shifts_compose_lagOfLag :
    Window.resolve? keyedTwice byBothKeys .identifiers = .ok ⟨[], [(1, .asc), (0, .asc)]⟩ ∧
      keyedTwiceDataSet.WellFormed ∧
      (∀ item ∈ byBothKeys.orderBy, ∀ c, keyedTwice.component? item.name = some c →
        c.role ≠ .measure) ∧
      ∃ twice once, lagOfLag.DrainsTo keyedTwiceScope twice ∧
        (Expr.shift .lag (.var "ds") 2 none byBothKeys).DrainsTo keyedTwiceScope once ∧
        List.Forall₂ Row.SameValues twice once ∧
        twice.map Row.values = [[.string "a", .integer 1, .null .integer],
          [.string "b", .integer 1, .null .integer], [.string "a", .integer 2, .integer 4]] := by
  have hw : Window.resolve? keyedTwice byBothKeys .identifiers =
      .ok ⟨[], [(1, .asc), (0, .asc)]⟩ := rfl
  have hd : keyedTwiceDataSet.WellFormed := DataSet.wellFormed_named named_keyedTwiceDataSet
  have hspec : ∀ item ∈ byBothKeys.orderBy, ∀ c, keyedTwice.component? item.name = some c →
      c.role ≠ .measure := by
    decide
  have hx : (Expr.var "ds").eval keyedTwiceScope = .ok (.dataset keyedTwiceDataSet) := rfl
  obtain ⟨twice, once, htwice, honce, hsame⟩ :=
    @shifts_compose .lag _ 1 1 _ _ _ _ _ hx hd rfl hw hspec
  refine ⟨hw, hd, hspec, twice, once, htwice, honce, hsame, ?_⟩
  obtain ⟨out, hout, hrows⟩ := htwice
  obtain ⟨out', hout', hrows'⟩ := drainsTo_lagOfLag
  cases hout.symm.trans hout'
  cases hrows.symm.trans hrows'
  rfl

end DataCube
