import Mathlib.Data.List.Basic
import Mathlib.Data.List.Nodup
import Mathlib.Data.List.Pairwise
import DataCube.Grouping
import DataCube.Reducer.Split
import DataCube.Proofs.RowStreams
import DataCube.Proofs.ScalarOrder

/-!
# Grouping in parallel

Rows can be grouped in one pass, or slice by slice with the partition maps of neighbouring slices
merged.  Either way every key has the rows that carry it, in the order of the input, and stands with
the values of the first of them; this determines the groups.

* `PartitionMap.Built`: the maps that a pass over slices can end with, for any hash of keys and any
  order of hash tables.
* `PartitionMap.Represents`: what a map says of the rows that went into it.  Insertion preserves it,
  so every map that is built represents the rows of all its slices.
* `Grouped`: what the sorted groups of a list of rows are, which there is only one list for.
* `groupBy_parallel`: the result.
-/

namespace DataCube

/-! ## Equality of keys -/

namespace Scalar

theorem orderLists_refl (a : List Scalar) : orderLists a a = .eq := Std.ReflCmp.compare_self

theorem orderLists_symm {a b : List Scalar} (h : orderLists a b = .eq) : orderLists b a = .eq :=
  Std.OrientedCmp.eq_symm h

theorem orderLists_trans {a b c : List Scalar} (hab : orderLists a b = .eq)
    (hbc : orderLists b c = .eq) : orderLists a c = .eq :=
  Std.TransCmp.eq_trans hab hbc

/-- What carries a key carries every key equal to it. -/
theorem filter_orderLists_congr {α : Type} (key : α → List Scalar) (xs : List α) {a b : List Scalar}
    (h : orderLists a b = .eq) :
    (xs.filter fun x => orderLists (key x) a = .eq) =
      xs.filter fun x => orderLists (key x) b = .eq :=
  List.filter_congr fun _ _ => decide_eq_decide.2
    ⟨fun hx => orderLists_trans hx h, fun hx => orderLists_trans hx (orderLists_symm h)⟩

/-- In a list in strictly ascending order of key, no two members have equal keys. -/
theorem eq_of_ascending {α : Type} {key : α → List Scalar} {xs : List α} {a b : α}
    (h : xs.Pairwise fun a b => orderLists (key a) (key b) = .lt) (ha : a ∈ xs) (hb : b ∈ xs)
    (hkey : orderLists (key a) (key b) = .eq) : a = b := by
  have hdistinct : xs.Pairwise fun a b => orderLists (key a) (key b) ≠ .eq := by
    refine h.imp fun {a b} hlt heq => ?_
    rw [hlt] at heq
    nomatch heq
  have hsymm : Std.Symm fun a b : α => orderLists (key a) (key b) ≠ .eq :=
    ⟨fun _ _ hab hba => hab (orderLists_symm hba)⟩
  by_contra hne
  exact hdistinct.forall ha hb hne hkey

end Scalar

namespace PartitionMap

open Scalar (orderLists orderLists_refl orderLists_symm orderLists_trans)

/-! ## Building maps -/

/-- Appends rows to those of a key, in a table that finds keys by a hash of their canonical form. -/
def insertHashed (hash : List Scalar → UInt64) (key : List Scalar) (rows : List (Nat × Row)) :
    PartitionMap → PartitionMap
  | [] => [(key, rows)]
  | (k, present) :: rest =>
    if hash (k.map Scalar.canonical) = hash (key.map Scalar.canonical) ∧ orderLists k key = .eq then
      (k, present ++ rows) :: rest
    else (k, present) :: insertHashed hash key rows rest

/-- Equal keys have equal hashes, so a table finds every key that it holds. -/
theorem insertHashed_eq_append (hash : List Scalar → UInt64) (key : List Scalar)
    (rows : List (Nat × Row)) (map : PartitionMap) :
    insertHashed hash key rows map = append key rows map := by
  induction map with
  | nil => rfl
  | cons e rest ih =>
    obtain ⟨k, present⟩ := e
    rw [insertHashed, append, ih]
    by_cases hk : orderLists k key = .eq
    · rw [if_pos hk, if_pos ⟨by rw [Scalar.orderLists_eq_iff.1 hk], hk⟩]
    · rw [if_neg hk, if_neg fun h => hk h.2]

/-- The maps that are made from one by inserting entries, where the order of a table may change
between any two insertions. -/
inductive Inserts (hash : List Scalar → UInt64) :
    PartitionMap → List (List Scalar × List (Nat × Row)) → PartitionMap → Prop where
  | done {map map' : PartitionMap} : map.Perm map' → Inserts hash map [] map'
  | insert {map map' out : PartitionMap} {key : List Scalar} {rows : List (Nat × Row)}
      {entries : List (List Scalar × List (Nat × Row))} :
      map.Perm map' → Inserts hash (insertHashed hash key rows map') entries out →
      Inserts hash map ((key, rows) :: entries) out

/-- The maps that a pass over slices can end with: the rows of a slice are inserted one by one, and
of two neighbouring maps the entries of the right one are inserted into the left one. -/
inductive Built (hash : List Scalar → UInt64) (positions : List Nat) :
    Split (Nat × Row) → PartitionMap → Prop where
  | slice {rows : List (Nat × Row)} {map : PartitionMap} :
      Inserts hash [] (rows.map fun x => (x.2.key positions, [x])) map →
      Built hash positions (.slice rows) map
  | join {left right : Split (Nat × Row)} {l r map : PartitionMap} :
      Built hash positions left l → Built hash positions right r → Inserts hash l r map →
      Built hash positions (.join left right) map

/-! ## What a map represents -/

/-- The rows that carry values equal to a key. -/
def rowsOf (positions : List Nat) (key : List Scalar) (rows : List (Nat × Row)) :
    List (Nat × Row) :=
  rows.filter fun x => orderLists (x.2.key positions) key = .eq

/-- Rows that can be inserted under a key: some rows that carry it, the first of them exactly. -/
def Carry (positions : List Nat) (key : List Scalar) (rows : List (Nat × Row)) : Prop :=
  (∀ x ∈ rows, orderLists (x.2.key positions) key = .eq) ∧
    ∃ first rest, rows = first :: rest ∧ key = first.2.key positions

/-- The keys differ, each has the rows that carry it and the values of the first of them, and there
is a key for every row. -/
structure Represents (positions : List Nat) (rows : List (Nat × Row)) (map : PartitionMap) :
    Prop where
  distinct : map.Pairwise fun a b => orderLists a.1 b.1 ≠ .eq
  rows_eq : ∀ e ∈ map, e.2 = rowsOf positions e.1 rows
  first : ∀ e ∈ map, ∃ first rest, e.2 = first :: rest ∧ e.1 = first.2.key positions
  covers : ∀ x ∈ rows, ∃ e ∈ map, orderLists (x.2.key positions) e.1 = .eq

variable {positions : List Nat} {xs ys : List (Nat × Row)} {map map' : PartitionMap}

theorem mem_rowsOf {key : List Scalar} {x : Nat × Row} :
    x ∈ rowsOf positions key xs ↔ x ∈ xs ∧ orderLists (x.2.key positions) key = .eq := by
  rw [rowsOf, List.mem_filter, decide_eq_true_iff]

theorem rowsOf_append (key : List Scalar) :
    rowsOf positions key (xs ++ ys) = rowsOf positions key xs ++ rowsOf positions key ys :=
  List.filter_append ..

theorem rowsOf_eq_nil {key : List Scalar}
    (h : ∀ x ∈ xs, orderLists (x.2.key positions) key ≠ .eq) : rowsOf positions key xs = [] := by
  rw [rowsOf, List.filter_eq_nil_iff]
  intro x hx hkey
  exact h x hx (of_decide_eq_true hkey)

theorem rowsOf_eq_self {key : List Scalar}
    (h : ∀ x ∈ xs, orderLists (x.2.key positions) key = .eq) : rowsOf positions key xs = xs :=
  List.filter_eq_self.2 fun x hx => decide_eq_true (h x hx)

theorem rowsOf_congr {key key' : List Scalar} (h : orderLists key key' = .eq) :
    rowsOf positions key xs = rowsOf positions key' xs :=
  Scalar.filter_orderLists_congr (fun x : Nat × Row => x.2.key positions) xs h

namespace Represents

theorem nil : Represents positions [] [] where
  distinct := .nil
  rows_eq _ he := nomatch he
  first _ he := nomatch he
  covers _ hx := nomatch hx

/-- The order of a map carries no meaning. -/
theorem perm (h : Represents positions xs map) (hperm : map.Perm map') :
    Represents positions xs map' where
  distinct := hperm.pairwise h.distinct fun hab hba => hab (orderLists_symm hba)
  rows_eq e he := h.rows_eq e (hperm.mem_iff.2 he)
  first e he := h.first e (hperm.mem_iff.2 he)
  covers x hx := by
    obtain ⟨e, he, hkey⟩ := h.covers x hx
    exact ⟨e, hperm.mem_iff.1 he, hkey⟩

/-- Only the rows of each key matter. -/
theorem congr (h : Represents positions xs map)
    (hrows : ∀ key, rowsOf positions key xs = rowsOf positions key ys) :
    Represents positions ys map where
  distinct := h.distinct
  rows_eq e he := (h.rows_eq e he).trans (hrows e.1)
  first := h.first
  covers x hx := by
    have hmem : x ∈ rowsOf positions (x.2.key positions) ys :=
      mem_rowsOf.2 ⟨hx, orderLists_refl _⟩
    rw [← hrows] at hmem
    exact h.covers x (mem_rowsOf.1 hmem).1

end Represents

/-! ## Insertion -/

/-- Insertion adds an entry for a new key, or adds to the one entry of the key. -/
theorem append_cases (key : List Scalar) (rows : List (Nat × Row)) (map : PartitionMap) :
    (∀ e ∈ map, orderLists e.1 key ≠ .eq) ∧ append key rows map = map ++ [(key, rows)] ∨
      ∃ before k present after, map = before ++ (k, present) :: after ∧ orderLists k key = .eq ∧
        append key rows map = before ++ (k, present ++ rows) :: after := by
  induction map with
  | nil => exact Or.inl ⟨fun _ he => (nomatch he), rfl⟩
  | cons e rest ih =>
    obtain ⟨k, present⟩ := e
    rw [append]
    by_cases hk : orderLists k key = .eq
    · rw [if_pos hk]
      exact Or.inr ⟨[], k, present, rest, rfl, hk, rfl⟩
    · rw [if_neg hk]
      rcases ih with ⟨hnone, h⟩ | ⟨before, k', present', after, rfl, hk', h⟩
      · exact Or.inl ⟨List.forall_mem_cons.2 ⟨hk, hnone⟩, by rw [h]; rfl⟩
      · exact Or.inr ⟨(k, present) :: before, k', present', after, rfl, hk', by rw [h]; rfl⟩

/-- Other keys have none of the rows of a key. -/
theorem rowsOf_carry {key other : List Scalar} {rows : List (Nat × Row)}
    (hrows : Carry positions key rows) (h : orderLists other key ≠ .eq) :
    rowsOf positions other rows = [] :=
  rowsOf_eq_nil fun x hx hother => h (orderLists_trans (orderLists_symm hother) (hrows.1 x hx))

/-- An entry for a new key has the rows inserted, since no earlier row carries it. -/
theorem Represents.append_new (h : Represents positions xs map) {key : List Scalar}
    {rows : List (Nat × Row)} (hrows : Carry positions key rows)
    (hnew : ∀ e ∈ map, orderLists e.1 key ≠ .eq) :
    Represents positions (xs ++ rows) (map ++ [(key, rows)]) where
  distinct := by
    refine List.pairwise_append.2 ⟨h.distinct, List.pairwise_singleton _ _, fun e he e' he' => ?_⟩
    rw [List.mem_singleton.1 he']
    exact hnew e he
  rows_eq e he := by
    rw [rowsOf_append]
    rcases List.mem_append.1 he with he | he
    · rw [rowsOf_carry hrows (hnew e he), List.append_nil]
      exact h.rows_eq e he
    · rw [List.mem_singleton.1 he, rowsOf_eq_self hrows.1, rowsOf_eq_nil fun x hx hkey => ?_]
      · rfl
      · obtain ⟨e', he', hx'⟩ := h.covers x hx
        exact hnew e' he' (orderLists_trans (orderLists_symm hx') hkey)
  first e he := by
    rcases List.mem_append.1 he with he | he
    · exact h.first e he
    · rw [List.mem_singleton.1 he]
      exact hrows.2
  covers x hx := by
    rcases List.mem_append.1 hx with hx | hx
    · obtain ⟨e, he, hkey⟩ := h.covers x hx
      exact ⟨e, List.mem_append_left _ he, hkey⟩
    · exact ⟨(key, rows), List.mem_append_right _ List.mem_cons_self, hrows.1 x hx⟩

section

variable {before after : PartitionMap} {k key : List Scalar} {present rows : List (Nat × Row)}

/-- Beside the entry of a known key there are only entries of other keys, and these stay. -/
theorem Represents.mem_known (h : Represents positions xs (before ++ (k, present) :: after))
    (hk : orderLists k key = .eq) {e : List Scalar × List (Nat × Row)}
    (he : e ∈ before ++ (k, present ++ rows) :: after) :
    e = (k, present ++ rows) ∨
      e ∈ before ++ (k, present) :: after ∧ orderLists e.1 key ≠ .eq := by
  obtain ⟨-, hrest, hbetween⟩ := List.pairwise_append.1 h.distinct
  have hafter := (List.pairwise_cons.1 hrest).1
  have hsymm := orderLists_symm hk
  rcases List.mem_append.1 he with he | he
  · refine Or.inr ⟨List.mem_append_left _ he, fun hkey => ?_⟩
    exact hbetween e he (k, present) List.mem_cons_self (orderLists_trans hkey hsymm)
  · rcases List.mem_cons.1 he with he | he
    · exact Or.inl he
    · refine Or.inr ⟨List.mem_append_right _ (List.mem_cons_of_mem _ he), fun hkey => ?_⟩
      exact hafter e he (orderLists_symm (orderLists_trans hkey hsymm))

/-- The entry of a known key is given the rows inserted, behind those it has. -/
theorem Represents.append_known (h : Represents positions xs (before ++ (k, present) :: after))
    (hrows : Carry positions key rows) (hk : orderLists k key = .eq) :
    Represents positions (xs ++ rows) (before ++ (k, present ++ rows) :: after) := by
  have hentry : (k, present) ∈ before ++ (k, present) :: after :=
    List.mem_append_right _ List.mem_cons_self
  constructor
  case distinct =>
    obtain ⟨hbefore, hrest, hbetween⟩ := List.pairwise_append.1 h.distinct
    refine List.pairwise_append.2 ⟨hbefore, List.pairwise_cons.2 (List.pairwise_cons.1 hrest), ?_⟩
    intro e he e' he'
    rcases List.mem_cons.1 he' with rfl | he'
    · exact hbetween e he (k, present) List.mem_cons_self
    · exact hbetween e he e' (List.mem_cons_of_mem _ he')
  case rows_eq =>
    intro e he
    rw [rowsOf_append]
    rcases h.mem_known hk he with rfl | ⟨he, hother⟩
    · rw [← h.rows_eq (k, present) hentry, rowsOf_congr hk, rowsOf_eq_self hrows.1]
    · rw [rowsOf_carry hrows hother, List.append_nil]
      exact h.rows_eq e he
  case first =>
    intro e he
    rcases h.mem_known hk he with rfl | ⟨he, -⟩
    · obtain ⟨first, rest, hpresent, hfirst⟩ := h.first (k, present) hentry
      exact ⟨first, rest ++ rows, congrArg (fun r => r ++ rows) hpresent, hfirst⟩
    · exact h.first e he
  case covers =>
    intro x hx
    rcases List.mem_append.1 hx with hx | hx
    · obtain ⟨e, he, hkey⟩ := h.covers x hx
      rcases List.mem_append.1 he with he | he
      · exact ⟨e, List.mem_append_left _ he, hkey⟩
      · rcases List.mem_cons.1 he with rfl | he
        · exact ⟨_, List.mem_append_right _ List.mem_cons_self, hkey⟩
        · exact ⟨e, List.mem_append_right _ (List.mem_cons_of_mem _ he), hkey⟩
    · have hcarried := orderLists_trans (hrows.1 x hx) (orderLists_symm hk)
      exact ⟨_, List.mem_append_right _ List.mem_cons_self, hcarried⟩

end

/-- Inserting rows under their key represents them too. -/
theorem Represents.append (h : Represents positions xs map) {key : List Scalar}
    {rows : List (Nat × Row)} (hrows : Carry positions key rows) :
    Represents positions (xs ++ rows) (append key rows map) := by
  rcases append_cases key rows map with ⟨hnew, heq⟩ | ⟨before, k, present, after, rfl, hk, heq⟩
  · rw [heq]
    exact h.append_new hrows hnew
  · rw [heq]
    exact h.append_known hrows hk

theorem Represents.inserts (h : Represents positions xs map) {hash : List Scalar → UInt64}
    {out : PartitionMap} {entries : List (List Scalar × List (Nat × Row))}
    (hinserts : Inserts hash map entries out) (hentries : ∀ e ∈ entries, Carry positions e.1 e.2) :
    Represents positions (xs ++ (entries.map Prod.snd).flatten) out := by
  induction hinserts generalizing xs with
  | done hperm =>
    rw [List.map_nil, List.flatten_nil, List.append_nil]
    exact h.perm hperm
  | insert hperm _ ih =>
    obtain ⟨hfirst, hrest⟩ := List.forall_mem_cons.1 hentries
    rw [List.map_cons, List.flatten_cons, ← List.append_assoc]
    refine ih ?_ hrest
    rw [insertHashed_eq_append]
    exact (h.perm hperm).append hfirst

/-! ## Slices -/

theorem Represents.carry (h : Represents positions xs map) {e : List Scalar × List (Nat × Row)}
    (he : e ∈ map) : Carry positions e.1 e.2 := by
  refine ⟨fun x hx => ?_, h.first e he⟩
  rw [h.rows_eq e he] at hx
  exact (mem_rowsOf.1 hx).2

/-- The entries of a map hold the rows of every key in order, one key after the other. -/
theorem Represents.rowsOf_flatten (h : Represents positions xs map) (key : List Scalar) :
    rowsOf positions key (map.map Prod.snd).flatten = rowsOf positions key xs := by
  by_cases hkey : ∃ e ∈ map, orderLists e.1 key = .eq
  · obtain ⟨e, he, hek⟩ := hkey
    obtain ⟨before, after, rfl⟩ := List.append_of_mem he
    obtain ⟨-, hrest, hbetween⟩ := List.pairwise_append.1 h.distinct
    have none (part : PartitionMap)
        (hpart : ∀ e' ∈ part, e' ∈ before ++ e :: after ∧ orderLists e'.1 e.1 ≠ .eq) :
        rowsOf positions key (part.map Prod.snd).flatten = [] := by
      refine rowsOf_eq_nil fun x hx hxk => ?_
      obtain ⟨rows, hrows, hx⟩ := List.mem_flatten.1 hx
      obtain ⟨e', he', rfl⟩ := List.mem_map.1 hrows
      obtain ⟨hmem, hne⟩ := hpart e' he'
      have hx' := (h.carry hmem).1 x hx
      exact hne (orderLists_trans (orderLists_symm hx')
        (orderLists_trans hxk (orderLists_symm hek)))
    rw [List.map_append, List.flatten_append, List.map_cons, List.flatten_cons, rowsOf_append,
      rowsOf_append, none before fun e' he' => ⟨List.mem_append_left _ he',
        hbetween e' he' e List.mem_cons_self⟩,
      none after fun e' he' => ⟨List.mem_append_right _ (List.mem_cons_of_mem _ he'), fun heq =>
        (List.pairwise_cons.1 hrest).1 e' he' (orderLists_symm heq)⟩,
      List.nil_append, List.append_nil, ← rowsOf_congr hek, ← rowsOf_congr hek,
      ← h.rows_eq e he]
    exact rowsOf_eq_self (h.carry he).1
  · have hnone : ∀ e ∈ map, orderLists e.1 key ≠ .eq := fun e he heq => hkey ⟨e, he, heq⟩
    rw [rowsOf_eq_nil fun x hx hxk => ?_, rowsOf_eq_nil fun x hx hxk => ?_]
    · obtain ⟨e, he, hx'⟩ := h.covers x hx
      exact hnone e he (orderLists_trans (orderLists_symm hx') hxk)
    · obtain ⟨rows, hrows, hx⟩ := List.mem_flatten.1 hx
      obtain ⟨e, he, rfl⟩ := List.mem_map.1 hrows
      exact hnone e he (orderLists_trans (orderLists_symm ((h.carry he).1 x hx)) hxk)

/-- A row is carried by its own key. -/
theorem carry_singleton (x : Nat × Row) : Carry positions (x.2.key positions) [x] := by
  refine ⟨fun y hy => ?_, x, [], rfl, rfl⟩
  rw [List.mem_singleton.1 hy]
  exact orderLists_refl _

/-- Every map that can be built represents the rows of all slices. -/
theorem Built.represents {hash : List Scalar → UInt64} {split : Split (Nat × Row)}
    (h : Built hash positions split map) : Represents positions split.toList map := by
  induction h with
  | @slice rows map hinserts =>
    have hself (xs : List (Nat × Row)) :
        ((xs.map fun x => (x.2.key positions, [x])).map Prod.snd).flatten = xs := by
      induction xs with
      | nil => rfl
      | cons x xs ih =>
        rw [List.map_cons, List.map_cons, List.flatten_cons, ih]
        rfl
    have hrows : Represents positions
        ([] ++ ((rows.map fun x => (x.2.key positions, [x])).map Prod.snd).flatten) map := by
      refine Represents.nil.inserts hinserts fun e he => ?_
      obtain ⟨x, -, rfl⟩ := List.mem_map.1 he
      exact carry_singleton x
    rw [hself rows] at hrows
    exact hrows
  | @join left right l r map _ _ hinserts ihl ihr =>
    refine (ihl.inserts hinserts fun e he => ihr.carry he).congr fun key => ?_
    rw [Split.toList, rowsOf_append, rowsOf_append, ihr.rowsOf_flatten key]

end PartitionMap

/-! ## Groups -/

section Groups

open Scalar (orderLists orderLists_refl orderLists_symm orderLists_trans)

/-- The rows of a list with their places in it. -/
def numbered (rows : List Row) : List (Nat × Row) := rows.zipIdx.map fun e => (e.2, e.1)

theorem map_snd_numbered (rows : List Row) : (numbered rows).map Prod.snd = rows := by
  unfold numbered
  rw [List.map_map]
  exact List.zipIdx_map_fst 0 rows

theorem pairwise_numbered (rows : List Row) :
    (numbered rows).Pairwise fun a b => a.1 ≤ b.1 := by
  have hplaces : (rows.zipIdx.map Prod.snd).Pairwise (· < ·) := by
    rw [List.zipIdx_map_snd]
    exact List.pairwise_lt_range'
  unfold numbered
  rw [List.pairwise_map]
  exact (List.pairwise_map.1 hplaces).imp Nat.le_of_lt

/-- The groups of a list of rows: keys in strictly ascending order, each with all rows that carry
it, as they come in the list, and with the values of the first of them. -/
structure Grouped (positions : List Nat) (rows : List Row) (groups : List Group) : Prop where
  ascending : groups.Pairwise fun g g' => orderLists g.key g'.key = .lt
  rows_eq : ∀ g ∈ groups,
    g.rows = rows.filter fun r => orderLists (r.key positions) g.key = .eq
  first : ∀ g ∈ groups, ∃ first rest, g.rows = first :: rest ∧ g.key = first.key positions
  covers : ∀ r ∈ rows, ∃ g ∈ groups, orderLists (r.key positions) g.key = .eq

variable {positions : List Nat} {rows : List Row} {groups groups' : List Group}

namespace Grouped

theorem nodup (h : Grouped positions rows groups) : groups.Nodup := by
  refine h.ascending.imp fun {g g'} hlt heq => ?_
  rw [heq, orderLists_refl] at hlt
  nomatch hlt

/-- Groups of the same rows are equal if their keys are. -/
theorem eq_of_key (h : Grouped positions rows groups) (h' : Grouped positions rows groups')
    {g g' : Group} (hg : g ∈ groups) (hg' : g' ∈ groups')
    (hkey : orderLists g.key g'.key = .eq) : g = g' := by
  have hrows : g.rows = g'.rows := by
    rw [h.rows_eq g hg, h'.rows_eq g' hg']
    exact Scalar.filter_orderLists_congr (fun r : Row => r.key positions) rows hkey
  obtain ⟨first, rest, hfirst, hkeys⟩ := h.first g hg
  obtain ⟨first', rest', hfirst', hkeys'⟩ := h'.first g' hg'
  obtain ⟨key, members⟩ := g
  obtain ⟨key', members'⟩ := g'
  cases hrows
  rw [hfirst] at hfirst'
  cases hfirst'
  rw [← hkeys] at hkeys'
  cases hkeys'
  rfl

/-- Every list of groups of the same rows has the same members. -/
theorem mem_of_mem (h : Grouped positions rows groups) (h' : Grouped positions rows groups')
    {g : Group} (hg : g ∈ groups) : g ∈ groups' := by
  obtain ⟨first, rest, hrows, hkey⟩ := h.first g hg
  have hfirst : first ∈ rows := by
    have hmem : first ∈ g.rows := by
      rw [hrows]
      exact List.mem_cons_self
    rw [h.rows_eq g hg] at hmem
    exact List.mem_of_mem_filter hmem
  obtain ⟨g', hg', hkey'⟩ := h'.covers first hfirst
  rw [← hkey] at hkey'
  rw [h.eq_of_key h' hg hg' hkey']
  exact hg'

/-- There is only one list of groups. -/
theorem unique (h : Grouped positions rows groups) (h' : Grouped positions rows groups') :
    groups = groups' := by
  have hperm : groups.Perm groups' :=
    (List.perm_ext_iff_of_nodup h.nodup h'.nodup).2 fun g => ⟨h.mem_of_mem h', h'.mem_of_mem h⟩
  refine hperm.eq_of_pairwise (fun g g' _ _ hlt hgt => ?_) h.ascending h'.ascending
  have hswap : orderLists g.key g'.key = (orderLists g'.key g.key).swap := Std.OrientedCmp.eq_swap
  rw [hswap, hgt] at hlt
  nomatch hlt

end Grouped

theorem orderLists_isLE_trans {a b c : List Scalar} (hab : (orderLists a b).isLE = true)
    (hbc : (orderLists b c).isLE = true) : (orderLists a c).isLE = true :=
  Std.TransCmp.isLE_trans hab hbc

theorem orderLists_isLE_total (a b : List Scalar) :
    ((orderLists a b).isLE || (orderLists b a).isLE) = true := by
  have hswap : orderLists a b = (orderLists b a).swap := Std.OrientedCmp.eq_swap
  rw [hswap]
  cases orderLists b a <;> rfl

theorem pairwise_groups (map : PartitionMap) :
    map.groups.Pairwise fun g g' => (orderLists g.key g'.key).isLE = true := by
  refine List.pairwise_mergeSort ?_ ?_ _
  · exact fun _ _ _ => orderLists_isLE_trans
  · exact fun g g' => orderLists_isLE_total g.key g'.key

namespace PartitionMap.Represents

variable {map : PartitionMap}

/-- The rows of an entry are in the order of the input already. -/
theorem map_snd_eq_filter (h : Represents positions (numbered rows) map)
    {e : List Scalar × List (Nat × Row)} (he : e ∈ map) :
    (e.2.mergeSort fun a b => decide (a.1 ≤ b.1)) = e.2 ∧
      e.2.map Prod.snd = rows.filter fun r => orderLists (r.key positions) e.1 = .eq := by
  have hsorted : e.2.Pairwise fun a b => decide (a.1 ≤ b.1) = true := by
    rw [h.rows_eq e he]
    exact ((pairwise_numbered rows).imp fun hab => decide_eq_true hab).filter _
  refine ⟨List.mergeSort_of_pairwise hsorted, ?_⟩
  rw [h.rows_eq e he, rowsOf]
  conv_rhs => rw [← map_snd_numbered rows, List.filter_map]
  rfl

/-- The groups of a map are its entries, without the places of the rows. -/
theorem mem_groups (h : Represents positions (numbered rows) map) {g : Group} :
    g ∈ map.groups ↔ ∃ e ∈ map, g = ⟨e.1, e.2.map Prod.snd⟩ := by
  unfold groups
  rw [(List.mergeSort_perm _ _).mem_iff, List.mem_map]
  constructor
  · rintro ⟨e, he, rfl⟩
    exact ⟨e, he, by rw [(h.map_snd_eq_filter he).1]⟩
  · rintro ⟨e, he, rfl⟩
    exact ⟨e, he, by rw [(h.map_snd_eq_filter he).1]⟩

/-- The groups of a map are those of the rows that it represents. -/
theorem grouped (h : Represents positions (numbered rows) map) :
    Grouped positions rows map.groups where
  ascending := by
    have hdistinct : map.groups.Pairwise fun g g' => orderLists g.key g'.key ≠ .eq := by
      refine (List.mergeSort_perm _ _).symm.pairwise (List.pairwise_map.2 h.distinct) ?_
      exact fun hab hba => hab (orderLists_symm hba)
    refine ((pairwise_groups map).and hdistinct).imp fun {g g'} hg => ?_
    obtain ⟨hle, hne⟩ := hg
    cases horder : orderLists g.key g'.key with
    | lt => rfl
    | eq => exact absurd horder hne
    | gt =>
      rw [horder] at hle
      cases hle
  rows_eq g hg := by
    obtain ⟨e, he, rfl⟩ := h.mem_groups.1 hg
    exact (h.map_snd_eq_filter he).2
  first g hg := by
    obtain ⟨e, he, rfl⟩ := h.mem_groups.1 hg
    obtain ⟨first, rest, hrows, hkey⟩ := h.first e he
    exact ⟨first.2, rest.map Prod.snd, by rw [hrows]; rfl, hkey⟩
  covers r hr := by
    rw [← map_snd_numbered rows] at hr
    obtain ⟨x, hx, rfl⟩ := List.mem_map.1 hr
    obtain ⟨e, he, hkey⟩ := h.covers x hx
    exact ⟨_, h.mem_groups.2 ⟨e, he, rfl⟩, hkey⟩

end PartitionMap.Represents

/-- Parts of a list that share no member and leave none out make up the list. -/
theorem perm_flatten_filter {α β : Type} {holds : β → α → Bool} {parts : List β} {xs : List α}
    (hdisjoint : parts.Pairwise fun b b' => ∀ x, holds b x = true → holds b' x = false)
    (hcovers : ∀ x ∈ xs, ∃ b ∈ parts, holds b x = true) :
    (parts.map fun b => xs.filter (holds b)).flatten.Perm xs := by
  induction parts generalizing xs with
  | nil =>
    cases xs with
    | nil => exact .nil
    | cons x xs =>
      obtain ⟨b, hb, -⟩ := hcovers x List.mem_cons_self
      nomatch hb
  | cons b parts ih =>
    obtain ⟨hhead, hrest⟩ := List.pairwise_cons.1 hdisjoint
    let others := xs.filter fun x => ! holds b x
    have hothers : (parts.map fun b' => others.filter (holds b')) =
        parts.map fun b' => xs.filter (holds b') := by
      refine List.map_congr_left fun b' hb' => ?_
      rw [List.filter_filter]
      refine List.filter_congr fun x _ => ?_
      cases hx : holds b x with
      | true => rw [hhead b' hb' x hx, Bool.false_and]
      | false => rw [Bool.not_false, Bool.and_true]
    have hperm : (parts.map fun b' => others.filter (holds b')).flatten.Perm others := by
      refine ih hrest fun x hx => ?_
      obtain ⟨hx, hnot⟩ := List.mem_filter.1 hx
      obtain ⟨b', hb', hholds⟩ := hcovers x hx
      rcases List.mem_cons.1 hb' with rfl | hb'
      · rw [hholds] at hnot
        nomatch hnot
      · exact ⟨b', hb', hholds⟩
    rw [hothers] at hperm
    rw [List.map_cons, List.flatten_cons]
    exact (hperm.append_left _).trans (List.filter_append_perm (holds b) xs)

namespace Grouped

theorem rows_perm (h : Grouped positions rows groups) :
    (groups.map Group.rows).flatten.Perm rows := by
  have hmap : groups.map Group.rows = groups.map fun g =>
      rows.filter fun r => decide (orderLists (r.key positions) g.key = .eq) :=
    List.map_congr_left h.rows_eq
  rw [hmap]
  refine perm_flatten_filter (h.ascending.imp fun {g g'} hlt r hr => ?_) fun r hr => ?_
  · refine decide_eq_false fun hr' => ?_
    have heq := orderLists_trans (orderLists_symm (of_decide_eq_true hr)) hr'
    rw [heq] at hlt
    nomatch hlt
  · obtain ⟨g, hg, hkey⟩ := h.covers r hr
    exact ⟨g, hg, decide_eq_true hkey⟩

/-- Every row is in just one group. -/
theorem existsUnique (h : Grouped positions rows groups) {r : Row} (hr : r ∈ rows) :
    ∃! g, g ∈ groups ∧ r ∈ g.rows := by
  obtain ⟨g, hg, hkey⟩ := h.covers r hr
  refine ⟨g, ⟨hg, ?_⟩, fun g' hg' => ?_⟩
  · rw [h.rows_eq g hg]
    exact List.mem_filter.2 ⟨hr, decide_eq_true hkey⟩
  · have hkey' := hg'.2
    rw [h.rows_eq g' hg'.1] at hkey'
    refine h.eq_of_key h hg'.1 hg (orderLists_trans (orderLists_symm ?_) hkey)
    exact of_decide_eq_true (List.mem_filter.1 hkey').2

end Grouped

namespace PartitionMap

theorem inserts_foldl (hash : List Scalar → UInt64)
    (entries : List (List Scalar × List (Nat × Row))) (map : PartitionMap) :
    Inserts hash map entries (entries.foldl (fun map e => append e.1 e.2 map) map) := by
  induction entries generalizing map with
  | nil => exact .done (.refl map)
  | cons e entries ih =>
    refine .insert (.refl map) ?_
    rw [insertHashed_eq_append]
    exact ih _

/-- A pass over slices can end with the maps that they are reduced to. -/
theorem built_reduce (hash : List Scalar → UInt64) (positions : List Nat)
    (split : Split (Nat × Row)) :
    Built hash positions split (split.reduce (ofRows positions) merge) := by
  induction split with
  | slice rows =>
    refine .slice ?_
    have h := inserts_foldl hash (rows.map fun x => (x.2.key positions, [x])) []
    rw [List.foldl_map] at h
    exact h
  | join left right ihl ihr => exact .join ihl ihr (inserts_foldl hash _ _)

/-- Entries that are in order need no sorting. -/
theorem groups_of_ascending {map : PartitionMap}
    (hrows : ∀ e ∈ map, e.2.Pairwise fun a b => a.1 ≤ b.1)
    (hkeys : map.Pairwise fun a b => (orderLists a.1 b.1).isLE = true) :
    map.groups = map.map fun e => ⟨e.1, e.2.map Prod.snd⟩ := by
  have hentries : (map.map fun e =>
        Group.mk e.1 ((e.2.mergeSort fun a b => a.1 ≤ b.1).map Prod.snd)) =
      map.map fun e => ⟨e.1, e.2.map Prod.snd⟩ := by
    refine List.map_congr_left fun e he => ?_
    rw [List.mergeSort_of_pairwise ((hrows e he).imp decide_eq_true)]
  rw [groups, hentries]
  exact List.mergeSort_of_pairwise (List.pairwise_map.2 hkeys)

end PartitionMap

/-- Where new keys come in ascending order, what a pass over the rows gathers are the groups. -/
theorem DataSet.groupBy_of_ascending {d : DataSet} {keys : List Component} {positions : List Nat}
    {rows : List Row} (hpositions : d.keyPositions keys = .ok positions)
    (hrows : d.collect = .ok rows)
    (hplaces : ∀ e ∈ PartitionMap.ofRows positions (numbered rows),
      e.2.Pairwise fun a b => a.1 ≤ b.1)
    (hkeys : (PartitionMap.ofRows positions (numbered rows)).Pairwise fun a b =>
      (orderLists a.1 b.1).isLE = true) :
    d.groupBy keys = .ok ((PartitionMap.ofRows positions (numbered rows)).map fun e =>
      ⟨e.1, e.2.map Prod.snd⟩) := by
  rw [← PartitionMap.groups_of_ascending hplaces hkeys]
  exact bind_eq_ok.2 ⟨positions, hpositions, bind_eq_ok.2 ⟨rows, hrows, rfl⟩⟩

/-- One pass over the rows gives their groups. -/
theorem grouped_ofRows (positions : List Nat) (rows : List Row) :
    Grouped positions rows (PartitionMap.ofRows positions (numbered rows)).groups :=
  (PartitionMap.built_reduce (fun _ => 0) positions (.slice (numbered rows))).represents.grouped

/-- Without keys all rows are in one group. -/
theorem grouped_whole {rows : List Row} (hsome : rows ≠ []) : Grouped [] rows [⟨[], rows⟩] where
  ascending := List.pairwise_singleton _ _
  rows_eq g hg := by
    rw [List.mem_singleton.1 hg]
    exact (List.filter_eq_self.2 fun _ _ => rfl).symm
  first g hg := by
    obtain ⟨first, rest, rfl⟩ := List.exists_cons_of_ne_nil hsome
    rw [List.mem_singleton.1 hg]
    exact ⟨first, rest, rfl, rfl⟩
  covers _ _ := ⟨_, List.mem_singleton_self _, rfl⟩

/-- Components of the schema have places in it. -/
theorem keyPositions_eq_ok {d : DataSet} {keys : List Component}
    (hkeys : ∀ k ∈ keys, k ∈ d.schema.components) :
    ∃ positions, d.keyPositions keys = .ok positions ∧
      List.Forall₂ (fun k i => d.schema.components[i]? = some k) keys positions := by
  obtain ⟨positions, hpositions⟩ : ∃ positions, d.keyPositions keys = .ok positions := by
    refine exists_mapM_eq_ok fun k hk => ?_
    obtain ⟨i, hi, -⟩ := Schema.positionOf?_of_mem (hkeys k hk)
    exact ⟨i, by rw [hi]⟩
  refine ⟨positions, hpositions, ?_⟩
  refine (forall₂_mem (mapM_eq_ok.1 hpositions)).imp fun k i hi => ?_
  obtain ⟨j, hj, hget⟩ := Schema.positionOf?_of_mem (hkeys k hi.2.1)
  have hij := hi.1
  rw [hj] at hij
  cases hij
  exact hget

/-- Only a dataset that drains can be grouped. -/
theorem exists_collect_of_groupBy {d : DataSet} {keys : List Component} {groups : List Group}
    (h : d.groupBy keys = .ok groups) : ∃ rows, d.collect = .ok rows := by
  obtain ⟨positions, -, h⟩ := bind_eq_ok.1 h
  obtain ⟨rows, hrows, -⟩ := bind_eq_ok.1 h
  exact ⟨rows, hrows⟩

/-- Grouping by components of the schema gives the groups of the rows, and so does every pass over
slices of the rows, whatever the hashes of keys are and however hash tables are ordered.  The keys
are in strictly ascending order.  Every row is in one group, none is lost and none repeated.  A
group has all rows with values equal to its key, in the order of the input, and its key is that of
the first of them. -/
theorem groupBy_parallel {d : DataSet} {keys : List Component} {rows : List Row}
    (hkeys : ∀ k ∈ keys, k ∈ d.schema.components) (hrows : d.collect = .ok rows) :
    ∃ positions groups, List.Forall₂ (fun k i => d.schema.components[i]? = some k) keys positions ∧
      d.groupBy keys = .ok groups ∧
      (∀ hash split, split.toList = numbered rows →
        (∃ map, PartitionMap.Built hash positions split map) ∧
          ∀ map, PartitionMap.Built hash positions split map → map.groups = groups) ∧
      groups.Pairwise (fun g g' => orderLists g.key g'.key = .lt) ∧
      (groups.map Group.rows).flatten.Perm rows ∧
      (∀ r ∈ rows, ∃! g, g ∈ groups ∧ r ∈ g.rows) ∧
      ∀ g ∈ groups,
        g.rows = rows.filter (fun r => orderLists (r.key positions) g.key = .eq) ∧
          ∃ first rest, g.rows = first :: rest ∧ g.key = first.key positions := by
  obtain ⟨positions, hpositions, hplaces⟩ := keyPositions_eq_ok hkeys
  have hsequential := grouped_ofRows positions rows
  refine ⟨positions, _, hplaces, ?_, fun hash split hsplit => ?_, hsequential.ascending,
    hsequential.rows_perm, fun r hr => hsequential.existsUnique hr,
    fun g hg => ⟨hsequential.rows_eq g hg, hsequential.first g hg⟩⟩
  · exact bind_eq_ok.2 ⟨positions, hpositions, bind_eq_ok.2 ⟨rows, hrows, rfl⟩⟩
  · refine ⟨⟨_, PartitionMap.built_reduce hash positions split⟩, fun map hmap => ?_⟩
    have hrepresents := hmap.represents
    rw [hsplit] at hrepresents
    exact hrepresents.grouped.unique hsequential

/-- A key that is a number, and a measure. -/
def numberKeyed : Schema := ⟨[⟨"k", .identifier, .number⟩, ⟨"m", .measure, .integer⟩], by decide⟩

/-- Three rows, with the two zeros and a one for keys. -/
def zerosAndOne : List Row :=
  [⟨numberKeyed, [.number (-0), .integer 1], .known "ds"⟩,
    ⟨numberKeyed, [.number 1, .integer 2], .known "ds"⟩,
    ⟨numberKeyed, [.number 0, .integer 3], .known "ds"⟩]

/-- The zeros are one key, also if each of them is in a slice of its own. -/
theorem groupBy_parallel_zeros :
    ∃ positions groups,
      (DataSet.ofRows numberKeyed zerosAndOne).groupBy [⟨"k", .identifier, .number⟩] = .ok groups ∧
        (groups.map Group.rows).flatten.Perm zerosAndOne ∧
          ∀ hash map,
            PartitionMap.Built hash positions
              (.join (.slice ((numbered zerosAndOne).take 2))
                (.slice ((numbered zerosAndOne).drop 2))) map → map.groups = groups := by
  have hkeys : ∀ k ∈ [(⟨"k", .identifier, .number⟩ : Component)],
      k ∈ (DataSet.ofRows numberKeyed zerosAndOne).schema.components := by decide
  obtain ⟨positions, groups, -, hgroups, hslices, -, hperm, -⟩ := groupBy_parallel hkeys rfl
  exact ⟨positions, groups, hgroups, hperm, fun hash map => (hslices hash _ rfl).2 map⟩

end Groups

end DataCube
