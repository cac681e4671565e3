import DataCube.Proofs.LineageOrder
import DataCube.Reducer

/-!
# Counted contributions

A group counts the rows of each lineage.  It is kept in ascending order of lineage, so that a
lineage has one entry at most, and two groups that count the same rows are the same group.  That is
why it does not matter whether rows are counted one by one or in slices that are merged.

* `Lineage.Group.Counts g ls`: the group counts the lineages of the list.
* `Counts.addMany`, `Counts.merge`: counting more of one lineage, and of the lineages of a group.
* `Lineage.Group.counts_ofList`, `Counts.total`, `Counts.unique`: the group of a list, the number of
  rows it counts, and that no other group counts the same.
* `Statistic.contributions_slices`: rows that are counted slice by slice.
-/

namespace DataCube

namespace Lineage.Group

variable {g other : Group} {l k : Lineage} {n : Nat} {ls ms : List Lineage}

/-! ## Entries -/

/-- The entries are in strictly ascending order of lineage. -/
def Ascending (g : Group) : Prop := g.Pairwise fun e e' => e.1.order e'.1 = .lt

theorem count_nil (l : Lineage) : count [] l = 0 := rfl

theorem count_cons (e : Lineage × Nat) (rest : Group) (l : Lineage) :
    count (e :: rest) l = if l = e.1 then e.2 else count rest l := by
  unfold count
  rw [List.find?_cons]
  by_cases h : l = e.1
  · rw [if_pos h, same_iff.2 h]
  · have hsame : l.same e.1 = false := by
      rw [Bool.eq_false_iff]
      exact fun hsame => h (same_iff.1 hsame)
    rw [if_neg h, hsame]

/-- A lineage before all entries is not counted. -/
theorem count_eq_zero (h : ∀ e ∈ g, l.order e.1 = .lt) : g.count l = 0 := by
  induction g with
  | nil => rfl
  | cons e rest ih =>
    rw [List.forall_mem_cons] at h
    have hne : l ≠ e.1 := ne_of_order (by rw [h.1]; decide)
    rw [count_cons, if_neg hne]
    exact ih h.2

/-- Adding to a group brings in no other lineage. -/
theorem mem_addMany {e : Lineage × Nat} (h : e ∈ addMany l n g) :
    e.1 = l ∨ ∃ e' ∈ g, e'.1 = e.1 := by
  induction g with
  | nil =>
    rw [addMany, List.mem_singleton] at h
    exact Or.inl (by rw [h])
  | cons f rest ih =>
    obtain ⟨k, m⟩ := f
    unfold addMany at h
    split at h
    · rcases List.mem_cons.1 h with rfl | h
      · exact Or.inl rfl
      · exact Or.inr ⟨e, h, rfl⟩
    · rcases List.mem_cons.1 h with rfl | h
      · exact Or.inr ⟨(k, m), List.mem_cons_self, rfl⟩
      · exact Or.inr ⟨e, List.mem_cons_of_mem _ h, rfl⟩
    · rcases List.mem_cons.1 h with rfl | h
      · exact Or.inr ⟨(k, m), List.mem_cons_self, rfl⟩
      · rcases ih h with h | ⟨e', he', h⟩
        · exact Or.inl h
        · exact Or.inr ⟨e', List.mem_cons_of_mem _ he', h⟩

theorem Ascending.addMany (h : g.Ascending) (l : Lineage) (n : Nat) :
    (addMany l n g).Ascending := by
  induction g with
  | nil => exact List.pairwise_singleton _ _
  | cons f rest ih =>
    obtain ⟨k, m⟩ := f
    obtain ⟨hfirst, hrest⟩ := List.pairwise_cons.1 h
    unfold Group.addMany
    split
    · rename_i hlt
      refine List.pairwise_cons.2 ⟨fun e he => ?_, h⟩
      rcases List.mem_cons.1 he with rfl | he
      · exact hlt
      · exact order_lt_trans hlt (hfirst e he)
    · exact List.pairwise_cons.2 ⟨hfirst, hrest⟩
    · rename_i hgt
      refine List.pairwise_cons.2 ⟨fun e he => ?_, ih hrest⟩
      rcases mem_addMany he with hl | ⟨e', he', hsame⟩
      · have hswap := order_swap l k
        rw [hgt] at hswap
        rw [hl]
        exact hswap.symm
      · rw [← hsame]
        exact hfirst e' he'

/-- Adding rows of a lineage counts that many more of it, and no more of any other. -/
theorem count_addMany (h : g.Ascending) (l : Lineage) (n : Nat) (k : Lineage) :
    (addMany l n g).count k = g.count k + if k = l then n else 0 := by
  induction g with
  | nil => rw [addMany, count_cons, count_nil]; simp
  | cons f rest ih =>
    obtain ⟨f, m⟩ := f
    obtain ⟨hfirst, hrest⟩ := List.pairwise_cons.1 h
    unfold addMany
    split
    · rename_i hlt
      rw [count_cons]
      by_cases hk : k = l
      · -- the lineage is before all entries, so it was not counted yet
        have hzero : count ((f, m) :: rest) k = 0 := by
          refine count_eq_zero fun e he => ?_
          rw [hk]
          rcases List.mem_cons.1 he with rfl | he
          · exact hlt
          · exact order_lt_trans hlt (hfirst e he)
        simp [hk, hk ▸ hzero]
      · simp [hk]
    · rename_i heq
      have hlf : l = f := order_eq_iff.1 heq
      rw [count_cons, count_cons]
      by_cases hk : k = f
      · simp [hk, hlf]
      · simp [hk, hlf]
    · rename_i hgt
      have hne : l ≠ f := ne_of_order (by rw [hgt]; decide)
      rw [count_cons, count_cons, ih hrest]
      by_cases hk : k = f
      · simp [hk, hne.symm]
      · simp [hk]

theorem total_addMany (g : Group) (l : Lineage) (n : Nat) :
    (addMany l n g).total = g.total + n := by
  induction g with
  | nil => simp [addMany, total]
  | cons f rest ih =>
    obtain ⟨f, m⟩ := f
    unfold addMany
    split
    · simp only [total]
      omega
    · simp only [total]
      omega
    · simp only [total, ih]
      omega

/-! ## Counting a list -/

/-- The group counts the lineages of the list, each as often as it occurs. -/
structure Counts (g : Group) (ls : List Lineage) : Prop where
  ascending : g.Ascending
  positive : ∀ e ∈ g, 0 < e.2
  count : ∀ l, g.count l = ls.count l
  total : g.total = ls.length

theorem positive_addMany (h : ∀ e ∈ g, 0 < e.2) (hn : 0 < n) : ∀ e ∈ addMany l n g, 0 < e.2 := by
  induction g with
  | nil =>
    intro e he
    rw [addMany, List.mem_singleton] at he
    rw [he]
    exact hn
  | cons f rest ih =>
    obtain ⟨f, m⟩ := f
    rw [List.forall_mem_cons] at h
    have hm : 0 < m := h.1
    unfold addMany
    split
    · exact List.forall_mem_cons.2 ⟨hn, List.forall_mem_cons.2 h⟩
    · exact List.forall_mem_cons.2 ⟨Nat.add_pos_left hm n, h.2⟩
    · exact List.forall_mem_cons.2 ⟨hm, ih h.2⟩

theorem Counts.nil : Counts [] [] where
  ascending := .nil
  positive := nofun
  count _ := rfl
  total := rfl

/-- The order of the list does not matter. -/
theorem Counts.perm (h : g.Counts ls) (hperm : ls.Perm ms) : g.Counts ms where
  ascending := h.ascending
  positive := h.positive
  count l := (h.count l).trans (hperm.count_eq l)
  total := h.total.trans hperm.length_eq

/-- Rows of one lineage are counted together. -/
theorem Counts.addMany (h : g.Counts ls) (l : Lineage) (hn : 0 < n) :
    (addMany l n g).Counts (ls ++ List.replicate n l) where
  ascending := h.ascending.addMany l n
  positive := positive_addMany h.positive hn
  count k := by
    rw [count_addMany h.ascending, h.count, List.count_append, List.count_replicate]
    by_cases hk : k = l
    · simp [hk]
    · simp [hk, Ne.symm hk]
  total := by
    rw [total_addMany, h.total, List.length_append, List.length_replicate]

theorem Counts.foldl_add (h : g.Counts ls) (ms : List Lineage) :
    (ms.foldl add g).Counts (ls ++ ms) := by
  induction ms generalizing g ls with
  | nil => simpa using h
  | cons m ms ih =>
    have hstep : (g.add m).Counts (ls ++ [m]) := h.addMany m Nat.one_pos
    simpa using ih hstep

theorem counts_ofList (ls : List Lineage) : (ofList ls).Counts ls :=
  Counts.nil.foldl_add ls

/-! ## Merging -/

/-- The lineages that a group counts, each as often as it is counted. -/
def expand (g : Group) : List Lineage := g.flatMap fun e => List.replicate e.2 e.1

theorem expand_cons (e : Lineage × Nat) (rest : Group) :
    expand (e :: rest) = List.replicate e.2 e.1 ++ expand rest := rfl

theorem count_expand (h : g.Ascending) (l : Lineage) : g.expand.count l = g.count l := by
  induction g with
  | nil => rfl
  | cons e rest ih =>
    obtain ⟨hfirst, hrest⟩ := List.pairwise_cons.1 h
    rw [expand_cons, List.count_append, List.count_replicate, ih hrest, count_cons]
    by_cases hl : l = e.1
    · have hzero : count rest l = 0 := count_eq_zero fun e' he' => hl ▸ hfirst e' he'
      simp [hl, hl ▸ hzero]
    · simp [hl, Ne.symm hl]

theorem Counts.expand_perm (h : g.Counts ls) : g.expand.Perm ls :=
  List.perm_iff_count.2 fun l => (count_expand h.ascending l).trans (h.count l)

theorem Counts.foldl_addMany (h : g.Counts ls) (hother : ∀ e ∈ other, 0 < e.2) :
    (other.foldl (fun acc e => Group.addMany e.1 e.2 acc) g).Counts (ls ++ other.expand) := by
  induction other generalizing g ls with
  | nil => simpa [expand] using h
  | cons e rest ih =>
    rw [List.forall_mem_cons] at hother
    rw [expand_cons, ← List.append_assoc]
    exact ih (h.addMany e.1 hother.1) hother.2

/-- Merging counts what both groups count. -/
theorem Counts.merge (h : g.Counts ls) (h' : other.Counts ms) :
    (g.merge other).Counts (ls ++ ms) :=
  (h.foldl_addMany h'.positive).perm (h'.expand_perm.append_left ls)

/-! ## One group for what is counted -/

theorem mem_iff_count (h : g.Ascending) (hpositive : ∀ e ∈ g, 0 < e.2) {e : Lineage × Nat} :
    e ∈ g ↔ g.count e.1 = e.2 ∧ 0 < e.2 := by
  induction g with
  | nil =>
    rw [count_nil]
    constructor
    · exact nofun
    · omega
  | cons f rest ih =>
    obtain ⟨hfirst, hrest⟩ := List.pairwise_cons.1 h
    rw [List.forall_mem_cons] at hpositive
    rw [List.mem_cons, count_cons, ih hrest hpositive.2]
    by_cases hname : e.1 = f.1
    · have hzero : count rest e.1 = 0 := count_eq_zero fun e' he' => hname ▸ hfirst e' he'
      rw [if_pos hname, hzero]
      constructor
      · rintro (rfl | ⟨heq, hlt⟩)
        · exact ⟨rfl, hpositive.1⟩
        · omega
      · exact fun heq => Or.inl (Prod.ext hname heq.1.symm)
    · rw [if_neg hname]
      exact or_iff_right fun heq => hname (congrArg Prod.fst heq)

/-- Groups that count the same are the same. -/
theorem Counts.unique (h : g.Counts ls) (h' : other.Counts ls) : g = other := by
  have hdistinct {g : Group} (hg : g.Ascending) : g.Nodup := by
    refine hg.imp fun {e e'} hlt heq => ?_
    exact ne_of_order (by rw [hlt]; decide) (congrArg Prod.fst heq)
  refine List.Perm.eq_of_pairwise (fun e e' _ _ hlt hgt => ?_) h.ascending h'.ascending ?_
  · rw [← order_swap, hlt] at hgt
    nomatch hgt
  · rw [List.perm_ext_iff_of_nodup (hdistinct h.ascending) (hdistinct h'.ascending)]
    intro e
    rw [mem_iff_count h.ascending h.positive, mem_iff_count h'.ascending h'.positive, h.count,
      h'.count]

/-- Counting two lists one after the other is merging what is counted in each. -/
theorem ofList_append (ls ms : List Lineage) :
    ofList (ls ++ ms) = (ofList ls).merge (ofList ms) :=
  (counts_ofList (ls ++ ms)).unique ((counts_ofList ls).merge (counts_ofList ms))

end Lineage.Group

/-! ## Rows -/

namespace Statistic

theorem counts_contributions (rows : List Row) :
    (contributions rows).Counts (rows.map Row.lineage) :=
  Lineage.Group.counts_ofList _

/-- Rows that are counted slice by slice are counted as in one pass, however they are cut. -/
theorem contributions_slices (rows : Split Row) :
    rows.reduce contributions Lineage.Group.merge = contributions rows.toList := by
  refine Split.reduce_eq (fun xs ys => ?_) rows
  unfold contributions
  rw [List.map_append, Lineage.Group.ofList_append]

end Statistic

end DataCube
