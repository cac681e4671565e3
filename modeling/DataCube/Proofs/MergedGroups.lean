import Mathlib.Data.List.Perm.Basic
import Mathlib.Logic.Relation
import DataCube.Proofs.Contributions

/-!
# Groups merged in any order

Lineages that are counted slice by slice leave one group for each slice, and these are merged two at
a time until one is left.  Which two come next is open: the slices may be taken in any order, and
groups that are merged already may be merged with each other.  Whatever has been merged so far, the
groups that are left count all lineages of the list together, so what is left in the end counts
them alone, and only one group does.

* `Split.slices`: the slices that a list is cut into.
* `Lineage.Group.MergeStep`, `Lineage.Group.MergesTo`: merging two of the groups that are left, and
  going on until there is one.
* `Lineage.Group.CountTogether`: groups that share the counting of a list.  `CountTogether.step` and
  `CountTogether.run` say that merging keeps this.
* `lineage_groups_multisets`: the order that groups are kept in, and what counting in slices gives.
-/

namespace DataCube

/-! ## Slices -/

namespace Split

variable {α : Type}

/-- The slices, from the first on. -/
def slices : Split α → List (List α)
  | slice xs => [xs]
  | join left right => left.slices ++ right.slices

theorem flatten_slices (split : Split α) : split.slices.flatten = split.toList := by
  induction split with
  | slice xs => exact List.append_nil xs
  | join left right hleft hright => rw [slices, List.flatten_append, hleft, hright, toList]

theorem slices_ne_nil (split : Split α) : split.slices ≠ [] := by
  induction split with
  | slice xs => exact List.cons_ne_nil xs []
  | join left right hleft _ => exact List.append_ne_nil_of_left_ne_nil hleft _

end Split

namespace Lineage.Group

variable {gs hs : List Group} {g : Group} {ls : List Lineage}

/-! ## Merging -/

/-- Two of the groups are merged, wherever they stand. -/
inductive MergeStep : List Group → List Group → Prop where
  | merge {gs rest : List Group} {a b : Group} (h : gs.Perm (a :: b :: rest)) :
      MergeStep gs (a.merge b :: rest)

/-- The groups can be merged step by step until this one is left. -/
def MergesTo (gs : List Group) (g : Group) : Prop := Relation.ReflTransGen MergeStep gs [g]

/-- There is always a way to merge groups, such as from the first one on. -/
theorem mergesTo_foldl (g : Group) (rest : List Group) :
    MergesTo (g :: rest) (rest.foldl merge g) := by
  induction rest generalizing g with
  | nil => exact .refl
  | cons h rest ih => exact .head (.merge (.refl _)) (ih (g.merge h))

/-- The groups count the lineages of the list, each occurrence in one of the groups. -/
structure CountTogether (gs : List Group) (ls : List Lineage) : Prop where
  each : ∀ g ∈ gs, g.Counts g.expand
  all : (gs.flatMap expand).Perm ls

theorem Counts.self (h : g.Counts ls) : g.Counts g.expand := h.perm h.expand_perm.symm

theorem countTogether_ofList (slices : List (List Lineage)) :
    CountTogether (slices.map ofList) slices.flatten where
  each g hg := by
    obtain ⟨slice, -, rfl⟩ := List.mem_map.1 hg
    exact (counts_ofList slice).self
  all := by
    rw [List.flatMap_map, List.flatten_eq_flatMap]
    exact List.Perm.flatMap_left slices fun slice _ => (counts_ofList slice).expand_perm

namespace CountTogether

theorem counts (h : CountTogether [g] ls) : g.Counts ls := by
  have hall := h.all
  rw [List.flatMap_singleton] at hall
  exact (h.each g List.mem_cons_self).perm hall

/-- Merging two groups loses nothing and counts nothing twice. -/
theorem step (h : CountTogether gs ls) (hstep : MergeStep gs hs) : CountTogether hs ls := by
  cases hstep with
  | @merge rest a b hperm =>
    have heach : ∀ g ∈ a :: b :: rest, g.Counts g.expand :=
      fun g hg => h.each g (hperm.mem_iff.2 hg)
    rw [List.forall_mem_cons, List.forall_mem_cons] at heach
    obtain ⟨ha, hb, hrest⟩ := heach
    have hmerged : (a.merge b).Counts (a.expand ++ b.expand) := ha.merge hb
    have hall : ((a.merge b :: rest).flatMap expand).Perm ((a :: b :: rest).flatMap expand) := by
      rw [List.flatMap_cons, List.flatMap_cons, List.flatMap_cons, ← List.append_assoc]
      exact hmerged.expand_perm.append_right _
    exact ⟨List.forall_mem_cons.2 ⟨hmerged.self, hrest⟩,
      hall.trans ((hperm.symm.flatMap_right expand).trans h.all)⟩

theorem run (h : CountTogether gs ls) (hrun : Relation.ReflTransGen MergeStep gs hs) :
    CountTogether hs ls := by
  induction hrun with
  | refl => exact h
  | tail _ hstep ih => exact ih.step hstep

/-- What is left in the end is the group of the list. -/
theorem eq_ofList (h : CountTogether gs ls) (hmerges : MergesTo gs g) : g = ofList ls :=
  (h.run hmerges).counts.unique (counts_ofList ls)

end CountTogether

/-- The groups of the slices of a list are merged to the group of the list, in whatever order. -/
theorem mergesTo_slices (split : Split Lineage) (g : Group) :
    MergesTo (split.slices.map ofList) g ↔ g = ofList split.toList := by
  have hcount := countTogether_ofList split.slices
  rw [split.flatten_slices] at hcount
  constructor
  · exact hcount.eq_ofList
  · rintro rfl
    obtain ⟨first, rest, hslices⟩ := List.exists_cons_of_ne_nil split.slices_ne_nil
    rw [hslices, List.map_cons] at hcount ⊢
    have hmerges := mergesTo_foldl (ofList first) (rest.map ofList)
    rwa [hcount.eq_ofList hmerges] at hmerges

end Lineage.Group

/-- Lineages are totally ordered, and equal under the order only if they are the same.  Groups are
kept in this order, and so they are multisets: however a list of lineages is cut into slices, and in
whatever order the groups of the slices are merged, one and the same group is left.  Its entries are
in strictly ascending order, it counts every lineage as often as it occurs in the list, and its
total is the length of the list. -/
theorem lineage_groups_multisets :
    (∀ a b : Lineage, b.order a = (a.order b).swap ∧ (a.order b = .eq ↔ a = b)) ∧
      (∀ a b c : Lineage, (a.order b).isLE = true → (b.order c).isLE = true →
        (a.order c).isLE = true) ∧
      ∀ split : Split Lineage, ∃ g : Lineage.Group,
        (∀ merged, Lineage.Group.MergesTo (split.slices.map .ofList) merged ↔ merged = g) ∧
          split.reduce .ofList .merge = g ∧ .ofList split.toList = g ∧
          g.Ascending ∧ (∀ l, g.count l = split.toList.count l) ∧
            g.total = split.toList.length := by
  refine ⟨fun a b => ⟨(Lineage.order_swap a b).symm, Lineage.order_eq_iff⟩,
    fun a b c => Std.TransCmp.isLE_trans, fun split => ?_⟩
  have hcounts := Lineage.Group.counts_ofList split.toList
  exact ⟨_, Lineage.Group.mergesTo_slices split, Split.reduce_eq Lineage.Group.ofList_append split,
    rfl, hcounts.ascending, hcounts.count, hcounts.total⟩

end DataCube
