import DataCube.Lineage

/-!
# The order of lineages is lawful

Lineages are nested: the sources of a node are lineages, and so are those that a group counts.
Comparing two of them is comparing lists of smaller ones, so the laws are carried up level by level.

* `LawfulOn P cmp`: the laws of a total order, for what satisfies `P`.
* `LawfulOn.prod`, `LawfulOn.list`: they hold of pairs and of lists, compared from the first on.
* `Lineage.lawfulOn_order` is the induction on the size.  It makes the order of lineages an instance
  of the classes for such orders, and equality of lineages decidable.
-/

namespace DataCube

/-! ## Orders -/

/-- The laws of a total order that tells unequal things apart, for what satisfies `P`. -/
structure LawfulOn {α : Type} (P : α → Prop) (cmp : α → α → Ordering) : Prop where
  eq_iff : ∀ {a b}, P a → P b → (cmp a b = .eq ↔ a = b)
  swap : ∀ {a b}, P a → P b → (cmp a b).swap = cmp b a
  trans : ∀ {a b c}, P a → P b → P c → cmp a b = .lt → cmp b c = .lt → cmp a c = .lt

namespace LawfulOn

variable {α β : Type} {P : α → Prop} {Q : β → Prop} {cmp : α → α → Ordering}
  {cmp' : β → β → Ordering}

theorem of_compare (α : Type) [Ord α] [Std.TransOrd α] [Std.LawfulEqOrd α] :
    LawfulOn (fun _ : α => True) compare where
  eq_iff _ _ := Std.LawfulEqOrd.compare_eq_iff_eq
  swap _ _ := Std.OrientedOrd.eq_swap.symm
  trans _ _ _ := Std.TransCmp.lt_trans

/-- The laws only ask for how the members compare, and for what they are told apart by. -/
theorem comap {f : β → α} (h : LawfulOn P cmp) (hf : ∀ a b, f a = f b → a = b)
    (hQ : ∀ b, Q b → P (f b)) : LawfulOn Q fun a b => cmp (f a) (f b) where
  eq_iff ha hb := (h.eq_iff (hQ _ ha) (hQ _ hb)).trans ⟨hf _ _, congrArg f⟩
  swap ha hb := h.swap (hQ _ ha) (hQ _ hb)
  trans ha hb hc := h.trans (hQ _ ha) (hQ _ hb) (hQ _ hc)

/-- Steps of two comparisons, where a later field only counts if the earlier ones are equal. -/
theorem lt_then_trans {o₁ o₂ o₃ p₁ p₂ p₃ : Ordering} (hfirst : o₁ = .lt → o₂ = .lt → o₃ = .lt)
    (hleft : o₁ = .eq → o₃ = o₂) (hright : o₂ = .eq → o₃ = o₁)
    (hrest : o₁ = .eq → o₂ = .eq → p₁ = .lt → p₂ = .lt → p₃ = .lt)
    (h₁ : o₁.then p₁ = .lt) (h₂ : o₂.then p₂ = .lt) : o₃.then p₃ = .lt := by
  cases o₁ with
  | gt => nomatch h₁
  | lt =>
    cases o₂ with
    | gt => nomatch h₂
    | lt => rw [hfirst rfl rfl]; rfl
    | eq => rw [hright rfl]; rfl
  | eq =>
    rw [hleft rfl]
    cases o₂ with
    | gt => nomatch h₂
    | lt => rfl
    | eq => exact hrest rfl rfl h₁ h₂

theorem prod (h : LawfulOn P cmp) (h' : LawfulOn Q cmp') :
    LawfulOn (fun e : α × β => P e.1 ∧ Q e.2) fun e e' => (cmp e.1 e'.1).then (cmp' e.2 e'.2) where
  eq_iff ha hb := by
    rw [Ordering.then_eq_eq, h.eq_iff ha.1 hb.1, h'.eq_iff ha.2 hb.2, Prod.ext_iff]
  swap ha hb := by
    rw [Ordering.swap_then, h.swap ha.1 hb.1, h'.swap ha.2 hb.2]
  trans := by
    intro a b c ha hb hc
    refine lt_then_trans (h.trans ha.1 hb.1 hc.1) (fun heq => ?_) (fun heq => ?_) fun _ _ => ?_
    · rw [(h.eq_iff ha.1 hb.1).1 heq]
    · rw [(h.eq_iff hb.1 hc.1).1 heq]
    · exact h'.trans ha.2 hb.2 hc.2

theorem list (h : LawfulOn P cmp) : LawfulOn (fun as => ∀ a ∈ as, P a) (List.compareLex cmp) where
  eq_iff := by
    intro as bs ha hb
    induction as generalizing bs with
    | nil =>
      cases bs with
      | nil => exact ⟨fun _ => rfl, fun _ => rfl⟩
      | cons b bs => exact ⟨nofun, nofun⟩
    | cons a as ih =>
      cases bs with
      | nil => exact ⟨nofun, nofun⟩
      | cons b bs =>
        rw [List.forall_mem_cons] at ha hb
        rw [List.compareLex_cons_cons, Ordering.then_eq_eq, h.eq_iff ha.1 hb.1, ih ha.2 hb.2,
          List.cons.injEq]
  swap := by
    intro as bs ha hb
    induction as generalizing bs with
    | nil => cases bs <;> rfl
    | cons a as ih =>
      cases bs with
      | nil => rfl
      | cons b bs =>
        rw [List.forall_mem_cons] at ha hb
        rw [List.compareLex_cons_cons, List.compareLex_cons_cons, Ordering.swap_then,
          h.swap ha.1 hb.1, ih ha.2 hb.2]
  trans := by
    intro as bs cs ha hb hc hab hbc
    induction as generalizing bs cs with
    | nil =>
      cases cs with
      | nil => cases bs <;> nomatch hbc
      | cons c cs => rfl
    | cons a as ih =>
      cases bs with
      | nil => nomatch hab
      | cons b bs =>
        cases cs with
        | nil => nomatch hbc
        | cons c cs =>
          rw [List.forall_mem_cons] at ha hb hc
          rw [List.compareLex_cons_cons] at hab hbc ⊢
          refine lt_then_trans (h.trans ha.1 hb.1 hc.1) (fun heq => ?_) (fun heq => ?_)
            (fun _ _ => ih ha.2 hb.2 hc.2) hab hbc
          · rw [(h.eq_iff ha.1 hb.1).1 heq]
          · rw [(h.eq_iff hb.1 hc.1).1 heq]

end LawfulOn

/-! ## Lineages -/

namespace Lineage

theorem orderSources_eq_compareLex : orderSources = List.compareLex order := by
  funext as bs
  induction as generalizing bs with
  | nil => cases bs <;> rfl
  | cons a as ih =>
    cases bs with
    | nil => rfl
    | cons b bs => rw [orderSources, List.compareLex_cons_cons, ih]

/-- The order of two entries of a group. -/
def orderEntry (e e' : Lineage × Nat) : Ordering := (e.1.order e'.1).then (compare e.2 e'.2)

theorem orderEntries_eq_compareLex : orderEntries = List.compareLex orderEntry := by
  funext as bs
  induction as generalizing bs with
  | nil => cases bs <;> rfl
  | cons a as ih =>
    cases bs with
    | nil => rfl
    | cons b bs => rw [orderEntries, List.compareLex_cons_cons, ih, orderEntry]

/-- What the order of lineages looks at, one field after the other: the kind, the name or label, the
sources, and the entries. -/
def fields : Lineage → Nat × String × List Lineage × List (Lineage × Nat)
  | known name => (0, name, [], [])
  | node label sources => (1, label, sources, [])
  | group entries => (2, "", [], entries)
  | unknown => (3, "", [], [])

theorem fields_inj {a b : Lineage} (h : a.fields = b.fields) : a = b := by
  cases a <;> cases b <;> simp_all [fields]

/-- The order of the fields. -/
def orderFields (x y : Nat × String × List Lineage × List (Lineage × Nat)) : Ordering :=
  (compare x.1 y.1).then ((compare x.2.1 y.2.1).then
    ((List.compareLex order x.2.2.1 y.2.2.1).then (List.compareLex orderEntry x.2.2.2 y.2.2.2)))

theorem order_eq_orderFields (a b : Lineage) : a.order b = orderFields a.fields b.fields := by
  have hsources : List.compareLex order [] [] = .eq := rfl
  have hentries : List.compareLex orderEntry [] [] = .eq := rfl
  cases a with
  | known name =>
    cases b with
    | known other => simp [order, fields, orderFields, hsources, hentries]
    | _ => rfl
  | node label sources =>
    cases b with
    | node _ _ => simp [order, fields, orderFields, orderSources_eq_compareLex, hentries]
    | _ => rfl
  | group entries =>
    cases b with
    | group _ => simp [order, fields, orderFields, orderEntries_eq_compareLex, hsources]
    | _ => rfl
  | unknown =>
    cases b with
    | unknown => simp [order, fields, orderFields, hsources, hentries]
    | _ => rfl

/-- What a lineage is made of is smaller. -/
theorem sizeOf_fields {l : Lineage} {n : Nat} (h : sizeOf l < n + 1) :
    (∀ s ∈ l.fields.2.2.1, sizeOf s < n) ∧ ∀ e ∈ l.fields.2.2.2, sizeOf e.1 < n := by
  cases l with
  | known name => exact ⟨nofun, nofun⟩
  | unknown => exact ⟨nofun, nofun⟩
  | node label sources =>
    refine ⟨fun s hs => ?_, nofun⟩
    have hsize := List.sizeOf_lt_of_mem hs
    simp only [fields, node.sizeOf_spec] at h hsize
    omega
  | group entries =>
    refine ⟨nofun, fun e he => ?_⟩
    obtain ⟨s, count⟩ := e
    have hsize := List.sizeOf_lt_of_mem he
    simp only [fields, group.sizeOf_spec, Prod.mk.sizeOf_spec] at h hsize ⊢
    omega

/-- Lineages are compared lawfully if the smaller ones are that they are made of. -/
theorem lawfulOn_order (n : Nat) : LawfulOn (fun l => sizeOf l < n) order := by
  induction n with
  | zero => exact ⟨nofun, nofun, nofun⟩
  | succ n ih =>
    have hentries := (ih.prod (LawfulOn.of_compare Nat)).list
    have hfields := (LawfulOn.of_compare Nat).prod
      ((LawfulOn.of_compare String).prod (ih.list.prod hentries))
    have horder : order = fun a b => orderFields a.fields b.fields := by
      funext a b
      exact order_eq_orderFields a b
    rw [horder]
    refine hfields.comap (fun _ _ => fields_inj) fun l hl => ?_
    obtain ⟨hsources, hentries⟩ := sizeOf_fields hl
    exact ⟨trivial, trivial, hsources, fun e he => ⟨hentries e he, trivial⟩⟩

/-- Lineages are equal under the order only if they are the same. -/
theorem order_eq_iff {a b : Lineage} : a.order b = .eq ↔ a = b := by
  apply (lawfulOn_order (sizeOf a + sizeOf b + 1)).eq_iff
  · omega
  · omega

theorem ne_of_order {a b : Lineage} (h : a.order b ≠ .eq) : a ≠ b :=
  fun heq => h (order_eq_iff.2 heq)

theorem order_swap (a b : Lineage) : (a.order b).swap = b.order a := by
  apply (lawfulOn_order (sizeOf a + sizeOf b + 1)).swap
  · omega
  · omega

theorem order_lt_trans {a b c : Lineage} (hab : a.order b = .lt) (hbc : b.order c = .lt) :
    a.order c = .lt := by
  refine (lawfulOn_order (sizeOf a + sizeOf b + sizeOf c + 1)).trans ?_ ?_ ?_ hab hbc
  · omega
  · omega
  · omega

instance : Std.TransCmp order where
  eq_swap := (order_swap _ _).symm
  isLE_trans := by
    intro a b c hab hbc
    cases hab' : a.order b with
    | gt =>
      rw [hab'] at hab
      nomatch hab
    | eq => rwa [order_eq_iff.1 hab']
    | lt =>
      cases hbc' : b.order c with
      | gt =>
        rw [hbc'] at hbc
        nomatch hbc
      | eq => rwa [← order_eq_iff.1 hbc']
      | lt => rw [order_lt_trans hab' hbc']; rfl

instance : Std.LawfulEqCmp order where
  compare_self := order_eq_iff.2 rfl
  eq_of_compare := order_eq_iff.1

instance : DecidableEq Lineage := fun a b =>
  decidable_of_iff (a.order b = .eq) order_eq_iff

theorem same_iff {a b : Lineage} : a.same b = true ↔ a = b := by
  rw [same, decide_eq_true_iff, order_eq_iff]

end Lineage

end DataCube
