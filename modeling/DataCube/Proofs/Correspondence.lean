import Mathlib.Data.List.Forall2

/-!
# Corresponding lists

Two lists of the same length whose members correspond place by place, as the components of two
schemas do, or the components of a schema and the values of a row.  Searching, filtering and testing
such lists with tests that agree on corresponding members gives corresponding answers.
-/

namespace DataCube

variable {α β : Type} {P : α → β → Prop} {xs : List α} {ys : List β}

/-- Corresponding members are members. -/
theorem forall₂_mem (h : List.Forall₂ P xs ys) :
    List.Forall₂ (fun a b => P a b ∧ a ∈ xs ∧ b ∈ ys) xs ys := by
  induction h with
  | nil => exact .nil
  | cons hab _ ih =>
    refine .cons ⟨hab, List.mem_cons_self, List.mem_cons_self⟩ (ih.imp fun c d hcd => ?_)
    exact ⟨hcd.1, List.mem_cons_of_mem _ hcd.2.1, List.mem_cons_of_mem _ hcd.2.2⟩

/-- A member of the left list has a partner. -/
theorem exists_of_forall₂ (h : List.Forall₂ P xs ys) {a : α} (ha : a ∈ xs) : ∃ b ∈ ys, P a b := by
  induction h with
  | nil => nomatch ha
  | @cons c d _ _ hcd _ ih =>
    rcases List.mem_cons.1 ha with rfl | ha
    · exact ⟨d, List.mem_cons_self, hcd⟩
    · obtain ⟨b, hb, hab⟩ := ih ha
      exact ⟨b, List.mem_cons_of_mem d hb, hab⟩

/-- A member of the left list is paired with its partner. -/
theorem exists_mem_zip (h : List.Forall₂ P xs ys) {a : α} (ha : a ∈ xs) :
    ∃ b, (a, b) ∈ xs.zip ys ∧ P a b := by
  induction h with
  | nil => nomatch ha
  | @cons c d _ _ hcd _ ih =>
    rcases List.mem_cons.1 ha with rfl | ha
    · exact ⟨d, List.mem_cons_self, hcd⟩
    · obtain ⟨b, hb, hab⟩ := ih ha
      exact ⟨b, List.mem_cons_of_mem _ hb, hab⟩

/-- Members that all have a possible partner can be paired. -/
theorem exists_forall₂ (h : ∀ a ∈ xs, ∃ b, P a b) : ∃ ys, List.Forall₂ P xs ys := by
  induction xs with
  | nil => exact ⟨[], .nil⟩
  | cons a xs ih =>
    obtain ⟨b, hab⟩ := h a List.mem_cons_self
    obtain ⟨ys, hys⟩ := ih fun c hc => h c (List.mem_cons_of_mem a hc)
    exact ⟨b :: ys, .cons hab hys⟩

theorem forall₂_find? {p : α → Bool} {q : β → Bool} (h : List.Forall₂ P xs ys)
    (hpq : ∀ a b, P a b → p a = q b) : Option.Rel P (xs.find? p) (ys.find? q) := by
  induction h with
  | nil => exact .none
  | @cons a b as bs hab _ ih =>
    rw [List.find?_cons, List.find?_cons, hpq a b hab]
    cases q b with
    | true => exact .some hab
    | false => exact ih

theorem forall₂_isEmpty (h : List.Forall₂ P xs ys) : xs.isEmpty = ys.isEmpty := by
  cases h <;> rfl

theorem forall₂_any {p : α → Bool} {q : β → Bool} (h : List.Forall₂ P xs ys)
    (hpq : ∀ a b, P a b → p a = q b) : xs.any p = ys.any q := by
  induction h with
  | nil => rfl
  | cons hab _ ih => rw [List.any_cons, List.any_cons, hpq _ _ hab, ih]

theorem forall₂_filter {p : α → Bool} {q : β → Bool} (h : List.Forall₂ P xs ys)
    (hpq : ∀ a b, P a b → p a = q b) : List.Forall₂ P (xs.filter p) (ys.filter q) := by
  induction h with
  | nil => exact .nil
  | @cons a b as bs hab _ ih =>
    rw [List.filter_cons, List.filter_cons, hpq a b hab]
    cases q b with
    | true => exact .cons hab ih
    | false => exact ih

theorem forall₂_getElem? (h : List.Forall₂ P xs ys) (i : Nat) : Option.Rel P xs[i]? ys[i]? := by
  induction h generalizing i with
  | nil => exact .none
  | cons hab _ ih =>
    cases i with
    | zero => exact .some hab
    | succ i => exact ih i

/-- Pairs of members correspond to pairs of members, in the same order. -/
theorem forall₂_pairwise {S : α → α → Prop} {S' : β → β → Prop} (h : List.Forall₂ P xs ys)
    (hxs : xs.Pairwise S) (hS : ∀ a b c d, P a c → P b d → S a b → S' c d) : ys.Pairwise S' := by
  induction h with
  | nil => exact .nil
  | cons hab hrest ih =>
    obtain ⟨hfirst, hxs⟩ := List.pairwise_cons.1 hxs
    refine List.pairwise_cons.2 ⟨fun d hd => ?_, ih hxs⟩
    obtain ⟨b, hb, hbd⟩ := exists_of_forall₂ hrest.flip hd
    exact hS _ _ _ _ hab hbd (hfirst b hb)

/-- Lists of one length correspond if their members in every place do. -/
theorem forall₂_of_getElem? (hlength : xs.length = ys.length)
    (h : ∀ (i : Nat) (a : α) (b : β), xs[i]? = some a → ys[i]? = some b → P a b) :
    List.Forall₂ P xs ys := by
  refine List.forall₂_iff_get.2 ⟨hlength, fun i hi hi' => ?_⟩
  exact h i _ _ (List.getElem?_eq_getElem hi) (List.getElem?_eq_getElem hi')

/-- Members that have partners in a list correspond to the partners of these. -/
theorem forall₂_comp {γ : Type} {Q : β → γ → Prop} {zs : List γ} (h : List.Forall₂ P xs ys)
    (h' : List.Forall₂ Q ys zs) : List.Forall₂ (fun a c => ∃ b, P a b ∧ Q b c) xs zs := by
  induction h generalizing zs with
  | nil =>
    cases h'
    exact .nil
  | cons hab _ ih =>
    cases h' with
    | cons hbc hrest => exact .cons ⟨_, hab, hbc⟩ (ih hrest)

/-- Members that have something in between can have it put in a list of its own. -/
theorem exists_forall₂_between {γ : Type} {Q : α → γ → Prop} {R : γ → β → Prop}
    (h : List.Forall₂ (fun a b => ∃ c, Q a c ∧ R c b) xs ys) :
    ∃ zs, List.Forall₂ Q xs zs ∧ List.Forall₂ R zs ys := by
  induction h with
  | nil => exact ⟨[], .nil, .nil⟩
  | cons hab _ ih =>
    obtain ⟨c, hac, hcb⟩ := hab
    obtain ⟨zs, hxs, hys⟩ := ih
    exact ⟨c :: zs, .cons hac hxs, .cons hcb hys⟩

/-- Members that are numbered for the sake of their partners. -/
theorem forall₂_of_zipIdx (h : List.Forall₂ (fun e b => P e.1 b) xs.zipIdx ys) :
    List.Forall₂ P xs ys := by
  have hfirst : List.Forall₂ P (xs.zipIdx.map Prod.fst) ys := List.forall₂_map_left_iff.2 h
  rwa [List.zipIdx_map_fst] at hfirst

/-- Maps that take corresponding members to the same. -/
theorem map_eq_map_of_forall₂ {γ : Type} {f : α → γ} {g : β → γ} (h : List.Forall₂ P xs ys)
    (hfg : ∀ a b, P a b → f a = g b) : xs.map f = ys.map g := by
  rw [← List.forall₂_eq_eq_eq]
  exact List.rel_map hfg h

/-- Paired with the members of one and the same list. -/
theorem forall₂_zip {γ : Type} (zs : List γ) (h : List.Forall₂ P xs ys) :
    List.Forall₂ (fun e e' => e.1 = e'.1 ∧ P e.2 e'.2) (zs.zip xs) (zs.zip ys) := by
  induction h generalizing zs with
  | nil =>
    rw [List.zip_nil_right, List.zip_nil_right]
    exact .nil
  | cons hab _ ih =>
    cases zs with
    | nil => exact .nil
    | cons z zs => exact .cons ⟨rfl, hab⟩ (ih zs)

/-- What stands in for a missing partner may be anything that corresponds. -/
theorem rel_getD {x : Option α} {y : Option β} (h : Option.Rel P x y) {a : α} {b : β}
    (hab : P a b) : P (x.getD a) (y.getD b) := by
  cases h with
  | some h => exact h
  | none => exact hab

theorem rel_map {γ δ : Type} {Q : γ → δ → Prop} {f : α → γ} {g : β → δ} {x : Option α}
    {y : Option β} (h : Option.Rel P x y) (hfg : ∀ a b, P a b → Q (f a) (g b)) :
    Option.Rel Q (x.map f) (y.map g) := by
  cases h with
  | some h => exact .some (hfg _ _ h)
  | none => exact .none

/-- Both are there, or neither. -/
theorem rel_cases {x : Option α} {y : Option β} (h : Option.Rel P x y) :
    x = none ∧ y = none ∨ ∃ a b, x = some a ∧ y = some b ∧ P a b := by
  cases h with
  | some hab => exact Or.inr ⟨_, _, rfl, rfl, hab⟩
  | none => exact Or.inl ⟨rfl, rfl⟩

/-- The first choice, or else the second. -/
theorem rel_or {x x' : Option α} {y y' : Option β} (h : Option.Rel P x y)
    (h' : Option.Rel P x' y') : Option.Rel P (x.or x') (y.or y') := by
  cases h with
  | some hab => exact .some hab
  | none => exact h'

/-- A map that is defined on every member leaves none out. -/
theorem forall₂_filterMap {f : α → Option β} (h : ∀ a ∈ xs, ∃ b, f a = some b ∧ P a b) :
    List.Forall₂ P xs (xs.filterMap f) := by
  induction xs with
  | nil => exact .nil
  | cons a xs ih =>
    obtain ⟨b, hb, hab⟩ := h a List.mem_cons_self
    rw [List.filterMap_cons_some hb]
    exact .cons hab (ih fun c hc => h c (List.mem_cons_of_mem a hc))

end DataCube
