import DataCube.Error
import DataCube.Proofs.Correspondence

/-!
# Reasoning about results

Typing and evaluation are chains of steps, each of which gives a result or stops with an error.  The
three assertions below speak about such steps, and every one of them comes with a rule for a chain
(`bind`), for a renamed result (`map`) and for a step that is made for every member of a list
(`mapM`, `forM`).

* `Outcome fails gives x`: a result of `x` satisfies `gives`, an error of `x` satisfies `fails`.
* `Consistent Q x y`: where `x` and `y` both have results, `Q` relates them.
* `Dominates Q x y`: `x` has a result wherever `y` has one, and `Q` relates the two.
-/

namespace DataCube

variable {ε α β γ δ : Type}

/-! ## Chains that succeed -/

theorem bind_eq_ok {x : Except ε α} {f : α → Except ε β} {b : β} :
    (x >>= f) = .ok b ↔ ∃ a, x = .ok a ∧ f a = .ok b := by
  constructor
  · intro h
    cases x with
    | ok a => exact ⟨a, rfl, h⟩
    | error e => nomatch h
  · rintro ⟨a, rfl, h⟩
    exact h

theorem ok_bind (a : α) (f : α → Except ε β) : (Except.ok a >>= f) = f a := rfl

theorem error_bind (e : ε) (f : α → Except ε β) : (Except.error e >>= f) = .error e := rfl

theorem map_eq_ok {x : Except ε α} {f : α → β} {b : β} :
    x.map f = .ok b ↔ ∃ a, x = .ok a ∧ f a = b := by
  cases x with
  | ok a => simp [Except.map]
  | error e => simp [Except.map]

theorem map_eq_error {x : Except ε α} {f : α → β} {e : ε} :
    x.map f = .error e ↔ x = .error e := by
  cases x <;> simp [Except.map]

/-- A step made for every member of a list succeeds if it succeeds for each of them. -/
theorem mapM_eq_ok {f : α → Except ε β} {xs : List α} {ys : List β} :
    xs.mapM f = .ok ys ↔ List.Forall₂ (fun x y => f x = .ok y) xs ys := by
  induction xs generalizing ys with
  | nil =>
    rw [List.mapM_nil, List.forall₂_nil_left_iff]
    exact ⟨fun h => by cases h; rfl, fun h => by rw [h]; rfl⟩
  | cons x xs ih =>
    rw [List.mapM_cons, List.forall₂_cons_left_iff, bind_eq_ok]
    constructor
    · rintro ⟨y, hy, h⟩
      obtain ⟨rest, hrest, heq⟩ := bind_eq_ok.1 h
      exact ⟨y, rest, hy, ih.1 hrest, (Except.ok.inj heq).symm⟩
    · rintro ⟨y, rest, hy, hrest, rfl⟩
      exact ⟨y, hy, bind_eq_ok.2 ⟨rest, ih.2 hrest, rfl⟩⟩

theorem exists_mapM_eq_ok {f : α → Except ε β} {xs : List α} (h : ∀ x ∈ xs, ∃ y, f x = .ok y) :
    ∃ ys, xs.mapM f = .ok ys :=
  (exists_forall₂ h).imp fun _ hys => mapM_eq_ok.2 hys

/-- Steps that agree for every member come to the same. -/
theorem mapM_congr {f g : α → Except ε β} {xs : List α} (h : ∀ x ∈ xs, f x = g x) :
    xs.mapM f = xs.mapM g := by
  induction xs with
  | nil => rfl
  | cons x xs ih =>
    obtain ⟨hx, hxs⟩ := List.forall_mem_cons.1 h
    rw [List.mapM_cons, List.mapM_cons, hx, ih hxs]

/-- Each of the results is that of a member. -/
theorem exists_of_mem_mapM {f : α → Except ε β} {xs : List α} {ys : List β}
    (h : xs.mapM f = .ok ys) {y : β} (hy : y ∈ ys) : ∃ x ∈ xs, f x = .ok y :=
  exists_of_forall₂ (mapM_eq_ok.1 h).flip hy

/-- A step made for every member of a list fails with the error of the first one that it fails for.
-/
theorem mapM_eq_error {f : α → Except ε β} {xs : List α} {e : ε} :
    xs.mapM f = .error e ↔ ∃ before x after, xs = before ++ x :: after ∧
      (∀ y ∈ before, ∃ b, f y = .ok b) ∧ f x = .error e := by
  constructor
  · intro h
    induction xs with
    | nil => nomatch h
    | cons x xs ih =>
      rw [List.mapM_cons] at h
      cases hx : f x with
      | error e' =>
        rw [hx, error_bind] at h
        cases h
        exact ⟨[], x, xs, rfl, nofun, hx⟩
      | ok y =>
        rw [hx, ok_bind] at h
        cases hxs : xs.mapM f with
        | ok ys =>
          rw [hxs] at h
          nomatch h
        | error e' =>
          rw [hxs, error_bind] at h
          cases h
          obtain ⟨before, z, after, rfl, hbefore, hz⟩ := ih hxs
          exact ⟨x :: before, z, after, rfl, List.forall_mem_cons.2 ⟨⟨y, hx⟩, hbefore⟩, hz⟩
  · rintro ⟨before, x, after, rfl, hbefore, hx⟩
    induction before with
    | nil =>
      rw [List.nil_append, List.mapM_cons, hx]
      rfl
    | cons y before ih =>
      obtain ⟨⟨b, hy⟩, hbefore⟩ := List.forall_mem_cons.1 hbefore
      rw [List.cons_append, List.mapM_cons, hy, ok_bind, ih hbefore]
      rfl

/-- A check made for every member of a list succeeds if it succeeds for each of them. -/
theorem forM_eq_ok {f : α → Except ε Unit} {xs : List α} {u : Unit} :
    xs.forM f = .ok u ↔ ∀ x ∈ xs, f x = .ok () := by
  induction xs with
  | nil => exact ⟨fun _ x hx => (nomatch hx), fun _ => rfl⟩
  | cons x xs ih =>
    show (f x >>= fun _ => xs.forM f) = .ok u ↔ _
    rw [bind_eq_ok, List.forall_mem_cons]
    constructor
    · rintro ⟨_, hx, hxs⟩
      exact ⟨hx, ih.1 hxs⟩
    · rintro ⟨hx, hxs⟩
      exact ⟨(), hx, ih.2 hxs⟩

/-! ## What a step ends in -/

/-- A result satisfies `gives`, and an error in its place satisfies `fails`. -/
def Outcome (fails : ε → Prop) (gives : α → Prop) : Except ε α → Prop
  | .ok a => gives a
  | .error e => fails e

namespace Outcome

variable {fails : ε → Prop} {gives : α → Prop}

theorem result {x : Except ε α} {a : α} (h : Outcome fails gives x) (ha : x = .ok a) : gives a := by
  subst ha
  exact h

theorem mono {gives' : α → Prop} {x : Except ε α} (h : Outcome fails gives x)
    (hg : ∀ a, x = .ok a → gives a → gives' a) : Outcome fails gives' x := by
  cases x with
  | ok a => exact hg a rfl h
  | error e => exact h

theorem mono_error {fails' : ε → Prop} {x : Except ε α} (h : Outcome fails gives x)
    (hf : ∀ e, fails e → fails' e) : Outcome fails' gives x := by
  cases x with
  | ok a => exact h
  | error e => exact hf e h

theorem bind {gives' : β → Prop} {x : Except ε α} {f : α → Except ε β}
    (hx : Outcome fails gives x) (hf : ∀ a, x = .ok a → gives a → Outcome fails gives' (f a)) :
    Outcome fails gives' (x >>= f) := by
  cases x with
  | ok a => exact hf a rfl hx
  | error e => exact hx

theorem map {gives' : β → Prop} {x : Except ε α} {f : α → β} (hx : Outcome fails gives x)
    (hf : ∀ a, x = .ok a → gives a → gives' (f a)) : Outcome fails gives' (x.map f) := by
  cases x with
  | ok a => exact hf a rfl hx
  | error e => exact hx

theorem mapM {R : α → β → Prop} {f : α → Except ε β} {xs : List α}
    (h : ∀ x ∈ xs, Outcome fails (R x) (f x)) :
    Outcome fails (List.Forall₂ R xs) (xs.mapM f) := by
  induction xs with
  | nil => exact List.Forall₂.nil
  | cons x xs ih =>
    rw [List.mapM_cons]
    refine bind (h x List.mem_cons_self) fun y _ hy => ?_
    exact bind (ih fun z hz => h z (List.mem_cons_of_mem x hz)) fun ys _ hys => .cons hy hys

/-- Two steps that can fail with one error only, and succeed together, fail together. -/
theorem error_iff {x : Except ε α} {y : Except ε β} {gives' : β → Prop}
    (hunique : ∀ e e', fails e → fails e' → e = e') (hx : Outcome fails gives x)
    (hy : Outcome fails gives' y) (h : (∃ a, x = .ok a) ↔ ∃ b, y = .ok b) (e : ε) :
    x = .error e ↔ y = .error e := by
  cases x with
  | ok a =>
    obtain ⟨b, rfl⟩ := h.1 ⟨a, rfl⟩
    exact ⟨fun hx => (nomatch hx), fun hy => (nomatch hy)⟩
  | error e' =>
    cases y with
    | ok b =>
      obtain ⟨a, ha⟩ := h.2 ⟨b, rfl⟩
      nomatch ha
    | error e'' => simp only [hunique e' e'' hx hy, Except.error.injEq]

theorem forM {f : α → Except ε Unit} {xs : List α}
    (h : ∀ x ∈ xs, Outcome fails (fun _ => True) (f x)) :
    Outcome fails (fun _ => True) (xs.forM f) := by
  induction xs with
  | nil => trivial
  | cons x xs ih =>
    refine bind (h x List.mem_cons_self) fun _ _ _ => ?_
    exact ih fun z hz => h z (List.mem_cons_of_mem x hz)

end Outcome

/-! ## Two steps side by side -/

/-- Where both steps have results, the results are related. -/
def Consistent (Q : α → β → Prop) (x : Except ε α) (y : Except ε β) : Prop :=
  ∀ a b, x = .ok a → y = .ok b → Q a b

/-- The left step has a result wherever the right one has, and the results are related. -/
def Dominates (Q : α → β → Prop) (x : Except ε α) (y : Except ε β) : Prop :=
  ∀ b, y = .ok b → ∃ a, x = .ok a ∧ Q a b

namespace Consistent

variable {Q : α → β → Prop} {Q' : γ → δ → Prop}

theorem ok {a : α} {b : β} (h : Q a b) : Consistent (ε := ε) Q (.ok a) (.ok b) := by
  intro a' b' ha hb
  cases ha
  cases hb
  exact h

theorem of_error {e : ε} {y : Except ε β} : Consistent Q (.error e : Except ε α) y :=
  fun _ _ h => nomatch h

theorem bind {x : Except ε α} {y : Except ε β} {f : α → Except ε γ} {g : β → Except ε δ}
    (hxy : Consistent Q x y) (hfg : ∀ a b, Q a b → Consistent Q' (f a) (g b)) :
    Consistent Q' (x >>= f) (y >>= g) := by
  intro c d hc hd
  obtain ⟨a, ha, hc⟩ := bind_eq_ok.1 hc
  obtain ⟨b, hb, hd⟩ := bind_eq_ok.1 hd
  exact hfg a b (hxy a b ha hb) c d hc hd

theorem map {x : Except ε α} {y : Except ε β} {f : α → γ} {g : β → δ} (hxy : Consistent Q x y)
    (hfg : ∀ a b, Q a b → Q' (f a) (g b)) : Consistent Q' (x.map f) (y.map g) := by
  intro c d hc hd
  obtain ⟨a, ha, rfl⟩ := map_eq_ok.1 hc
  obtain ⟨b, hb, rfl⟩ := map_eq_ok.1 hd
  exact hfg a b (hxy a b ha hb)

end Consistent

namespace Dominates

variable {Q : α → β → Prop} {Q' : γ → δ → Prop}

theorem consistent {x : Except ε α} {y : Except ε β} (h : Dominates Q x y) : Consistent Q x y := by
  intro a b ha hb
  obtain ⟨a', ha', hq⟩ := h b hb
  rw [ha] at ha'
  cases ha'
  exact hq

/-- Steps that are consistent with a dominated one, whose result is part of theirs. -/
theorem consistent_of {x : Except ε α} {y : Except ε β} {z : Except ε γ} {f : γ → β}
    (h : Dominates Q x y) (hz : ∀ c, z = .ok c → y = .ok (f c)) :
    Consistent (fun a c => Q a (f c)) x z := by
  intro a c ha hc
  exact h.consistent a (f c) ha (hz c hc)

theorem ok {a : α} {b : β} (h : Q a b) : Dominates (ε := ε) Q (.ok a) (.ok b) := by
  intro b' hb
  cases hb
  exact ⟨a, rfl, h⟩

theorem of_error {x : Except ε α} {e : ε} : Dominates Q x (.error e : Except ε β) :=
  fun _ h => nomatch h

theorem mono {Q'' : α → β → Prop} {x : Except ε α} {y : Except ε β} (h : Dominates Q x y)
    (hq : ∀ a b, Q a b → Q'' a b) : Dominates Q'' x y := by
  intro b hb
  obtain ⟨a, ha, hab⟩ := h b hb
  exact ⟨a, ha, hq a b hab⟩

theorem bind {x : Except ε α} {y : Except ε β} {f : α → Except ε γ} {g : β → Except ε δ}
    (hxy : Dominates Q x y) (hfg : ∀ a b, Q a b → Dominates Q' (f a) (g b)) :
    Dominates Q' (x >>= f) (y >>= g) := by
  intro d hd
  obtain ⟨b, hb, hd⟩ := bind_eq_ok.1 hd
  obtain ⟨a, ha, hab⟩ := hxy b hb
  obtain ⟨c, hc, hcd⟩ := hfg a b hab d hd
  exact ⟨c, bind_eq_ok.2 ⟨a, ha, hc⟩, hcd⟩

theorem map {x : Except ε α} {y : Except ε β} {f : α → γ} {g : β → δ}
    (hxy : Dominates Q x y) (hfg : ∀ a b, Q a b → Q' (f a) (g b)) :
    Dominates Q' (x.map f) (y.map g) := by
  intro d hd
  obtain ⟨b, hb, rfl⟩ := map_eq_ok.1 hd
  obtain ⟨a, ha, hab⟩ := hxy b hb
  exact ⟨f a, map_eq_ok.2 ⟨a, ha, rfl⟩, hfg a b hab⟩

theorem mapM {P : α → β → Prop} {f : α → Except ε γ} {g : β → Except ε δ} {xs : List α}
    {ys : List β} (h : List.Forall₂ P xs ys) (hfg : ∀ a b, P a b → Dominates Q' (f a) (g b)) :
    Dominates (List.Forall₂ Q') (xs.mapM f) (ys.mapM g) := by
  induction h with
  | nil => exact fun ds hds => ⟨[], rfl, by cases hds; exact .nil⟩
  | cons hab _ ih =>
    rw [List.mapM_cons, List.mapM_cons]
    exact bind (hfg _ _ hab) fun c d hcd => bind ih fun cs ds hs => ok (.cons hcd hs)

end Dominates

end DataCube
