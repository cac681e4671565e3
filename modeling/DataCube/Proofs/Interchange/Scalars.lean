import DataCube.Operator
import DataCube.Row
import DataCube.Proofs.Outcome
import DataCube.Proofs.ScalarOrder

/-!
# Scalars that nothing tells apart

Two NaN with different bits are one value: no operator, comparison or text tells one from the other.
Only the median looks at the sign of a NaN, since it sorts by bits.  So there are two relations
between scalars that are handed on by everything that is computed: that of scalars which are equal
but for the bits of a NaN, and the one that keeps the sign of a NaN as well, which the median
respects too.

* `Binary64.Alike`, `Scalar.Alike`: the relations; `signs` says that signs of NaN are kept.
* `EvalError.Alike`: errors of one kind and wording.
* `Agree`: two steps that both give results, which are related, or both stop with the same error.
* `Scalar.Alike.agree_cast`, `UnaryOp.agree_apply`, `BinaryOp.agree_apply`: casts and operators.
-/

namespace DataCube

/-! ## Doubles -/

namespace Binary64

/-- The doubles are equal, or both are NaN, and of one sign if signs are kept. -/
def Alike (signs : Prop) (x y : Binary64) : Prop :=
  x = y ∨ x.isNaN = true ∧ y.isNaN = true ∧ (signs → x.isNegative = y.isNegative)

theorem magnitude_neg (x : Binary64) : (-x).magnitude = x.magnitude := by
  have hbits : (-x).bits = x.bits ^^^ 0x8000000000000000 := rfl
  have hflip : (-x).magnitude = (x.bits.toNat ^^^ 2 ^ 63) % 2 ^ 63 := by
    simp [magnitude, hbits, UInt64.toNat_xor]
  have hsame : x.magnitude = x.bits.toNat % 2 ^ 63 := by simp [magnitude]
  rw [hflip, hsame, Nat.xor_mod_two_pow, Nat.mod_self, Nat.xor_zero]

theorem isNaN_neg (x : Binary64) : (-x).isNaN = x.isNaN := by
  rw [isNaN, isNaN, magnitude_neg]

/-- The sign is the highest bit. -/
theorem isNegative_eq_testBit (x : Binary64) : x.isNegative = x.bits.toNat.testBit 63 := by
  have hlt : x.bits.toNat < 2 ^ 64 := x.bits.toNat_lt
  rw [Nat.testBit_eq_decide_div_mod_eq]
  refine decide_eq_decide.2 ?_
  rw [UInt64.le_iff_toNat_le]
  simp
  omega

theorem isNegative_neg (x : Binary64) : (-x).isNegative = ! x.isNegative := by
  have hbits : (-x).bits = x.bits ^^^ 0x8000000000000000 := rfl
  have htop : (0x8000000000000000 : UInt64).toNat.testBit 63 = true := by decide
  rw [isNegative_eq_testBit, isNegative_eq_testBit, hbits, UInt64.toNat_xor, Nat.testBit_xor, htop,
    Bool.xor_true]

namespace Alike

variable {signs : Prop} {x x' y y' : Binary64}

theorem refl (x : Binary64) : Alike signs x x := Or.inl rfl

theorem isNaN_eq (h : Alike signs x y) : x.isNaN = y.isNaN := by
  rcases h with rfl | ⟨hx, hy, -⟩
  · rfl
  · rw [hx, hy]

theorem eq (h : Alike signs x y) (hx : x.isNaN = false) : x = y := by
  rcases h with rfl | ⟨hnan, -⟩
  · rfl
  · rw [hx] at hnan
    nomatch hnan

/-- An operation hands on the NaN that it is given, and else has the same operands. -/
theorem lift (op : Binary64 → Binary64 → Binary64) (h : Alike signs x x') (h' : Alike signs y y') :
    Alike signs (lift op x y) (lift op x' y') := by
  unfold Binary64.lift
  rw [← h.isNaN_eq, ← h'.isNaN_eq]
  cases hx : x.isNaN with
  | true => exact h
  | false =>
    cases hy : y.isNaN with
    | true => exact h'
    | false =>
      rw [h.eq hx, h'.eq hy]
      exact refl _

theorem add (h : Alike signs x x') (h' : Alike signs y y') : Alike signs (x + y) (x' + y') :=
  h.lift _ h'

theorem sub (h : Alike signs x x') (h' : Alike signs y y') : Alike signs (x - y) (x' - y') :=
  h.lift _ h'

theorem mul (h : Alike signs x x') (h' : Alike signs y y') : Alike signs (x * y) (x' * y') :=
  h.lift _ h'

theorem div (h : Alike signs x x') (h' : Alike signs y y') : Alike signs (x / y) (x' / y') :=
  h.lift _ h'

theorem neg (h : Alike signs x y) : Alike signs (-x) (-y) := by
  rcases h with rfl | ⟨hx, hy, hsigns⟩
  · exact refl _
  · refine Or.inr ⟨(isNaN_neg x).trans hx, (isNaN_neg y).trans hy, fun hs => ?_⟩
    rw [isNegative_neg, isNegative_neg, hsigns hs]

theorem sqrt (h : Alike signs x y) : Alike signs x.sqrt y.sqrt := by
  rcases h with rfl | ⟨hx, hy, hsigns⟩
  · exact refl _
  · rw [Binary64.sqrt, Binary64.sqrt, if_pos hx, if_pos hy]
    exact Or.inr ⟨hx, hy, hsigns⟩

theorem text_eq (h : Alike signs x y) : x.text = y.text := by
  rcases h with rfl | ⟨hx, hy, -⟩
  · rfl
  · rw [text, text, if_pos hx, if_pos hy]

theorem canonical_eq (h : Alike signs x y) : x.canonical = y.canonical := by
  rcases h with rfl | ⟨hx, hy, -⟩
  · rfl
  · rw [canonical_of_isNaN hx, canonical_of_isNaN hy]

theorem compareValues?_eq (h : Alike signs x x') (h' : Alike signs y y') :
    x.compareValues? y = x'.compareValues? y' := by
  unfold compareValues?
  rw [← h.isNaN_eq, ← h'.isNaN_eq]
  cases hx : x.isNaN with
  | true => rfl
  | false =>
    cases hy : y.isNaN with
    | true => rfl
    | false => rw [h.eq hx, h'.eq hy]

end Alike

theorem isIntegral_of_isNaN {x : Binary64} (h : x.isNaN = true) : x.isIntegral = false := by
  have hfinite : x.isFinite = false := by
    simp only [isNaN, decide_eq_true_eq] at h
    simp only [isFinite, decide_eq_false_iff_not]
    omega
  rw [isIntegral, hfinite, Bool.false_and]

end Binary64

/-! ## Scalars -/

/-- The scalars are equal, or numbers that are alike. -/
inductive Scalar.Alike (signs : Prop) : Scalar → Scalar → Prop where
  | refl (v : Scalar) : Alike signs v v
  | number {x y : Binary64} : x.Alike signs y → Alike signs (.number x) (.number y)

namespace Scalar.Alike

variable {signs : Prop} {v v' w w' : Scalar}

theorem domain_eq (h : v.Alike signs w) : v.domain = w.domain := by
  cases h <;> rfl

theorem isNull_eq (h : v.Alike signs w) : v.isNull = w.isNull := by
  cases h <;> rfl

theorem integer?_eq (h : v.Alike signs w) : v.integer? = w.integer? := by
  cases h <;> rfl

theorem boolean?_eq (h : v.Alike signs w) : v.boolean? = w.boolean? := by
  cases h <;> rfl

theorem text_eq (h : v.Alike signs w) : v.text = w.text := by
  cases h with
  | refl => rfl
  | number h => exact h.text_eq

/-- The numbers of scalars that are alike are. -/
theorem number? (h : v.Alike signs w) :
    Option.Rel (Binary64.Alike signs) v.number? w.number? := by
  cases h with
  | refl =>
    cases v.number? with
    | none => exact .none
    | some x => exact .some (.refl x)
  | number h => exact .some h

theorem getD_number? (h : v.Alike signs w) (x : Binary64) :
    Binary64.Alike signs (v.number?.getD x) (w.number?.getD x) := by
  cases h with
  | refl => exact .refl _
  | number h => exact h

theorem canonical_eq (h : v.Alike signs w) : v.canonical = w.canonical := by
  cases h with
  | refl => rfl
  | number h => exact congrArg Scalar.number h.canonical_eq

/-- Scalars that are alike are equal as values. -/
theorem order_eq (h : v.Alike signs w) : v.order w = .eq := order_eq_iff.2 h.canonical_eq

theorem order_congr (h : v.Alike signs v') (h' : w.Alike signs w') : v.order w = v'.order w' := by
  rw [Std.TransCmp.congr_left h.order_eq, Std.TransCmp.congr_right h'.order_eq]

end Scalar.Alike

/-! ## Errors and results -/

/-- The same error.  Only that of a cast has a value in it, and it is only ever written. -/
inductive EvalError.Alike : EvalError → EvalError → Prop where
  | refl (e : EvalError) : Alike e e
  | cast {v w : Scalar} {expected found : Domain} : v.text = w.text →
    Alike (.incompatibleDomain (.castOf v) expected found)
      (.incompatibleDomain (.castOf w) expected found)

theorem EvalError.Alike.message_eq {e e' : EvalError} (h : e.Alike e') :
    e.message = e'.message := by
  cases h with
  | refl => rfl
  | @cast v w expected found htext =>
    have hplace : (Place.castOf v).text = (Place.castOf w).text := congrArg ("cast of " ++ ·) htext
    exact congrArg
      (· ++ ": expected domain " ++ expected.text ++ " but found " ++ found.text) hplace

/-- Both steps have results, and they are related, or both stop with the same error. -/
inductive Agree {α β : Type} (Q : α → β → Prop) :
    Except EvalError α → Except EvalError β → Prop where
  | ok {a : α} {b : β} : Q a b → Agree Q (.ok a) (.ok b)
  | error {e e' : EvalError} : e.Alike e' → Agree Q (.error e) (.error e')

namespace Agree

variable {α β γ δ : Type} {Q : α → β → Prop} {Q' : γ → δ → Prop}

theorem refl {R : α → α → Prop} (h : ∀ a, R a a) (x : Except EvalError α) : Agree R x x := by
  cases x with
  | ok a => exact .ok (h a)
  | error e => exact .error (.refl e)

theorem of_eq {x y : Except EvalError α} (h : x = y) : Agree Eq x y := by
  subst h
  exact refl (fun _ => rfl) x

theorem bind {x : Except EvalError α} {y : Except EvalError β} {f : α → Except EvalError γ}
    {g : β → Except EvalError δ} (hxy : Agree Q x y) (hfg : ∀ a b, Q a b → Agree Q' (f a) (g b)) :
    Agree Q' (x >>= f) (y >>= g) := by
  cases hxy with
  | ok hab => exact hfg _ _ hab
  | error he => exact .error he

/-- A step that both chains share. -/
theorem bind_same {R : γ → δ → Prop} (x : Except EvalError α) {f : α → Except EvalError γ}
    {g : α → Except EvalError δ} (hfg : ∀ a, x = .ok a → Agree R (f a) (g a)) :
    Agree R (x >>= f) (x >>= g) := by
  cases x with
  | ok a => exact hfg a rfl
  | error e => exact .error (.refl e)

theorem map {x : Except EvalError α} {y : Except EvalError β} {f : α → γ} {g : β → δ}
    (hxy : Agree Q x y) (hfg : ∀ a b, Q a b → Q' (f a) (g b)) : Agree Q' (x.map f) (y.map g) := by
  cases hxy with
  | ok hab => exact .ok (hfg _ _ hab)
  | error he => exact .error he

theorem mapM {P : α → β → Prop} {f : α → Except EvalError γ} {g : β → Except EvalError δ}
    {xs : List α} {ys : List β} (h : List.Forall₂ P xs ys)
    (hfg : ∀ a b, P a b → Agree Q' (f a) (g b)) :
    Agree (List.Forall₂ Q') (xs.mapM f) (ys.mapM g) := by
  induction h with
  | nil => exact .ok .nil
  | cons hab _ ih =>
    rw [List.mapM_cons, List.mapM_cons]
    exact bind (hfg _ _ hab) fun c d hcd => bind ih fun cs ds hs => .ok (.cons hcd hs)

end Agree

/-! ## Casts and operators -/

variable {signs : Prop} {v v' w w' : Scalar}

theorem Scalar.Alike.agree_cast (h : v.Alike signs w) (target : Domain) :
    Agree (Scalar.Alike signs) (v.cast target) (w.cast target) := by
  cases h with
  | refl => exact Agree.refl .refl _
  | @number x y h =>
    cases target with
    | unknown => exact .ok (.number h)
    | number => exact .ok (.number h)
    | integer =>
      rcases h with rfl | ⟨hx, hy, hsigns⟩
      · exact Agree.refl .refl _
      · simp only [cast, Binary64.isIntegral_of_isNaN hx, Binary64.isIntegral_of_isNaN hy,
          Bool.false_eq_true, if_false]
        have hxy : x.Alike signs y := Or.inr ⟨hx, hy, hsigns⟩
        exact .error (.cast hxy.text_eq)
    | _ => exact .error (.cast h.text_eq)

theorem Component.agree_store (c : Component) (h : v.Alike signs w) :
    Agree (Scalar.Alike signs) (c.store v) (c.store w) := by
  unfold Component.store
  rw [h.domain_eq]
  split
  · exact .ok h
  · split
    · exact .error (.refl _)
    · exact h.agree_cast c.domain

theorem UnaryOp.agree_apply (op : UnaryOp) (h : v.Alike signs w) :
    Agree (Scalar.Alike signs) (op.apply v) (op.apply w) := by
  cases h with
  | refl => exact Agree.refl .refl _
  | number h =>
    cases op with
    | neg => exact .ok (.number h.neg)
    | not => exact .error (.refl _)
    | isNull => exact .ok (.refl _)

namespace BinaryOp

variable (op : BinaryOp)

theorem compare_congr (h : v.Alike signs v') (h' : w.Alike signs w') :
    op.compare v w = op.compare v' w' := by
  have hx := h.number?
  have hy := h'.number?
  unfold compare
  rw [h.order_congr h']
  generalize v.number? = x, v'.number? = x', w.number? = y, w'.number? = y' at hx hy ⊢
  cases hx with
  | none => rfl
  | some hx =>
    cases hy with
    | none => rfl
    | some hy => simp only [hx.compareValues?_eq hy]

theorem onNumbers_alike {x x' y y' : Binary64} (h : x.Alike signs x') (h' : y.Alike signs y') :
    (op.onNumbers x y).Alike signs (op.onNumbers x' y') := by
  unfold onNumbers
  split
  · exact h.add h'
  · exact h.sub h'
  · exact h.mul h'
  · exact h.div h'

theorem agree_compute (h : v.Alike signs v') (h' : w.Alike signs w') :
    Agree (Scalar.Alike signs) (op.compute v w) (op.compute v' w') := by
  have hnumbers : Agree (Scalar.Alike signs)
      (.ok (.number (op.onNumbers (v.number?.getD .nan) (w.number?.getD .nan))))
      (.ok (.number (op.onNumbers (v'.number?.getD .nan) (w'.number?.getD .nan)))) :=
    .ok (.number (op.onNumbers_alike (h.getD_number? _) (h'.getD_number? _)))
  unfold compute
  rw [h.integer?_eq, h'.integer?_eq]
  split
  · exact Agree.refl .refl _
  · exact hnumbers

theorem agree_apply (h : v.Alike signs v') (h' : w.Alike signs w') :
    Agree (Scalar.Alike signs) (op.apply v w) (op.apply v' w') := by
  unfold apply
  simp only [h.domain_eq, h'.domain_eq, h.boolean?_eq, h'.boolean?_eq, h.isNull_eq, h'.isNull_eq,
    compare_congr _ h h']
  refine Agree.bind_same _ fun domain _ => ?_
  split
  · exact .ok (.refl _)
  · exact .ok (.refl _)
  · split
    · exact .ok (.refl _)
    · split
      · exact .ok (.refl _)
      · exact agree_compute _ h h'

end BinaryOp

end DataCube
