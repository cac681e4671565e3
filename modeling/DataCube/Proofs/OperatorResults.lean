import DataCube.Proofs.Typing.Precision

/-!
# Results of operators

Typing and application of an operator are two tables, over the domains and over the values of its
operands.  They agree: operands are refused for the reason that typing gives, and a result has the
domain that typing finds, except that integer arithmetic can leave the integers of 64 bits.  So the
only error that is left to evaluation is this overflow.

* `Delivers`: a result keeps to what typing finds.  `Delivers.of_refused`, `of_value` and `of_exact`
  are the three ways to do so.
* `UnaryOp.exactInteger?`, `BinaryOp.exactInteger?`: the exact results of operators that stay within
  the integers.
* `UnaryOp.delivers_apply`, `BinaryOp.delivers_apply`: results of operators do keep to it.
* `UnaryOp.outcome_apply`, `BinaryOp.outcome_apply`: operands that are accepted have a result of the
  expected domain, or overflow.
* `operators_deliver`: all operators and operands together.
-/

namespace DataCube

/-- The one error that typing cannot exclude. -/
def EvalError.IsOverflow : EvalError → Prop
  | .integerOverflow _ _ => True
  | _ => False

/-- What is not null and stands for a number is one. -/
theorem Scalar.number_of_accepts {v : Scalar} (hv : v.isNull = false)
    (h : Domain.number.accepts v.domain = true) :
    (∃ i, v = .integer i) ∨ ∃ x, v = .number x := by
  cases v with
  | integer i => exact Or.inl ⟨i, rfl⟩
  | number x => exact Or.inr ⟨x, rfl⟩
  | string s => nomatch h
  | boolean b => nomatch h
  | null d => nomatch hv

/-! ## Delivery -/

/-- There is a 64-bit integer equal to an integer, or it is out of range. -/
theorem exactInt64?_cases (k : Int) :
    (∃ i, exactInt64? k = some i ∧ i.toInt = k) ∨
      exactInt64? k = none ∧ (k < Int64.minValue.toInt ∨ Int64.maxValue.toInt < k) := by
  have hlow : Int64.minValue.toInt = -0x8000000000000000 := rfl
  have hhigh : Int64.maxValue.toInt = 0x7FFFFFFFFFFFFFFF := rfl
  unfold exactInt64? fitsInt64
  split
  · rename_i h
    simp only [Bool.and_eq_true, decide_eq_true_iff] at h
    exact Or.inl ⟨_, rfl, Int64.toInt_ofInt_of_le (by omega) (by omega)⟩
  · rename_i h
    simp only [Bool.and_eq_true, decide_eq_true_iff] at h
    exact Or.inr ⟨rfl, by omega⟩

/-- A result keeps to what typing finds for the operands.  `whole?` is the exact result, if they are
integers and the operator stays within those, and `number?` is made of the numbers of the operands,
if they have some. -/
structure Delivers (typed : Except EvalError Domain) (whole? : Option Int)
    (number? : Option Binary64) (overflow : EvalError) (result : Except EvalError Scalar) :
    Prop where
  refused : ∀ e, typed = .error e → result = .error e
  domain : ∀ d, typed = .ok d → (∃ w, result = .ok w ∧ w.domain = d) ∨ result = .error overflow
  overflow_iff : result = .error overflow ↔
    ∃ k, whole? = some k ∧ (k < Int64.minValue.toInt ∨ Int64.maxValue.toInt < k)
  integer : ∀ i, result = .ok (.integer i) → whole? = some i.toInt
  number : ∀ x, result = .ok (.number x) → number? = some x

namespace Delivers

variable {typed : Except EvalError Domain} {whole? : Option Int} {number? : Option Binary64}
  {overflow : EvalError} {result : Except EvalError Scalar}

/-- Operands are refused for the reason that typing gives. -/
theorem of_refused {e : EvalError} (htyped : typed = .error e) (hresult : result = .error e)
    (hne : e ≠ overflow) (hexact : whole? = none) :
    Delivers typed whole? number? overflow result := by
  subst htyped hresult hexact
  constructor
  · rintro _ ⟨⟩
    rfl
  · rintro _ ⟨⟩
  · constructor
    · exact fun h => absurd (Except.error.inj h) hne
    · rintro ⟨k, ⟨⟩, -⟩
  · rintro _ ⟨⟩
  · rintro _ ⟨⟩

/-- A value that is no integer, and no other number than that of the operands. -/
theorem of_value {w : Scalar} (htyped : typed = .ok w.domain) (hresult : result = .ok w)
    (hexact : whole? = none) (hinteger : w.integer? = none)
    (hnumber : ∀ x, w = .number x → number? = some x) :
    Delivers typed whole? number? overflow result := by
  subst htyped hresult hexact
  constructor
  · rintro _ ⟨⟩
  · rintro _ ⟨⟩
    exact Or.inl ⟨w, rfl, rfl⟩
  · constructor
    · rintro ⟨⟩
    · rintro ⟨k, ⟨⟩, -⟩
  · rintro i ⟨⟩
    nomatch hinteger
  · rintro x ⟨⟩
    exact hnumber x rfl

/-- The exact result on integers, if 64 bits hold it. -/
theorem of_exact {k : Int} (htyped : typed = .ok .integer) (hexact : whole? = some k)
    (hresult : result = match exactInt64? k with
      | some i => .ok (.integer i)
      | none => .error overflow) :
    Delivers typed whole? number? overflow result := by
  subst htyped hexact
  rcases exactInt64?_cases k with ⟨i, hi, rfl⟩ | ⟨hnone, hrange⟩
  · rw [hi] at hresult
    subst hresult
    have hlow := i.minValue_le_toInt
    have hhigh := i.toInt_le
    constructor
    · rintro _ ⟨⟩
    · rintro _ ⟨⟩
      exact Or.inl ⟨_, rfl, rfl⟩
    · constructor
      · rintro ⟨⟩
      · rintro ⟨k, ⟨⟩, hk⟩
        omega
    · rintro _ ⟨⟩
      rfl
    · rintro _ ⟨⟩
  · rw [hnone] at hresult
    subst hresult
    constructor
    · rintro _ ⟨⟩
    · rintro _ ⟨⟩
      exact Or.inr rfl
    · exact ⟨fun _ => ⟨k, rfl, hrange⟩, fun _ => rfl⟩
    · rintro _ ⟨⟩
    · rintro _ ⟨⟩

/-- What is delivered has the domain that typing finds, unless it overflows. -/
theorem outcome {d : Domain} (h : Delivers typed whole? number? overflow result)
    (htyped : typed = .ok d) (hoverflow : overflow.IsOverflow) :
    Outcome EvalError.IsOverflow (fun w => w.domain = d) result := by
  rcases h.domain d htyped with ⟨w, rfl, hw⟩ | rfl
  · exact hw
  · exact hoverflow

end Delivers

/-- Typing reports no overflow. -/
theorem outcome_requireDomain (operator : String) (expected found : Domain) :
    Outcome (¬ EvalError.IsOverflow ·) (fun _ => True) (requireDomain operator expected found) := by
  unfold requireDomain
  split
  · trivial
  · exact not_false

/-! ## Unary operators -/

namespace UnaryOp

/-- The exact result of a negated integer. -/
def exactInteger? : UnaryOp → Scalar → Option Int
  | neg, .integer i => some (-i.toInt)
  | _, _ => none

theorem delivers_apply (op : UnaryOp) (v : Scalar) :
    Delivers (op.resultDomain? v.domain) (op.exactInteger? v) (v.number?.map (-·))
      (.integerOverflow op.text v.integer?.toList) (op.apply v) := by
  cases op with
  | neg =>
    cases v with
    | integer i => exact .of_exact rfl rfl rfl
    | number x => exact .of_value rfl rfl rfl rfl (by rintro _ ⟨⟩; rfl)
    | string s => exact .of_refused rfl rfl nofun rfl
    | boolean b => exact .of_refused rfl rfl nofun rfl
    | null d =>
      cases d with
      | boolean | string => exact .of_refused rfl rfl nofun rfl
      | _ => exact .of_value rfl rfl rfl rfl nofun
  | not =>
    cases v with
    | boolean b => exact .of_value rfl rfl rfl rfl nofun
    | integer i => exact .of_refused rfl rfl nofun rfl
    | number x => exact .of_refused rfl rfl nofun rfl
    | string s => exact .of_refused rfl rfl nofun rfl
    | null d =>
      cases d with
      | integer | number | string => exact .of_refused rfl rfl nofun rfl
      | _ => exact .of_value rfl rfl rfl rfl nofun
  | isNull => exact .of_value rfl rfl rfl rfl nofun

theorem outcome_apply (op : UnaryOp) {v : Scalar} {d : Domain}
    (h : op.resultDomain? v.domain = .ok d) :
    Outcome EvalError.IsOverflow (fun w => w.domain = d) (op.apply v) :=
  (op.delivers_apply v).outcome h trivial

end UnaryOp

/-! ## Binary operators -/

namespace BinaryOp

/-- The exact result on two integers that are added, subtracted or multiplied. -/
def exactInteger? (op : BinaryOp) (l r : Scalar) : Option Int :=
  match op, l, r with
  | add, .integer i, .integer j => some (i.toInt + j.toInt)
  | sub, .integer i, .integer j => some (i.toInt - j.toInt)
  | mul, .integer i, .integer j => some (i.toInt * j.toInt)
  | _, _, _ => none

/-- What an operator on numbers makes of those of its operands, where both have one. -/
def ofNumbers? (op : BinaryOp) (l r : Scalar) : Option Binary64 :=
  l.number?.bind fun x => r.number?.map (op.onNumbers x)

/-- An operator with an exact result on integers brings it to 64 bits. -/
theorem exactInteger?_cases (op : BinaryOp) (l r : Scalar) :
    op.exactInteger? l r = none ∨
      ∃ k, op.exactInteger? l r = some k ∧
        op.resultDomain? l.domain r.domain = .ok .integer ∧
        op.apply l r = match exactInt64? k with
          | some n => .ok (.integer n)
          | none => .error (.integerOverflow op.text (l.integer?.toList ++ r.integer?.toList)) := by
  cases op with
  | add | sub | mul =>
    cases l with
    | integer i =>
      cases r with
      | integer j => exact Or.inr ⟨_, rfl, rfl, rfl⟩
      | _ => exact Or.inl rfl
    | _ => exact Or.inl rfl
  | _ => exact Or.inl rfl

theorem domain_conjunction (l r : Option Bool) : (conjunction l r).domain = .boolean := by
  rcases l with _ | _ | _ <;> rcases r with _ | _ | _ <;> rfl

theorem domain_disjunction (l r : Option Bool) : (disjunction l r).domain = .boolean := by
  rcases l with _ | _ | _ <;> rcases r with _ | _ | _ <;> rfl

theorem outcome_resultDomain? (op : BinaryOp) (l r : Domain) :
    Outcome (¬ EvalError.IsOverflow ·) (fun _ => True) (op.resultDomain? l r) := by
  unfold resultDomain?
  cases op.family with
  | arithmetic | logic =>
    refine (outcome_requireDomain _ _ _).bind fun _ _ _ => ?_
    exact (outcome_requireDomain _ _ _).bind fun _ _ _ => trivial
  | comparison =>
    cases l.common r with
    | some d => trivial
    | none => exact not_false

/-- Outside of logic nulls come first, then the families. -/
theorem apply_eq {op : BinaryOp} {l r : Scalar} {d : Domain} (hop : op.family ≠ .logic)
    (h : op.resultDomain? l.domain r.domain = .ok d) :
    op.apply l r =
      if l.isNull || r.isNull then .ok (.null d)
      else if op.family = .comparison then .ok (.boolean (op.compare l r))
      else op.compute l r := by
  unfold apply
  rw [h]
  cases op with
  | and | or => exact absurd rfl hop
  | _ => rfl

/-- Arithmetic that does not stay within the integers gives a number. -/
theorem exists_compute {op : BinaryOp} (hop : op.family = .arithmetic) {l r : Scalar}
    (hl : (∃ i, l = .integer i) ∨ ∃ x, l = .number x)
    (hr : (∃ j, r = .integer j) ∨ ∃ y, r = .number y) (hexact : op.exactInteger? l r = none) :
    ∃ x, op.compute l r = .ok (.number x) ∧ op.ofNumbers? l r = some x ∧
      op.arithmeticDomain l.domain r.domain = .number := by
  cases op with
  | div =>
    rcases hl with ⟨i, rfl⟩ | ⟨x, rfl⟩
    · rcases hr with ⟨j, rfl⟩ | ⟨y, rfl⟩
      · exact ⟨_, rfl, rfl, rfl⟩
      · exact ⟨_, rfl, rfl, rfl⟩
    · rcases hr with ⟨j, rfl⟩ | ⟨y, rfl⟩
      · exact ⟨_, rfl, rfl, rfl⟩
      · exact ⟨_, rfl, rfl, rfl⟩
  | add | sub | mul =>
    rcases hl with ⟨i, rfl⟩ | ⟨x, rfl⟩
    · rcases hr with ⟨j, rfl⟩ | ⟨y, rfl⟩
      · nomatch hexact
      · exact ⟨_, rfl, rfl, rfl⟩
    · rcases hr with ⟨j, rfl⟩ | ⟨y, rfl⟩
      · exact ⟨_, rfl, rfl, rfl⟩
      · exact ⟨_, rfl, rfl, rfl⟩
  | _ => nomatch hop

/-- Operands that are accepted have a value of the expected domain, unless the operator stays within
the integers. -/
theorem exists_apply {op : BinaryOp} {l r : Scalar} {d : Domain}
    (h : op.resultDomain? l.domain r.domain = .ok d) (hexact : op.exactInteger? l r = none) :
    ∃ w, op.apply l r = .ok w ∧ w.domain = d ∧ w.integer? = none ∧
      ∀ x, w = .number x → op.ofNumbers? l r = some x := by
  have hfamily := resultDomain?_eq_ok.1 h
  cases hop : op.family with
  | logic =>
    rw [hop] at hfamily
    obtain ⟨-, -, rfl⟩ := hfamily
    have hlogic : ∃ w, op.apply l r = .ok w ∧ w.domain = .boolean := by
      unfold apply
      rw [h]
      cases op with
      | and => exact ⟨_, rfl, domain_conjunction l.boolean? r.boolean?⟩
      | or => exact ⟨_, rfl, domain_disjunction l.boolean? r.boolean?⟩
      | _ => nomatch hop
    obtain ⟨w, hw, hdomain⟩ := hlogic
    refine ⟨w, hw, hdomain, ?_, ?_⟩
    · cases w with
      | integer i => nomatch hdomain
      | _ => rfl
    · rintro x rfl
      nomatch hdomain
  | comparison =>
    rw [hop] at hfamily
    obtain ⟨-, rfl⟩ := hfamily
    rw [apply_eq (by rw [hop]; decide) h, if_pos hop]
    split
    · exact ⟨_, rfl, rfl, rfl, nofun⟩
    · exact ⟨_, rfl, rfl, rfl, nofun⟩
  | arithmetic =>
    rw [hop] at hfamily
    obtain ⟨hl, hr, rfl⟩ := hfamily
    have hcomparison : op.family ≠ .comparison := by rw [hop]; decide
    rw [apply_eq (by rw [hop]; decide) h, if_neg hcomparison]
    split
    · exact ⟨_, rfl, rfl, rfl, nofun⟩
    · rename_i hnull
      rw [Bool.or_eq_true, not_or, Bool.not_eq_true, Bool.not_eq_true] at hnull
      obtain ⟨x, hx, hnumbers, hdomain⟩ := exists_compute hop
        (Scalar.number_of_accepts hnull.1 hl) (Scalar.number_of_accepts hnull.2 hr) hexact
      refine ⟨_, hx, hdomain.symm, rfl, ?_⟩
      rintro _ ⟨⟩
      exact hnumbers

theorem delivers_apply (op : BinaryOp) (l r : Scalar) :
    Delivers (op.resultDomain? l.domain r.domain) (op.exactInteger? l r) (op.ofNumbers? l r)
      (.integerOverflow op.text (l.integer?.toList ++ r.integer?.toList)) (op.apply l r) := by
  rcases op.exactInteger?_cases l r with hexact | ⟨k, hexact, htyped, hresult⟩
  · cases htyped : op.resultDomain? l.domain r.domain with
    | error e =>
      have hfails := op.outcome_resultDomain? l.domain r.domain
      rw [htyped] at hfails
      refine .of_refused rfl ?_ (fun heq => hfails (heq ▸ trivial)) hexact
      unfold apply
      rw [htyped, error_bind]
    | ok d =>
      obtain ⟨w, hw, rfl, hinteger, hnumber⟩ := exists_apply htyped hexact
      exact .of_value rfl hw hexact hinteger hnumber
  · exact .of_exact htyped hexact hresult

theorem outcome_apply (op : BinaryOp) {l r : Scalar} {d : Domain}
    (h : op.resultDomain? l.domain r.domain = .ok d) :
    Outcome EvalError.IsOverflow (fun w => w.domain = d) (op.apply l r) :=
  (op.delivers_apply l r).outcome h trivial

end BinaryOp

/-- Whatever the operands, an operator refuses them with the very error that typing has for their
domains, or gives a value of exactly the domain that typing finds, or overflows.  It overflows if
and only if an integer is negated, or two integers are added, subtracted or multiplied, and the
exact result is out of range.  A result that is an integer is the exact one, and one that is a
number is made of the numbers of the operands. -/
theorem operators_deliver :
    (∀ (op : UnaryOp) (v : Scalar),
      Delivers (op.resultDomain? v.domain) (op.exactInteger? v) (v.number?.map (-·))
        (.integerOverflow op.text v.integer?.toList) (op.apply v)) ∧
      ∀ (op : BinaryOp) (l r : Scalar),
        Delivers (op.resultDomain? l.domain r.domain) (op.exactInteger? l r) (op.ofNumbers? l r)
          (.integerOverflow op.text (l.integer?.toList ++ r.integer?.toList)) (op.apply l r) :=
  ⟨UnaryOp.delivers_apply, BinaryOp.delivers_apply⟩

end DataCube
