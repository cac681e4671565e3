import DataCube.Operator
import DataCube.Reducer
import DataCube.Proofs.Outcome

/-!
# Precision of domains

What typing knows of a value can fall short of what the value is: a column of unknown domain holds
values of any domain, and what is computed from such a column is known less well than its values
would allow.  This module says how much less.

* `Domain.Describes` and `Domain.Covers` are the two ways in which a domain says less than another.
  A scalar is typed with its own domain or not at all.  A measure can moreover be typed as a number
  where the values turn out to be integers, since sums of unknown measures count as numbers.
* `RespectsOperators R`: operators accept what is known less well, and `R` carries over to the
  result.
* `Precision` packs one relation for scalars and one for components with the laws that typing needs
  of them.  `Precision.exact` is equality, `Precision.gradual` is the pair above.
-/

namespace DataCube

/-! ## What operators accept -/

theorem requireDomain_eq_ok {operator : String} {expected found : Domain} {u : Unit} :
    requireDomain operator expected found = .ok u ↔ expected.accepts found = true := by
  unfold requireDomain
  by_cases h : expected.accepts found = true
  · simp [h]
  · simp [h]

namespace BinaryOp

/-- The domain of arithmetic on operands that it accepts. -/
def arithmeticDomain (op : BinaryOp) (left right : Domain) : Domain :=
  if op = div then .number
  else if left = .unknown || right = .unknown then .unknown
  else if Domain.integer.accepts left && Domain.integer.accepts right then .integer
  else .number

/-- The operands an operator accepts, and the domain it then gives. -/
theorem resultDomain?_eq_ok {op : BinaryOp} {left right d : Domain} :
    op.resultDomain? left right = .ok d ↔
      match op.family with
      | .logic =>
        Domain.boolean.accepts left = true ∧ Domain.boolean.accepts right = true ∧ .boolean = d
      | .comparison => (left.common right).isSome = true ∧ .boolean = d
      | .arithmetic =>
        Domain.number.accepts left = true ∧ Domain.number.accepts right = true ∧
          op.arithmeticDomain left right = d := by
  unfold resultDomain?
  cases op.family with
  | arithmetic =>
    simp only [bind_eq_ok, requireDomain_eq_ok]
    exact ⟨fun ⟨_, hl, _, hr, h⟩ => ⟨hl, hr, Except.ok.inj h⟩,
      fun ⟨hl, hr, h⟩ => ⟨(), hl, (), hr, congrArg Except.ok h⟩⟩
  | comparison =>
    cases left.common right with
    | none => exact ⟨(nomatch ·), fun h => (nomatch h.1)⟩
    | some c => exact ⟨fun h => ⟨rfl, Except.ok.inj h⟩, fun h => congrArg Except.ok h.2⟩
  | logic =>
    simp only [bind_eq_ok, requireDomain_eq_ok]
    exact ⟨fun ⟨_, hl, _, hr, h⟩ => ⟨hl, hr, Except.ok.inj h⟩,
      fun ⟨hl, hr, h⟩ => ⟨(), hl, (), hr, congrArg Except.ok h⟩⟩

end BinaryOp

/-- The operand an operator accepts, and the domain it then gives. -/
theorem UnaryOp.resultDomain?_eq_ok {op : UnaryOp} {operand d : Domain} :
    op.resultDomain? operand = .ok d ↔
      match op with
      | .neg =>
        Domain.number.accepts operand = true ∧
          (if operand = .integer || operand = .unknown then operand else .number) = d
      | .not => Domain.boolean.accepts operand = true ∧ .boolean = d
      | .isNull => .boolean = d := by
  cases op with
  | neg =>
    simp only [resultDomain?, bind_eq_ok, requireDomain_eq_ok]
    constructor
    · rintro ⟨_, h, hd⟩
      refine ⟨h, ?_⟩
      rw [← Except.ok.inj hd]
      cases operand <;> rfl
    · rintro ⟨h, rfl⟩
      refine ⟨(), h, congrArg Except.ok ?_⟩
      cases operand <;> rfl
  | not =>
    simp only [resultDomain?, bind_eq_ok, requireDomain_eq_ok]
    exact ⟨fun ⟨_, h, hd⟩ => ⟨h, Except.ok.inj hd⟩, fun ⟨h, hd⟩ => ⟨(), h, congrArg Except.ok hd⟩⟩
  | isNull => exact ⟨fun h => Except.ok.inj h, fun h => congrArg Except.ok h⟩

/-! ## Saying less about a domain -/

namespace Domain

/-- The domain is the one found, or nothing is known of it. -/
def Describes (d found : Domain) : Prop := d = found ∨ d = unknown

/-- The domain is the one found, or nothing is known of it, or it is only known to be numeric. -/
def Covers (d found : Domain) : Prop := d = found ∨ d = unknown ∨ d = number ∧ found = integer

theorem Describes.covers {d found : Domain} (h : d.Describes found) : d.Covers found := by
  rcases h with rfl | rfl
  · exact Or.inl rfl
  · exact Or.inr (Or.inl rfl)

/-- Numbers and booleans are asked for in vain only where the domain found is known. -/
theorem Covers.accepted {d found expected : Domain} (h : d.Covers found)
    (hexpected : expected = number ∨ expected = boolean) (ha : expected.accepts found = true) :
    expected.accepts d = true := by
  rcases h with rfl | rfl | ⟨rfl, rfl⟩
  · exact ha
  · exact accepts_unknown expected
  · rcases hexpected with rfl | rfl
    · rfl
    · exact nomatch ha

/-- A component of which less is known takes more. -/
theorem Covers.accepts {d found v : Domain} (h : d.Covers found) (ha : found.accepts v = true) :
    d.accepts v = true := by
  rcases h with rfl | rfl | ⟨rfl, rfl⟩
  · exact ha
  · exact unknown_accepts v
  · cases v <;> revert ha <;> decide

theorem common_isSome_iff {left right : Domain} :
    (left.common right).isSome = true ↔ left.accepts right = true ∨ right.accepts left = true := by
  cases left <;> cases right <;> simp [common, Domain.accepts]

/-- Comparisons accept what is known less well. -/
theorem Covers.common {l l' r r' : Domain} (hl : l.Covers l') (hr : r.Covers r')
    (h : (l'.common r').isSome = true) : (l.common r).isSome = true := by
  rw [common_isSome_iff] at h ⊢
  rcases hl with rfl | rfl | ⟨rfl, rfl⟩
  · rcases hr with rfl | rfl | ⟨rfl, rfl⟩
    · exact h
    · exact Or.inl (accepts_unknown l)
    · cases l <;> revert h <;> decide
  · exact Or.inl (unknown_accepts r)
  · rcases hr with rfl | rfl | ⟨rfl, rfl⟩
    · cases r <;> revert h <;> decide
    · exact Or.inr rfl
    · exact Or.inl rfl

end Domain

/-! ## Operators -/

/-- Operators that accept domains also accept domains that `R` puts in their place, and `R` carries
over to the result. -/
structure RespectsOperators (R : Domain → Domain → Prop) : Prop where
  refl : ∀ d, R d d
  unary : ∀ (op : UnaryOp) {d d' : Domain}, R d d' →
    Dominates R (op.resultDomain? d) (op.resultDomain? d')
  binary : ∀ (op : BinaryOp) {l l' r r' : Domain}, R l l' → R r r' →
    Dominates R (op.resultDomain? l r) (op.resultDomain? l' r')

theorem respectsOperators_eq : RespectsOperators Eq where
  refl _ := rfl
  unary _ _ _ h := by subst h; exact fun b hb => ⟨b, hb, rfl⟩
  binary _ _ _ _ _ hl hr := by subst hl hr; exact fun b hb => ⟨b, hb, rfl⟩

/-- Arithmetic on domains known less well is known less well. -/
theorem covers_arithmeticDomain {op : BinaryOp} {l l' r r' : Domain} (hl : l.Covers l')
    (hr : r.Covers r') (hl' : Domain.number.accepts l' = true)
    (hr' : Domain.number.accepts r' = true) :
    (op.arithmeticDomain l r).Covers (op.arithmeticDomain l' r') := by
  unfold BinaryOp.arithmeticDomain
  by_cases hdiv : op = .div
  · rw [if_pos hdiv, if_pos hdiv]
    exact Or.inl rfl
  · rw [if_neg hdiv, if_neg hdiv]
    rcases hl with rfl | rfl | ⟨rfl, rfl⟩
    · rcases hr with rfl | rfl | ⟨rfl, rfl⟩
      · exact Or.inl rfl
      · exact Or.inr (Or.inl (by simp))
      · unfold Domain.Covers
        cases l <;> revert hl' <;> decide
    · exact Or.inr (Or.inl (by simp))
    · rcases hr with rfl | rfl | ⟨rfl, rfl⟩
      · unfold Domain.Covers
        cases r <;> revert hr' <;> decide
      · exact Or.inr (Or.inl (by simp))
      · unfold Domain.Covers
        decide

theorem respectsOperators_covers : RespectsOperators Domain.Covers where
  refl _ := Or.inl rfl
  unary op d d' h := by
    intro b hb
    rw [UnaryOp.resultDomain?_eq_ok] at hb
    simp only [UnaryOp.resultDomain?_eq_ok]
    cases op with
    | neg =>
      obtain ⟨ha, rfl⟩ := hb
      refine ⟨_, ⟨h.accepted (Or.inl rfl) ha, rfl⟩, ?_⟩
      rcases h with rfl | rfl | ⟨rfl, rfl⟩
      · exact Or.inl rfl
      · exact Or.inr (Or.inl rfl)
      · exact Or.inr (Or.inr ⟨rfl, rfl⟩)
    | not => exact ⟨_, ⟨h.accepted (Or.inr rfl) hb.1, rfl⟩, Or.inl hb.2⟩
    | isNull => exact ⟨_, rfl, Or.inl hb⟩
  binary op l l' r r' hl hr := by
    intro b hb
    rw [BinaryOp.resultDomain?_eq_ok] at hb
    simp only [BinaryOp.resultDomain?_eq_ok]
    cases hop : op.family with
    | arithmetic =>
      simp only [hop] at hb ⊢
      obtain ⟨hl', hr', rfl⟩ := hb
      exact ⟨_, ⟨hl.accepted (Or.inl rfl) hl', hr.accepted (Or.inl rfl) hr', rfl⟩,
        covers_arithmeticDomain hl hr hl' hr'⟩
    | comparison =>
      simp only [hop] at hb ⊢
      exact ⟨_, ⟨hl.common hr hb.1, rfl⟩, Or.inl hb.2⟩
    | logic =>
      simp only [hop] at hb ⊢
      exact ⟨_, ⟨hl.accepted (Or.inr rfl) hb.1, hr.accepted (Or.inr rfl) hb.2.1, rfl⟩,
        Or.inl hb.2.2⟩

/-- Scalars only ever lose their domain altogether, since no operator tells a number from an unknown
operand. -/
theorem respectsOperators_describes : RespectsOperators Domain.Describes where
  refl _ := Or.inl rfl
  unary op d d' h := by
    rcases h with rfl | rfl
    · exact fun b hb => ⟨b, hb, Or.inl rfl⟩
    · intro b hb
      rw [UnaryOp.resultDomain?_eq_ok] at hb
      simp only [UnaryOp.resultDomain?_eq_ok]
      cases op with
      | neg => exact ⟨_, ⟨rfl, rfl⟩, Or.inr rfl⟩
      | not => exact ⟨_, ⟨rfl, rfl⟩, Or.inl hb.2⟩
      | isNull => exact ⟨_, rfl, Or.inl hb⟩
  binary op l l' r r' hl hr := by
    intro b hb
    obtain ⟨a, ha, hab⟩ := respectsOperators_covers.binary op hl.covers hr.covers b hb
    refine ⟨a, ha, ?_⟩
    rw [BinaryOp.resultDomain?_eq_ok] at ha hb
    cases hop : op.family with
    | arithmetic =>
      simp only [hop] at ha hb
      obtain ⟨_, _, rfl⟩ := ha
      obtain ⟨_, _, rfl⟩ := hb
      unfold BinaryOp.arithmeticDomain
      by_cases hdiv : op = .div
      · rw [if_pos hdiv, if_pos hdiv]
        exact Or.inl rfl
      · rw [if_neg hdiv, if_neg hdiv]
        rcases hl with rfl | rfl
        · rcases hr with rfl | rfl
          · exact Or.inl rfl
          · exact Or.inr (by simp)
        · exact Or.inr (by simp)
    | comparison =>
      simp only [hop] at ha hb
      exact Or.inl (ha.2.symm.trans hb.2)
    | logic =>
      simp only [hop] at ha hb
      exact Or.inl (ha.2.2.symm.trans hb.2.2)

/-! ## Reducers -/

namespace Reducer

/-- The domain that a reducer over numbers gives. -/
def numericDomain (r : Reducer) (input : Domain) : Domain :=
  if r = statistic .sum && input = .integer then .integer else .number

/-- The measures a reducer accepts, and the domain it then gives. -/
theorem resultDomain?_eq_ok {r : Reducer} {input d : Domain} :
    r.resultDomain? input = .ok d ↔
      match r with
      | statistic .count => .integer = d
      | statistic .least | statistic .greatest | firstValue | lastValue => input = d
      | r => takesNumbers input = true ∧ r.numericDomain input = d := by
  have numeric (e : EvalError) :
      (if ! takesNumbers input then .error e
        else if r = statistic .sum && input = .integer then .ok .integer else .ok .number) =
          (.ok d : Except EvalError Domain) ↔
        takesNumbers input = true ∧ r.numericDomain input = d := by
    unfold numericDomain
    cases takesNumbers input with
    | false => simp
    | true =>
      by_cases hs : (r = statistic .sum && input = .integer) = true
      · simp [hs]
      · simp [hs]
  cases r with
  | firstValue => exact ⟨Except.ok.inj, congrArg Except.ok⟩
  | lastValue => exact ⟨Except.ok.inj, congrArg Except.ok⟩
  | statistic s =>
    cases s with
    | count | least | greatest => exact ⟨Except.ok.inj, congrArg Except.ok⟩
    | _ => exact numeric _

theorem covers_numericDomain {r : Reducer} {d d' : Domain} (h : d.Covers d') :
    (r.numericDomain d).Covers (r.numericDomain d') := by
  unfold numericDomain
  by_cases hs : r = statistic .sum
  · subst hs
    unfold Domain.Covers at h ⊢
    revert h
    cases d <;> cases d' <;> decide
  · simp only [hs, decide_false, Bool.false_and]
    exact Or.inl rfl

theorem takesNumbers_of_covers {d d' : Domain} (h : d.Covers d') (ht : takesNumbers d' = true) :
    takesNumbers d = true := by
  rcases h with rfl | rfl | ⟨rfl, rfl⟩
  · exact ht
  · rfl
  · rfl

theorem dominates_resultDomain? (r : Reducer) {d d' : Domain} (h : d.Covers d') :
    Dominates Domain.Covers (r.resultDomain? d) (r.resultDomain? d') := by
  intro b hb
  rw [resultDomain?_eq_ok] at hb
  simp only [resultDomain?_eq_ok]
  split at hb
  · exact ⟨_, rfl, Or.inl hb⟩
  · exact ⟨_, rfl, hb ▸ h⟩
  · exact ⟨_, rfl, hb ▸ h⟩
  · exact ⟨_, rfl, hb ▸ h⟩
  · exact ⟨_, rfl, hb ▸ h⟩
  · obtain ⟨ht, rfl⟩ := hb
    exact ⟨_, ⟨takesNumbers_of_covers h ht, rfl⟩, covers_numericDomain h⟩

theorem covers_isNumeric {d d' : Domain} (h : d.Covers d') (hd : d.isNumeric = true) :
    d'.isNumeric = true := by
  rcases h with rfl | rfl | ⟨rfl, rfl⟩
  · exact hd
  · exact nomatch hd
  · rfl

theorem dominates_outputDomain? (r : Reducer) {d d' : Domain} (h : d.Covers d') :
    Dominates Domain.Covers (r.outputDomain? d) (r.outputDomain? d') := by
  have extreme (s : Statistic) (hs : (statistic s).resultDomain? d = .ok d) :
      Dominates Domain.Covers (if d.isNumeric then .ok .number else (statistic s).resultDomain? d)
        (if d'.isNumeric then .ok .number else (statistic s).resultDomain? d') := by
    by_cases hd : d.isNumeric = true
    · rw [if_pos hd, if_pos (covers_isNumeric h hd)]
      exact Dominates.ok (Or.inl rfl)
    · rw [if_neg hd]
      by_cases hd' : d'.isNumeric = true
      · rw [if_pos hd', hs]
        refine Dominates.ok ?_
        -- a domain that is not numeric but covers one that is
        unfold Domain.Covers at h ⊢
        revert h hd hd'
        cases d <;> cases d' <;> decide
      · rw [if_neg hd']
        exact dominates_resultDomain? _ h
  unfold outputDomain?
  split
  · exact extreme .least rfl
  · exact extreme .greatest rfl
  · exact dominates_resultDomain? _ h

end Reducer

/-! ## Precision -/

/-- How much less typing may know than evaluation finds: `scalar` relates the domain a scalar is
typed with to the one it has, `column` does so for the components of a dataset, and `hidden` says
whether a result of unknown shape may stand for any other. -/
structure Precision where
  scalar : Domain → Domain → Prop
  column : Domain → Domain → Prop
  hidden : Prop
  column_of_scalar : ∀ {d d'}, scalar d d' → column d d'
  scalar_operators : RespectsOperators scalar
  column_operators : RespectsOperators column
  statistics : ∀ (s : Statistic) {d d'}, column d d' →
    Dominates column (s.outputDomain? d) (s.outputDomain? d')
  reducers : ∀ (r : Reducer) {d d'}, column d d' →
    Dominates column (r.outputDomain? d) (r.outputDomain? d')
  condition : ∀ {d d'}, column d d' → Domain.boolean.accepts d' = true →
    Domain.boolean.accepts d = true
  default : ∀ {d d' v}, column d d' → d'.accepts v = true → d.accepts v = true
  hidden_column : hidden → ∀ d, column .unknown d

namespace Precision

/-- Typing knows all there is to know. -/
def exact : Precision where
  scalar := Eq
  column := Eq
  hidden := False
  column_of_scalar h := h
  scalar_operators := respectsOperators_eq
  column_operators := respectsOperators_eq
  statistics _ _ _ h := by subst h; exact fun b hb => ⟨b, hb, rfl⟩
  reducers _ _ _ h := by subst h; exact fun b hb => ⟨b, hb, rfl⟩
  condition h ha := by subst h; exact ha
  default h ha := by subst h; exact ha
  hidden_column h := h.elim

/-- Typing may take components for unknown, and numbers it sums for numbers. -/
def gradual : Precision where
  scalar := Domain.Describes
  column := Domain.Covers
  hidden := False
  column_of_scalar := Domain.Describes.covers
  scalar_operators := respectsOperators_describes
  column_operators := respectsOperators_covers
  statistics s _ _ h := (Reducer.statistic s).dominates_resultDomain? h
  reducers r _ _ h := r.dominates_outputDomain? h
  condition h ha := h.accepted (Or.inr rfl) ha
  default := Domain.Covers.accepts
  hidden_column h := h.elim

/-- The same for scalars as for components: inside a row a component is a scalar. -/
def ofColumns (p : Precision) : Precision where
  scalar := p.column
  column := p.column
  hidden := p.hidden
  column_of_scalar h := h
  scalar_operators := p.column_operators
  column_operators := p.column_operators
  statistics := p.statistics
  reducers := p.reducers
  condition := p.condition
  default := p.default
  hidden_column := p.hidden_column

end Precision

end DataCube
