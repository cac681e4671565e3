import DataCube.Expr
import DataCube.Proofs.Correspondence
import DataCube.Proofs.Interchange.Scalars

/-!
# Expressions with literals that nothing tells apart

Structural equality compares the literals of two expressions as values, and values are equal where
their bits are not: there are two zeros, and many NaN.  A zero is written with its sign.  Apart from
this, expressions that are equal are written alike and have one lineage.

* `Expr.Corresponds`: expressions of the same nodes, with a relation between their literals;
  `Expr.corresponds_of_same` puts structural equality in this form.
* `Scalar.ZerosAgree`, `Scalar.NaNsAgree`: what equality leaves open.  `Scalar.alike_of_same`: there
  is nothing else.
* `Expr.Corresponds.text_eq`, `Expr.Corresponds.lineage_eq`: literals that are alike are written
  alike.
* `Expr.Corresponds.zerosAgree_of_lineage`: equal expressions of one lineage have the same zeros.
-/

namespace DataCube

variable {signs : Prop}

/-! ## Correspondence -/

namespace Expr

/-- The expressions have the same nodes, and `R` relates their literals. -/
inductive Corresponds (R : Scalar → Scalar → Prop) : Expr → Expr → Prop where
  | constant {v w : Scalar} : R v w → Corresponds R (.constant v) (.constant w)
  | var (name : String) : Corresponds R (.var name) (.var name)
  | unary (op : UnaryOp) {x y : Expr} : Corresponds R x y →
    Corresponds R (.unary op x) (.unary op y)
  | binary (op : BinaryOp) {l l' r r' : Expr} : Corresponds R l l' → Corresponds R r r' →
    Corresponds R (.binary op l r) (.binary op l' r')
  | member {x y : Expr} (name : String) : Corresponds R x y →
    Corresponds R (.member x name) (.member y name)
  | filter {x y c c' : Expr} : Corresponds R x y → Corresponds R c c' →
    Corresponds R (.filter x c) (.filter y c')
  | keep {x y : Expr} (names : List String) : Corresponds R x y →
    Corresponds R (.keep x names) (.keep y names)
  | drop {x y : Expr} (names : List String) : Corresponds R x y →
    Corresponds R (.drop x names) (.drop y names)
  | compute {x y e e' : Expr} (name : String) : Corresponds R x y → Corresponds R e e' →
    Corresponds R (.compute x name e) (.compute y name e')
  | within {x y b b' : Expr} : Corresponds R x y → Corresponds R b b' →
    Corresponds R (.within x b) (.within y b')
  | shift (direction : Shift) {x y : Expr} (offset : Nat) {default default' : Option Scalar}
      (window : WindowSpec) : Corresponds R x y → Option.Rel R default default' →
    Corresponds R (.shift direction x offset default window)
      (.shift direction y offset default' window)
  | aggregate (s : Statistic) {x y : Expr} (groupBy : List String) : Corresponds R x y →
    Corresponds R (.aggregate s x groupBy) (.aggregate s y groupBy)
  | analytic (r : Reducer) {x y : Expr} (window : WindowSpec) : Corresponds R x y →
    Corresponds R (.analytic r x window) (.analytic r y window)

/-- Defaults are equal if both are missing, or as values. -/
theorem sameDefault_eq_true {default default' : Option Scalar} :
    sameDefault default default' = true ↔
      Option.Rel (fun v w => v.same w = true) default default' := by
  constructor
  · intro h
    cases default <;> cases default' <;> first | exact .none | exact .some h | nomatch h
  · rintro (h | _)
    · exact h
    · rfl

/-- Equal expressions have the same nodes, and equal literals. -/
theorem corresponds_of_same {a b : Expr} (h : a.same b = true) :
    a.Corresponds (fun v w => v.same w = true) b := by
  -- Expressions of different nodes are not the same; that case is gone once `h` is opened.
  induction a, b using same.induct <;>
    simp only [same, Bool.and_eq_true, decide_eq_true_eq, Bool.false_eq_true, and_assoc] at h
  case case1 v w => exact .constant h
  case case2 name name' =>
    subst h
    exact .var name
  case case3 op x op' y ih =>
    obtain ⟨rfl, hx⟩ := h
    exact .unary op (ih hx)
  case case4 op l r op' l' r' ihl ihr =>
    obtain ⟨rfl, hl, hr⟩ := h
    exact .binary op (ihl hl) (ihr hr)
  case case5 x name y name' ih =>
    obtain ⟨hx, rfl⟩ := h
    exact .member name (ih hx)
  case case6 x c y c' ihx ihc => exact .filter (ihx h.1) (ihc h.2)
  case case7 x names y names' ih =>
    obtain ⟨hx, rfl⟩ := h
    exact .keep names (ih hx)
  case case8 x names y names' ih =>
    obtain ⟨hx, rfl⟩ := h
    exact .drop names (ih hx)
  case case9 x name e y name' e' ihx ihe =>
    obtain ⟨hx, rfl, he⟩ := h
    exact .compute name (ihx hx) (ihe he)
  case case10 x body y body' ihx ihb => exact .within (ihx h.1) (ihb h.2)
  case case11 direction x offset default window direction' y offset' default' window' ih =>
    obtain ⟨rfl, hx, rfl, hdefault, rfl⟩ := h
    exact .shift direction offset window (ih hx) (sameDefault_eq_true.1 hdefault)
  case case12 s x groupBy s' y groupBy' ih =>
    obtain ⟨rfl, hx, rfl⟩ := h
    exact .aggregate s groupBy (ih hx)
  case case13 r x window r' y window' ih =>
    obtain ⟨rfl, hx, rfl⟩ := h
    exact .analytic r window (ih hx)

namespace Corresponds

variable {R R' : Scalar → Scalar → Prop} {a b : Expr}

/-- Two relations between the literals of the same expressions. -/
theorem and (h : a.Corresponds R b) (h' : a.Corresponds R' b) :
    a.Corresponds (fun v w => R v w ∧ R' v w) b := by
  induction h with
  | constant hv => cases h' with | constant hv' => exact .constant ⟨hv, hv'⟩
  | var name => exact .var name
  | unary op _ ih => cases h' with | unary _ hx => exact .unary op (ih hx)
  | binary op _ _ ihl ihr => cases h' with | binary _ hl hr => exact .binary op (ihl hl) (ihr hr)
  | member name _ ih => cases h' with | member _ hx => exact .member name (ih hx)
  | filter _ _ ihx ihc => cases h' with | filter hx hc => exact .filter (ihx hx) (ihc hc)
  | keep names _ ih => cases h' with | keep _ hx => exact .keep names (ih hx)
  | drop names _ ih => cases h' with | drop _ hx => exact .drop names (ih hx)
  | compute name _ _ ihx ihe =>
    cases h' with | compute _ hx he => exact .compute name (ihx hx) (ihe he)
  | within _ _ ihx ihb => cases h' with | within hx hb => exact .within (ihx hx) (ihb hb)
  | shift direction offset window _ hdefault ih =>
    cases h' with
    | shift _ _ _ hx hdefault' =>
      refine .shift direction offset window (ih hx) ?_
      cases hdefault with
      | none => exact .none
      | some hv => cases hdefault' with | some hv' => exact .some ⟨hv, hv'⟩
  | aggregate s groupBy _ ih =>
    cases h' with | aggregate _ _ hx => exact .aggregate s groupBy (ih hx)
  | analytic r window _ ih => cases h' with | analytic _ _ hx => exact .analytic r window (ih hx)

theorem mono (h : a.Corresponds R b) (hR : ∀ v w, R v w → R' v w) : a.Corresponds R' b := by
  induction h with
  | constant hv => exact .constant (hR _ _ hv)
  | var name => exact .var name
  | unary op _ ih => exact .unary op ih
  | binary op _ _ ihl ihr => exact .binary op ihl ihr
  | member name _ ih => exact .member name ih
  | filter _ _ ihx ihc => exact .filter ihx ihc
  | keep names _ ih => exact .keep names ih
  | drop names _ ih => exact .drop names ih
  | compute name _ _ ihx ihe => exact .compute name ihx ihe
  | within _ _ ihx ihb => exact .within ihx ihb
  | shift direction offset window _ hdefault ih =>
    refine .shift direction offset window ih ?_
    cases hdefault with
    | none => exact .none
    | some hv => exact .some (hR _ _ hv)
  | aggregate s groupBy _ ih => exact .aggregate s groupBy ih
  | analytic r window _ ih => exact .analytic r window ih

end Corresponds

end Expr

/-! ## Literals -/

namespace Scalar

/-- If both are zeros, they have one sign. -/
def ZerosAgree (v w : Scalar) : Prop :=
  ∀ x y, v = .number x → w = .number y → x.magnitude = 0 → y.magnitude = 0 →
    x.isNegative = y.isNegative

/-- If both are NaN, they have one sign. -/
def NaNsAgree (v w : Scalar) : Prop :=
  ∀ x y, v = .number x → w = .number y → x.isNaN = true → y.isNaN = true →
    x.isNegative = y.isNegative

variable {v w : Scalar}

/-- Scalars that are equal and have the same zeros are alike. -/
theorem alike_of_same (h : v.same w = true) (hzeros : v.ZerosAgree w)
    (hnans : signs → v.NaNsAgree w) : v.Alike signs w := by
  have hcanonical : v.canonical = w.canonical := order_eq_iff.1 (of_decide_eq_true h)
  cases v with
  | number x =>
    cases w with
    | number y =>
      have hxy : x.canonical = y.canonical := Scalar.number.inj hcanonical
      have hnan : x.isNaN = y.isNaN := by
        rw [← x.isNaN_canonical, hxy, y.isNaN_canonical]
      refine .number ?_
      cases hx : x.isNaN with
      | true =>
        have hy : y.isNaN = true := hnan.symm.trans hx
        exact Or.inr ⟨hx, hy, fun hs => hnans hs x y rfl rfl hx hy⟩
      | false =>
        have hy : y.isNaN = false := hnan.symm.trans hx
        rcases Binary64.key_eq_iff.1 ((Binary64.canonical_eq_iff hx hy).1 hxy) with heq | ⟨hx0, hy0⟩
        · exact Or.inl heq
        · have hsign := hzeros x y rfl rfl hx0 hy0
          exact Or.inl (Binary64.eq_of_parts hsign (hx0.trans hy0.symm))
    | _ => nomatch hcanonical
  | _ => cases w <;> first | cases hcanonical; exact .refl _ | nomatch hcanonical

/-- A zero is written with its sign. -/
theorem zerosAgree_of_text (h : v.text = w.text) : v.ZerosAgree w := by
  rintro x y rfl rfl hx hy
  have htext : ∀ z : Binary64, z.magnitude = 0 → z.text = if z.isNegative then "-0" else "0" := by
    intro z hz
    have hnan : z.isNaN = false := by rw [Binary64.isNaN, hz]; rfl
    have hfinite : z.isFinite = true := by rw [Binary64.isFinite, hz]; rfl
    rw [Binary64.text, hnan, hfinite, hz]
    cases z.isNegative <;> rfl
  have hzeros : (if x.isNegative then "-0" else "0") = if y.isNegative then "-0" else "0" := by
    rw [← htext x hx, ← htext y hy]
    exact h
  cases hsx : x.isNegative <;> cases hsy : y.isNegative <;> rw [hsx, hsy] at hzeros <;>
    first | rfl | exact absurd hzeros (by decide)

end Scalar

/-! ## Texts and lineages -/

theorem Lineage.source_eq {label label' : String} {s s' : Lineage}
    (h : node label [s] = node label' [s']) : s = s' :=
  (List.cons.inj (node.inj h).2).1

theorem Lineage.sources_eq {label label' : String} {s s' t t' : Lineage}
    (h : node label [s, t] = node label' [s', t']) : s = s' ∧ t = t' := by
  obtain ⟨hs, hrest⟩ := List.cons.inj (node.inj h).2
  exact ⟨hs, (List.cons.inj hrest).1⟩

namespace Expr

namespace Corresponds

variable {a b : Expr}

/-- Literals that are alike are written alike. -/
theorem text_eq (h : a.Corresponds (Scalar.Alike signs) b) : a.text = b.text := by
  induction h with
  | constant h => exact h.text_eq
  | var name => rfl
  | unary op _ ih => cases op <;> simp only [text, ih]
  | shift direction offset window _ hdefault ih =>
    cases hdefault with
    | none => simp only [text, ih]
    | some h => simp only [text, ih, h.text_eq]
  | binary op _ _ ih ih' => simp only [text, ih, ih']
  | filter _ _ ih ih' => simp only [text, ih, ih']
  | compute name _ _ ih ih' => simp only [text, ih, ih']
  | within _ _ ih ih' => simp only [text, ih, ih']
  | _ => simp only [text, *]

/-- The lineage of an expression is put together from its texts. -/
theorem lineage_eq (h : a.Corresponds (Scalar.Alike signs) b) : a.lineage = b.lineage := by
  have htext := h.text_eq
  induction h with
  | constant h => exact congrArg Lineage.known h.text_eq
  | var name => rfl
  | binary op hl hr ihl ihr =>
    simp only [lineage, htext, ihl hl.text_eq, ihr hr.text_eq]
  | filter hx hc ihx ihc => simp only [lineage, htext, ihx hx.text_eq, ihc hc.text_eq]
  | compute name hx he ihx ihe => simp only [lineage, htext, ihx hx.text_eq, ihe he.text_eq]
  | within hx hb ihx ihb => simp only [lineage, htext, ihx hx.text_eq, ihb hb.text_eq]
  | unary op hx ih => simp only [lineage, htext, ih hx.text_eq]
  | member name hx ih => simp only [lineage, htext, ih hx.text_eq]
  | keep names hx ih => simp only [lineage, htext, ih hx.text_eq]
  | drop names hx ih => simp only [lineage, htext, ih hx.text_eq]
  | shift direction offset window hx _ ih => simp only [lineage, htext, ih hx.text_eq]
  | aggregate s groupBy hx ih => simp only [lineage, htext, ih hx.text_eq]
  | analytic r window hx ih => simp only [lineage, htext, ih hx.text_eq]

theorem canonical_eq (h : a.Corresponds (fun v w => v.same w = true) b) :
    a.canonical = b.canonical := by
  have hliteral : ∀ {v w : Scalar}, v.same w = true → v.canonical = w.canonical :=
    fun h => Scalar.order_eq_iff.1 (of_decide_eq_true h)
  induction h with
  | constant h => exact congrArg Expr.constant (hliteral h)
  | shift direction offset window _ hdefault ih =>
    cases hdefault with
    | none => simp only [canonical, ih]
    | some h => simp only [canonical, ih, Option.map_some, hliteral h]
  | _ => simp only [canonical, *]

/-- Expressions that are equal and have the same zeros have literals that are alike. -/
theorem alike (h : a.Corresponds (fun v w => v.same w = true) b)
    (hzeros : a.Corresponds Scalar.ZerosAgree b)
    (hnans : signs → a.Corresponds Scalar.NaNsAgree b) :
    a.Corresponds (Scalar.Alike signs) b := by
  by_cases hs : signs
  · exact ((h.and hzeros).and (hnans hs)).mono fun v w hvw =>
      Scalar.alike_of_same hvw.1.1 hvw.1.2 fun _ => hvw.2
  · exact (h.and hzeros).mono fun v w hvw =>
      Scalar.alike_of_same hvw.1 hvw.2 fun hs' => absurd hs' hs

/-- Equal expressions of one lineage have the same zeros: a literal is a lineage of its own, and a
default stands in the text of its node. -/
theorem zerosAgree_of_lineage (h : a.Corresponds (fun v w => v.same w = true) b)
    (hlineage : a.lineage = b.lineage) : a.Corresponds Scalar.ZerosAgree b := by
  induction h with
  | constant _ =>
    exact .constant (Scalar.zerosAgree_of_text (Lineage.known.inj hlineage))
  | var name => exact .var name
  | @shift direction x y offset default default' window hx hdefault ih =>
    have hoperand := ih (Lineage.source_eq hlineage)
    have hxy : x.text = y.text := (hx.alike hoperand False.elim).text_eq
    have htext := (Lineage.node.inj hlineage).1
    simp only [text, hxy] at htext
    have hwritten := (String.append_right_inj _).1
      ((String.append_left_inj _).1 ((String.append_left_inj _).1 htext))
    refine .shift direction offset window hoperand ?_
    cases hdefault with
    | none => exact .none
    | some _ =>
      exact .some (Scalar.zerosAgree_of_text ((String.append_right_inj ", ").1 hwritten))
  | binary op _ _ ihl ihr =>
    obtain ⟨hl, hr⟩ := Lineage.sources_eq hlineage
    exact .binary op (ihl hl) (ihr hr)
  | filter _ _ ihx ihc =>
    obtain ⟨hx, hc⟩ := Lineage.sources_eq hlineage
    exact .filter (ihx hx) (ihc hc)
  | compute name _ _ ihx ihe =>
    obtain ⟨hx, he⟩ := Lineage.sources_eq hlineage
    exact .compute name (ihx hx) (ihe he)
  | within _ _ ihx ihb =>
    obtain ⟨hx, hb⟩ := Lineage.sources_eq hlineage
    exact .within (ihx hx) (ihb hb)
  | unary op _ ih => exact .unary op (ih (Lineage.source_eq hlineage))
  | member name _ ih => exact .member name (ih (Lineage.source_eq hlineage))
  | keep names _ ih => exact .keep names (ih (Lineage.source_eq hlineage))
  | drop names _ ih => exact .drop names (ih (Lineage.source_eq hlineage))
  | aggregate s groupBy _ ih => exact .aggregate s groupBy (ih (Lineage.source_eq hlineage))
  | analytic r window _ ih => exact .analytic r window (ih (Lineage.source_eq hlineage))

end Corresponds

end Expr

end DataCube
