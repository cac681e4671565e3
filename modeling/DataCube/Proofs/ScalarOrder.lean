import DataCube.Scalar
import DataCube.Proofs.Rounding

/-!
# The value order is lawful

The value order compares scalars of any two domains, so that it is total and transitive has to be
seen across domains: an integer is compared to a number after rounding, and to an integer exactly.
Every scalar has a key, and comparing two scalars is comparing their keys field by field.  This
works because rounding is monotone, so comparing rounded integers first changes nothing.

* `OrderKey`: what the value order looks at, in the order in which it does.
* `Scalar.order_eq_compare`: the value order is the order of keys.
* `Scalar.order_eq_iff`: scalars are equal under the order if they have the same canonical form.
* The same for lists of scalars, compared from the first on.
* `Scalar.variant`, `Scalar.payload`: what a hash of a scalar is made from.
* `Scalar.order_lawful`: the laws of the order, and its agreement with hashing.
-/

namespace DataCube

/-! ## Numbers -/

namespace Binary64

/-- The place of a double in the order of values, with every NaN behind the infinities. -/
def valueKey (x : Binary64) : Int := if x.isNaN then signBit else x.key

theorem key_lt (x : Binary64) : x.key < signBit := by
  have h := x.magnitude_lt
  unfold key
  split <;> omega

theorem compareValues_eq (a b : Binary64) :
    a.compareValues b = compare a.valueKey b.valueKey := by
  unfold compareValues valueKey
  cases ha : a.isNaN with
  | true =>
    cases hb : b.isNaN with
    | true => exact (Int.compare_eq_eq.2 rfl).symm
    | false => exact (Int.compare_eq_gt.2 b.key_lt).symm
  | false =>
    cases hb : b.isNaN with
    | true => exact (Int.compare_eq_lt.2 a.key_lt).symm
    | false => rfl

theorem valueKey_ofInt (i : Int) : (ofInt i).valueKey = (ofInt i).key := by
  unfold valueKey
  rw [isNaN_ofInt, if_neg (by decide)]

/-- Comparing rounded integers first changes nothing. -/
theorem compare_ofInt_then (i j : Int) :
    (compare (ofInt i).valueKey (ofInt j).valueKey).then (compare i j) = compare i j := by
  rw [valueKey_ofInt, valueKey_ofInt]
  rcases Int.lt_trichotomy i j with h | rfl | h
  · have hle := key_ofInt_mono h.le
    rw [Int.compare_eq_lt.2 h]
    rcases Int.lt_or_eq_of_le hle with hlt | heq
    · rw [Int.compare_eq_lt.2 hlt]
      rfl
    · rw [Int.compare_eq_eq.2 heq]
      rfl
  · rw [Int.compare_eq_eq.2 rfl]
    rfl
  · have hle := key_ofInt_mono h.le
    rw [Int.compare_eq_gt.2 h]
    rcases Int.lt_or_eq_of_le hle with hlt | heq
    · rw [Int.compare_eq_gt.2 hlt]
      rfl
    · rw [Int.compare_eq_eq.2 heq.symm]
      rfl

/-- Sign and magnitude make up a double. -/
theorem eq_of_parts {x y : Binary64} (hs : x.isNegative = y.isNegative)
    (hm : x.magnitude = y.magnitude) : x = y := by
  obtain ⟨x⟩ := x
  obtain ⟨y⟩ := y
  congr 1
  have hx : x.toNat < 2 * signBit := x.toNat_lt
  have hy : y.toNat < 2 * signBit := y.toNat_lt
  have hs' : signBit ≤ x.toNat ↔ signBit ≤ y.toNat := decide_eq_decide.1 hs
  have hm' : x.toNat % signBit = y.toNat % signBit := hm
  apply UInt64.toNat_inj.1
  unfold signBit at hx hy hs' hm'
  omega

/-- The double that stands for all those equal to it by value. -/
def canonical (x : Binary64) : Binary64 := if x.isNaN then nan else if x.magnitude = 0 then 0 else x

/-- Doubles of one key are equal, unless they are the two zeros. -/
theorem key_eq_iff {x y : Binary64} :
    x.key = y.key ↔ x = y ∨ x.magnitude = 0 ∧ y.magnitude = 0 := by
  constructor
  · intro h
    by_cases hzero : x.magnitude = 0
    · refine Or.inr ⟨hzero, ?_⟩
      unfold key at h
      split at h <;> split at h <;> omega
    · have hparts : x.isNegative = y.isNegative ∧ x.magnitude = y.magnitude := by
        unfold key at h
        cases hs : x.isNegative <;> cases hs' : y.isNegative <;>
          simp only [hs, hs', if_true, if_false, Bool.false_eq_true] at h <;>
          refine ⟨?_, ?_⟩ <;> first | rfl | omega
      exact Or.inl (eq_of_parts hparts.1 hparts.2)
  · rintro (rfl | ⟨hx, hy⟩)
    · rfl
    · unfold key
      rw [hx, hy]
      split <;> split <;> rfl

theorem canonical_of_isNaN {x : Binary64} (h : x.isNaN = true) : x.canonical = nan := by
  rw [canonical, if_pos h]

theorem canonical_of_zero {x : Binary64} (h : x.magnitude = 0) : x.canonical = 0 := by
  have hnan : x.isNaN = false := by
    rw [isNaN, h]
    rfl
  rw [canonical, hnan, if_neg Bool.false_ne_true, if_pos h]

theorem canonical_of_ne {x : Binary64} (h : x.isNaN = false) (hm : x.magnitude ≠ 0) :
    x.canonical = x := by
  rw [canonical, h, if_neg Bool.false_ne_true, if_neg hm]

theorem isNaN_canonical (x : Binary64) : x.canonical.isNaN = x.isNaN := by
  cases h : x.isNaN with
  | true =>
    rw [canonical_of_isNaN h]
    rfl
  | false =>
    by_cases hm : x.magnitude = 0
    · rw [canonical_of_zero hm]
      rfl
    · rw [canonical_of_ne h hm, h]

/-- Of two numbers, the canonical forms are equal if the keys are. -/
theorem canonical_eq_iff {x y : Binary64} (hx : x.isNaN = false) (hy : y.isNaN = false) :
    x.canonical = y.canonical ↔ x.key = y.key := by
  rw [key_eq_iff]
  by_cases hm : x.magnitude = 0
  · rw [canonical_of_zero hm]
    by_cases hm' : y.magnitude = 0
    · rw [canonical_of_zero hm']
      exact ⟨fun _ => Or.inr ⟨hm, hm'⟩, fun _ => rfl⟩
    · rw [canonical_of_ne hy hm']
      refine ⟨fun h => absurd (h ▸ rfl) hm', ?_⟩
      rintro (rfl | ⟨-, h⟩)
      · exact absurd hm hm'
      · exact absurd h hm'
  · rw [canonical_of_ne hx hm]
    by_cases hm' : y.magnitude = 0
    · rw [canonical_of_zero hm']
      refine ⟨fun h => absurd (h ▸ rfl) hm, ?_⟩
      rintro (rfl | ⟨h, -⟩)
      · exact absurd hm' hm
      · exact absurd h hm
    · rw [canonical_of_ne hy hm']
      exact ⟨Or.inl, fun h => h.resolve_right fun hz => hm hz.1⟩

theorem canonical_ne_of_isNaN {x y : Binary64} (h : x.isNaN ≠ y.isNaN) :
    x.canonical ≠ y.canonical := by
  intro heq
  rw [← x.isNaN_canonical, ← y.isNaN_canonical, heq] at h
  exact h rfl

theorem valueKey_eq_iff {x y : Binary64} :
    x.valueKey = y.valueKey ↔ x.canonical = y.canonical := by
  have hx := x.key_lt
  have hy := y.key_lt
  unfold valueKey
  cases hx' : x.isNaN with
  | true =>
    cases hy' : y.isNaN with
    | true =>
      rw [canonical_of_isNaN hx', canonical_of_isNaN hy']
      exact ⟨fun _ => rfl, fun _ => rfl⟩
    | false =>
      have hne : x.canonical ≠ y.canonical := canonical_ne_of_isNaN (by simp [hx', hy'])
      rw [if_pos rfl, if_neg Bool.false_ne_true]
      exact ⟨fun h => absurd h (by omega), fun h => absurd h hne⟩
  | false =>
    cases hy' : y.isNaN with
    | true =>
      have hne : x.canonical ≠ y.canonical := canonical_ne_of_isNaN (by simp [hx', hy'])
      rw [if_pos rfl, if_neg Bool.false_ne_true]
      exact ⟨fun h => absurd h (by omega), fun h => absurd h hne⟩
    | false =>
      rw [if_neg Bool.false_ne_true, if_neg Bool.false_ne_true]
      exact (canonical_eq_iff hx' hy').symm

end Binary64

/-! ## Scalars -/

/-- What the value order looks at, one field after the other. -/
structure OrderKey where
  rank : Nat
  value : Int
  /-- Integers come before the numbers equal to them. -/
  isNumber : Nat
  exact : Int
  text : String

namespace OrderKey

/-- The order of keys, field by field. -/
def compare : OrderKey → OrderKey → Ordering :=
  compareLex (compareOn rank) <| compareLex (compareOn value) <|
    compareLex (compareOn isNumber) <| compareLex (compareOn exact) (compareOn text)

instance : Std.TransCmp compare := inferInstanceAs (Std.TransCmp (compareLex _ _))

instance : Std.LawfulEqCmp compare where
  eq_of_compare {a b} h := by
    obtain ⟨rank, value, isNumber, exact, text⟩ := a
    obtain ⟨rank', value', isNumber', exact', text'⟩ := b
    simp only [compare, compareLex, compareOn, Ordering.then_eq_eq,
      Std.LawfulEqOrd.compare_eq_iff_eq] at h
    obtain ⟨rfl, rfl, rfl, rfl, rfl⟩ := h
    rfl

end OrderKey

namespace Scalar

/-- The key of a scalar. -/
def orderKey : Scalar → OrderKey
  | null d => ⟨0, d.rank, 0, 0, ""⟩
  | boolean b => ⟨1, b.toNat, 0, 0, ""⟩
  | integer i => ⟨2, (Binary64.ofInt i.toInt).valueKey, 0, i.toInt, ""⟩
  | number x => ⟨2, x.valueKey, 1, 0, ""⟩
  | string s => ⟨3, 0, 0, 0, s⟩

/-- The value order is the order of keys. -/
theorem order_eq_compare (a b : Scalar) : a.order b = a.orderKey.compare b.orderKey := by
  cases a with
  | null d =>
    cases b with
    | null d' => cases d <;> cases d' <;> rfl
    | _ => rfl
  | boolean v =>
    cases b with
    | boolean v' => cases v <;> cases v' <;> rfl
    | _ => rfl
  | integer i =>
    cases b with
    | integer j =>
      show compare i.toInt j.toInt =
        (compare (Binary64.ofInt i.toInt).valueKey (Binary64.ofInt j.toInt).valueKey).then
          ((compare i.toInt j.toInt).then .eq)
      rw [Ordering.then_eq, Binary64.compare_ofInt_then]
    | number y =>
      show ((Binary64.ofInt i.toInt).compareValues y).then .lt =
        (compare (Binary64.ofInt i.toInt).valueKey y.valueKey).then .lt
      rw [Binary64.compareValues_eq]
    | _ => rfl
  | number x =>
    cases b with
    | integer j =>
      show (x.compareValues (Binary64.ofInt j.toInt)).then .gt =
        (compare x.valueKey (Binary64.ofInt j.toInt).valueKey).then .gt
      rw [Binary64.compareValues_eq]
    | number y =>
      show x.compareValues y = (compare x.valueKey y.valueKey).then .eq
      rw [Ordering.then_eq, Binary64.compareValues_eq]
    | _ => rfl
  | string s =>
    cases b with
    | string s' => rfl
    | _ => rfl

/-- Scalars have the same key if they have the same canonical form. -/
theorem orderKey_eq_iff {a b : Scalar} : a.orderKey = b.orderKey ↔ a.canonical = b.canonical := by
  cases a with
  | null d =>
    cases b with
    | null d' => cases d <;> cases d' <;> simp [orderKey, canonical, Domain.rank]
    | _ => simp [orderKey, canonical]
  | boolean v =>
    cases b with
    | boolean v' => cases v <;> cases v' <;> simp [orderKey, canonical]
    | _ => simp [orderKey, canonical]
  | integer i =>
    cases b with
    | integer j =>
      simp only [orderKey, canonical, OrderKey.mk.injEq, Int64.toInt_inj, integer.injEq]
      constructor
      · rintro ⟨-, -, -, h, -⟩
        exact h
      · rintro rfl
        exact ⟨trivial, rfl, trivial, rfl, trivial⟩
    | _ => simp [orderKey, canonical]
  | number x =>
    cases b with
    | number y =>
      show _ ↔ number x.canonical = number y.canonical
      simp [orderKey, Binary64.valueKey_eq_iff]
    | _ => simp [orderKey, canonical]
  | string s =>
    cases b with
    | string s' => simp [orderKey, canonical]
    | _ => simp [orderKey, canonical]

instance : Std.TransCmp order := by
  have h : order = fun a b => a.orderKey.compare b.orderKey := by
    funext a b
    exact order_eq_compare a b
  rw [h]
  exact {
    eq_swap := fun {_ _} => @Std.OrientedCmp.eq_swap _ OrderKey.compare _ _ _
    isLE_trans := fun {_ _ _} => @Std.TransCmp.isLE_trans _ OrderKey.compare _ _ _ _ }

/-- Scalars are equal under the value order if they have the same canonical form. -/
theorem order_eq_iff {a b : Scalar} : a.order b = .eq ↔ a.canonical = b.canonical := by
  rw [order_eq_compare, Std.LawfulEqCmp.compare_eq_iff_eq, orderKey_eq_iff]

/-! ## Lists of scalars -/

theorem orderLists_eq_compareLex : orderLists = List.compareLex order := by
  funext as bs
  induction as generalizing bs with
  | nil => cases bs <;> rfl
  | cons a as ih =>
    cases bs with
    | nil => rfl
    | cons b bs => rw [orderLists, List.compareLex_cons_cons, ih]

instance : Std.TransCmp orderLists := by
  rw [orderLists_eq_compareLex]
  infer_instance

/-- Lists are equal under the value order if their members have the same canonical forms. -/
theorem orderLists_eq_iff {as bs : List Scalar} :
    orderLists as bs = .eq ↔ as.map canonical = bs.map canonical := by
  induction as generalizing bs with
  | nil => cases bs <;> simp [orderLists]
  | cons a as ih =>
    cases bs with
    | nil => simp [orderLists]
    | cons b bs =>
      rw [orderLists, Ordering.then_eq_eq, order_eq_iff, ih, List.map_cons, List.map_cons,
        List.cons.injEq]

/-- Two readings of one list are equal under the value order if they are so member by member. -/
theorem orderLists_map_eq_iff {α : Type} {f g : α → Scalar} {xs : List α} :
    orderLists (xs.map f) (xs.map g) = .eq ↔ ∀ x ∈ xs, (f x).order (g x) = .eq := by
  rw [orderLists_eq_iff, List.map_map, List.map_map, List.map_inj_left]
  exact forall₂_congr fun _ _ => order_eq_iff.symm

/-! ## Hashing -/

/-- What a hash function is fed beside the variant of a scalar. -/
inductive HashPayload where
  | word (w : UInt64)
  | text (s : String)
deriving DecidableEq

/-- The number of the variant. -/
def variant : Scalar → Nat
  | integer _ => 0
  | number _ => 1
  | string _ => 2
  | boolean _ => 3
  | null _ => 4

/-- The payload: integers, truth values and domains as they are, and numbers by their bits, where
there is one NaN and one zero. -/
def payload : Scalar → HashPayload
  | integer i => .word i.toUInt64
  | number x =>
    .word (if x.isNaN then Binary64.nan.bits else if x.magnitude = 0 then 0 else x.bits)
  | string s => .text s
  | boolean b => .word (if b then 1 else 0)
  | null d => .word (UInt64.ofNat d.rank)

theorem payload_number (x : Binary64) : (number x).payload = .word x.canonical.bits := by
  simp only [payload, Binary64.canonical]
  by_cases hnan : x.isNaN = true
  · simp [hnan]
  · by_cases hzero : x.magnitude = 0
    · simp only [hnan, hzero, if_true, Bool.false_eq_true, if_false]
      rfl
    · simp [hnan, hzero]

/-- Scalars feed a hash function alike if they have the same canonical form. -/
theorem hashed_eq_iff {a b : Scalar} :
    a.variant = b.variant ∧ a.payload = b.payload ↔ a.canonical = b.canonical := by
  cases a with
  | integer i =>
    cases b with
    | integer j =>
      have hwords : i.toUInt64 = j.toUInt64 ↔ i = j :=
        ⟨fun h => congrArg Int64.ofUInt64 h, congrArg Int64.toUInt64⟩
      simp [variant, payload, canonical, hwords]
    | _ => simp [variant, canonical]
  | number x =>
    cases b with
    | number y =>
      have hbits : x.canonical.bits = y.canonical.bits ↔ x.canonical = y.canonical :=
        ⟨fun h => congrArg Binary64.mk h, congrArg Binary64.bits⟩
      rw [payload_number, payload_number]
      show _ ↔ number x.canonical = number y.canonical
      simp [variant, hbits]
    | _ => simp [variant, canonical]
  | string s =>
    cases b with
    | string s' => simp [variant, payload, canonical]
    | _ => simp [variant, canonical]
  | boolean v =>
    cases b with
    | boolean v' => cases v <;> cases v' <;> simp [variant, payload, canonical]
    | _ => simp [variant, canonical]
  | null d =>
    cases b with
    | null d' => cases d <;> cases d' <;> simp [variant, payload, canonical, Domain.rank]
    | _ => simp [variant, canonical]

/-- The value order is a total order of all scalars, NaN, zeros, typed nulls and integers of any
size included: reversing the operands reverses it, it is transitive, and equal scalars compare alike
to every other.  Scalars are equal if they are of one variant and feed a hash function the same
payload. -/
theorem order_lawful (a b c : Scalar) :
    b.order a = (a.order b).swap ∧
      ((a.order b).isLE = true → (b.order c).isLE = true → (a.order c).isLE = true) ∧
      (a.order b = .eq → a.order c = b.order c) ∧
      (a.order b = .eq ↔ a.variant = b.variant ∧ a.payload = b.payload) := by
  refine ⟨Std.OrientedCmp.eq_swap, Std.TransCmp.isLE_trans, Std.TransCmp.congr_left, ?_⟩
  rw [order_eq_iff, hashed_eq_iff]

/-- Integers that doubles do not tell apart stay in order before the double they are rounded to, and
the two zeros compare alike to an integer. -/
theorem order_lawful_beyondDoubles :
    ((integer 0x20000000000000).order (integer 0x20000000000001)).isLE = true ∧
      ((integer 0x20000000000001).order (number (Binary64.ofInt 0x20000000000000))).isLE = true ∧
      ((integer 0x20000000000000).order (number (Binary64.ofInt 0x20000000000000))).isLE = true ∧
      (number (-0)).order (number 0) = .eq ∧
      (number (-0)).order (integer 0) = (number 0).order (integer 0) := by
  have hexact : ((integer 0x20000000000000).order (integer 0x20000000000001)).isLE = true := by
    decide +kernel
  have hrounded : ((integer 0x20000000000001).order
      (number (Binary64.ofInt 0x20000000000000))).isLE = true := by
    decide +kernel
  have hzeros : (number (-0)).order (number 0) = .eq := by decide +kernel
  exact ⟨hexact, hrounded, (order_lawful _ _ _).2.1 hexact hrounded, hzeros,
    (order_lawful _ _ _).2.2.1 hzeros⟩

end Scalar

end DataCube
