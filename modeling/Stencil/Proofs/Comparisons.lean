/-
Whether the comparisons of two values agree.

Order and equality are asked of different functions. Between two integers the order is exact, but
equality is that of floating-point numbers. Between texts both are exact, and there the comparisons
belong together as they should. Between integers they do so exactly as long as two different ones do
not become the same floating-point number; that happens from 2^53 on, where one of two neighbours is
less than the other and equal to it.
-/
import Stencil.Function.Builtin
import Stencil.Proofs.Rounding

set_option autoImplicit false

namespace Stencil.Builtin

/-- Says that the six comparisons answer for two values, and that their answers are those of an order
in which a value is equal to itself only. -/
def Consistent (a b : Value) : Prop :=
  ∃ less same greater : Bool,
    apply .lt [a, b] = .ok (.bool less) ∧ apply .eq [a, b] = .ok (.bool same) ∧
    apply .gt [a, b] = .ok (.bool greater) ∧
    [less, same, greater].count true = 1 ∧
    apply .le [a, b] = .ok (.bool (less || same)) ∧
    apply .ge [a, b] = .ok (.bool (greater || same)) ∧
    apply .ne [a, b] = .ok (.bool !same) ∧ (same = true ↔ a = b)

variable {a b : Value}

/-! ## What the comparisons answer -/

/-- A comparison answers from the order of its arguments. -/
theorem comparison_of_order {o : Ordering} (h : order a b = .ok o) (accepts : Ordering → Bool) :
    comparison accepts [a, b] = .ok (.bool (accepts o)) := by
  show (do let o ← order a b; Except.ok (Value.bool (accepts o))) = _
  rw [h]
  rfl

theorem apply_eq (a b : Value) : apply .eq [a, b] = .ok (.bool (equal a b)) := by
  show Except.ok (Value.bool ([b].any (equal a))) = _
  rw [List.any_cons, List.any_nil, Bool.or_false]

theorem apply_ne (a b : Value) : apply .ne [a, b] = .ok (.bool !equal a b) := rfl

/-- Comparisons are consistent if they come from one order and equality is equality in it. -/
theorem consistent_of_order {less : Bool} (h : order a b = .ok (orderingOf less (equal a b)))
    (hless : less = true → equal a b = false) (hsame : equal a b = true ↔ a = b) :
    Consistent a b := by
  refine ⟨less, equal a b, (orderingOf less (equal a b)).isGT, ?_, apply_eq a b, ?_, ?_, ?_, ?_,
    apply_ne a b, hsame⟩
  · rw [show apply .lt [a, b] = _ from comparison_of_order h _]
    cases less <;> cases equal a b <;> rfl
  · exact comparison_of_order h _
  · cases less with
    | false => cases equal a b <;> rfl
    | true => rw [hless rfl]; rfl
  · rw [show apply .le [a, b] = _ from comparison_of_order h _]
    cases less <;> cases equal a b <;> rfl
  · rw [show apply .ge [a, b] = _ from comparison_of_order h _]
    cases less with
    | false => cases equal a b <;> rfl
    | true => rw [hless rfl]; rfl

/-! ## Texts -/

theorem consistent_strings (s t : String) : Consistent (.string s) (.string t) := by
  have hequal : equal (.string s) (.string t) = (s == t) := rfl
  have horder : order (.string s) (.string t)
      = .ok (orderingOf (s < t) (equal (.string s) (.string t))) := rfl
  apply consistent_of_order horder
  · intro hless
    rw [hequal, beq_eq_false_iff_ne]
    rintro rfl
    exact String.lt_irrefl s (of_decide_eq_true hless)
  · rw [hequal, beq_iff_eq, Value.string.injEq]

/-! ## Integers -/

variable {x y : Int64}

theorem log2_natAbs_toInt (x : Int64) : x.toInt.natAbs.log2 ≤ 63 := by
  have hlow := x.le_toInt
  have hhigh := x.toInt_lt
  by_cases hzero : x.toInt.natAbs = 0
  · rw [hzero, Nat.log2_zero]
    exact Nat.zero_le 63
  · have hlog : x.toInt.natAbs.log2 < 64 := (Nat.log2_lt hzero).2 (by omega)
    omega

/-- Integers are taken for equal if they are rounded to the same number. -/
theorem equal_int (x y : Int64) :
    equal (.int x) (.int y) = decide (Decimal.rounded x.toInt = Decimal.rounded y.toInt) := by
  rw [Bool.eq_iff_iff, decide_eq_true_iff]
  exact Decimal.beq_floatOfInteger_iff (log2_natAbs_toInt x) (log2_natAbs_toInt y)

theorem order_int (x y : Int64) :
    order (.int x) (.int y) = .ok (orderingOf (x < y) (x == y)) := rfl

/-- The order of two integers is the one of what they stand for. -/
theorem orderingOf_int (x y : Int64) : orderingOf (x < y) (x == y) = compare x.toInt y.toInt := by
  have hless : x < y ↔ x.toInt < y.toInt := Int64.lt_iff_toInt_lt
  have hsame : x = y ↔ x.toInt = y.toInt := Int64.toInt_inj.symm
  rcases lt_trichotomy x.toInt y.toInt with hlt | heq | hgt
  · rw [compare_lt_iff_lt.2 hlt, orderingOf, if_pos (decide_eq_true (hless.2 hlt))]
  · have hnot : ¬ x < y := fun h => by have := hless.1 h; omega
    rw [compare_eq_iff_eq.2 heq, orderingOf, if_neg (by simpa using hnot),
      if_pos (beq_iff_eq.2 (hsame.2 heq))]
  · have hnot : ¬ x < y := fun h => by have := hless.1 h; omega
    have hne : ¬ x = y := fun h => by have := hsame.1 h; omega
    rw [compare_gt_iff_gt.2 hgt, orderingOf, if_neg (by simpa using hnot),
      if_neg (by simpa using hne)]

/-- What a comparison of two integers says of their order, it says of what they stand for. -/
theorem comparison_int {accepts : Ordering → Bool} {p : Prop} [Decidable p]
    (h : accepts (compare x.toInt y.toInt) = true ↔ p) :
    comparison accepts [.int x, .int y] = .ok (.bool p) := by
  have haccepts : accepts (orderingOf (x < y) (x == y)) = decide p := by
    rw [orderingOf_int, Bool.eq_iff_iff, decide_eq_true_iff]
    exact h
  rw [comparison_of_order (order_int x y), haccepts]

theorem consistent_int_iff (x y : Int64) :
    Consistent (.int x) (.int y)
      ↔ x = y ∨ Decimal.rounded x.toInt ≠ Decimal.rounded y.toInt := by
  constructor
  · -- What is taken for equal would have to be the same.
    rintro ⟨_, same, _, _, heq, _, _, _, _, _, hsame⟩
    rw [apply_eq, equal_int] at heq
    by_cases hrounded : Decimal.rounded x.toInt = Decimal.rounded y.toInt
    · left
      rw [decide_eq_true hrounded] at heq
      cases heq
      exact Value.int.inj (hsame.1 rfl)
    · exact Or.inr hrounded
  · intro h
    have hequal : equal (.int x) (.int y) = (x == y) := by
      rw [equal_int]
      by_cases hxy : x = y
      · simp [hxy]
      · simp [hxy, h.resolve_left hxy]
    have horder : order (.int x) (.int y)
        = .ok (orderingOf (x < y) (equal (.int x) (.int y))) := by
      rw [hequal]
      exact order_int x y
    apply consistent_of_order horder
    · intro hless
      rw [hequal, beq_eq_false_iff_ne]
      rintro rfl
      exact Int64.lt_irrefl (of_decide_eq_true hless)
    · rw [hequal, beq_iff_eq, Value.int.injEq]

/-- Up to 2^53 no two integers are rounded to the same number. -/
theorem consistent_int_of_natAbs_le (hx : x.toInt.natAbs ≤ 2 ^ 53) (hy : y.toInt.natAbs ≤ 2 ^ 53) :
    Consistent (.int x) (.int y) := by
  rw [consistent_int_iff, Decimal.rounded_of_natAbs_le hx, Decimal.rounded_of_natAbs_le hy,
    ne_eq, Int64.toInt_inj]
  exact Decidable.em _

/-- **When comparisons agree.** Those of two texts always do. Those of two integers do exactly if the
integers are the same or are still different once they are rounded to 53 binary digits: order is
exact, and equality is equality of the rounded numbers. -/
theorem comparisons_consistent_iff (s t : String) (x y : Int64) :
    Consistent (.string s) (.string t) ∧
    (Consistent (.int x) (.int y)
      ↔ x = y ∨ Decimal.rounded x.toInt ≠ Decimal.rounded y.toInt) ∧
    apply .lt [.int x, .int y] = .ok (.bool (x.toInt < y.toInt)) ∧
    apply .le [.int x, .int y] = .ok (.bool (x.toInt ≤ y.toInt)) ∧
    apply .gt [.int x, .int y] = .ok (.bool (y.toInt < x.toInt)) ∧
    apply .ge [.int x, .int y] = .ok (.bool (y.toInt ≤ x.toInt)) ∧
    apply .eq [.int x, .int y]
      = .ok (.bool (Decimal.rounded x.toInt = Decimal.rounded y.toInt)) ∧
    apply .ne [.int x, .int y]
      = .ok (.bool (Decimal.rounded x.toInt ≠ Decimal.rounded y.toInt)) := by
  refine ⟨consistent_strings s t, consistent_int_iff x y, ?_, ?_, ?_, ?_, ?_, ?_⟩
  -- The four that ask for the order.
  · apply comparison_int
    rw [Ordering.isLT_iff_eq_lt, compare_lt_iff_lt]
  · apply comparison_int
    rw [Int.isLE_compare]
  · apply comparison_int
    rw [Ordering.isGT_iff_eq_gt, compare_gt_iff_gt]
  · apply comparison_int
    rw [Int.isGE_compare]
  -- The two that ask whether the values are equal.
  · rw [apply_eq, equal_int]
  · rw [apply_ne, equal_int, decide_not]

/-- Next to 2^53 an integer is less than another one that it is taken for equal to. -/
theorem not_consistent_neighbours :
    ¬ Consistent (.int 9007199254740992) (.int 9007199254740993) := by
  rw [consistent_int_iff]
  decide

end Stencil.Builtin
