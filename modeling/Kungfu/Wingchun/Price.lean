import Mathlib.Algebra.Order.Ring.Rat
import Mathlib.Tactic.Linarith
import Mathlib.Tactic.NormNum

/-!
Comparison of prices in `wingchun/common.h`, in exact rational arithmetic.
-/

namespace Kungfu.Wingchun

def epsilon : ℚ := 1 / 10 ^ 6

def doubleMax : ℚ := 10 ^ 16

def isGreater (x y : ℚ) : Bool := x - y > epsilon

def isLess (x y : ℚ) : Bool := x - y < epsilon * -1

def isEqual (x y : ℚ) : Bool := |x - y| ≤ epsilon * |x|

def isLessEqual (x y : ℚ) : Bool := isLess x y || isEqual x y

def isZero (x : ℚ) : Bool := isEqual x 0

def isTooLarge (x : ℚ) : Bool := isGreater x doubleMax

def isValidPrice (price : ℚ) : Bool := !isLessEqual price 0 && !isTooLarge price

variable {x y p : ℚ}

theorem epsilon_pos : 0 < epsilon := by norm_num [epsilon]

theorem isGreater_iff : isGreater x y = true ↔ epsilon < x - y := decide_eq_true_iff

theorem isLess_iff : isLess x y = true ↔ epsilon < y - x := by
  rw [isLess, decide_eq_true_iff]
  constructor <;> intro h <;> linarith

theorem isEqual_iff : isEqual x y = true ↔ |x - y| ≤ epsilon * |x| := decide_eq_true_iff

theorem isLess_eq_isGreater (x y : ℚ) : isLess x y = isGreater y x :=
  Bool.eq_iff_iff.mpr (isLess_iff.trans isGreater_iff.symm)

theorem isLess_or_isGreater_iff :
    isLess x y = true ∨ isGreater x y = true ↔ epsilon < |x - y| := by
  rw [isLess_iff, isGreater_iff, lt_abs, or_comm, neg_sub]

theorem not_isLess_and_isGreater : ¬ (isLess x y = true ∧ isGreater x y = true) := by
  rw [isLess_iff, isGreater_iff]
  rintro ⟨hless, hgreater⟩
  linarith [epsilon_pos]

/-- What callers expect of the comparisons of two values. -/
structure ThreeWay (x y : ℚ) : Prop where
  one : (isLess x y).toNat + (isEqual x y).toNat + (isGreater x y).toNat = 1
  equal_comm : isEqual x y = isEqual y x
  less_greater : isLess x y = isGreater y x
  lessEqual : isLessEqual x y = !isGreater x y

theorem one_iff : (isLess x y).toNat + (isEqual x y).toNat + (isGreater x y).toNat = 1 ↔
    (isEqual x y = true ↔ |x - y| ≤ epsilon) := by
  rw [← not_lt, ← isLess_or_isGreater_iff]
  have hboth := not_isLess_and_isGreater (x := x) (y := y)
  revert hboth
  cases isLess x y <;> cases isEqual x y <;> cases isGreater x y <;> decide

theorem lessEqual_of_one
    (h : (isLess x y).toNat + (isEqual x y).toNat + (isGreater x y).toNat = 1) :
    isLessEqual x y = !isGreater x y := by
  rw [isLessEqual]
  revert h
  cases isLess x y <;> cases isEqual x y <;> cases isGreater x y <;> decide

theorem threeWay_iff_tolerances : ThreeWay x y ↔
    (|x - y| ≤ epsilon * |x| ↔ |x - y| ≤ epsilon) ∧
      (|x - y| ≤ epsilon * |y| ↔ |x - y| ≤ epsilon) := by
  have hcomm : isEqual y x = true ↔ |x - y| ≤ epsilon * |y| := by rw [isEqual_iff, abs_sub_comm]
  constructor
  · intro h
    have hone := one_iff.mp h.one
    refine ⟨isEqual_iff.symm.trans hone, ?_⟩
    rw [← hcomm, ← h.equal_comm]
    exact hone
  · rintro ⟨hx, hy⟩
    have hone := one_iff.mpr (isEqual_iff.trans hx)
    refine ⟨hone, ?_, isLess_eq_isGreater x y, lessEqual_of_one hone⟩
    rw [Bool.eq_iff_iff, isEqual_iff, hcomm, hx, hy]

theorem threeWay_iff (x y : ℚ) : ThreeWay x y ↔
    |x - y| ≤ epsilon * min 1 (min |x| |y|) ∨ epsilon * max 1 (max |x| |y|) < |x - y| := by
  have hmul : ∀ {a b : ℚ}, |x - y| ≤ epsilon * a → a ≤ b → |x - y| ≤ epsilon * b :=
    fun h hab => h.trans (mul_le_mul_of_nonneg_left hab epsilon_pos.le)
  rw [threeWay_iff_tolerances]
  constructor
  · rintro ⟨hx, hy⟩
    by_cases h : |x - y| ≤ epsilon
    · left
      rw [mul_min_of_nonneg _ _ epsilon_pos.le, mul_min_of_nonneg _ _ epsilon_pos.le, mul_one]
      exact le_min h (le_min (hx.mpr h) (hy.mpr h))
    · right
      rw [mul_max_of_nonneg _ _ epsilon_pos.le, mul_max_of_nonneg _ _ epsilon_pos.le, mul_one]
      exact max_lt (not_le.mp h) (max_lt (not_le.mp (mt hx.mp h)) (not_le.mp (mt hy.mp h)))
  · rintro (h | h)
    · have hone : |x - y| ≤ epsilon := mul_one epsilon ▸ hmul h (min_le_left ..)
      have hx := hmul h ((min_le_right ..).trans (min_le_left ..))
      have hy := hmul h ((min_le_right ..).trans (min_le_right ..))
      exact ⟨iff_of_true hx hone, iff_of_true hy hone⟩
    · have hone : ¬ |x - y| ≤ epsilon := fun hle =>
        not_le.mpr h (hmul ((mul_one epsilon).symm ▸ hle) (le_max_left ..))
      have hx : ¬ |x - y| ≤ epsilon * |x| := fun hle =>
        not_le.mpr h (hmul hle ((le_max_left ..).trans (le_max_right ..)))
      have hy : ¬ |x - y| ≤ epsilon * |y| := fun hle =>
        not_le.mpr h (hmul hle ((le_max_right ..).trans (le_max_right ..)))
      exact ⟨iff_of_false hx hone, iff_of_false hy hone⟩

theorem not_threeWay_small : ¬ ∀ x y, ThreeWay x y := by
  intro h
  rcases (threeWay_iff_tolerances.mp (h (1 / 10 ^ 3) (1 / 10 ^ 3 + 1 / 10 ^ 7))) with ⟨hx, -⟩
  norm_num [epsilon] at hx

theorem isZero_iff (x : ℚ) : isZero x = true ↔ x = 0 := by
  rw [isZero, isEqual_iff, sub_zero]
  constructor
  · intro h
    have hone : epsilon < 1 := by norm_num [epsilon]
    exact abs_eq_zero.mp (by nlinarith [abs_nonneg x])
  · rintro rfl
    simp

theorem isValidPrice_iff :
    isValidPrice p = true ↔ p ≠ 0 ∧ -epsilon ≤ p ∧ p ≤ doubleMax + epsilon := by
  have hzero := isZero_iff p
  rw [isZero] at hzero
  have hless : isLess p 0 = true ↔ p < -epsilon := by
    rw [isLess_iff]
    constructor <;> intro h <;> linarith
  have hlarge : isTooLarge p = true ↔ doubleMax + epsilon < p := by
    rw [isTooLarge, isGreater_iff]
    constructor <;> intro h <;> linarith
  rw [isValidPrice, isLessEqual, Bool.and_eq_true, Bool.not_eq_true', Bool.not_eq_true',
    Bool.or_eq_false_iff, ← Bool.not_eq_true, ← Bool.not_eq_true, ← Bool.not_eq_true, hless, hzero,
    hlarge, not_lt, not_lt]
  tauto

/-- Validation fails on the prices right below zero, and only there. -/
theorem validates_iff (p : ℚ) :
    ((isValidPrice p = true → 0 < p) ∧ (0 < p → p ≤ doubleMax → isValidPrice p = true)) ↔
      ¬ (-epsilon ≤ p ∧ p < 0) := by
  have hpos := epsilon_pos
  have hmax : 0 < doubleMax := by norm_num [doubleMax]
  rw [isValidPrice_iff]
  constructor
  · rintro ⟨hvalid, -⟩ ⟨hlow, hneg⟩
    exact absurd (hvalid ⟨hneg.ne, hlow, by linarith⟩) (by linarith)
  · intro h
    refine ⟨fun ⟨hne, hlow, _⟩ => ?_, fun hp hle => ⟨hp.ne', by linarith, by linarith⟩⟩
    by_contra hp
    exact h ⟨hlow, lt_of_le_of_ne (not_lt.mp hp) hne⟩

theorem not_validates_negative : ¬ ∀ p, (isValidPrice p = true → 0 < p) ∧
    (0 < p → p ≤ doubleMax → isValidPrice p = true) := by
  intro h
  have hvalid : isValidPrice (-(1 / 10 ^ 7)) = true := by
    rw [isValidPrice_iff]
    norm_num [epsilon, doubleMax]
  exact absurd ((h _).1 hvalid) (by norm_num)

end Kungfu.Wingchun
