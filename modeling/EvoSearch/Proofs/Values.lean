/-
# The numbers that floats stand for

A finite float is an integer times a power of two. To compare finite floats is to compare these
numbers, so an order between floats can be shown by rational arithmetic, and what has been computed
can be told by its value alone, up to the sign of zero.

Infinities and NaN stand for no number. They are given the value zero, and whatever is said about
values is said of finite floats only.
-/

import Mathlib.Algebra.Order.Field.Power
import Mathlib.Algebra.Order.Field.Rat
import Mathlib.Tactic.GCongr
import Mathlib.Tactic.Linarith
import Mathlib.Tactic.NormNum
import Mathlib.Tactic.Positivity
import Mathlib.Tactic.Ring
import EvoSearch.Proofs.Fractions

namespace EvoSearch.Numeric

open Float.Model Float.Model.UnpackedFloat

variable {m n : Nat} {d e : Int} {p q : Int} {a b : UnpackedFloat} {x y : Float} {sign : Sign}

/-- A number with a sign put in front of it. -/
def signed : Sign → ℚ → ℚ
  | .negative, number => -number
  | .positive, number => number

@[simp]
theorem signed_zero (sign : Sign) : signed sign 0 = 0 := by
  cases sign
  · exact neg_zero
  · rfl

/-- The number that an unpacked float stands for, if it is finite. -/
def unpackedValue : UnpackedFloat → ℚ
  | .finite sign mantissa exponent _ => signed sign (mantissa * 2 ^ exponent)
  | _ => 0

/-- The number that a float stands for, if it is finite. -/
def value (x : Float) : ℚ :=
  unpackedValue x.toModel.unpack

@[simp]
theorem value_zero : value 0 = 0 :=
  rfl

namespace IsNormal

/-- In normal form a number that is further from zero stands further up. -/
theorem mul_lt_mul (first : IsNormal m d) (second : IsNormal n e)
    (below : stepsUp m d < stepsUp n e) : (m * 2 ^ d : ℚ) < n * 2 ^ e := by
  obtain ⟨_, m_lt, _, _, m_full⟩ := first
  obtain ⟨_, n_lt, _, _, n_full⟩ := second
  unfold stepsUp at below
  rcases Int.lt_trichotomy d e with exponents | rfl | exponents
  · have m_le : (m : ℚ) < 0x20000000000000 := by exact_mod_cast m_lt
    have le_n : (0x10000000000000 : ℚ) ≤ n := by exact_mod_cast (by omega : 0x10000000000000 ≤ n)
    calc (m * 2 ^ d : ℚ) < 0x20000000000000 * 2 ^ d := by gcongr
      _ = 0x10000000000000 * 2 ^ (d + 1) := by rw [zpow_add_one₀ two_ne_zero]; ring
      _ ≤ n * 2 ^ e := by
        gcongr
        · exact one_le_two
        · omega
  · have mantissas : (m : ℚ) < n := by exact_mod_cast (by omega : m < n)
    gcongr
  · omega

theorem eq_of_stepsUp_eq (first : IsNormal m d) (second : IsNormal n e)
    (same : stepsUp m d = stepsUp n e) : m = n ∧ d = e := by
  obtain ⟨_, m_lt, _, _, m_full⟩ := first
  obtain ⟨_, n_lt, _, _, n_full⟩ := second
  unfold stepsUp at same
  omega

theorem mul_pos (normal : IsNormal m d) : (0 : ℚ) < m * 2 ^ d := by
  have positive : (0 : ℚ) < m := by exact_mod_cast normal.positive
  positivity

end IsNormal

/-- Finite numbers are in the order of the places that they stand at. -/
theorem unpackedValue_lt (a_stands : StandsAt p a) (b_stands : StandsAt q b)
    (a_finite : a.isFinite = true) (b_finite : b.isFinite = true) (below : p < q) :
    unpackedValue a < unpackedValue b := by
  rcases a with _ | _ | _ | ⟨_ | _, m, d, _⟩ <;> rcases b with _ | _ | _ | ⟨_ | _, n, e, _⟩
  all_goals try cases a_finite
  all_goals try cases b_finite
  all_goals dsimp only [StandsAt, Sign.apply] at a_stands b_stands
  all_goals dsimp only [unpackedValue, signed]
  -- away from zero, the place has the sign of the number
  all_goals try have := a_stands.1.stepsUp_pos
  all_goals try have := b_stands.1.stepsUp_pos
  all_goals try have := a_stands.1.mul_pos
  all_goals try have := b_stands.1.mul_pos
  all_goals first
    | exact a_stands.1.mul_lt_mul b_stands.1 (by omega)
    | exact neg_lt_neg (b_stands.1.mul_lt_mul a_stands.1 (by omega))
    | linarith

/-- Finite numbers that stand at the same place are the same. -/
theorem unpackedValue_eq (a_stands : StandsAt p a) (b_stands : StandsAt p b)
    (a_finite : a.isFinite = true) (b_finite : b.isFinite = true) :
    unpackedValue a = unpackedValue b := by
  rcases a with _ | _ | _ | ⟨_ | _, m, d, _⟩ <;> rcases b with _ | _ | _ | ⟨_ | _, n, e, _⟩
  all_goals try cases a_finite
  all_goals try cases b_finite
  all_goals dsimp only [StandsAt, Sign.apply] at a_stands b_stands
  all_goals try have := a_stands.1.stepsUp_pos
  all_goals try have := b_stands.1.stepsUp_pos
  all_goals first
    | obtain ⟨rfl, rfl⟩ := a_stands.1.eq_of_stepsUp_eq b_stands.1 (by omega)
      rfl
    | rfl
    | omega

theorem standsAt_height (finite : x.isFinite = true) : StandsAt (height x) x.toModel.unpack := by
  rw [height_of_number (not_isNaN_of_isFinite finite)]
  exact standsAt_unpack _

/-- The order of finite floats is the one of their values. -/
theorem height_lt_iff (x_finite : x.isFinite = true) (y_finite : y.isFinite = true) :
    height x < height y ↔ value x < value y := by
  have x_stands := standsAt_height x_finite
  have y_stands := standsAt_height y_finite
  constructor
  · exact unpackedValue_lt x_stands y_stands x_finite y_finite
  · intro less
    by_contra above
    rcases (not_lt.mp above).lt_or_eq with greater | same
    · exact less.not_gt (unpackedValue_lt y_stands x_stands y_finite x_finite greater)
    · rw [← same] at x_stands
      exact less.ne (unpackedValue_eq x_stands y_stands x_finite y_finite)

theorem height_le_iff (x_finite : x.isFinite = true) (y_finite : y.isFinite = true) :
    height x ≤ height y ↔ value x ≤ value y := by
  rw [← not_lt, height_lt_iff y_finite x_finite, not_lt]

theorem lt_iff_value_lt (x_finite : x.isFinite = true) (y_finite : y.isFinite = true) :
    x < y ↔ value x < value y := by
  rw [lt_iff, not_isNaN_of_isFinite x_finite, not_isNaN_of_isFinite y_finite,
    height_lt_iff x_finite y_finite]
  simp only [true_and]

theorem le_iff_value_le (x_finite : x.isFinite = true) (y_finite : y.isFinite = true) :
    x ≤ y ↔ value x ≤ value y := by
  rw [le_iff, not_isNaN_of_isFinite x_finite, not_isNaN_of_isFinite y_finite,
    height_le_iff x_finite y_finite]
  simp only [true_and]

/-- Other than zero, a number is the value of one float only. -/
theorem eq_of_value_eq (x_finite : x.isFinite = true) (y_finite : y.isFinite = true)
    (same : value x = value y) (value_ne : value y ≠ 0) : x = y := by
  have heights : height x = height y := by
    apply le_antisymm
    · exact (height_le_iff x_finite y_finite).mpr same.le
    · exact (height_le_iff y_finite x_finite).mpr same.ge
  have zero_finite : (0 : Float).isFinite = true := by decide
  have height_ne : height y ≠ 0 := by
    intro none
    apply value_ne
    have zeros : height y = height 0 := none.trans height_zero.symm
    apply le_antisymm
    · exact value_zero ▸ (height_le_iff y_finite zero_finite).mp zeros.le
    · exact value_zero ▸ (height_le_iff zero_finite y_finite).mp zeros.ge
  rw [height_of_number (not_isNaN_of_isFinite x_finite),
    height_of_number (not_isNaN_of_isFinite y_finite)] at heights
  rw [height_of_number (not_isNaN_of_isFinite y_finite)] at height_ne
  apply float_ext
  apply UInt64.toNat_inj.mp
  dsimp only [placeOfBits, signBit] at heights height_ne
  omega

end EvoSearch.Numeric
