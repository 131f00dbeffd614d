/-
# Computed numbers

Sums, differences, products and quotients of finite floats are the exact ones, rounded. So are
floats of natural numbers. Only a result that is out of reach becomes an infinity, and what is
rounded is never out of reach if it is not above a number that a float can hold.

The operations take zeros apart from other numbers, and the signs of zeros from those of numbers.
Both are of no account for the value of a result.
-/

import EvoSearch.Proofs.Rounding

namespace EvoSearch.Numeric

open Float.Model Float.Model.UnpackedFloat

variable {mantissa other : Nat} {exponent : Int} {sign : Sign} {a b result : UnpackedFloat}
  {number bound : ℚ} {x y : Float}

/-! ## On unpacked floats -/

theorem shiftLeft_mul_zpow (mantissa shift : Nat) (exponent : Int) :
    ((mantissa <<< shift : Nat) * 2 ^ (exponent - shift) : ℚ) = mantissa * 2 ^ exponent := by
  rw [Nat.shiftLeft_eq, zpow_sub₀ two_ne_zero, zpow_natCast]
  push_cast
  field_simp

theorem isRounding_round (sign : Sign) (exponent : Int) (positive : 0 < mantissa) :
    IsRounding (signed sign (mantissa * 2 ^ exponent))
      (UnpackedFloat.round .binary64 sign mantissa exponent) := by
  obtain ⟨shift, shift_eq⟩ : ∃ shift : Nat,
      shift = (exponent - max ((mantissa.log2 : Int) + 1 + exponent - 53) (-1074)).toNat :=
    ⟨_, rfl⟩
  have moved : UnpackedFloat.round .binary64 sign mantissa exponent =
      roundWithAccuracy .binary64 sign (mantissa <<< shift) (exponent - shift) .exact := by
    rw [UnpackedFloat.round, targetExponent_eq, totalExponent, decreaseExponent, ← shift_eq]
  have moved_ne : mantissa <<< shift ≠ 0 := mt Nat.shiftLeft_eq_zero_iff.mp (by omega)
  have enough : 0x10000000000000 ≤ mantissa <<< shift ∨ exponent - shift ≤ -1074 := by
    by_cases bottom : exponent - shift ≤ -1074
    · exact .inr bottom
    · refine .inl ((Nat.le_log2 (k := 52) moved_ne).mp ?_)
      rw [log2_shiftLeft positive]
      omega
  rw [moved, ← shiftLeft_mul_zpow mantissa shift]
  exact isRounding_roundWithAccuracy sign rfl enough

theorem isRounding_normalize (whole exponent : Int) (zeroSign : Sign) :
    IsRounding (whole * 2 ^ exponent)
      (UnpackedFloat.normalize .binary64 whole exponent zeroSign) := by
  unfold UnpackedFloat.normalize
  rcases Int.lt_trichotomy whole 0 with below | rfl | above
  · rw [Int.compare_eq_lt.mpr below]
    have cast : ((-whole).toNat : ℚ) = -whole := by exact_mod_cast (by omega : _ = -whole)
    have rounding := isRounding_round .negative exponent (by omega : 0 < (-whole).toNat)
    rwa [cast, signed, neg_mul, neg_neg] at rounding
  · rw [Int.compare_eq_eq.mpr rfl, Int.cast_zero, zero_mul]
    exact rounds_self (isRounded_zero zeroSign)
  · rw [Int.compare_eq_gt.mpr above]
    have cast : (whole.toNat : ℚ) = whole := by exact_mod_cast (by omega : _ = whole)
    have rounding := isRounding_round .positive exponent (by omega : 0 < whole.toNat)
    rwa [cast, signed] at rounding

/-- To bring two numbers to the same exponent does not change them. -/
theorem apply_decreaseExponent (sign : Sign) (mantissa : Nat) {exponent target : Int}
    (le : target ≤ exponent) :
    (sign.apply (decreaseExponent mantissa exponent target).1 : ℚ) * 2 ^ target =
      signed sign (mantissa * 2 ^ exponent) := by
  obtain ⟨shift, shift_eq⟩ : ∃ shift, shift = (exponent - target).toNat := ⟨_, rfl⟩
  have place : exponent - shift = target := by omega
  have moved := shiftLeft_mul_zpow mantissa shift exponent
  rw [place] at moved
  rw [← moved, decreaseExponent, ← shift_eq]
  cases sign
  · rw [Sign.apply, signed, Int.cast_neg, Int.cast_natCast, neg_mul]
  · rfl

theorem isRounding_add (a_rounded : IsRounded a) (b_rounded : IsRounded b) :
    IsRounding (unpackedValue a + unpackedValue b) (UnpackedFloat.add .binary64 a b) := by
  rcases a with _ | _ | s | ⟨s, m, d, m_pos⟩ <;> try exact False.elim a_rounded
  all_goals rcases b with _ | _ | t | ⟨t, n, e, n_pos⟩ <;> try exact False.elim b_rounded
  · rw [unpackedValue_zero, unpackedValue_zero, add_zero]
    cases s <;> cases t <;> exact rounds_self (isRounded_zero _)
  · rw [unpackedValue_zero, zero_add]
    exact rounds_self b_rounded
  · rw [unpackedValue_zero, add_zero]
    exact rounds_self a_rounded
  · rw [unpackedValue_finite, unpackedValue_finite,
      ← apply_decreaseExponent s m (min_le_left d e), ← apply_decreaseExponent t n
      (min_le_right d e), ← add_mul, ← Int.cast_add]
    exact isRounding_normalize _ _ .positive

theorem isRounded_neg (b_rounded : IsRounded b) : IsRounded b.neg := by
  rcases b with _ | _ | t | ⟨t, n, e, n_pos⟩ <;> exact b_rounded

theorem unpackedValue_neg (b : UnpackedFloat) : unpackedValue b.neg = -unpackedValue b := by
  rcases b with _ | _ | t | ⟨_ | _, n, e, n_pos⟩
  · exact neg_zero.symm
  · exact neg_zero.symm
  · exact neg_zero.symm
  · exact (neg_neg _).symm
  · rfl

/-- To subtract is to add with the other sign. -/
theorem sub_eq_add_neg_unpacked (a b : UnpackedFloat) :
    UnpackedFloat.sub .binary64 a b = UnpackedFloat.add .binary64 a b.neg := by
  rcases a with s | _ | s | ⟨s, m, d, m_pos⟩ <;> rcases b with t | _ | t | ⟨t, n, e, n_pos⟩
  all_goals try rfl
  have apply_neg (whole : Int) : Sign.apply (-t) whole = -Sign.apply t whole := by
    cases t
    · exact (Int.neg_neg whole).symm
    · rfl
  dsimp only [UnpackedFloat.sub, UnpackedFloat.add, UnpackedFloat.neg]
  rw [apply_neg, Int.sub_eq_add_neg]

theorem isRounding_sub (a_rounded : IsRounded a) (b_rounded : IsRounded b) :
    IsRounding (unpackedValue a - unpackedValue b) (UnpackedFloat.sub .binary64 a b) := by
  rw [sub_eq_add_neg, ← unpackedValue_neg, sub_eq_add_neg_unpacked]
  exact isRounding_add a_rounded (isRounded_neg b_rounded)

theorem signed_mul (s t : Sign) (p q : ℚ) : signed (s * t) (p * q) = signed s p * signed t q := by
  cases s <;> cases t
  · exact (neg_mul_neg p q).symm
  · exact (neg_mul p q).symm
  · exact (mul_neg p q).symm
  · rfl

theorem isRounding_mul (a_rounded : IsRounded a) (b_rounded : IsRounded b) :
    IsRounding (unpackedValue a * unpackedValue b) (UnpackedFloat.mul .binary64 a b) := by
  rcases a with _ | _ | s | ⟨s, m, d, m_pos⟩ <;> try exact False.elim a_rounded
  all_goals rcases b with _ | _ | t | ⟨t, n, e, n_pos⟩ <;> try exact False.elim b_rounded
  · rw [unpackedValue_zero, zero_mul]
    exact rounds_self (isRounded_zero _)
  · rw [unpackedValue_zero, zero_mul]
    exact rounds_self (isRounded_zero _)
  · rw [unpackedValue_zero, mul_zero]
    exact rounds_self (isRounded_zero _)
  · obtain ⟨_, _, m_full⟩ := a_rounded
    obtain ⟨_, _, n_full⟩ := b_rounded
    have enough : 0x10000000000000 ≤ m * n ∨ d + e ≤ -1074 := by
      rcases m_full with full | rfl
      · exact .inl (full.trans (Nat.le_mul_of_pos_right m n_pos))
      · rcases n_full with full | rfl
        · exact .inl (full.trans (Nat.le_mul_of_pos_left n m_pos))
        · exact .inr (by decide)
    have product : ((m * 2 ^ d) * (n * 2 ^ e) : ℚ) = (m * n : Nat) * 2 ^ (d + e) := by
      rw [zpow_add₀ two_ne_zero]
      push_cast
      ring
    rw [unpackedValue_finite, unpackedValue_finite, ← signed_mul, product]
    exact isRounding_roundWithAccuracy (s * t) rfl enough

theorem signed_div (s t : Sign) (p q : ℚ) : signed (s / t) (p / q) = signed s p / signed t q := by
  cases s <;> cases t
  · exact (neg_div_neg_eq p q).symm
  · exact (neg_div q p).symm
  · exact (div_neg p).symm
  · rfl

/-- The remainder of a division tells how the quotient compares with the middle. -/
theorem locates_div (dividend : Nat) {divisor : Nat} (positive : 0 < divisor) :
    Locates (.ofMantissaAndAccuracy (dividend / divisor)
      (accuracyOfFraction (dividend % divisor) divisor)) (dividend / divisor) := by
  have divisor_pos : (0 : ℚ) < divisor := by exact_mod_cast positive
  obtain ⟨rest, rest_eq⟩ : ∃ rest, rest = dividend % divisor := ⟨_, rfl⟩
  have rest_lt : (rest : ℚ) < divisor := by
    exact_mod_cast rest_eq ▸ Nat.mod_lt dividend positive
  have quotient : (dividend / divisor : ℚ) = (dividend / divisor : Nat) + rest / divisor := by
    rw [eq_comm, eq_div_iff divisor_pos.ne', add_mul, div_mul_cancel₀ _ divisor_pos.ne', rest_eq]
    exact_mod_cast Nat.div_add_mod' dividend divisor
  rw [quotient, ← rest_eq, accuracyOfFraction]
  split
  next none =>
    rw [none]
    simp [ExtendedMantissa.ofMantissaAndAccuracy, Locates]
  next some =>
    have rest_pos : (0 : ℚ) < rest / divisor := by
      have : (0 : ℚ) < rest := by exact_mod_cast Nat.pos_of_ne_zero some
      positivity
    have rest_below : (rest / divisor : ℚ) < 1 := (div_lt_one divisor_pos).mpr rest_lt
    rcases Nat.lt_trichotomy (2 * rest) divisor with below | same | above
    · rw [Nat.compare_eq_lt.mpr below]
      have half : (rest / divisor : ℚ) < 1 / 2 := by
        rw [div_lt_div_iff₀ divisor_pos two_pos]
        exact_mod_cast (by omega : rest * 2 < 1 * divisor)
      exact ⟨by linarith, by linarith⟩
    · rw [Nat.compare_eq_eq.mpr same]
      have half : (rest / divisor : ℚ) = 1 / 2 := by
        rw [div_eq_div_iff divisor_pos.ne' two_ne_zero]
        exact_mod_cast (by omega : rest * 2 = 1 * divisor)
      exact congrArg _ half
    · rw [Nat.compare_eq_gt.mpr above]
      have half : (1 / 2 : ℚ) < rest / divisor := by
        rw [div_lt_div_iff₀ two_pos divisor_pos]
        exact_mod_cast (by omega : 1 * divisor < rest * 2)
      exact ⟨by linarith, by linarith⟩

/-- A quotient has bits enough. -/
theorem le_shiftLeft_div {m n : Nat} (m_pos : 0 < m) (n_pos : 0 < n) {shift : Nat}
    (many : n.log2 + 53 ≤ m.log2 + shift) : 0x10000000000000 ≤ (m <<< shift) / n := by
  rw [Nat.le_div_iff_mul_le n_pos]
  have n_le : n ≤ 2 ^ (n.log2 + 1) := Nat.lt_log2_self.le
  have moved_ne : m <<< shift ≠ 0 := mt Nat.shiftLeft_eq_zero_iff.mp (by omega)
  calc 0x10000000000000 * n ≤ 2 ^ 52 * 2 ^ (n.log2 + 1) := Nat.mul_le_mul_left _ n_le
    _ = 2 ^ (n.log2 + 53) := by rw [← Nat.pow_add]; congr 1; omega
    _ ≤ m <<< shift := by
      apply (Nat.le_log2 moved_ne).mp
      rwa [log2_shiftLeft m_pos]

theorem isRounding_div (a_rounded : IsRounded a) (b_rounded : IsRounded b)
    (divisor_ne : unpackedValue b ≠ 0) :
    IsRounding (unpackedValue a / unpackedValue b) (UnpackedFloat.div .binary64 a b) := by
  rcases b with _ | _ | t | ⟨t, n, e, n_pos⟩ <;> try exact absurd rfl divisor_ne
  rcases a with _ | _ | s | ⟨s, m, d, m_pos⟩ <;> try exact False.elim a_rounded
  · rw [unpackedValue_zero, zero_div]
    exact rounds_self (isRounded_zero _)
  · obtain ⟨target, target_eq⟩ : ∃ target : Int, target = min (d - e)
        (max ((m.log2 + 1 + d - (n.log2 + 1 + e) : Int) - 53) (-1074)) := ⟨_, rfl⟩
    obtain ⟨shift, shift_eq⟩ : ∃ shift : Nat, shift = (d - e - target).toNat := ⟨_, rfl⟩
    have moved : UnpackedFloat.div .binary64 (.finite s m d m_pos) (.finite t n e n_pos) =
        roundWithAccuracy .binary64 (s / t) (m <<< shift / n) target
          (accuracyOfFraction (m <<< shift % n) n) := by
      delta UnpackedFloat.div
      dsimp only
      rw [divCore, targetExponent_eq, totalExponent, totalExponent, ← target_eq, ← shift_eq]
    have enough : 0x10000000000000 ≤ m <<< shift / n ∨ target ≤ -1074 := by
      by_cases bottom : target ≤ -1074
      · exact .inr bottom
      · exact .inl (le_shiftLeft_div m_pos n_pos (by omega))
    have n_ne : (n : ℚ) ≠ 0 := by exact_mod_cast n_pos.ne'
    have quotient : (m * 2 ^ d / (n * 2 ^ e) : ℚ) = (m <<< shift : Nat) / n * 2 ^ target := by
      have place : target = d - shift - e := by omega
      rw [← shiftLeft_mul_zpow m shift d, place, zpow_sub₀ two_ne_zero (d - shift) e]
      field_simp
    rw [unpackedValue_finite, unpackedValue_finite, ← signed_div, quotient, moved]
    exact isRounding_roundWithAccuracy (s / t) (locates_div _ n_pos) enough

/-! ## On floats -/

/-- A number without all bits of a mantissa is packed in another way than the others, and unpacked
as it was. -/
theorem unpack_pack_of_lt (sign : Sign) (positive : 0 < mantissa)
    (lt : mantissa < 0x10000000000000) :
    (Float.Model.pack (.finite sign mantissa (-1074) positive)).unpack =
      .finite sign mantissa (-1074) positive := by
  have few : mantissa.log2 < 52 := (Nat.log2_lt (Nat.ne_of_gt positive)).mpr lt
  have restored : (BitVec.ofNat 52 mantissa).toNat = mantissa := by
    rw [BitVec.toNat_ofNat]
    exact Nat.mod_eq_of_lt lt
  have some : BitVec.ofNat 52 mantissa ≠ 0#_ := by
    rw [Ne, ← BitVec.toNat_inj, restored]
    exact Nat.ne_of_gt positive
  have packed : UnpackedFloat.pack .binary64 (.finite sign mantissa (-1074) positive) =
      packComponents .binary64 sign 0#_ (BitVec.ofNat 52 mantissa) := by
    delta UnpackedFloat.pack
    dsimp only
    rw [if_neg (by decide), if_neg (by change _ ≠ 53; omega)]
  change UnpackedFloat.unpack .binary64 (UnpackedFloat.pack .binary64 _) = _
  rw [packed]
  delta UnpackedFloat.unpack
  dsimp only
  rw [unpackExponent_packComponents, if_neg (by decide), if_pos rfl, dif_neg (by
    rwa [unpackMantissa_packComponents]), unpackSign_packComponents, ofBitVec_toBitVec]
  apply finite_congr
  · rw [unpackMantissa_packComponents, restored]
  · rfl

/-- Above the greatest exponent everything is packed as an infinity. -/
theorem pack_eq_pack_infinity {positive : 0 < mantissa} (above : 971 < exponent) :
    Float.Model.pack (.finite sign mantissa exponent positive) =
      Float.Model.pack (.infinity sign) := by
  have bias : (Format.binary64.exponentBias : Int) = 1023 := rfl
  have packed : UnpackedFloat.pack .binary64 (.finite sign mantissa exponent positive) =
      UnpackedFloat.pack .binary64 (.infinity sign) := by
    delta UnpackedFloat.pack
    dsimp only
    rw [if_pos (by change 0x800 ≤ _ + 1; omega)]
  exact (Float.Model.mk.injEq ..).mpr (congrArg UInt64.ofBitVec packed)

/-- What has been rounded is packed as it is, or is too large. -/
theorem unpack_pack_or (isRounded : IsRounded result) :
    result.isFinite = true ∧ (Float.Model.pack result).unpack = result ∨
      ∃ sign mantissa exponent positive, result = .finite sign mantissa exponent positive ∧
        0x10000000000000 ≤ mantissa ∧ 971 < exponent := by
  rcases result with _ | _ | sign | ⟨sign, mantissa, exponent, positive⟩
  · exact False.elim isRounded
  · exact False.elim isRounded
  · cases sign <;> exact .inl ⟨rfl, rfl⟩
  · obtain ⟨lt, least_le, full⟩ := isRounded
    by_cases above : 971 < exponent
    · exact .inr ⟨sign, mantissa, exponent, positive, rfl, full.resolve_right (by omega), above⟩
    · refine .inl ⟨rfl, ?_⟩
      by_cases large : 0x10000000000000 ≤ mantissa
      · exact unpack_pack ⟨large, lt⟩ least_le (by omega)
      · obtain rfl := full.resolve_left large
        exact unpack_pack_of_lt sign positive (by omega)

/-- A float is what a number becomes when it is computed. -/
def Computes (number : ℚ) (x : Float) : Prop :=
  ∃ result, IsRounding number result ∧ x.toModel = Float.Model.pack result

/-- The last place of the largest floats. -/
def greatestPlace : ℚ := 2 ^ (971 : Int)

theorem le_greatestPlace : 0x10000000000000000 ≤ greatestPlace := by
  have powers : (2 ^ (64 : Int) : ℚ) ≤ greatestPlace := zpow_le_zpow_right₀ one_le_two (by decide)
  norm_num at powers
  exact powers

namespace Computes

/-- A result is rounded, if it is finite. -/
theorem rounds (computes : Computes number x) (finite : x.isFinite = true) :
    ∃ exponent, Rounds exponent number (value x) := by
  obtain ⟨result, rounding, x_eq⟩ := computes
  rcases unpack_pack_or rounding.isRounded with ⟨_, packed⟩ | far
  · rw [value, x_eq, packed]
    exact rounding.rounds
  · obtain ⟨sign, mantissa, exponent, positive, rfl, _, above⟩ := far
    change x.toModel.unpack.isFinite = true at finite
    rw [x_eq, pack_eq_pack_infinity above] at finite
    cases sign <;> exact absurd finite (by decide)

theorem value_le (computes : Computes number x) (finite : x.isFinite = true)
    (dyadic : IsDyadic bound) (le : number ≤ bound) : value x ≤ bound := by
  obtain ⟨exponent, rounds⟩ := computes.rounds finite
  exact rounds.rounded_le dyadic le

theorem le_value (computes : Computes number x) (finite : x.isFinite = true)
    (dyadic : IsDyadic bound) (le : bound ≤ number) : bound ≤ value x := by
  obtain ⟨exponent, rounds⟩ := computes.rounds finite
  exact rounds.le_rounded dyadic le

/-- A result that a float can hold is exact. -/
theorem value_eq (computes : Computes number x) (finite : x.isFinite = true)
    (dyadic : IsDyadic number) : value x = number := by
  obtain ⟨exponent, rounds⟩ := computes.rounds finite
  exact rounds.eq_of_isDyadic dyadic

/-- What is in reach has a finite result. -/
theorem isFinite (computes : Computes number x)
    (near : |number| ≤ 0x10000000000000 * greatestPlace) : x.isFinite = true := by
  obtain ⟨result, rounding, x_eq⟩ := computes
  change x.toModel.unpack.isFinite = true
  rw [x_eq]
  rcases unpack_pack_or rounding.isRounded with ⟨finite, packed⟩ | far
  · rw [packed]
    exact finite
  · obtain ⟨sign, mantissa, exponent, positive, rfl, large, above⟩ := far
    obtain ⟨place, rounds⟩ := rounding.rounds
    have dyadic : IsDyadic (0x10000000000000 * greatestPlace) :=
      ⟨0x10000000000000, 971, by decide, by decide, rfl⟩
    obtain ⟨above_number, number_above⟩ := abs_le.mp near
    have at_most := rounds.rounded_le dyadic number_above
    have at_least := rounds.le_rounded dyadic.neg above_number
    have place_pos : 0 < greatestPlace := zpow_pos two_pos _
    have size : 0x10000000000000 * greatestPlace < (mantissa * 2 ^ exponent : ℚ) := by
      have large' : (0x10000000000000 : ℚ) ≤ mantissa := by exact_mod_cast large
      have powers : greatestPlace < 2 ^ exponent := zpow_lt_zpow_right₀ one_lt_two above
      exact mul_lt_mul' large' powers place_pos.le (by linarith)
    rw [unpackedValue_finite] at at_most at_least
    cases sign <;> dsimp only [signed] at at_most at_least <;> linarith

/-- A positive number that is out of reach becomes the positive infinity. -/
theorem eq_infinity (computes : Computes number x) (positive : 0 ≤ number)
    (infinite : x.isFinite = false) : x = infinity := by
  obtain ⟨result, rounding, x_eq⟩ := computes
  rcases unpack_pack_or rounding.isRounded with ⟨finite, packed⟩ | far
  · change x.toModel.unpack.isFinite = false at infinite
    rw [x_eq, packed, finite] at infinite
    cases infinite
  · obtain ⟨sign, mantissa, exponent, mantissa_pos, rfl, _, above⟩ := far
    obtain ⟨place, rounds⟩ := rounding.rounds
    have at_least := rounds.le_rounded isDyadic_zero positive
    have size : (0 : ℚ) < mantissa * 2 ^ exponent := by
      have : (0 : ℚ) < mantissa := by exact_mod_cast mantissa_pos
      positivity
    rw [pack_eq_pack_infinity above] at x_eq
    rw [unpackedValue_finite] at at_least
    cases sign
    · dsimp only [signed] at at_least
      linarith
    · apply float_ext
      change x.toModel.toBits = _
      rw [x_eq]
      rfl

end Computes

theorem isRounded_of_standsAt {position : Int} (stands : StandsAt position a)
    (finite : a.isFinite = true) : IsRounded a := by
  rcases a with _ | _ | sign | ⟨sign, mantissa, exponent, positive⟩
  · cases finite
  · cases finite
  · exact isRounded_zero sign
  · exact ⟨stands.1.mantissa_lt, stands.1.least_le, stands.1.full⟩

theorem isRounded_unpack (finite : x.isFinite = true) : IsRounded x.toModel.unpack :=
  isRounded_of_standsAt (standsAt_height finite) finite

/-- What floats hold is dyadic. -/
theorem IsRounded.isDyadic (rounded : IsRounded a) : IsDyadic (unpackedValue a) := by
  rcases a with _ | _ | _ | ⟨sign, mantissa, exponent, positive⟩
  · exact False.elim rounded
  · exact False.elim rounded
  · exact isDyadic_zero
  · obtain ⟨lt, least_le, _⟩ := rounded
    have few : |(mantissa : Int)| ≤ 0x20000000000000 := by
      rw [abs_of_nonneg (Int.natCast_nonneg mantissa)]
      omega
    have dyadic : IsDyadic (mantissa * 2 ^ exponent) :=
      ⟨mantissa, exponent, few, least_le, by push_cast; rfl⟩
    cases sign
    · exact dyadic.neg
    · exact dyadic

theorem isDyadic_value (finite : x.isFinite = true) : IsDyadic (value x) :=
  (isRounded_unpack finite).isDyadic

section Operations

variable (x_finite : x.isFinite = true) (y_finite : y.isFinite = true)
include x_finite y_finite

theorem computes_add : Computes (value x + value y) (x + y) :=
  ⟨_, isRounding_add (isRounded_unpack x_finite) (isRounded_unpack y_finite), rfl⟩

theorem computes_sub : Computes (value x - value y) (x - y) :=
  ⟨_, isRounding_sub (isRounded_unpack x_finite) (isRounded_unpack y_finite), rfl⟩

theorem computes_mul : Computes (value x * value y) (x * y) :=
  ⟨_, isRounding_mul (isRounded_unpack x_finite) (isRounded_unpack y_finite), rfl⟩

theorem computes_div (value_ne : value y ≠ 0) : Computes (value x / value y) (x / y) :=
  ⟨_, isRounding_div (isRounded_unpack x_finite) (isRounded_unpack y_finite) value_ne, rfl⟩

end Operations

theorem isRounding_abs (a_rounded : IsRounded a) : IsRounding |unpackedValue a| a.abs := by
  have abs_rounded : IsRounded a.abs := by
    rcases a with _ | _ | t | ⟨t, n, e, n_pos⟩ <;> exact a_rounded
  have value_abs : unpackedValue a.abs = |unpackedValue a| := by
    rcases a with _ | _ | t | ⟨_ | _, n, e, n_pos⟩
    · exact abs_zero.symm
    · exact abs_zero.symm
    · exact abs_zero.symm
    · rw [unpackedValue_finite, signed, abs_neg, abs_of_nonneg (by positivity)]
      rfl
    · rw [unpackedValue_finite, signed, abs_of_nonneg (by positivity)]
      rfl
  exact value_abs ▸ rounds_self abs_rounded

theorem computes_abs (finite : x.isFinite = true) : Computes |value x| x.abs :=
  ⟨_, isRounding_abs (isRounded_unpack finite), rfl⟩

/-- A float differs from itself by the zero without a sign. -/
theorem sub_self_of_isFinite (finite : x.isFinite = true) : x - x = 0 := by
  have none {a : UnpackedFloat} (a_rounded : IsRounded a) :
      UnpackedFloat.sub .binary64 a a = .zero .positive := by
    rcases a with _ | _ | s | ⟨s, m, d, m_pos⟩
    · exact False.elim a_rounded
    · exact False.elim a_rounded
    · cases s <;> rfl
    · dsimp only [UnpackedFloat.sub]
      rw [Int.sub_self]
      rfl
  apply float_ext
  change (Float.Model.pack (UnpackedFloat.sub .binary64 _ _)).toBits = _
  rw [none (isRounded_unpack finite)]
  rfl

theorem zero_div_of_pos (finite : y.isFinite = true) (positive : 0 < value y) : 0 / y = 0 := by
  have none {a : UnpackedFloat} (a_rounded : IsRounded a) (positive : 0 < unpackedValue a) :
      UnpackedFloat.div .binary64 (.zero .positive) a = .zero .positive := by
    rcases a with _ | _ | s | ⟨_ | _, m, d, m_pos⟩
    · exact False.elim a_rounded
    · exact False.elim a_rounded
    · exact absurd positive (lt_irrefl 0)
    · have size : (0 : ℚ) ≤ m * 2 ^ d := by positivity
      exact absurd positive (not_lt.mpr (neg_nonpos.mpr size))
    · rfl
  apply float_ext
  change (Float.Model.pack (UnpackedFloat.div .binary64 (.zero .positive) _)).toBits = _
  rw [none (isRounded_unpack finite) positive]
  rfl

theorem div_infinity (finite : x.isFinite = true) :
    (x / infinity).isFinite = true ∧ value (x / infinity) = 0 := by
  have none {a : UnpackedFloat} (a_finite : a.isFinite = true) : ∃ sign,
      UnpackedFloat.div .binary64 a (.infinity .positive) = .zero sign := by
    rcases a with _ | _ | s | ⟨s, m, d, m_pos⟩
    · cases a_finite
    · cases a_finite
    · exact ⟨s / .positive, rfl⟩
    · exact ⟨s / .positive, rfl⟩
  obtain ⟨sign, zero⟩ := none finite
  have computed : (x / infinity).toModel = Float.Model.pack (.zero sign) :=
    congrArg Float.Model.pack zero
  change (x / infinity).toModel.unpack.isFinite = true ∧
    unpackedValue (x / infinity).toModel.unpack = 0
  rw [computed]
  cases sign <;> exact ⟨rfl, rfl⟩

/-! ## Of natural numbers -/

theorem computes_toFloat (word : UInt64) : Computes word.toNat word.toFloat := by
  have rounding := isRounding_normalize word.toNat 0 .positive
  rw [zpow_zero, mul_one, Int.cast_natCast] at rounding
  exact ⟨_, rounding, rfl⟩

/-- The numbers that words can count to are in reach. -/
theorem abs_natCast_le_greatest {n : Nat} (lt : n < 0x10000000000000000) :
    |(n : ℚ)| ≤ 0x10000000000000 * greatestPlace := by
  have lt' : (n : ℚ) < 0x10000000000000000 := by exact_mod_cast lt
  have large := le_greatestPlace
  rw [abs_of_nonneg (Nat.cast_nonneg n)]
  linarith

theorem isFinite_toFloat (word : UInt64) : word.toFloat.isFinite = true :=
  (computes_toFloat word).isFinite (abs_natCast_le_greatest word.toNat_lt)

/-- A word of at most as many bits as a mantissa has is held as it is. -/
theorem value_toFloat {word : UInt64} (few : word.toNat ≤ 0x20000000000000) :
    value word.toFloat = word.toNat :=
  (computes_toFloat word).value_eq (isFinite_toFloat word) (isDyadic_natCast few)

theorem value_one_bits : value (Float.ofBits 0x3ff0000000000000) = 1 := by
  change signed .positive ((0x10000000000000 : Nat) * 2 ^ (-52 : Int)) = 1
  norm_num [signed]

theorem computes_ofNat (n : Nat) : Computes n (Float.ofNat n) := by
  by_cases lt : n < 0x20000000000000
  · have word : n.toUInt64.toNat = n := UInt64.toNat_ofNat_of_lt (Nat.lt_trans lt (by decide))
    have one_finite : (Float.ofBits 0x3ff0000000000000).isFinite = true := by decide
    have n_value : value n.toUInt64.toFloat = n := by
      rw [value_toFloat (by omega), word]
    have product := computes_mul (isFinite_toFloat n.toUInt64) one_finite
    rwa [value_one_bits, n_value, mul_one, ← ofNat_eq_mul lt] at product
  · -- the bits of larger numbers are moved up first
    have n_ne : n ≠ 0 := by omega
    have scaled : (Float.ofNat n).toModel = Float.Model.pack
        (roundWithAccuracy .binary64 .positive (n <<< 53) (0 - (53 : Nat)) .exact) := by
      have unscaled : Float.ofNat n = Float.ofModel (Float.Model.ofScientific n 0) := by
        change Float.ofScientific n false 0 = _
        rw [Float.ofScientific, dif_neg (mt And.left lt)]
        rfl
      have moved : UnpackedFloat.ofScientific .binary64 n 0 =
          roundWithAccuracy .binary64 .positive (n <<< 53 * 1) (0 - (53 : Nat)) .exact := by
        have not_tiny : ¬ (0 : Int) < -((2 ^ Format.binary64.exponentBits : Int) + n.log2) := by
          change ¬ (0 : Int) < -(0x800 + n.log2)
          omega
        rw [UnpackedFloat.ofScientific, dif_neg n_ne, if_neg (by decide), if_neg not_tiny,
          if_pos le_rfl]
        rfl
      rw [unscaled, ← Nat.mul_one (n <<< 53), ← moved]
      rfl
    have located : Locates (.ofMantissaAndAccuracy (n <<< 53) .exact) (n <<< 53 : Nat) := rfl
    have enough : 0x10000000000000 ≤ n <<< 53 := by
      rw [Nat.shiftLeft_eq]
      omega
    have enough_bits : 0x10000000000000 ≤ n <<< 53 ∨ (0 - (53 : Nat) : Int) ≤ -1074 := .inl enough
    have rounding := isRounding_roundWithAccuracy .positive located enough_bits
    rw [shiftLeft_mul_zpow, zpow_zero, mul_one] at rounding
    exact ⟨_, rounding, scaled⟩

theorem value_half : value 0.5 = 1 / 2 := by
  have same : (0.5 : Float) = Float.ofBits 0x3fe0000000000000 := by
    apply float_ext
    decide
  rw [same]
  change signed .positive ((0x10000000000000 : Nat) * 2 ^ (-53 : Int)) = 1 / 2
  norm_num [signed]

theorem computes_zero : Computes 0 0 :=
  ⟨.zero .positive, rounds_self (isRounded_zero .positive), rfl⟩

/-- Numbers of at most as many bits as a mantissa has are held as they are. -/
theorem value_ofNat {n : Nat} (few : n ≤ 0x20000000000000) : value (Float.ofNat n) = n := by
  have computes := computes_ofNat n
  exact computes.value_eq (computes.isFinite (abs_natCast_le_greatest (by omega)))
    (isDyadic_natCast few)

theorem value_one : value 1 = 1 := by
  have one := value_ofNat (by decide : 1 ≤ 0x20000000000000)
  rwa [Nat.cast_one] at one

theorem value_two : value 2 = 2 :=
  value_ofNat (by decide : 2 ≤ 0x20000000000000)

end EvoSearch.Numeric
