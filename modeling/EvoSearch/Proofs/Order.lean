/-
# The order of fitnesses

Floats are compared by what they decode to, while the order of the rows of a store goes by their
bits. Both are the same up to the two zeros, and `height` is the number that they have in common:
one for both zeros, and the lowest for NaN. A candidate beats another exactly if it stands higher,
so every fact about `beats` is one about integers.

The decoding of bits is the one of the standard library. Nothing here is about arithmetic on
floats, only about the place of each of them.
-/

import EvoSearch.Numeric

namespace EvoSearch.Numeric

open Float.Model Float.Model.UnpackedFloat

/-- The normal form of the mantissa and the exponent of a finite float other than zero: the
mantissa has all of its bits, unless the exponent is the least one. -/
structure IsNormal (mantissa : Nat) (exponent : Int) : Prop where
  positive : 0 < mantissa
  mantissa_lt : mantissa < 0x20000000000000
  least_le : -1074 ≤ exponent
  le_greatest : exponent ≤ 971
  full : 0x10000000000000 ≤ mantissa ∨ exponent = -1074

/-- How many floats lie between zero and one with the given mantissa and exponent, itself
included. -/
def stepsUp (mantissa : Nat) (exponent : Int) : Int :=
  (exponent + 1074) * 0x10000000000000 + mantissa

/-- How many floats lie between zero and infinity, infinity included. -/
def stepsToInfinity : Int := 0x7ff0000000000000

namespace IsNormal

variable {m n : Nat} {d e : Int}

theorem stepsUp_pos (normal : IsNormal m d) : 0 < stepsUp m d := by
  have positive := normal.positive
  have least_le := normal.least_le
  unfold stepsUp
  omega

theorem stepsUp_lt (normal : IsNormal m d) : stepsUp m d < stepsToInfinity := by
  have mantissa_lt := normal.mantissa_lt
  have le_greatest := normal.le_greatest
  unfold stepsUp stepsToInfinity
  omega

/-- In normal form the exponents decide, and the mantissas only where these are the same. -/
theorem compare_stepsUp (first : IsNormal m d) (second : IsNormal n e) :
    (compare d e).then (compare m n) = compare (stepsUp m d) (stepsUp n e) := by
  obtain ⟨_, m_lt, _, _, m_full⟩ := first
  obtain ⟨_, n_lt, _, _, n_full⟩ := second
  unfold stepsUp
  rcases Int.lt_trichotomy d e with below | rfl | above
  · rw [Int.compare_eq_lt.mpr below, Int.compare_eq_lt.mpr (by omega)]
    rfl
  · rw [Int.compare_eq_eq.mpr rfl, Ordering.eq_then]
    rcases Nat.lt_trichotomy m n with below | same | above
    · rw [Nat.compare_eq_lt.mpr below, Int.compare_eq_lt.mpr (by omega)]
    · rw [Nat.compare_eq_eq.mpr same, Int.compare_eq_eq.mpr (by omega)]
    · rw [Nat.compare_eq_gt.mpr above, Int.compare_eq_gt.mpr (by omega)]
  · rw [Int.compare_eq_gt.mpr above, Int.compare_eq_gt.mpr (by omega)]
    rfl

end IsNormal

/-- An unpacked float stands at a position, counted in floats from zero on, and is in normal form
if it is finite. NaN stands anywhere. -/
def StandsAt (position : Int) : UnpackedFloat → Prop
  | .notANumber => True
  | .infinity sign => sign.apply stepsToInfinity = position
  | .zero _ => position = 0
  | .finite sign mantissa exponent _ =>
    IsNormal mantissa exponent ∧ sign.apply (stepsUp mantissa exponent) = position

theorem compare_neg (a b : Int) : compare (-a) (-b) = (compare a b).swap := by
  rw [Int.compare_swap, Int.compare_eq_ite_lt, Int.compare_eq_ite_lt]
  simp only [Int.neg_lt_neg_iff]

/-- Numbers compare as their positions do. -/
theorem compare_of_standsAt {p q : Int} {a b : UnpackedFloat} (a_stands : StandsAt p a)
    (b_stands : StandsAt q b) (a_number : a.isNaN = false) (b_number : b.isNaN = false) :
    a.compare b = some (compare p q) := by
  have toInfinity : (0 : Int) < stepsToInfinity := by decide
  rcases a with ⟨_ | _⟩ | _ | _ | ⟨_ | _, m, d, _⟩ <;>
    rcases b with ⟨_ | _⟩ | _ | _ | ⟨_ | _, n, e, _⟩
  all_goals try cases a_number
  all_goals try cases b_number
  all_goals dsimp only [StandsAt, Sign.apply] at a_stands b_stands
  -- where a number is finite, it lies strictly between zero and infinity
  all_goals try have := a_stands.1.stepsUp_pos
  all_goals try have := a_stands.1.stepsUp_lt
  all_goals try have := b_stands.1.stepsUp_pos
  all_goals try have := b_stands.1.stepsUp_lt
  all_goals dsimp only [UnpackedFloat.compare]
  all_goals refine congrArg some ?_
  all_goals first
    | exact (Int.compare_eq_lt.mpr (by omega)).symm
    | exact (Int.compare_eq_gt.mpr (by omega)).symm
    | exact (Int.compare_eq_eq.mpr (by omega)).symm
    | rw [← a_stands.2, ← b_stands.2, a_stands.1.compare_stepsUp b_stands.1, compare_neg]
    | rw [← a_stands.2, ← b_stands.2, a_stands.1.compare_stepsUp b_stands.1]

/-- A number is infinite, or stands strictly between the two infinities. -/
theorem isFinite_or_of_standsAt {p : Int} {a : UnpackedFloat} (stands : StandsAt p a)
    (number : a.isNaN = false) :
    a.isFinite = true ∧ -stepsToInfinity < p ∧ p < stepsToInfinity ∨
      a.isFinite = false ∧ (p = -stepsToInfinity ∨ p = stepsToInfinity) := by
  have toInfinity : (0 : Int) < stepsToInfinity := by decide
  rcases a with ⟨_ | _⟩ | _ | _ | ⟨_ | _, m, d, _⟩
  all_goals try cases number
  all_goals dsimp only [StandsAt, Sign.apply] at stands
  all_goals try have := stands.1.stepsUp_pos
  all_goals try have := stands.1.stepsUp_lt
  all_goals dsimp only [UnpackedFloat.isFinite]
  all_goals simp only [true_and, Bool.true_eq_false, Bool.false_eq_true, false_and, or_false,
    false_or]
  all_goals omega

theorem isFinite_of_standsAt {p : Int} {a : UnpackedFloat} (stands : StandsAt p a)
    (number : a.isNaN = false) :
    a.isFinite = true ↔ -stepsToInfinity < p ∧ p < stepsToInfinity := by
  rcases isFinite_or_of_standsAt stands number with ⟨finite, between⟩ | ⟨infinite, outside⟩
  · exact iff_of_true finite between
  · refine iff_of_false (Bool.eq_false_iff.mp infinite) ?_
    omega

/-- No number stands above infinity. -/
theorem le_infinity_of_standsAt {p : Int} {a : UnpackedFloat} (stands : StandsAt p a)
    (number : a.isNaN = false) : p ≤ stepsToInfinity := by
  have toInfinity : (0 : Int) < stepsToInfinity := by decide
  rcases isFinite_or_of_standsAt stands number with ⟨_, between⟩ | ⟨_, outside⟩ <;> omega

section Bits

variable (bits : BitVec Format.binary64.numBits)

theorem toNat_unpackMantissa : (unpackMantissa bits).toNat = bits.toNat % 0x10000000000000 := by
  simp [unpackMantissa, BitVec.extractLsb_toNat]

theorem toNat_unpackExponent :
    (unpackExponent bits).toNat = bits.toNat / 0x10000000000000 % 0x800 := by
  simp [unpackExponent, BitVec.extractLsb_toNat, Nat.shiftRight_eq_div_pow]

theorem toNat_unpackSign : (unpackSign bits).toNat = bits.toNat / signBit := by
  have bound : bits.toNat < 0x10000000000000000 := bits.isLt
  change (bits.extractLsb 63 63).toNat = _
  rw [BitVec.extractLsb_toNat, Nat.shiftRight_eq_div_pow, signBit]
  omega

theorem toNat_leadingOne (mantissa : BitVec 52) :
    (1#1 ++ mantissa).toNat = 0x10000000000000 + mantissa.toNat := by
  rw [BitVec.toNat_append, ← Nat.shiftLeft_add_eq_or_of_lt mantissa.isLt]
  rfl

/-- Where a float with the given bits stands. -/
def placeOfBits (bits : Nat) : Int :=
  if bits < signBit then bits else signBit - (bits : Int)

/-- The sign goes with the highest bit, and the others give the distance from zero. -/
theorem apply_unpackSign {distance : Int}
    (lower : distance = (bits.toNat % signBit : Nat)) :
    (Sign.ofBitVec (unpackSign bits)).apply distance = placeOfBits bits.toNat := by
  have bound : bits.toNat < 0x10000000000000000 := bits.isLt
  have sign := toNat_unpackSign bits
  unfold Sign.ofBitVec placeOfBits
  by_cases low : bits.toNat < signBit
  · have positive : unpackSign bits = 0#1 := by
      rw [← BitVec.toNat_inj, sign]
      exact Nat.div_eq_of_lt low
    rw [if_pos positive, if_pos low, lower, Nat.mod_eq_of_lt low]
    rfl
  · have negative : unpackSign bits ≠ 0#1 := by
      rw [Ne, ← BitVec.toNat_inj, sign]
      simp only [signBit, BitVec.toNat_ofNat] at low ⊢
      omega
    rw [if_neg negative, if_neg low, lower]
    simp only [Sign.apply, signBit] at low ⊢
    omega

/-- What bits stand for is in normal form, and stands where the bits say. -/
theorem standsAt_unpack :
    StandsAt (placeOfBits bits.toNat) (UnpackedFloat.unpack Format.binary64 bits) := by
  have bound : bits.toNat < 0x10000000000000000 := bits.isLt
  have mantissa := toNat_unpackMantissa bits
  have exponent := toNat_unpackExponent bits
  have bias : (Format.binary64.exponentBias : Int) = 1023 := rfl
  have ones : (-1#11).toNat = 0x7ff := rfl
  delta UnpackedFloat.unpack
  dsimp only
  by_cases top : unpackExponent bits = -1#_
  · rw [if_pos top]
    rw [← BitVec.toNat_inj, exponent, ones] at top
    by_cases none : unpackMantissa bits = 0#_
    · rw [if_pos none]
      rw [← BitVec.toNat_inj, mantissa, BitVec.toNat_zero] at none
      apply apply_unpackSign bits
      simp only [stepsToInfinity, signBit]
      omega
    · rw [if_neg none]
      trivial
  · rw [if_neg top]
    rw [← BitVec.toNat_inj, exponent, ones] at top
    by_cases bottom : unpackExponent bits = 0#_
    · rw [if_pos bottom]
      rw [← BitVec.toNat_inj, exponent, BitVec.toNat_zero] at bottom
      by_cases none : unpackMantissa bits = 0#_
      · rw [dif_pos none]
        rw [← BitVec.toNat_inj, mantissa, BitVec.toNat_zero] at none
        change placeOfBits bits.toNat = 0
        simp only [placeOfBits, signBit]
        omega
      · rw [dif_neg none]
        rw [← BitVec.toNat_inj, mantissa, BitVec.toNat_zero] at none
        change IsNormal _ _ ∧ _ = _
        simp only [mantissa, exponent]
        refine ⟨⟨?_, ?_, ?_, ?_, ?_⟩, apply_unpackSign bits ?_⟩
        all_goals try simp only [stepsUp, signBit]
        all_goals omega
    · rw [if_neg bottom]
      rw [← BitVec.toNat_inj, exponent, BitVec.toNat_zero] at bottom
      change IsNormal _ _ ∧ _ = _
      simp only [toNat_leadingOne, mantissa, exponent]
      refine ⟨⟨?_, ?_, ?_, ?_, ?_⟩, apply_unpackSign bits ?_⟩
      all_goals try simp only [stepsUp, signBit]
      all_goals omega

end Bits

/-- The place of a float in the order that fitnesses are compared by: the same for both zeros, and
below all others for NaN. -/
def height (x : Float) : Int :=
  if x.isNaN then -0x8000000000000000 else placeOfBits x.toBits.toNat

variable {x y : Float}

theorem height_of_isNaN (nan : x.isNaN = true) : height x = -0x8000000000000000 :=
  if_pos nan

theorem height_of_number (number : x.isNaN = false) : height x = placeOfBits x.toBits.toNat := by
  rw [height, number]
  rfl

theorem compare_eq_compare_height (x_number : x.isNaN = false) (y_number : y.isNaN = false) :
    x.toModel.unpack.compare y.toModel.unpack = some (compare (height x) (height y)) := by
  rw [height_of_number x_number, height_of_number y_number]
  exact compare_of_standsAt (standsAt_unpack _) (standsAt_unpack _) x_number y_number

theorem compare_of_isNaN (nan : x.isNaN = true ∨ y.isNaN = true) :
    x.toModel.unpack.compare y.toModel.unpack = none := by
  change x.toModel.unpack.isNaN = true ∨ y.toModel.unpack.isNaN = true at nan
  cases hx : x.toModel.unpack <;> cases hy : y.toModel.unpack <;> rw [hx, hy] at nan
  all_goals first
    | rfl
    | exact nan.elim Bool.noConfusion Bool.noConfusion

/-- A test that nothing but an order passes is passed by the order of the heights of two numbers. -/
theorem compare_iff (test : Option Ordering → Prop) (unordered : ¬ test none) :
    test (x.toModel.unpack.compare y.toModel.unpack) ↔
      x.isNaN = false ∧ y.isNaN = false ∧ test (some (compare (height x) (height y))) := by
  by_cases nan : x.isNaN = true ∨ y.isNaN = true
  · rw [compare_of_isNaN nan]
    rcases nan with nan | nan <;>
      simp only [nan, unordered, reduceCtorEq, false_and, and_false]
  · simp only [not_or, Bool.not_eq_true] at nan
    rw [compare_eq_compare_height nan.1 nan.2]
    simp only [nan, true_and]

theorem lt_iff : x < y ↔ x.isNaN = false ∧ y.isNaN = false ∧ height x < height y := by
  have decoded : x < y ↔ x.toModel.unpack.compare y.toModel.unpack = some .lt :=
    decide_eq_true_iff.trans beq_iff_eq
  rw [decoded, compare_iff (· = some .lt) nofun, Option.some_inj, Int.compare_eq_lt]

theorem le_iff : x ≤ y ↔ x.isNaN = false ∧ y.isNaN = false ∧ height x ≤ height y := by
  have decoded : x ≤ y ↔ (x.toModel.unpack.compare y.toModel.unpack).any (·.isLE) = true :=
    decide_eq_true_iff
  rw [decoded, compare_iff (·.any (·.isLE) = true) nofun, Option.any_some,
    Int.isLE_compare]

/-- Every number stands above NaN. -/
theorem height_nan_lt (number : x.isNaN = false) : -0x8000000000000000 < height x := by
  have bound := x.toBits.toNat_lt
  rw [height_of_number number, placeOfBits, signBit]
  split <;> omega

/-- A challenger beats an incumbent exactly if it stands higher. -/
theorem beats_iff : beats x y = true ↔ height y < height x := by
  rw [beats, Bool.or_eq_true, decide_eq_true_iff, lt_iff]
  cases hx : x.isNaN <;> cases hy : y.isNaN
  · simp
  · simpa [height_of_isNaN hy] using height_nan_lt hx
  · simpa [height_of_isNaN hx] using Int.le_of_lt (height_nan_lt hy)
  · simp [height_of_isNaN hx, height_of_isNaN hy]

theorem not_beats_iff : beats x y = false ↔ height x ≤ height y := by
  rw [← Bool.not_eq_true, beats_iff, Int.not_lt]

/-- Where NaN stands for NaN, a place in the order is a matter of what is less than what. -/
theorem height_lt_iff_of_lt_iff {a b : Float} (nan_eq : y.isNaN = x.isNaN)
    (other_nan_eq : b.isNaN = a.isNaN) (same : y < b ↔ x < a) :
    height y < height b ↔ height x < height a := by
  rw [← beats_iff, ← beats_iff, beats, beats, Bool.or_eq_true, Bool.or_eq_true, decide_eq_true_iff,
    decide_eq_true_iff, same, nan_eq, other_nan_eq]

theorem height_zero : height 0 = 0 := by
  decide

/-- What an empty cell asks for. -/
theorem zero_le_iff : 0 ≤ x ↔ 0 ≤ height x := by
  have zero_number : (0 : Float).isNaN = false := by decide
  rw [le_iff, height_zero, zero_number]
  cases hx : x.isNaN
  · simp only [true_and]
  · rw [height_of_isNaN hx]
    decide

theorem number_of_zero_le (zero_le : 0 ≤ x) : x.isNaN = false :=
  (le_iff.mp zero_le).2.1

theorem height_nan_le (x : Float) : -0x8000000000000000 ≤ height x := by
  cases number : x.isNaN
  · exact Int.le_of_lt (height_nan_lt number)
  · exact Int.le_of_eq (height_of_isNaN number).symm

/-- What is not above a number stands no higher, NaN included. -/
theorem not_lt_iff_of_number (number : x.isNaN = false) : ¬ x < y ↔ height y ≤ height x := by
  rw [lt_iff, number]
  cases hy : y.isNaN
  · simp
  · simpa [height_of_isNaN hy] using height_nan_le x

/-- What does not reach a number stands lower, NaN included. -/
theorem not_le_iff_of_number (number : x.isNaN = false) : ¬ x ≤ y ↔ height y < height x := by
  rw [le_iff, number]
  cases hy : y.isNaN
  · simp
  · simpa [height_of_isNaN hy] using height_nan_lt number

theorem float_ext (same : x.toBits = y.toBits) : x = y := by
  obtain ⟨⟨bits, valid⟩⟩ := x
  obtain ⟨⟨other, other_valid⟩⟩ := y
  obtain rfl : bits = other := same
  rfl

theorem rank_inj (same : rank x = rank y) : x = y := by
  have bound := x.toBits.toNat_lt
  have other_bound := y.toBits.toNat_lt
  apply float_ext
  apply UInt64.toNat_inj.mp
  dsimp only [rank, signBit] at same
  omega

/-- The order of the bits puts all that is negative one place further down. -/
theorem rank_eq_or (number : x.isNaN = false) :
    0 ≤ height x ∧ rank x = height x ∨ height x ≤ 0 ∧ rank x = height x - 1 := by
  rw [height_of_number number]
  dsimp only [rank, placeOfBits, signBit]
  omega

/-- The zeros are the only numbers that stand at the same height. -/
theorem rank_lt_iff (x_number : x.isNaN = false) (y_number : y.isNaN = false) :
    rank x < rank y ↔ height x < height y ∨ x = -0.0 ∧ y = 0 := by
  have zeros : x = -0.0 ∧ y = 0 ↔ rank x = -1 ∧ rank y = 0 := by
    have minus_zero : rank (-0.0) = -1 := by decide
    have zero : rank 0 = 0 := by decide
    constructor
    · rintro ⟨rfl, rfl⟩
      exact ⟨minus_zero, zero⟩
    · rintro ⟨x_rank, y_rank⟩
      exact ⟨rank_inj (x_rank.trans minus_zero.symm), rank_inj (y_rank.trans zero.symm)⟩
  have x_ranks := rank_eq_or x_number
  have y_ranks := rank_eq_or y_number
  rw [zeros]
  omega

/-- The order that tells the two zeros apart refines the one that does not. -/
theorem height_le_of_rank_le (x_number : x.isNaN = false) (y_number : y.isNaN = false)
    (le : rank x ≤ rank y) : height x ≤ height y := by
  have x_ranks := rank_eq_or x_number
  have y_ranks := rank_eq_or y_number
  omega

theorem beq_iff : (x == y) = true ↔ x.isNaN = false ∧ y.isNaN = false ∧ height x = height y := by
  have decoded : (x == y) = true ↔ x.toModel.unpack.compare y.toModel.unpack = some .eq := by
    change (x.toModel.unpack.compare y.toModel.unpack == some .eq) = true ↔ _
    exact beq_iff_eq
  rw [decoded, compare_iff (· = some .eq) nofun, Option.some_inj, Int.compare_eq_eq]

/-- NaN is where no number is. -/
theorem isNaN_iff : x.isNaN = true ↔ height x = -0x8000000000000000 := by
  cases number : x.isNaN
  · have above := height_nan_lt number
    simp only [Bool.false_eq_true, false_iff]
    omega
  · simp only [height_of_isNaN number]

/-- Finite is what lies between the two infinities. -/
theorem isFinite_iff :
    x.isFinite = true ↔ -stepsToInfinity < height x ∧ height x < stepsToInfinity := by
  cases number : x.isNaN
  · rw [height_of_number number]
    exact isFinite_of_standsAt (standsAt_unpack _) number
  · have infinite : x.isFinite = false := by
      change x.toModel.unpack.isFinite = false
      change x.toModel.unpack.isNaN = true at number
      revert number
      cases x.toModel.unpack <;> intro number <;> first | rfl | cases number
    rw [height_of_isNaN number, infinite]
    decide

theorem not_isNaN_of_isFinite (finite : x.isFinite = true) : x.isNaN = false := by
  rw [← Bool.not_eq_true, isNaN_iff]
  have between := isFinite_iff.mp finite
  unfold stepsToInfinity at between
  omega

/-- Nothing stands above infinity. -/
theorem height_le_infinity (x : Float) : height x ≤ stepsToInfinity := by
  cases number : x.isNaN
  · rw [height_of_number number]
    exact le_infinity_of_standsAt (standsAt_unpack _) number
  · rw [height_of_isNaN number]
    decide

theorem height_infinity : height infinity = stepsToInfinity := by
  decide

/-- Two floats are the same number, or both are none. -/
def SameNumber (x y : Float) : Prop :=
  (x == y) = true ∨ x.isNaN = true ∧ y.isNaN = true

theorem sameNumber_iff : SameNumber x y ↔ height x = height y := by
  rw [SameNumber, beq_iff]
  cases hx : x.isNaN <;> cases hy : y.isNaN
  · simp
  · have above := height_nan_lt hx
    simp [height_of_isNaN hy]
    omega
  · have above := height_nan_lt hy
    simp [height_of_isNaN hx]
    omega
  · simp [height_of_isNaN hx, height_of_isNaN hy]

end EvoSearch.Numeric
