/-
# Rounding

What comes out of an operation on floats is the exact result brought to as many bits as a mantissa
has. Behind the mantissa the standard library keeps two bits more, and these tell on which side of
the middle the exact result lies, so what is left is a multiple of a power of two, and none of these
multiples is nearer.

Two consequences carry all that is said about computed numbers. The error is at most half of the
last place. And rounding never crosses a number that a float can hold: what is below one before is
not above it after. Which of two neighbours a tie goes to plays no role here.
-/

import Mathlib.Tactic.FieldSimp
import EvoSearch.Proofs.Values

namespace EvoSearch.Numeric

open Float.Model Float.Model.UnpackedFloat

variable {mantissa shift : Nat} {exponent : Int} {sign : Sign} {accuracy : Accuracy}
  {extended : ExtendedMantissa} {number rounded bound : ℚ}

/-! ## The bits behind a mantissa -/

/-- Where the number lies that a mantissa has been cut from: the two bits behind the mantissa tell
how it compares with the middle between the mantissa and the next one. -/
def Locates : ExtendedMantissa → ℚ → Prop
  | ⟨mantissa, false, false⟩, number => number = mantissa
  | ⟨mantissa, false, true⟩, number => mantissa < number ∧ number < mantissa + 1 / 2
  | ⟨mantissa, true, false⟩, number => number = mantissa + 1 / 2
  | ⟨mantissa, true, true⟩, number => mantissa + 1 / 2 < number ∧ number < mantissa + 1

namespace Locates

/-- The bit that is cut off becomes the one behind the mantissa, and nothing is forgotten. -/
theorem shiftRightOne (located : Locates extended number) :
    Locates extended.shiftRightOne (number / 2) := by
  obtain ⟨mantissa, round, sticky⟩ := extended
  have halves : (mantissa : ℚ) = 2 * (mantissa / 2 : Nat) + (mantissa % 2 : Nat) := by
    exact_mod_cast (Nat.div_add_mod mantissa 2).symm
  rcases Nat.mod_two_eq_zero_or_one mantissa with last | last <;> rcases round <;> rcases sticky
  all_goals rw [last] at halves
  all_goals simp only [Locates, ExtendedMantissa.shiftRightOne, last, Nat.cast_zero, Nat.cast_one,
    bne_self_eq_false, Nat.reduceBneDiff, Bool.or_false, Bool.or_true] at located halves ⊢
  all_goals first
    | linarith
    | constructor <;> linarith

theorem shiftRight (located : Locates extended number) (shift : Nat) :
    Locates (extended >>> shift) (number / 2 ^ shift) := by
  induction shift with
  | zero => rwa [pow_zero, div_one]
  | succ shift ih =>
    rw [pow_succ, ← div_div]
    exact ih.shiftRightOne

theorem mantissa_le (located : Locates extended number) : extended.mantissa ≤ number := by
  obtain ⟨mantissa, _ | _, _ | _⟩ := extended <;> dsimp only [Locates] at located ⊢ <;> linarith

/-- No integer is nearer than the rounded mantissa. -/
theorem abs_roundedMantissa_sub_le (located : Locates extended number) :
    |(extended.roundedMantissa : ℚ) - number| ≤ 1 / 2 := by
  obtain ⟨mantissa, _ | _, _ | _⟩ := extended
  all_goals dsimp only [Locates, ExtendedMantissa.roundedMantissa, ExtendedMantissa.accuracy,
    Accuracy.roundToNearestEven] at located ⊢
  all_goals push_cast
  -- a tie may go either way
  all_goals try rcases Nat.mod_two_eq_zero_or_one mantissa with last | last
  all_goals try rw [last]
  all_goals rw [abs_le]
  all_goals constructor
  all_goals push_cast
  all_goals linarith

end Locates

/-! ## What rounding does to numbers -/

/-- The last place of the numbers next to zero. -/
def leastPlace : ℚ := 2 ^ (-1074 : Int)

theorem leastPlace_pos : 0 < leastPlace :=
  zpow_pos two_pos _

/-- A number has been rounded to the nearest multiple of a power of two, which is the least one that
floats have, unless the number has the bits of a full mantissa above it. -/
structure Rounds (exponent : Int) (number rounded : ℚ) : Prop where
  multiple : ∃ factor : Int, rounded = factor * 2 ^ exponent
  near : |rounded - number| ≤ 2 ^ exponent / 2
  least_le : -1074 ≤ exponent
  full : exponent = -1074 ∨ 0x10000000000000 * 2 ^ exponent ≤ |number|

/-- A number that a float can hold, if it is not too large: an integer of as many bits as a mantissa
has, times a power of two. -/
def IsDyadic (number : ℚ) : Prop :=
  ∃ factor exponent : Int, |factor| ≤ 0x20000000000000 ∧ -1074 ≤ exponent ∧
    number = factor * 2 ^ exponent

theorem IsDyadic.neg (dyadic : IsDyadic number) : IsDyadic (-number) := by
  obtain ⟨factor, exponent, few, least_le, rfl⟩ := dyadic
  exact ⟨-factor, exponent, by rwa [abs_neg], least_le, by push_cast; ring⟩

theorem IsDyadic.abs (dyadic : IsDyadic number) : IsDyadic |number| := by
  rcases abs_choice number with same | negated
  · rwa [same]
  · rw [negated]
    exact dyadic.neg

theorem isDyadic_intCast {factor : Int} (few : |factor| ≤ 0x20000000000000) :
    IsDyadic factor :=
  ⟨factor, 0, few, by decide, by rw [zpow_zero, mul_one]⟩

theorem isDyadic_natCast {n : Nat} (few : n ≤ 0x20000000000000) : IsDyadic n := by
  have few' : |(n : Int)| ≤ 0x20000000000000 := by
    rw [abs_of_nonneg (Int.natCast_nonneg n)]
    exact_mod_cast few
  have dyadic := isDyadic_intCast few'
  rwa [Int.cast_natCast] at dyadic

theorem isDyadic_one : IsDyadic 1 :=
  ⟨1, 0, by decide, by decide, by rw [Int.cast_one, zpow_zero, one_mul]⟩

theorem isDyadic_zero : IsDyadic 0 :=
  ⟨0, 0, by decide, by decide, by rw [Int.cast_zero, zero_mul]⟩

/-- Multiples of a place are multiples of every lower place. -/
theorem exists_mul_zpow_eq (factor : Int) {low high : Int} (le : low ≤ high) :
    ∃ other : Int, (factor * 2 ^ high : ℚ) = other * 2 ^ low := by
  refine ⟨factor * 2 ^ (high - low).toNat, ?_⟩
  rw [Int.cast_mul, Int.cast_pow, Int.cast_ofNat, mul_assoc, ← zpow_natCast,
    ← zpow_add₀ two_ne_zero]
  congr 2
  omega

/-- At a lower place, the bits of a mantissa do not reach beyond the least full mantissa of this
place. -/
theorem abs_mul_zpow_le {factor low place : Int} (few : |factor| ≤ 0x20000000000000)
    (below : low < place) : |(factor * 2 ^ low : ℚ)| ≤ 0x10000000000000 * 2 ^ place := by
  have few' : |(factor : ℚ)| ≤ 0x20000000000000 := by exact_mod_cast few
  calc |(factor * 2 ^ low : ℚ)| = |(factor : ℚ)| * 2 ^ low := by
        rw [abs_mul, abs_of_pos (zpow_pos (two_pos (α := ℚ)) low)]
    _ ≤ 0x20000000000000 * 2 ^ (place - 1) := by
        gcongr
        · exact one_le_two
        · omega
    _ = 0x10000000000000 * 2 ^ place := by
        rw [zpow_sub_one₀ two_ne_zero]
        ring

/-- Numbers with all bits of a mantissa above some place are multiples of that place. -/
theorem IsDyadic.next_le {place : Int} (dyadic : IsDyadic number)
    (above : 0x10000000000000 * 2 ^ place < number) :
    0x10000000000001 * 2 ^ place ≤ number := by
  have place_pos : (0 : ℚ) < 2 ^ place := by positivity
  obtain ⟨factor, exponent, few, _, rfl⟩ := dyadic
  rcases le_or_gt place exponent with high | low
  · obtain ⟨other, other_eq⟩ := exists_mul_zpow_eq factor high
    rw [other_eq] at above ⊢
    have less : (0x10000000000000 : ℚ) < other := lt_of_mul_lt_mul_right above place_pos.le
    have next : 0x10000000000000 + 1 ≤ other := Int.add_one_le_of_lt (by exact_mod_cast less)
    have next' : (0x10000000000001 : ℚ) ≤ other := by exact_mod_cast next
    gcongr
  · have most := (le_abs_self _).trans (abs_mul_zpow_le few low)
    exact absurd above (not_lt.mpr most)

namespace Rounds

theorem neg (rounds : Rounds exponent number rounded) : Rounds exponent (-number) (-rounded) where
  multiple := by
    obtain ⟨factor, rounded_eq⟩ := rounds.multiple
    exact ⟨-factor, by rw [rounded_eq]; push_cast; ring⟩
  near := by
    rw [neg_sub_neg, abs_sub_comm]
    exact rounds.near
  least_le := rounds.least_le
  full := by
    rw [abs_neg]
    exact rounds.full

/-- Multiples are not crossed. -/
theorem multiple_le (rounds : Rounds exponent number rounded) (factor : Int)
    (le : factor * 2 ^ exponent ≤ number) : factor * 2 ^ exponent ≤ rounded := by
  have place : (0 : ℚ) < 2 ^ exponent := by positivity
  obtain ⟨other, rfl⟩ := rounds.multiple
  have above := (abs_le.mp rounds.near).1
  have less : (factor : ℚ) < other + 1 := by
    by_contra far
    have : (other + 1 : ℚ) * 2 ^ exponent ≤ factor * 2 ^ exponent := by
      gcongr
      exact not_lt.mp far
    linarith
  have factor_le : factor ≤ other := Int.lt_add_one_iff.mp (by exact_mod_cast less)
  gcongr

/-- What a float can hold is not crossed from above. -/
theorem le_rounded (rounds : Rounds exponent number rounded) (dyadic : IsDyadic bound)
    (le : bound ≤ number) : bound ≤ rounded := by
  obtain ⟨factor, place, few, least_le, rfl⟩ := dyadic
  rcases le_or_gt exponent place with high | low
  · obtain ⟨other, other_eq⟩ := exists_mul_zpow_eq factor high
    rw [other_eq] at le ⊢
    exact rounds.multiple_le other le
  · -- such a bound is not beyond the least number of the size of the one that is rounded
    have full := rounds.full.resolve_left (by omega)
    obtain ⟨above, below⟩ := abs_le.mp (abs_mul_zpow_le few low)
    rcases le_or_gt 0 number with positive | negative
    · rw [abs_of_nonneg positive] at full
      exact below.trans (rounds.multiple_le 0x10000000000000 (by exact_mod_cast full))
    · rw [abs_of_neg negative] at full
      have least := rounds.multiple_le (-0x10000000000000) (by push_cast; linarith)
      push_cast at least
      linarith

/-- What a float can hold is not crossed from below. -/
theorem rounded_le (rounds : Rounds exponent number rounded) (dyadic : IsDyadic bound)
    (le : number ≤ bound) : rounded ≤ bound :=
  neg_le_neg_iff.mp (rounds.neg.le_rounded dyadic.neg (neg_le_neg le))

/-- What a float can hold stays as it is. -/
theorem eq_of_isDyadic (rounds : Rounds exponent number rounded) (dyadic : IsDyadic number) :
    rounded = number :=
  le_antisymm (rounds.rounded_le dyadic le_rfl) (rounds.le_rounded dyadic le_rfl)

/-- The error is small against the number, as long as this is not too close to zero. -/
theorem abs_sub_le (rounds : Rounds exponent number rounded) :
    |rounded - number| ≤ |number| / 0x20000000000000 + leastPlace / 2 := by
  have least := leastPlace_pos
  have sized := abs_nonneg number
  have near := rounds.near
  rcases rounds.full with rfl | full
  · rw [← leastPlace] at near
    linarith
  · linarith

/-- What is a multiple of the least place already is rounded with a small error, however close to
zero it is. -/
theorem abs_sub_le_of_multiple (rounds : Rounds exponent number rounded)
    (multiple : ∃ factor : Int, number = factor * leastPlace) :
    |rounded - number| ≤ |number| / 0x20000000000000 := by
  rcases rounds.full with rfl | full
  · obtain ⟨factor, rfl⟩ := multiple
    have below := rounds.multiple_le factor le_rfl
    have above := rounds.neg.multiple_le (-factor) (by
      rw [Int.cast_neg, neg_mul, ← leastPlace])
    rw [Int.cast_neg, neg_mul, neg_le_neg_iff, ← leastPlace] at above
    rw [le_antisymm above below, sub_self, abs_zero]
    positivity
  · have near := rounds.near
    linarith

/-- Up to one the error is at most half of the last place of the numbers below one. -/
theorem abs_sub_le_of_le_one (rounds : Rounds exponent number rounded) (small : |number| ≤ 1) :
    |rounded - number| ≤ 1 / 0x40000000000000 := by
  rcases small.lt_or_eq with less | one
  · have exponent_le : exponent ≤ -53 := by
      rcases rounds.full with rfl | full
      · decide
      · have below : (2 ^ (exponent + 52) : ℚ) < 2 ^ (0 : Int) := by
          rw [zpow_add₀ two_ne_zero, zpow_zero]
          norm_num
          linarith
        have := (zpow_lt_zpow_iff_right₀ one_lt_two).mp below
        omega
    calc |rounded - number| ≤ 2 ^ exponent / 2 := rounds.near
      _ ≤ 2 ^ (-53 : Int) / 2 := by gcongr; exact one_le_two
      _ = 1 / 0x40000000000000 := by norm_num
  · -- one is not rounded at all
    have dyadic : IsDyadic number := by
      rcases eq_or_eq_neg_of_abs_eq one with rfl | rfl
      · exact isDyadic_one
      · exact isDyadic_one.neg
    rw [rounds.eq_of_isDyadic dyadic, sub_self, abs_zero]
    norm_num

end Rounds

/-! ## Bringing a number to the form of a float -/

/-- The form of what has been rounded: that of a float, were there no largest one. -/
def IsRounded : UnpackedFloat → Prop
  | .zero _ => True
  | .finite _ mantissa exponent _ => mantissa < 0x20000000000000 ∧ -1074 ≤ exponent ∧
      (0x10000000000000 ≤ mantissa ∨ exponent = -1074)
  | _ => False

/-- An unpacked float is what rounding makes of a number. -/
structure IsRounding (number : ℚ) (result : UnpackedFloat) : Prop where
  isRounded : IsRounded result
  rounds : ∃ exponent, Rounds exponent number (unpackedValue result)

/-- To cut a number to its target leaves at most the bits of a mantissa, and all of them unless the
exponent is the least one. -/
theorem exists_shiftToTargetExponent (accuracy : Accuracy)
    (enough : 0x10000000000000 ≤ mantissa ∨ exponent ≤ -1074) :
    ∃ shift : Nat,
      shiftToTargetExponent .binary64 mantissa exponent accuracy =
        (ExtendedMantissa.ofMantissaAndAccuracy mantissa accuracy >>> shift, exponent + shift) ∧
      -1074 ≤ exponent + shift ∧ mantissa >>> shift < 0x20000000000000 ∧
      (exponent + shift = -1074 ∨ 0x10000000000000 ≤ mantissa >>> shift) := by
  obtain ⟨shift, shift_eq⟩ : ∃ shift : Nat,
      shift = (max ((mantissa.log2 : Int) + 1 + exponent - 53) (-1074) - exponent).toNat :=
    ⟨_, rfl⟩
  have many : 0x10000000000000 ≤ mantissa → 52 ≤ mantissa.log2 := fun le =>
    (Nat.le_log2 (by omega)).mpr le
  refine ⟨shift, ?_, by omega, ?_, ?_⟩
  · rw [shiftToTargetExponent, shiftToExponent, targetExponent_eq, totalExponent, ← shift_eq]
  · rw [Nat.shiftRight_eq_div_pow, Nat.div_lt_iff_lt_mul (Nat.two_pow_pos shift)]
    calc mantissa < 2 ^ (mantissa.log2 + 1) := Nat.lt_log2_self
      _ ≤ 2 ^ (53 + shift) := Nat.pow_le_pow_right (by decide) (by omega)
      _ = 0x20000000000000 * 2 ^ shift := Nat.pow_add ..
  · by_cases bottom : exponent + shift = -1074
    · exact .inl bottom
    · have behind : mantissa.log2 = 52 + shift := by omega
      have mantissa_ne : mantissa ≠ 0 := by
        rintro rfl
        rw [Nat.log2_zero] at behind
        omega
      exact .inr (isFull_shiftRight mantissa_ne behind).le

/-- A rounded mantissa is in the form of a float already, or has become one bit too long. -/
theorem exists_shiftToTargetExponent_rounded (le : mantissa ≤ 0x20000000000000)
    (least_le : -1074 ≤ exponent) (full : exponent = -1074 ∨ 0x10000000000000 ≤ mantissa) :
    ∃ (final : Nat) (place : Int),
      shiftToTargetExponent .binary64 mantissa exponent .exact = (⟨final, false, false⟩, place) ∧
      (final * 2 ^ place : ℚ) = mantissa * 2 ^ exponent ∧
      final < 0x20000000000000 ∧ -1074 ≤ place ∧ (0x10000000000000 ≤ final ∨ place = -1074) := by
  by_cases carries : mantissa = 0x20000000000000
  · have half_full : IsFull 0x10000000000000 := ⟨by decide, by decide⟩
    refine ⟨0x10000000000000, exponent + 1, ?_, ?_, by decide, by omega, .inl le_rfl⟩
    · rw [carries]
      exact shiftToTargetExponent_eq half_full 1 (by omega)
    · rw [carries, zpow_add_one₀ two_ne_zero]
      push_cast
      ring
  · refine ⟨mantissa, exponent, ?_, rfl, by omega, least_le, full.symm⟩
    rcases Nat.lt_or_ge mantissa 0x10000000000000 with small | large
    · have bottom : exponent = -1074 := full.resolve_right (by omega)
      have few : mantissa.log2 ≤ 52 := by
        rcases Nat.eq_zero_or_pos mantissa with rfl | positive
        · decide
        · have := (Nat.log2_lt (k := 52) (Nat.ne_of_gt positive)).mpr small
          omega
      have target : Format.binary64.targetExponent (totalExponent mantissa exponent) =
          exponent := by
        rw [targetExponent_eq, totalExponent]
        omega
      rw [shiftToTargetExponent, target, shiftToExponent, Int.sub_self]
      exact congrArg _ (Int.add_zero exponent)
    · have full_mantissa : IsFull mantissa := ⟨large, by omega⟩
      have same := shiftToTargetExponent_eq full_mantissa 0
        (by omega : -1074 ≤ exponent + (0 : Nat))
      rwa [Nat.shiftLeft_zero, Int.natCast_zero, Int.add_zero] at same

theorem roundedMantissa_le (extended : ExtendedMantissa) :
    extended.roundedMantissa ≤ extended.mantissa + 1 := by
  rcases roundedMantissa_eq_or extended with same | next <;> omega

theorem mantissa_le_roundedMantissa (extended : ExtendedMantissa) :
    extended.mantissa ≤ extended.roundedMantissa := by
  rcases roundedMantissa_eq_or extended with same | next <;> omega

theorem mantissa_ofMantissaAndAccuracy (mantissa : Nat) (accuracy : Accuracy) :
    (ExtendedMantissa.ofMantissaAndAccuracy mantissa accuracy).mantissa = mantissa := by
  rcases accuracy with _ | (_ | _ | _) <;> rfl

theorem isRounded_zero (sign : Sign) : IsRounded (.zero sign) :=
  trivial

theorem unpackedValue_zero (sign : Sign) : unpackedValue (.zero sign) = 0 :=
  rfl

theorem unpackedValue_finite (sign : Sign) (mantissa : Nat) (exponent : Int)
    (positive : 0 < mantissa) : unpackedValue (.finite sign mantissa exponent positive) =
      signed sign (mantissa * 2 ^ exponent) :=
  rfl

theorem Rounds.signed (rounds : Rounds exponent number rounded) (sign : Sign) :
    Rounds exponent (signed sign number) (signed sign rounded) := by
  cases sign
  · exact rounds.neg
  · exact rounds

/-- What is located by a mantissa with enough bits is rounded. -/
theorem isRounding_roundWithAccuracy (sign : Sign)
    (located : Locates (.ofMantissaAndAccuracy mantissa accuracy) number)
    (enough : 0x10000000000000 ≤ mantissa ∨ exponent ≤ -1074) :
    IsRounding (signed sign (number * 2 ^ exponent))
      (roundWithAccuracy .binary64 sign mantissa exponent accuracy) := by
  obtain ⟨shift, first, least_le, cut_lt, cut_full⟩ :=
    exists_shiftToTargetExponent accuracy enough
  obtain ⟨cut, cut_eq⟩ :
      ∃ cut, cut = ExtendedMantissa.ofMantissaAndAccuracy mantissa accuracy >>> shift := ⟨_, rfl⟩
  have cut_mantissa : cut.mantissa = mantissa >>> shift := by
    rw [cut_eq, mantissa_shiftRight, mantissa_ofMantissaAndAccuracy]
  have cut_located : Locates cut (number / 2 ^ shift) := cut_eq ▸ located.shiftRight shift
  rw [← cut_mantissa] at cut_lt cut_full
  have le_rounded := mantissa_le_roundedMantissa cut
  have rounded_le := roundedMantissa_le cut
  obtain ⟨final, place, second, same, final_lt, least_le_place, final_full⟩ :=
    exists_shiftToTargetExponent_rounded (by omega : cut.roundedMantissa ≤ 0x20000000000000)
      least_le (by omega)
  have exact_eq : number * 2 ^ exponent = number / 2 ^ shift * 2 ^ (exponent + shift) := by
    rw [zpow_add₀ two_ne_zero, zpow_natCast]
    field_simp
  have rounds : Rounds (exponent + shift) (number * 2 ^ exponent)
      (cut.roundedMantissa * 2 ^ (exponent + shift)) := by
    have place_pos : (0 : ℚ) < 2 ^ (exponent + shift) := by positivity
    refine ⟨⟨cut.roundedMantissa, by push_cast; rfl⟩, ?_, least_le, ?_⟩
    · rw [exact_eq, ← sub_mul, abs_mul, abs_of_pos place_pos]
      linarith [mul_le_mul_of_nonneg_right cut_located.abs_roundedMantissa_sub_le place_pos.le]
    · refine cut_full.imp_right fun full => ?_
      have full' : (0x10000000000000 : ℚ) ≤ cut.mantissa := by exact_mod_cast full
      have above := full'.trans cut_located.mantissa_le
      rw [exact_eq, abs_of_nonneg (by positivity)]
      gcongr
  have result : roundWithAccuracy .binary64 sign mantissa exponent accuracy =
      if none : final = 0 then .zero sign
      else .finite sign final place (Nat.pos_of_ne_zero none) := by
    rw [roundWithAccuracy, first, ← cut_eq]
    dsimp only
    rw [second]
  by_cases none : final = 0
  · rw [result, dif_pos none]
    rw [none, Nat.cast_zero, zero_mul] at same
    rw [← same] at rounds
    have rounded := rounds.signed sign
    rw [signed_zero] at rounded
    exact ⟨trivial, exponent + shift, rounded⟩
  · rw [result, dif_neg none]
    rw [← same] at rounds
    exact ⟨⟨final_lt, least_le_place, final_full⟩, exponent + shift, rounds.signed sign⟩

theorem rounds_self {result : UnpackedFloat} (inForm : IsRounded result) :
    IsRounding (unpackedValue result) result := by
  refine ⟨inForm, ?_⟩
  rcases result with _ | _ | sign | ⟨sign, mantissa, exponent, positive⟩
  · cases inForm
  · cases inForm
  · refine ⟨-1074, ⟨0, by rw [Int.cast_zero, zero_mul]; rfl⟩, ?_, le_rfl, .inl rfl⟩
    rw [sub_self, abs_zero]
    positivity
  · obtain ⟨lt, least_le, full⟩ := inForm
    refine ⟨exponent, Rounds.signed ⟨⟨mantissa, by push_cast; rfl⟩, ?_, least_le, ?_⟩ sign⟩
    · rw [sub_self, abs_zero]
      positivity
    · refine full.symm.imp_right fun full => ?_
      have full' : (0x10000000000000 : ℚ) ≤ mantissa := by exact_mod_cast full
      rw [abs_of_nonneg (by positivity)]
      gcongr

end EvoSearch.Numeric
