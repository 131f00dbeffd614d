/-
# Exact arithmetic

Some of the numbers that the search works out are fractions with a power of two below the line, and
few enough bits above it. A float holds such a number as it is: its bits are moved up until the
mantissa is full, and the exponent makes up for that. As long as the bits of a product still fit,
nothing is rounded when two of them are multiplied, and the way back to an integer cuts the fraction
off.

The arithmetic is that of the standard library's floats, which rounds by dropping bits one by one.
In such products all bits that are dropped are zeros. Words may have more bits than a mantissa, and
are rounded, but none of them is too large for a float.
-/

import EvoSearch.Proofs.Order

namespace EvoSearch.Numeric

open Float.Model Float.Model.UnpackedFloat

variable {mantissa shift : Nat} {exponent : Int} {sign : Sign}

theorem finite_congr {m n : Nat} {d e : Int} {m_pos : 0 < m} {n_pos : 0 < n} (mantissas : m = n)
    (exponents : d = e) : finite sign m d m_pos = finite sign n e n_pos := by
  subst mantissas exponents
  rfl

/-- A mantissa has all of its bits, the first of which is not zero. -/
structure IsFull (mantissa : Nat) : Prop where
  le : 0x10000000000000 ≤ mantissa
  lt : mantissa < 0x20000000000000

namespace IsFull

theorem positive (full : IsFull mantissa) : 0 < mantissa :=
  Nat.lt_of_lt_of_le (by decide) full.le

theorem log2_eq (full : IsFull mantissa) : mantissa.log2 = 52 :=
  (Nat.log2_eq_iff (Nat.ne_of_gt full.positive)).mpr ⟨full.le, full.lt⟩

end IsFull

theorem log2_shiftLeft (positive : 0 < mantissa) (shift : Nat) :
    (mantissa <<< shift).log2 = mantissa.log2 + shift := by
  induction shift with
  | zero => rfl
  | succ shift ih =>
    have moved_ne : mantissa <<< shift ≠ 0 :=
      mt Nat.shiftLeft_eq_zero_iff.mp (Nat.ne_of_gt positive)
    rw [Nat.shiftLeft_succ, Nat.log2_two_mul moved_ne, ih, Nat.add_assoc]

/-- Every number can be moved up until it has the bits of a full mantissa. -/
theorem le_shiftLeft (positive : 0 < mantissa) :
    0x10000000000000 ≤ mantissa <<< (52 - mantissa.log2) := by
  have moved_ne : mantissa <<< (52 - mantissa.log2) ≠ 0 :=
    mt Nat.shiftLeft_eq_zero_iff.mp (Nat.ne_of_gt positive)
  have enough : 2 ^ 52 ≤ mantissa <<< (52 - mantissa.log2) := by
    apply (Nat.le_log2 moved_ne).mp
    rw [log2_shiftLeft positive]
    omega
  exact enough

/-- Every number can be moved up to a full mantissa, unless it has too many bits for that. -/
theorem isFull_shiftLeft (positive : 0 < mantissa) (lt : mantissa < 0x20000000000000) :
    IsFull (mantissa <<< (52 - mantissa.log2)) := by
  have few : mantissa.log2 < 53 := (Nat.log2_lt (Nat.ne_of_gt positive)).mpr lt
  have moved : (mantissa <<< (52 - mantissa.log2)).log2 = 52 := by
    rw [log2_shiftLeft positive]
    omega
  have le := le_shiftLeft positive
  have moved_ne : mantissa <<< (52 - mantissa.log2) ≠ 0 := by omega
  exact ⟨le, ((Nat.log2_eq_iff moved_ne).mp moved).2⟩

/-- A number with more bits is cut to a full mantissa. -/
theorem isFull_shiftRight (mantissa_ne : mantissa ≠ 0) {behind : Nat}
    (log2_eq : mantissa.log2 = 52 + behind) : IsFull (mantissa >>> behind) := by
  have le := Nat.log2_self_le mantissa_ne
  have lt : mantissa < 2 ^ (mantissa.log2 + 1) := Nat.lt_log2_self
  rw [log2_eq, Nat.pow_add] at le
  rw [log2_eq, show 52 + behind + 1 = 53 + behind by omega, Nat.pow_add] at lt
  constructor
  · rw [Nat.shiftRight_eq_div_pow, Nat.le_div_iff_mul_le (Nat.two_pow_pos behind)]
    exact le
  · rw [Nat.shiftRight_eq_div_pow, Nat.div_lt_iff_lt_mul (Nat.two_pow_pos behind)]
    exact lt

/-- Zeros are dropped without a trace. -/
theorem shiftRight_shiftLeft (mantissa shift : Nat) :
    (⟨mantissa <<< shift, false, false⟩ : ExtendedMantissa) >>> shift =
      ⟨mantissa, false, false⟩ := by
  induction shift generalizing mantissa with
  | zero => rfl
  | succ shift ih =>
    have step : (⟨mantissa <<< (shift + 1), false, false⟩ : ExtendedMantissa) >>> (shift + 1) =
        ((⟨(2 * mantissa) <<< shift, false, false⟩ : ExtendedMantissa) >>>
          shift).shiftRightOne := by
      rw [Nat.shiftLeft_succ_inside]
      rfl
    rw [step, ih, ExtendedMantissa.shiftRightOne]
    simp

theorem mantissa_shiftRight (extended : ExtendedMantissa) (shift : Nat) :
    (extended >>> shift).mantissa = extended.mantissa >>> shift := by
  induction shift with
  | zero => rfl
  | succ shift ih =>
    rw [Nat.shiftRight_succ, ← ih]
    rfl

theorem targetExponent_eq (total : Int) :
    Format.binary64.targetExponent total = max (total - 53) (-1074) :=
  rfl

/-- A full mantissa with zeros behind it is cut to its bits, and nothing is lost. -/
theorem shiftToTargetExponent_eq (full : IsFull mantissa) (shift : Nat)
    (normal : -1074 ≤ exponent + shift) :
    shiftToTargetExponent .binary64 (mantissa <<< shift) exponent .exact =
      (⟨mantissa, false, false⟩, exponent + shift) := by
  have target : Format.binary64.targetExponent (totalExponent (mantissa <<< shift) exponent) =
      exponent + shift := by
    rw [targetExponent_eq, totalExponent, log2_shiftLeft full.positive, full.log2_eq]
    omega
  have amount : (exponent + (shift : Int) - exponent).toNat = shift := by omega
  simp only [shiftToTargetExponent, shiftToExponent, target, amount,
    ExtendedMantissa.ofMantissaAndAccuracy, shiftRight_shiftLeft]

/-- To bring a number to the form of a float takes no rounding, if its bits fit. -/
theorem roundWithAccuracy_eq (full : IsFull mantissa) (shift : Nat)
    (normal : -1074 ≤ exponent + shift) :
    roundWithAccuracy .binary64 sign (mantissa <<< shift) exponent .exact =
      .finite sign mantissa (exponent + shift) full.positive := by
  have again : shiftToTargetExponent .binary64 (mantissa <<< 0) (exponent + shift) .exact =
      (⟨mantissa, false, false⟩, exponent + shift + (0 : Nat)) :=
    shiftToTargetExponent_eq full 0 (by omega)
  rw [Nat.shiftLeft_zero, Int.natCast_zero, Int.add_zero] at again
  have rounded : ExtendedMantissa.roundedMantissa ⟨mantissa, false, false⟩ = mantissa := rfl
  rw [roundWithAccuracy, shiftToTargetExponent_eq full shift normal]
  dsimp only
  rw [rounded, again]
  exact dif_neg (Nat.ne_of_gt full.positive)

theorem roundedMantissa_eq_or (extended : ExtendedMantissa) :
    extended.roundedMantissa = extended.mantissa ∨
      extended.roundedMantissa = extended.mantissa + 1 := by
  rw [ExtendedMantissa.roundedMantissa]
  unfold Accuracy.roundToNearestEven
  split
  · exact .inl rfl
  · exact .inl rfl
  · have := Nat.mod_two_eq_zero_or_one extended.mantissa
    omega
  · exact .inr rfl

/-- A full mantissa that is rounded up is one again, or all of its bits have become zeros and there
is one bit more. -/
theorem exists_isFull_rounded (extended : ExtendedMantissa) (full : IsFull extended.mantissa) :
    ∃ rounded shift, IsFull rounded ∧ shift ≤ 1 ∧
      extended.roundedMantissa = rounded <<< shift := by
  have le := full.le
  have lt := full.lt
  rcases roundedMantissa_eq_or extended with same | next
  · exact ⟨_, 0, full, by decide, same⟩
  · by_cases carries : extended.mantissa + 1 = 0x20000000000000
    · exact ⟨0x10000000000000, 1, ⟨by decide, by decide⟩, by decide, next.trans carries⟩
    · exact ⟨extended.mantissa + 1, 0, ⟨by omega, by omega⟩, by decide, next⟩

/-- A number with bits enough is brought to the form of a float, and its size stays about the
same. -/
theorem exists_roundWithAccuracy (sign : Sign) (large : 0x10000000000000 ≤ mantissa)
    (normal : -1074 ≤ exponent) : ∃ (rounded raised : Nat) (full : IsFull rounded),
      raised ≤ mantissa.log2 - 51 ∧
      roundWithAccuracy .binary64 sign mantissa exponent .exact =
        .finite sign rounded (exponent + raised) full.positive := by
  have mantissa_ne : mantissa ≠ 0 := by omega
  obtain ⟨behind, behind_eq⟩ : ∃ behind, mantissa.log2 = 52 + behind :=
    Nat.exists_eq_add_of_le ((Nat.le_log2 mantissa_ne).mpr large)
  have target : Format.binary64.targetExponent (totalExponent mantissa exponent) =
      exponent + behind := by
    rw [targetExponent_eq, totalExponent, behind_eq]
    omega
  have amount : (exponent + (behind : Int) - exponent).toNat = behind := by omega
  have first : shiftToTargetExponent .binary64 mantissa exponent .exact =
      ((⟨mantissa, false, false⟩ : ExtendedMantissa) >>> behind, exponent + behind) := by
    simp only [shiftToTargetExponent, target, shiftToExponent, amount,
      ExtendedMantissa.ofMantissaAndAccuracy]
  have cut : IsFull ((⟨mantissa, false, false⟩ : ExtendedMantissa) >>> behind).mantissa := by
    rw [mantissa_shiftRight]
    exact isFull_shiftRight mantissa_ne behind_eq
  obtain ⟨rounded, shift, full, shift_le, rounded_eq⟩ := exists_isFull_rounded _ cut
  refine ⟨rounded, behind + shift, full, by omega, ?_⟩
  rw [roundWithAccuracy, first]
  dsimp only
  rw [rounded_eq, shiftToTargetExponent_eq full shift (by omega)]
  dsimp only
  rw [dif_neg (Nat.ne_of_gt full.positive)]
  exact finite_congr rfl (by omega)

theorem toNat_packComponents (sign : Sign) (exponent : BitVec 11) (mantissa : BitVec 52) :
    (packComponents .binary64 sign exponent mantissa).toNat =
      (sign.toBitVec.toNat * 0x800 + exponent.toNat) * 0x10000000000000 + mantissa.toNat := by
  rw [packComponents, BitVec.toNat_append, ← Nat.shiftLeft_add_eq_or_of_lt mantissa.isLt,
    BitVec.toNat_append, ← Nat.shiftLeft_add_eq_or_of_lt exponent.isLt, Nat.shiftLeft_eq,
    Nat.shiftLeft_eq]

theorem unpackSign_packComponents (sign : Sign) (exponent : BitVec 11) (mantissa : BitVec 52) :
    unpackSign (packComponents .binary64 sign exponent mantissa) = sign.toBitVec := by
  have exponent_lt := exponent.isLt
  have mantissa_lt := mantissa.isLt
  apply BitVec.eq_of_toNat_eq
  rw [toNat_unpackSign, toNat_packComponents, signBit]
  omega

theorem ofBitVec_toBitVec (sign : Sign) : Sign.ofBitVec sign.toBitVec = sign := by
  cases sign <;> rfl

/-- What has been packed is unpacked as it was. -/
theorem unpack_pack (full : IsFull mantissa) (least_le : -1074 ≤ exponent)
    (le_greatest : exponent ≤ 971) :
    (Float.Model.pack (.finite sign mantissa exponent full.positive)).unpack =
      .finite sign mantissa exponent full.positive := by
  have bias : (Format.binary64.exponentBias : Int) = 1023 := rfl
  obtain ⟨biased, biased_eq⟩ : ∃ biased : Nat, exponent = (biased : Int) - 1075 :=
    ⟨(exponent + 1075).toNat, by omega⟩
  have stored : (exponent + (Format.binary64.exponentBias : Nat) + (52 : Nat)).toNat = biased := by
    omega
  have stored_toNat : (BitVec.ofNat 11 biased).toNat = biased := by
    rw [BitVec.toNat_ofNat]
    omega
  have not_top : BitVec.ofNat 11 biased ≠ -1#_ := by
    rw [Ne, ← BitVec.toNat_inj, stored_toNat]
    simp only [BitVec.neg_one_eq_allOnes, BitVec.toNat_allOnes]
    omega
  have not_bottom : BitVec.ofNat 11 biased ≠ 0#_ := by
    rw [Ne, ← BitVec.toNat_inj, stored_toNat, BitVec.toNat_zero]
    omega
  have restored : (1#1 ++ BitVec.ofNat 52 mantissa).toNat = mantissa := by
    have le := full.le
    have lt := full.lt
    rw [toNat_leadingOne, BitVec.toNat_ofNat]
    omega
  have packed : UnpackedFloat.pack .binary64 (.finite sign mantissa exponent full.positive) =
      packComponents .binary64 sign (BitVec.ofNat 11 biased) (BitVec.ofNat 52 mantissa) := by
    delta UnpackedFloat.pack
    dsimp only
    rw [stored, if_neg (by omega), if_pos (by rw [full.log2_eq]; rfl)]
  change UnpackedFloat.unpack .binary64 (UnpackedFloat.pack .binary64 _) = _
  rw [packed]
  delta UnpackedFloat.unpack
  dsimp only
  rw [unpackExponent_packComponents, if_neg not_top, if_neg not_bottom, unpackSign_packComponents,
    ofBitVec_toBitVec]
  apply finite_congr
  · rw [unpackMantissa_packComponents, restored]
  · rw [stored_toNat]
    omega

/-- A float is a fraction of which so many bits are below the line, and it is held as it is. -/
def IsFraction (x : Float) (numerator bits : Nat) : Prop :=
  ∃ (shift : Nat) (full : IsFull (numerator <<< shift)), x.toModel.unpack =
    .finite .positive (numerator <<< shift) (-(bits + shift : Nat)) full.positive

variable {x y : Float} {numerator other bits other_bits : Nat}

/-- A fraction comes out of rounding as it has gone in. -/
theorem isFraction_of_rounded (positive : 0 < numerator) (lt : numerator < 0x20000000000000)
    (few : bits ≤ 1000) (shift : Nat) (moved : 0x10000000000000 ≤ numerator <<< shift)
    (rounded : x.toModel = Float.Model.pack (roundWithAccuracy .binary64 .positive
      (numerator <<< shift) (-(bits + shift : Nat)) .exact)) :
    IsFraction x numerator bits := by
  obtain ⟨up, up_le, full⟩ : ∃ up, up ≤ 52 ∧ IsFull (numerator <<< up) :=
    ⟨52 - numerator.log2, Nat.sub_le .., isFull_shiftLeft positive lt⟩
  have up_le_shift : up ≤ shift := by
    apply Nat.le_of_not_lt
    intro above
    have le : numerator <<< (shift + 1) ≤ numerator <<< up := by
      rw [Nat.shiftLeft_eq, Nat.shiftLeft_eq]
      exact Nat.mul_le_mul_left _ (Nat.pow_le_pow_right (by decide) above)
    have full_lt := full.lt
    rw [Nat.shiftLeft_succ] at le
    omega
  obtain ⟨back, rfl⟩ := Nat.exists_eq_add_of_le up_le_shift
  refine ⟨up, full, ?_⟩
  rw [rounded, Nat.shiftLeft_add, roundWithAccuracy_eq full back (by omega),
    unpack_pack full (by omega) (by omega)]
  exact finite_congr rfl (by omega)

/-- A product is as exact as its factors, if it has few enough bits. -/
theorem IsFraction.mul (first : IsFraction x numerator bits)
    (second : IsFraction y other other_bits) (lt : numerator * other < 0x20000000000000)
    (few : bits + other_bits ≤ 1000) :
    IsFraction (x * y) (numerator * other) (bits + other_bits) := by
  obtain ⟨shift, full, x_eq⟩ := first
  obtain ⟨other_shift, other_full, y_eq⟩ := second
  have product : (numerator * other) <<< (shift + other_shift) =
      numerator <<< shift * other <<< other_shift := by
    simp only [Nat.shiftLeft_eq, Nat.pow_add]
    exact Nat.mul_mul_mul_comm ..
  have moved : 0x10000000000000 * 0x10000000000000 ≤
      (numerator * other) <<< (shift + other_shift) :=
    product ▸ Nat.mul_le_mul full.le other_full.le
  have positive : 0 < numerator * other := by
    apply Nat.pos_of_ne_zero
    intro none
    rw [none, Nat.zero_shiftLeft] at moved
    omega
  refine isFraction_of_rounded positive lt few (shift + other_shift) (by omega) ?_
  change Float.Model.pack (UnpackedFloat.mul _ x.toModel.unpack y.toModel.unpack) = _
  have exponent : (-(bits + shift : Nat) + -(other_bits + other_shift : Nat) : Int) =
      -(bits + other_bits + (shift + other_shift) : Nat) := by
    omega
  rw [x_eq, y_eq, product, ← exponent]
  rfl

/-- To make a float of a natural number is to round it, with all of its bits moved up. -/
theorem ofNat_eq (positive : 0 < mantissa) : UnpackedFloat.ofNat .binary64 mantissa =
    roundWithAccuracy .binary64 .positive (mantissa <<< (52 - mantissa.log2))
      (-(52 - mantissa.log2 : Nat)) .exact := by
  have above : compare (mantissa : Int) 0 = .gt := Int.compare_eq_gt.mpr (by omega)
  have target : Format.binary64.targetExponent (totalExponent mantissa 0) =
      (mantissa.log2 : Int) - 52 := by
    rw [targetExponent_eq, totalExponent]
    omega
  have up : (-((mantissa.log2 : Int) - 52)).toNat = 52 - mantissa.log2 := by omega
  rw [UnpackedFloat.ofNat, UnpackedFloat.ofInt, UnpackedFloat.normalize, above]
  simp only [UnpackedFloat.round, Int.toNat_natCast, target, decreaseExponent, Int.zero_sub, up]

theorem isFraction_toFloat (positive : 0 < numerator) (lt : numerator < 0x20000000000000) :
    IsFraction numerator.toUInt64.toFloat numerator 0 := by
  have word : numerator.toUInt64.toNat = numerator :=
    UInt64.toNat_ofNat_of_lt (Nat.lt_trans lt (by decide))
  apply isFraction_of_rounded positive lt (by decide) _ (le_shiftLeft positive)
  change Float.Model.pack (UnpackedFloat.ofNat _ numerator.toUInt64.toNat) = _
  rw [word, ofNat_eq positive, Nat.zero_add]

/-- A number of few bits goes through a word, and is multiplied by one. -/
theorem ofNat_eq_mul (lt : numerator < 0x20000000000000) : Float.ofNat numerator =
    numerator.toUInt64.toFloat * Float.ofBits 0x3ff0000000000000 := by
  change Float.ofScientific numerator false 0 = _
  rw [Float.ofScientific, dif_pos ⟨lt, by decide⟩]
  rfl

/-- Natural numbers are fractions with nothing below the line. -/
theorem isFraction_ofNat (positive : 0 < numerator) (lt : numerator < 0x20000000000000) :
    IsFraction (Float.ofNat numerator) numerator 0 := by
  have one : IsFraction (Float.ofBits 0x3ff0000000000000) 1 0 := ⟨52, ⟨by decide, by decide⟩, rfl⟩
  have product := (isFraction_toFloat positive lt).mul one (by rwa [Nat.mul_one]) (by decide)
  rw [Nat.mul_one] at product
  rw [ofNat_eq_mul lt]
  exact product

/-- On the way to an integer the bits below the line are cut off. -/
theorem IsFraction.toUInt64 (fraction : IsFraction x numerator bits) :
    x.toUInt64.toNat = numerator >>> bits := by
  obtain ⟨shift, full, x_eq⟩ := fraction
  have cut : roundToInt .positive (numerator <<< shift) (-(bits + shift : Nat)) =
      (numerator >>> bits : Nat) := by
    have up : (-(bits + shift : Nat) : Int).toNat = 0 := by omega
    have down : (0 - -(bits + shift : Nat) : Int).toNat = shift + bits := by omega
    simp only [roundToInt, decreaseExponent, Int.sub_zero, up, Int.natCast_zero, shiftToExponent,
      Nat.shiftLeft_zero, down, ExtendedMantissa.ofMantissaAndAccuracy, mantissa_shiftRight,
      Nat.shiftRight_add, Nat.shiftLeft_shiftRight, Sign.apply]
  have small : numerator >>> bits < UInt64.size := by
    have le : numerator >>> bits ≤ numerator <<< shift :=
      Nat.le_trans (Nat.shiftRight_le ..) Nat.le_shiftLeft
    exact Nat.lt_trans (Nat.lt_of_le_of_lt le full.lt) (by decide)
  change (UnpackedFloat.toUInt64 x.toModel.unpack).toNat = _
  rw [x_eq]
  change (UInt64.ofNatClamp (roundToInt .positive (numerator <<< shift) _).toNat).toNat = _
  rw [cut, Int.toNat_natCast, UInt64.toNat_ofNatClamp_of_lt small]

/-! ## Words -/

/-- The float of a word has a full mantissa. -/
theorem exists_unpack_toFloat {word : UInt64} (positive : 0 < word.toNat) :
    ∃ (rounded : Nat) (exponent : Int) (full : IsFull rounded), -52 ≤ exponent ∧ exponent ≤ 12 ∧
      word.toFloat.toModel.unpack = .finite .positive rounded exponent full.positive := by
  have bits : word.toNat.log2 < 64 :=
    (Nat.log2_lt (Nat.ne_of_gt positive)).mpr word.toNat_lt
  have normal : (-1074 : Int) ≤ -(52 - word.toNat.log2 : Nat) := by omega
  obtain ⟨rounded, raised, full, raised_le, rounded_eq⟩ :=
    exists_roundWithAccuracy .positive (le_shiftLeft positive) normal
  rw [log2_shiftLeft positive] at raised_le
  refine ⟨rounded, -(52 - word.toNat.log2 : Nat) + raised, full, by omega, by omega, ?_⟩
  change (Float.Model.pack (UnpackedFloat.ofNat .binary64 word.toNat)).unpack = _
  rw [ofNat_eq positive, rounded_eq, unpack_pack full (by omega) (by omega)]

/-- The float of a word is finite, and stays so when it is multiplied by one. -/
theorem isFinite_toFloat_mul_one {word : UInt64} (positive : 0 < word.toNat) :
    (word.toFloat * Float.ofScientific 1 false 0).isFinite = true := by
  obtain ⟨rounded, exponent, full, le, ge, unpacked⟩ := exists_unpack_toFloat positive
  have one : (Float.ofScientific 1 false 0).toModel.unpack =
      .finite .positive (1 <<< 52) (-52) (by decide) := by
    rw [Float.ofScientific, dif_pos ⟨by decide, by decide⟩]
    rfl
  have product : UnpackedFloat.mul .binary64 (.finite .positive rounded exponent full.positive)
      (.finite .positive (1 <<< 52) (-52) (by decide)) =
      .finite .positive rounded exponent full.positive := by
    change roundWithAccuracy .binary64 .positive (rounded * 1 <<< 52) (exponent + -52) .exact = _
    have moved : rounded * 1 <<< 52 = rounded <<< 52 := by
      rw [Nat.shiftLeft_eq, Nat.shiftLeft_eq, Nat.one_mul]
    rw [moved, roundWithAccuracy_eq full 52 (by omega)]
    exact finite_congr rfl (by omega)
  change (Float.Model.pack (UnpackedFloat.mul .binary64 word.toFloat.toModel.unpack
    (Float.ofScientific 1 false 0).toModel.unpack)).unpack.isFinite = true
  rw [unpacked, one, product, unpack_pack full (by omega) (by omega)]
  rfl

end EvoSearch.Numeric
