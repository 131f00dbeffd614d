/-
# Uniform ranges from words

How one word of `bits` random bits stands for one of `span` equally likely offsets. The word is
multiplied by the span; the high half of the product is the offset, and the low half decides
whether the word is used at all: it is if the low half lies in a zone, whose size is a multiple of
the span, so no offset is favoured. One zone is found by a shift, and another is as wide as
possible. For 64 bits, offsets are also computed on words, and they are the same.
-/

import EvoSearch.Word

namespace EvoSearch.Random

/-- Zero bits in front of `n`, written in `bits` bits. -/
def leadingZeros (bits n : Nat) : Nat :=
  bits - 1 - n.log2

/-- Largest low half of a product that is used when `2 ^ leadingZeros` words stand for each
offset. -/
def zone (bits span : Nat) : Nat :=
  span <<< leadingZeros bits span - 1

/-- Largest low half of a product that is used when as many words as possible stand for each
offset. -/
def widestZone (bits span : Nat) : Nat :=
  Nat.pow 2 bits - 1 - (Nat.pow 2 bits - span) % span

/-- The offset below `span` that `word` stands for, if the low half lies in the zone that ends
with `last`. -/
def offsetWithin? (last bits span word : Nat) : Option Nat :=
  let product := word * span
  if product % Nat.pow 2 bits ≤ last then some (product / Nat.pow 2 bits) else none

/-- The offset below `span` that `word` stands for, if the word is used. A span of all words
uses every word as it is. -/
def offset? (bits span word : Nat) : Option Nat :=
  offsetWithin? (zone bits span) bits span word

/-- The high half of the product of two words of 64 bits, from the products of their halves. -/
def highProduct (a b : UInt64) : UInt64 :=
  let a0 := a.toUInt32.toUInt64
  let a1 := a >>> 32
  let b0 := b.toUInt32.toUInt64
  let b1 := b >>> 32
  let cross := a1 * b0
  let middle := a0 * b1 + cross.toUInt32.toUInt64 + ((a0 * b0) >>> 32)
  a1 * b1 + (cross >>> 32) + (middle >>> 32)

/-- The offset up to `bound` that `word` stands for, computed on words. -/
def wordOffset? (bound word : UInt64) : Option UInt64 :=
  let span := bound + 1
  if span = 0 then some word
  else if word * span ≤ (span <<< (63 - span.log2)) - 1 then some (highProduct word span)
  else none

/-- Offsets lie below the span. -/
theorem offsetWithin?_lt {last bits span word offset : Nat} (positive : 0 < span)
    (small : word < Nat.pow 2 bits) (found : offsetWithin? last bits span word = some offset) :
    offset < span := by
  simp only [offsetWithin?] at found
  split at found
  · cases found
    have words : 0 < Nat.pow 2 bits := Nat.two_pow_pos bits
    rw [Nat.div_lt_iff_lt_mul words]
    rw [Nat.mul_comm]
    exact Nat.mul_lt_mul_of_pos_left small positive
  · cases found

/-- The carries of a product that is put together from products of halves. -/
theorem carry_eq (p q r s : Nat) :
    p + q / 4294967296 + (r + q % 4294967296 + s / 4294967296) / 4294967296 =
      (p * 18446744073709551616 + (q + r) * 4294967296 + s) / 18446744073709551616 := by
  omega

/-- A product from the products of halves. -/
theorem mul_halves (a1 a0 b1 b0 : Nat) :
    (4294967296 * a1 + a0) * (4294967296 * b1 + b0) =
      a1 * b1 * 18446744073709551616 + (a1 * b0 + a0 * b1) * 4294967296 + a0 * b0 := by
  grind

theorem mul_le_of_halves {x y : Nat} (hx : x < 4294967296) (hy : y < 4294967296) :
    x * y ≤ 18446744065119617025 :=
  Nat.mul_le_mul (Nat.le_pred_of_lt hx) (Nat.le_pred_of_lt hy)

theorem toNat_highProduct (a b : UInt64) :
    (highProduct a b).toNat = a.toNat * b.toNat / 18446744073709551616 := by
  have ha := a.toNat_lt
  have hb := b.toNat_lt
  have split := mul_halves (a.toNat / 4294967296) (a.toNat % 4294967296)
    (b.toNat / 4294967296) (b.toNat % 4294967296)
  rw [Nat.div_add_mod, Nat.div_add_mod] at split
  rw [split, ← carry_eq]
  have a1 : a.toNat / 4294967296 < 4294967296 := by omega
  have a0 : a.toNat % 4294967296 < 4294967296 := by omega
  have b1 : b.toNat / 4294967296 < 4294967296 := by omega
  have b0 : b.toNat % 4294967296 < 4294967296 := by omega
  have hp := mul_le_of_halves a1 b1
  have hq := mul_le_of_halves a1 b0
  have hr := mul_le_of_halves a0 b1
  have hs := mul_le_of_halves a0 b0
  have shift (x : UInt64) : (x >>> 32).toNat = x.toNat / 4294967296 := by
    rw [UInt64.toNat_shiftRight, Nat.shiftRight_eq_div_pow]
    rfl
  have low (x : UInt64) : x.toUInt32.toUInt64.toNat = x.toNat % 4294967296 := by
    simp
  simp only [highProduct, UInt64.toNat_add, UInt64.toNat_mul, shift, low]
  generalize a.toNat / 4294967296 * (b.toNat / 4294967296) = p at *
  generalize a.toNat / 4294967296 * (b.toNat % 4294967296) = q at *
  generalize a.toNat % 4294967296 * (b.toNat / 4294967296) = r at *
  generalize a.toNat % 4294967296 * (b.toNat % 4294967296) = s at *
  have total : p * 18446744073709551616 + (q + r) * 4294967296 + s <
      18446744073709551616 * 18446744073709551616 := by
    rw [← split]
    exact Nat.mul_lt_mul_of_lt_of_le ha (Nat.le_of_lt hb) (by decide)
  omega

/-- The zone of 64 bits, computed on words. -/
theorem toNat_zone {span : UInt64} (h : span ≠ 0) :
    ((span <<< (63 - span.log2)) - 1).toNat = zone 64 span.toNat := by
  have nonzero : span.toNat ≠ 0 := Nat.ne_of_gt (toNat_pos_of_ne_zero h)
  have lower := Nat.log2_self_le nonzero
  have upper := @Nat.lt_log2_self span.toNat
  have small : span.toNat.log2 < 64 := (Nat.log2_lt nonzero).mpr span.toNat_lt
  have log : span.log2.toNat = span.toNat.log2 := rfl
  have shift : (63 - span.log2).toNat = 63 - span.toNat.log2 := by
    rw [UInt64.toNat_sub_of_le, log]
    · rfl
    · rw [UInt64.le_iff_toNat_le, log]
      exact Nat.le_of_lt_succ small
  have fits : span.toNat <<< (63 - span.toNat.log2) < 2 ^ 64 := by
    rw [Nat.shiftLeft_eq]
    calc span.toNat * 2 ^ (63 - span.toNat.log2)
        < 2 ^ (span.toNat.log2 + 1) * 2 ^ (63 - span.toNat.log2) :=
          Nat.mul_lt_mul_of_pos_right upper (Nat.two_pow_pos _)
      _ = 2 ^ 64 := by rw [← Nat.pow_add]; congr 1; omega
  have shifted : (span <<< (63 - span.log2)).toNat = span.toNat <<< (63 - span.toNat.log2) := by
    rw [UInt64.toNat_shiftLeft, shift, Nat.mod_eq_of_lt (by omega : 63 - span.toNat.log2 < 64),
      Nat.mod_eq_of_lt fits]
  have positive : 1 ≤ (span <<< (63 - span.log2)).toNat := by
    rw [shifted, Nat.shiftLeft_eq]
    exact Nat.mul_pos (Nat.pos_of_ne_zero nonzero) (Nat.two_pow_pos _)
  have one_le : (1 : UInt64) ≤ span <<< (63 - span.log2) := UInt64.le_iff_toNat_le.mpr positive
  rw [UInt64.toNat_sub_of_le _ _ one_le, shifted]
  rfl

/-- Words bring the same offsets as numbers. -/
theorem map_wordOffset? (bound word : UInt64) :
    (wordOffset? bound word).map UInt64.toNat = offset? 64 (bound.toNat + 1) word.toNat := by
  have words : Nat.pow 2 64 = 18446744073709551616 := rfl
  have hw := word.toNat_lt
  simp only [wordOffset?, offset?, offsetWithin?, words]
  by_cases all : bound + 1 = 0
  · have last : bound.toNat + 1 = 18446744073709551616 := by
      have := congrArg UInt64.toNat all
      rw [UInt64.toNat_add] at this
      have := bound.toNat_lt
      simp at *
      omega
    rw [if_pos all, last, Nat.mul_mod_left, if_pos (Nat.zero_le _),
      Nat.mul_div_cancel _ (by decide)]
    rfl
  · rw [if_neg all, ← Word.toNat_succ all]
    simp only [UInt64.le_iff_toNat_le, toNat_zone all, UInt64.toNat_mul]
    split
    · exact congrArg some (toNat_highProduct _ _)
    · rfl

end EvoSearch.Random
