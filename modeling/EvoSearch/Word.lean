/-
# Words as numbers

Sizes and counts are words of 64 bits, and are reasoned about as natural numbers. The two go
together as long as nothing wraps around: taking one off a word that is not zero does not, and
adding one does only to the last word, where it leads to zero.
-/

namespace EvoSearch

variable {word : UInt64}

theorem toNat_pos_of_ne_zero (nonzero : word ≠ 0) : 0 < word.toNat := by
  apply Nat.pos_of_ne_zero
  intro zero
  exact nonzero (UInt64.toNat_inj.mp zero)

namespace Word

theorem toNat_pos_iff : 0 < word.toNat ↔ word ≠ 0 := by
  constructor
  · rintro positive rfl
    cases positive
  · exact toNat_pos_of_ne_zero

theorem toNat_pred (positive : 0 < word.toNat) : (word - 1).toNat = word.toNat - 1 :=
  UInt64.toNat_sub_of_le _ _ (UInt64.le_iff_toNat_le.mpr positive)

theorem toNat_succ (counted : word + 1 ≠ 0) : (word + 1).toNat = word.toNat + 1 := by
  have := word.toNat_lt
  have := toNat_pos_of_ne_zero counted
  rw [UInt64.toNat_add] at *
  simp at *
  omega

end Word

end EvoSearch
