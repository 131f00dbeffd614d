/-
# Room

A row of things of one width is kept in one piece of memory. The bytes of a piece are counted by a
signed word of 64 bits, so there is no room for a longer row, whatever the machine.
-/

import EvoSearch.Fault

namespace EvoSearch

/-- The number of bytes of the longest piece of memory. -/
def longestPiece : Nat := 0x7fffffffffffffff

/-- Whether there is room for a row of `count` things of `width` bytes. -/
def hasRoom (count width : Nat) : Bool :=
  count * width ≤ longestPiece

/-- What is kept in a row of `count` things of `width` bytes, if there is room for it. -/
def ifRoom {α : Type} (count width : Nat) (row : Unit → α) : Except Fault α :=
  if hasRoom count width then .ok (row ()) else .error .noRoom

theorem hasRoom_of_le {count more width : Nat} (fits : hasRoom more width) (le : count ≤ more) :
    hasRoom count width := by
  simp only [hasRoom, decide_eq_true_eq] at *
  exact Nat.le_trans (Nat.mul_le_mul_right width le) fits

end EvoSearch
