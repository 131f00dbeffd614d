/-
# Cells of a grid

The cells of a grid are numbered row by row, a row for every number of variables. Structures that
lie outside the grid belong to its last row or column.
-/

import EvoSearch.Config.Evolution
import EvoSearch.Diversity
import EvoSearch.Word

namespace EvoSearch.Grid

/-- The number of cells. -/
def capacity (grid : Grid) : Nat :=
  grid.vars.toNat * grid.ops.toNat

/-- The cell of a number of variables and a number of operations. -/
def cellIndex (grid : Grid) (vars ops : UInt64) : UInt64 :=
  min vars (grid.vars - 1) * grid.ops + min ops (grid.ops - 1)

/-- The cell of features. -/
def cellOf (grid : Grid) (features : Features) : Nat :=
  (grid.cellIndex features.vars features.ops).toNat

/-- The two sizes, rows first. -/
def sizes (grid : Grid) : List UInt64 :=
  [grid.vars, grid.ops]

theorem capacity_pos (grid : Grid) : 0 < grid.capacity :=
  Nat.mul_pos grid.vars_pos grid.ops_pos

theorem toNat_min_pred (a d : UInt64) (positive : 0 < d.toNat) :
    (min a (d - 1)).toNat = min a.toNat (d.toNat - 1) := by
  have pred := Word.toNat_pred positive
  show (if a ≤ d - 1 then a else d - 1).toNat = _
  split
  · next le =>
    rw [UInt64.le_iff_toNat_le, pred] at le
    omega
  · next gt =>
    rw [UInt64.le_iff_toNat_le, pred] at gt
    omega

/-- The number of a cell, without any wrapping around in its computation. -/
theorem toNat_cellIndex (grid : Grid) (vars ops : UInt64) :
    (grid.cellIndex vars ops).toNat =
      min vars.toNat (grid.vars.toNat - 1) * grid.ops.toNat +
        min ops.toNat (grid.ops.toNat - 1) := by
  have row_le : min vars.toNat (grid.vars.toNat - 1) * grid.ops.toNat + grid.ops.toNat ≤
      grid.vars.toNat * grid.ops.toNat := by
    rw [← Nat.succ_mul]
    apply Nat.mul_le_mul_right
    have := grid.vars_pos
    omega
  have fits : grid.vars.toNat * grid.ops.toNat < 18446744073709551616 := grid.capacity_lt
  have := grid.ops_pos
  rw [cellIndex, UInt64.toNat_add, UInt64.toNat_mul, toNat_min_pred _ _ grid.vars_pos,
    toNat_min_pred _ _ grid.ops_pos, Nat.mod_eq_of_lt (a := _ * _) (by omega),
    Nat.mod_eq_of_lt (by omega)]

/-- Every number of a cell is one of a cell that there is. -/
theorem cellOf_lt (grid : Grid) (features : Features) :
    grid.cellOf features < grid.capacity := by
  rw [cellOf, toNat_cellIndex, capacity]
  have row_le : min features.vars.toNat (grid.vars.toNat - 1) * grid.ops.toNat +
      grid.ops.toNat ≤ grid.vars.toNat * grid.ops.toNat := by
    rw [← Nat.succ_mul]
    apply Nat.mul_le_mul_right
    have := grid.vars_pos
    omega
  have := grid.ops_pos
  omega

end EvoSearch.Grid
