/-
# Addresses of cells

A list of sizes that is accepted is a grid whose cells can all be counted in a word, and that is
what the address of a cell is computed by: no step of the computation wraps around, whatever the
coordinates. Coordinates outside are moved to the edge first. After that the address is a row and a
column in one number, so each of the two can be read off it again.
-/

import EvoSearch.Archive.Basic

namespace EvoSearch.Grid

variable {sizes : List UInt64} {grid : Grid}

theorem ofSizes_sizes (grid : Grid) : ofSizes grid.sizes = .ok grid := by
  rw [sizes, ofSizes, dif_pos ⟨grid.vars_pos, grid.ops_pos⟩, dif_pos grid.capacity_lt]

theorem sizes_of_ofSizes (accepted : ofSizes sizes = .ok grid) : grid.sizes = sizes := by
  unfold ofSizes at accepted
  split at accepted
  · split at accepted
    · split at accepted
      · obtain rfl := Except.ok.inj accepted
        rfl
      · cases accepted
    · cases accepted
  · cases accepted

/-- Two sizes make a grid if neither is zero and a word can count the cells. -/
theorem exists_ofSizes_iff : (∃ grid, ofSizes sizes = .ok grid) ↔
    ∃ vars ops, sizes = [vars, ops] ∧ vars ≠ 0 ∧ ops ≠ 0 ∧
      vars.toNat * ops.toNat < UInt64.size := by
  constructor
  · rintro ⟨grid, accepted⟩
    exact ⟨grid.vars, grid.ops, (sizes_of_ofSizes accepted).symm,
      Word.toNat_pos_iff.mp grid.vars_pos, Word.toNat_pos_iff.mp grid.ops_pos, grid.capacity_lt⟩
  · rintro ⟨vars, ops, rfl, vars_ne, ops_ne, capacity_lt⟩
    exact ⟨_, ofSizes_sizes
      ⟨vars, ops, Word.toNat_pos_iff.mpr vars_ne, Word.toNat_pos_iff.mpr ops_ne, capacity_lt⟩⟩

/-- The row of a number of variables, which is the last one for all numbers outside. -/
def row (grid : Grid) (vars : UInt64) : Nat :=
  min vars.toNat (grid.vars.toNat - 1)

/-- The column of a number of operations, which is the last one for all numbers outside. -/
def column (grid : Grid) (ops : UInt64) : Nat :=
  min ops.toNat (grid.ops.toNat - 1)

theorem row_lt (grid : Grid) (vars : UInt64) : grid.row vars < grid.vars.toNat := by
  have := grid.vars_pos
  rw [row]
  omega

theorem column_lt (grid : Grid) (ops : UInt64) : grid.column ops < grid.ops.toNat := by
  have := grid.ops_pos
  rw [column]
  omega

theorem toNat_cellIndex_eq (grid : Grid) (vars ops : UInt64) :
    (grid.cellIndex vars ops).toNat = grid.row vars * grid.ops.toNat + grid.column ops :=
  grid.toNat_cellIndex vars ops

/-- A row and a column inside have an address below the number of all cells. -/
theorem address_lt {row column : Nat} (row_lt : row < grid.vars.toNat)
    (column_lt : column < grid.ops.toNat) : row * grid.ops.toNat + column < grid.capacity := by
  calc row * grid.ops.toNat + column
      < row * grid.ops.toNat + grid.ops.toNat := Nat.add_lt_add_left column_lt _
    _ = (row + 1) * grid.ops.toNat := (Nat.succ_mul row _).symm
    _ ≤ grid.capacity := Nat.mul_le_mul_right _ row_lt

/-- One step of the computation of an address: what there is so far is multiplied by a further size,
and the coordinate that goes with it is added, at the edge if it is outside. -/
def step (index coordinate size : UInt64) : UInt64 :=
  index * size + min coordinate (size - 1)

/-- Nothing wraps around in a step: not in the last place of the size, nor in the product, nor in
the sum. -/
structure IsExact (index coordinate size : UInt64) : Prop where
  last : (size - 1).toNat + 1 = size.toNat
  product : (index * size).toNat = index.toNat * size.toNat
  sum : (step index coordinate size).toNat =
    (index * size).toNat + (min coordinate (size - 1)).toNat

/-- A step is exact if there is a word for all places of a further size. -/
theorem isExact_of_le {index size : UInt64} (coordinate : UInt64) (positive : 0 < size.toNat)
    (le : (index.toNat + 1) * size.toNat ≤ UInt64.size) : IsExact index coordinate size := by
  have last : (size - 1).toNat + 1 = size.toNat := by
    rw [Word.toNat_pred positive]
    exact Nat.sub_add_cancel positive
  have places : index.toNat * size.toNat + size.toNat ≤ UInt64.size :=
    Nat.succ_mul index.toNat size.toNat ▸ le
  have product : (index * size).toNat = index.toNat * size.toNat := by
    rw [UInt64.toNat_mul]
    exact Nat.mod_eq_of_lt (Nat.lt_of_lt_of_le (Nat.lt_add_of_pos_right positive) places)
  have inside : (min coordinate (size - 1)).toNat < size.toNat := by
    rw [toNat_min_pred _ _ positive]
    omega
  refine ⟨last, product, ?_⟩
  rw [step, UInt64.toNat_add, product]
  exact Nat.mod_eq_of_lt (Nat.lt_of_lt_of_le (Nat.add_lt_add_left inside _) places)

/-- An address is computed in two steps from zero. -/
theorem cellIndex_eq_step (grid : Grid) (vars ops : UInt64) :
    grid.cellIndex vars ops = step (step 0 vars grid.vars) ops grid.ops := by
  rw [cellIndex, step, step, UInt64.zero_mul, UInt64.zero_add]

theorem toNat_step_zero (grid : Grid) (vars : UInt64) :
    (step 0 vars grid.vars).toNat = grid.row vars := by
  rw [step, UInt64.zero_mul, UInt64.zero_add]
  exact toNat_min_pred vars grid.vars grid.vars_pos

theorem isExact_step_zero (grid : Grid) (vars : UInt64) : IsExact 0 vars grid.vars := by
  apply isExact_of_le vars grid.vars_pos
  rw [UInt64.toNat_zero, Nat.zero_add, Nat.one_mul]
  exact Nat.le_of_lt grid.vars.toNat_lt

theorem isExact_step (grid : Grid) (vars ops : UInt64) :
    IsExact (step 0 vars grid.vars) ops grid.ops := by
  apply isExact_of_le ops grid.ops_pos
  rw [toNat_step_zero]
  exact Nat.le_trans (Nat.mul_le_mul_right _ (grid.row_lt vars)) (Nat.le_of_lt grid.capacity_lt)

/-- The column is the remainder of an address by the length of a row, and the row the quotient. -/
theorem cellIndex_eq_iff {vars ops otherVars otherOps : UInt64} :
    grid.cellIndex vars ops = grid.cellIndex otherVars otherOps ↔
      grid.row vars = grid.row otherVars ∧ grid.column ops = grid.column otherOps := by
  rw [← UInt64.toNat_inj, toNat_cellIndex_eq, toNat_cellIndex_eq]
  constructor
  · intro same
    have row_eq (vars ops : UInt64) :
        (grid.row vars * grid.ops.toNat + grid.column ops) / grid.ops.toNat = grid.row vars := by
      rw [Nat.mul_comm, Nat.mul_add_div grid.ops_pos, Nat.div_eq_of_lt (grid.column_lt ops),
        Nat.add_zero]
    have column_eq (vars ops : UInt64) :
        (grid.row vars * grid.ops.toNat + grid.column ops) % grid.ops.toNat = grid.column ops := by
      rw [Nat.mul_comm, Nat.mul_add_mod, Nat.mod_eq_of_lt (grid.column_lt ops)]
    exact ⟨by rw [← row_eq vars ops, same, row_eq], by rw [← column_eq vars ops, same, column_eq]⟩
  · rintro ⟨row_eq, column_eq⟩
    rw [row_eq, column_eq]

/-- There is a pair of coordinates for every cell. -/
theorem exists_cellIndex {address : Nat} (address_lt : address < grid.capacity) :
    ∃ vars ops, (grid.cellIndex vars ops).toNat = address := by
  have row_lt : address / grid.ops.toNat < grid.vars.toNat :=
    (Nat.div_lt_iff_lt_mul grid.ops_pos).mpr address_lt
  have column_lt : address % grid.ops.toNat < grid.ops.toNat := Nat.mod_lt _ grid.ops_pos
  have row_eq : (UInt64.ofNat (address / grid.ops.toNat)).toNat = address / grid.ops.toNat :=
    UInt64.toNat_ofNat_of_lt' (Nat.lt_trans row_lt grid.vars.toNat_lt)
  have column_eq : (UInt64.ofNat (address % grid.ops.toNat)).toNat = address % grid.ops.toNat :=
    UInt64.toNat_ofNat_of_lt' (Nat.lt_trans column_lt grid.ops.toNat_lt)
  refine ⟨.ofNat (address / grid.ops.toNat), .ofNat (address % grid.ops.toNat), ?_⟩
  rw [toNat_cellIndex_eq, row, column, row_eq, column_eq, Nat.min_eq_left (by omega),
    Nat.min_eq_left (by omega)]
  exact Nat.div_add_mod' address grid.ops.toNat

/-- A list of sizes is a grid exactly if there are two, neither of them zero, with no more cells
than a word can count. In such a grid the address of any two coordinates is computed in two steps,
neither of which wraps around: it is that of the row and the column that they come to at the edge,
and lies below the number of cells of an archive. All cells are addressed, two pairs address the
same one exactly if they come to the same row and column, and there is a cell for every program. -/
theorem cells_are_addressed (sizes : List UInt64) :
    ((∃ grid, ofSizes sizes = .ok grid) ↔ ∃ vars ops, sizes = [vars, ops] ∧ vars ≠ 0 ∧ ops ≠ 0 ∧
      vars.toNat * ops.toNat < 18446744073709551616) ∧
    ∀ grid, ofSizes sizes = .ok grid → sizes = [grid.vars, grid.ops] ∧
      (Archive.ofGrid grid).cells.size = grid.vars.toNat * grid.ops.toNat ∧
      (∀ vars ops, grid.cellIndex vars ops = step (step 0 vars grid.vars) ops grid.ops ∧
        IsExact 0 vars grid.vars ∧ IsExact (step 0 vars grid.vars) ops grid.ops ∧
        (grid.cellIndex vars ops).toNat = min vars.toNat (grid.vars.toNat - 1) * grid.ops.toNat +
          min ops.toNat (grid.ops.toNat - 1) ∧
        (grid.cellIndex vars ops).toNat < (Archive.ofGrid grid).cells.size) ∧
      (∀ address, address < (Archive.ofGrid grid).cells.size →
        ∃ vars ops, (grid.cellIndex vars ops).toNat = address) ∧
      (∀ vars ops otherVars otherOps,
        grid.cellIndex vars ops = grid.cellIndex otherVars otherOps ↔
          min vars.toNat (grid.vars.toNat - 1) = min otherVars.toNat (grid.vars.toNat - 1) ∧
          min ops.toNat (grid.ops.toNat - 1) = min otherOps.toNat (grid.ops.toNat - 1)) ∧
      ∀ (archive : Archive) (program : Program), archive.grid = grid →
        archive.cellOf program =
          (grid.cellIndex (Features.ofProgram program).vars
            (Features.ofProgram program).ops).toNat ∧
        archive.cellOf program < archive.cells.size := by
  refine ⟨exists_ofSizes_iff, fun grid accepted => ?_⟩
  have size_eq : (Archive.ofGrid grid).cells.size = grid.capacity :=
    (Archive.ofGrid grid).size_cells
  refine ⟨(sizes_of_ofSizes accepted).symm, size_eq, fun vars ops => ?_,
    fun address address_lt => ?_, fun vars ops otherVars otherOps => cellIndex_eq_iff, ?_⟩
  · refine ⟨grid.cellIndex_eq_step vars ops, grid.isExact_step_zero vars,
      grid.isExact_step vars ops, grid.toNat_cellIndex vars ops, ?_⟩
    rw [size_eq, toNat_cellIndex_eq]
    exact address_lt (grid.row_lt vars) (grid.column_lt ops)
  · exact exists_cellIndex (size_eq ▸ address_lt)
  · rintro archive program rfl
    refine ⟨rfl, ?_⟩
    rw [archive.size_cells]
    exact cellOf_lt archive.grid (Features.ofProgram program)

/-- In the longest column of cells that there can be, coordinates beyond its end come to the last
one, whose address is the largest. -/
theorem cells_are_addressed_of_column : ∃ grid,
    ofSizes [18446744073709551615, 1] = .ok grid ∧ IsExact 0 18446744073709551615 grid.vars ∧
    (grid.cellIndex 18446744073709551615 7).toNat = 18446744073709551614 ∧
    grid.cellIndex 18446744073709551615 7 = grid.cellIndex 18446744073709551614 0 := by
  obtain ⟨accepted_iff, of_accepted⟩ := cells_are_addressed [18446744073709551615, 1]
  obtain ⟨grid, accepted⟩ := accepted_iff.mpr ⟨_, _, rfl, by decide, by decide, by decide⟩
  obtain ⟨sizes_eq, _, address_eq, _, same_iff, _⟩ := of_accepted grid accepted
  obtain ⟨_, exact, _, toNat_eq, _⟩ := address_eq 18446744073709551615 7
  simp only [List.cons.injEq, and_true] at sizes_eq
  obtain ⟨vars_eq, ops_eq⟩ := sizes_eq
  rw [← vars_eq, ← ops_eq] at toNat_eq
  refine ⟨grid, accepted, exact, toNat_eq, (same_iff _ _ _ _).mpr ?_⟩
  rw [← vars_eq, ← ops_eq]
  decide

end EvoSearch.Grid
