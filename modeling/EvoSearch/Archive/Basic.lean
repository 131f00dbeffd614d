/-
# Archives

An archive keeps, for every cell of a grid, the best candidate of the structures that belong to
the cell. A candidate takes a cell over if it is no worse than its occupant; an empty cell asks
for a fitness of zero.
-/

import EvoSearch.Archive.Grid
import EvoSearch.Room

namespace EvoSearch

/-- A cell for every place of a grid. -/
structure Archive where
  grid : Grid
  cells : Array (Option Scored)
  size_cells : cells.size = grid.capacity

/-- Whether a candidate of the given fitness takes over a cell. -/
def acceptsOver (occupant : Option Scored) (fitness : Float) : Bool :=
  match occupant with
  | none => 0 ≤ fitness
  | some elite => !beats elite.fitness fitness

namespace Archive

/-- An archive with nothing in it. -/
def ofGrid (grid : Grid) : Archive where
  grid := grid
  cells := Array.replicate grid.capacity none
  size_cells := Array.size_replicate

/-- The bytes of a cell: two words. -/
def cellWidth : Nat := 16

/-- An archive with nothing in it, if there is room for one. -/
def allocate (grid : Grid) : Except Fault Archive :=
  ifRoom grid.capacity cellWidth fun _ => ofGrid grid

/-- The occupant of a cell, if the cell exists and is taken. -/
def occupant? (archive : Archive) (cell : Nat) : Option Scored :=
  archive.cells[cell]?.join

/-- The number of cells that are taken. -/
def occupied (archive : Archive) : Nat :=
  archive.cells.countP Option.isSome

/-- Whether no cell is taken. -/
def isEmpty (archive : Archive) : Bool :=
  archive.cells.all Option.isNone

/-- Whether a candidate takes over a cell that exists. -/
def accepts (archive : Archive) (cell : Nat) (candidate : Scored) : Bool :=
  acceptsOver (archive.occupant? cell) candidate.fitness

/-- Offer a candidate to a cell. -/
def offer (archive : Archive) (cell : Nat) (candidate : Scored) : Archive where
  grid := archive.grid
  cells :=
    if archive.accepts cell candidate then archive.cells.setIfInBounds cell (some candidate)
    else archive.cells
  size_cells := by
    split
    · rw [Array.size_setIfInBounds, archive.size_cells]
    · exact archive.size_cells

/-- The cell that a program belongs to. -/
def cellOf (archive : Archive) (program : Program) : Nat :=
  archive.grid.cellOf (Features.ofProgram program)

/-- A candidate from the archive: cells are drawn until one is taken. There is none in an empty
archive, and nothing is drawn then. -/
def sampleOccupied (archive : Archive) : Draw (Option Scored) :=
  if archive.isEmpty then
    pure none
  else do
    let cell ← Draw.indexUntil archive.cells.size fun cell => (archive.occupant? cell).isSome
    let elite ← Script.ofOption .outOfRange (archive.occupant? cell)
    pure (some elite)

end Archive

end EvoSearch
