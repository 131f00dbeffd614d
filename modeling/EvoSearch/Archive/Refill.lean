/-
# Passing a population through an archive

Every slot is offered to the cell of its program. Slots that are turned down are then filled anew
with candidates from the archive, as long as there are any.
-/

import EvoSearch.Archive.Basic

namespace EvoSearch.Archive

/-- What became of the slots of a population. -/
structure Update where
  /-- slots that took over a cell -/
  accepted : Nat
  /-- slots filled from the archive -/
  resampled : Nat
  /-- slots turned down by an archive that had nothing to fill them with -/
  kept : Nat
  deriving DecidableEq

/-- Offer the slots from `index` on to their cells. Gives the archive behind all offers and the
indices of the slots that were turned down. -/
def offerSlots (archive : Archive) (index : Nat) : List Slot → Archive × List Nat
  | [] => (archive, [])
  | slot :: slots =>
    let cell := archive.cellOf slot.program
    let accepted := archive.accepts cell slot.scored
    let (result, discarded) := (archive.offer cell slot.scored).offerSlots (index + 1) slots
    (result, if accepted then discarded else index :: discarded)

/-- Offer the slots from `index` on to their cells, if the archive has all of these. -/
def offerSlots? (archive : Archive) (index : Nat) (slots : List Slot) :
    Option (Archive × List Nat) :=
  if slots.all fun slot => archive.cellOf slot.program < archive.cells.size then
    some (archive.offerSlots index slots)
  else
    none

/-- Fill the slots at the given indices with candidates from the archive. Gives their number, and
that of the slots left as they are, on top of those in `update`. -/
def refill (archive : Archive) (update : Update) (population : Population) :
    List Nat → Draw (Update × Population)
  | [] => pure (update, population)
  | index :: discarded => do
    match ← archive.sampleOccupied with
    | some elite =>
      let population ← Script.ofOption .outOfRange
        (population.replace? index (Slot.fresh elite none))
      archive.refill { update with resampled := update.resampled + 1 } population discarded
    | none => archive.refill { update with kept := update.kept + 1 } population discarded

/-- Pass a population through the archive. -/
def apply (archive : Archive) (population : Population) :
    Draw (Update × Archive × Population) := do
  let (archive, discarded) ← Script.ofOption .outOfRange
    (archive.offerSlots? 0 population.slots.toList)
  let (update, population) ← archive.refill
    { accepted := population.size - discarded.length, resampled := 0, kept := 0 } population
    discarded
  pure (update, archive, population)

end EvoSearch.Archive
