/-
# Populations

A population is a row of slots whose number never changes. Each slot holds a program with the
fitness it was given, and what else is known about it.
-/

import EvoSearch.Numeric
import EvoSearch.Random.Draw
import EvoSearch.Record
import EvoSearch.Room

namespace EvoSearch

/-- One place of a population. -/
structure Slot where
  program : Program
  /-- of the expensive evaluation, or of the cheap one where that ruled the other out -/
  fitness : Float
  /-- of the cheap evaluation, if this occupant had it -/
  earlyFitness : Option Float
  /-- zero until it is scored -/
  diversity : Float

/-- The occupant of a slot with its fitness. -/
def Slot.scored (slot : Slot) : Scored where
  program := slot.program
  fitness := slot.fitness

/-- A slot with a new occupant, whose diversity is still to be scored. -/
def Slot.fresh (scored : Scored) (earlyFitness : Option Float) : Slot where
  program := scored.program
  fitness := scored.fitness
  earlyFitness := earlyFitness
  diversity := 0

/-- A row of slots. -/
structure Population where
  slots : Array Slot

namespace Population

/-- As many slots as asked for, all with the empty program. -/
def ofSize (size : Nat) : Population where
  slots := Array.replicate size (Slot.fresh { program := .empty, fitness := 0 } none)

/-- The bytes of a slot: three words, and a fourth one that may be missing. -/
def slotWidth : Nat := 40

/-- As many slots as asked for, all with the empty program, if there is room for them. -/
def allocate (size : Nat) : Except Fault Population :=
  ifRoom size slotWidth fun _ => ofSize size

/-- The number of slots. -/
def size (population : Population) : Nat :=
  population.slots.size

/-- The slot at an index. -/
def slot? (population : Population) (index : Nat) : Option Slot :=
  population.slots[index]?

/-- The population with another slot at an index; nothing happens to a population that has no such
index. -/
def set (population : Population) (index : Nat) (slot : Slot) : Population where
  slots := population.slots.setIfInBounds index slot

/-- The population with another slot at one of its indices. -/
def replace? (population : Population) (index : Nat) (slot : Slot) : Option Population :=
  if index < population.size then some (population.set index slot) else none

/-- The fitnesses, slot by slot. -/
def fitnesses (population : Population) : List Float :=
  population.slots.toList.map Slot.fitness

/-- The cheap fitnesses of the slots that have one. -/
def earlyFitnesses (population : Population) : List Float :=
  population.slots.toList.filterMap Slot.earlyFitness

/-- The occupants with their fitnesses, slot by slot. -/
def members (population : Population) : List Scored :=
  population.slots.toList.map Slot.scored

/-- A slot drawn at random, with its index. -/
def drawSlot (population : Population) : Draw (Slot × Nat) := do
  let index ← Draw.index population.size
  let slot ← Script.ofOption .outOfRange (population.slot? index)
  pure (slot, index)

@[simp] theorem size_ofSize (size : Nat) : (ofSize size).size = size := by
  simp [ofSize, Population.size]

@[simp] theorem size_set (population : Population) (index : Nat) (slot : Slot) :
    (population.set index slot).size = population.size := by
  simp [set, size]

theorem slot?_set (population : Population) (index other : Nat) (slot : Slot) :
    (population.set index slot).slot? other =
      if index = other then if index < population.size then some slot else none
      else population.slot? other := by
  simp only [slot?, set, size, Array.getElem?_setIfInBounds]
  split
  · next same => simp [same]
  · rfl

end Population

end EvoSearch
