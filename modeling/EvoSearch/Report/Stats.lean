/-
# Statistics of a population

Mean and spread of the finite fitnesses, and what there is to know of the best member.
-/

import EvoSearch.Population.Selection

namespace EvoSearch

/-- The statistics of a population. -/
structure PopulationStats where
  mean : Float
  /-- of the population, not of a sample -/
  stdev : Float
  bestIndex : Nat
  bestFitness : Float
  bestDiversity : Float
  meanDiversity : Float

/-- Mean and standard deviation, both zero if there are no values. The values are shifted by the
first of them, so that equal values have no spread at all. -/
def meanAndStdev : List Float → Float × Float
  | [] => (0, 0)
  | values@(shift :: _) =>
    let count := Float.ofNat values.length
    let mean := shift + Numeric.sum (values.map fun x => x - shift) / count
    let squares := values.map fun x => (x - mean) * (x - mean)
    let variance := Numeric.larger (Numeric.sum squares / count) 0
    (mean, variance.sqrt)

/-- The statistics of a population whose best slot is known, with its index. -/
def PopulationStats.ofBest (population : Population) (best : Slot × Nat) : PopulationStats :=
  let (mean, stdev) := meanAndStdev (population.fitnesses.filter Float.isFinite)
  { mean
    stdev
    bestIndex := best.2
    bestFitness := best.1.fitness
    bestDiversity := best.1.diversity
    meanDiversity :=
      Numeric.sum (population.slots.toList.map Slot.diversity) / Float.ofNat population.size }

/-- The progress record of a population whose best slot is known, with its index. -/
def Population.progressRecord (population : Population) (run : Int64)
    (individuals elapsedSeconds : Nat) (best : Slot × Nat) (bestOverall : Float) :
    ProgressRecord :=
  let stats := PopulationStats.ofBest population best
  { run
    individuals
    elapsedSeconds
    mean := stats.mean
    stdev := stats.stdev
    bestFitness := stats.bestFitness
    bestOverall
    bestDiversity := stats.bestDiversity
    meanDiversity := stats.meanDiversity
    bestProgram := best.1.program.toText }

/-- A diversity record for every slot. -/
def Population.diversityRecords (population : Population) (run : Int64) (individuals : Nat) :
    List DiversityRecord :=
  population.slots.toList.map fun slot =>
    .describe run individuals slot.program slot.diversity slot.fitness

end EvoSearch
