/-
# Records of a run

What a run reports about itself as it goes: a line about the whole population, and a line about the
structure of each of its members.
-/

import EvoSearch.Program.Json
import EvoSearch.Program.Text

namespace EvoSearch

open Json

/-- A program together with a fitness of its own. -/
structure Scored where
  program : Program
  fitness : Float

/-- A report on a population. -/
structure ProgressRecord where
  run : Int64
  /-- how many individuals had been evaluated -/
  individuals : Nat
  elapsedSeconds : Nat
  mean : Float
  stdev : Float
  /-- the best fitness in the population -/
  bestFitness : Float
  /-- the best fitness of the run so far -/
  bestOverall : Float
  /-- the diversity of the best member -/
  bestDiversity : Float
  meanDiversity : Float
  /-- the text of the best member -/
  bestProgram : String

/-- A report on the structure of one member. -/
structure DiversityRecord where
  run : Int64
  /-- how many individuals had been evaluated -/
  individuals : Nat
  size : Nat
  setupSize : Nat
  predictSize : Nat
  learnSize : Nat
  variableCounts : VariableCounts
  categories : Histogram
  diversity : Float
  fitness : Float
  program : String

/-- The report on a program. -/
def DiversityRecord.describe (run : Int64) (individuals : Nat) (program : Program)
    (diversity fitness : Float) : DiversityRecord where
  run := run
  individuals := individuals
  size := program.size
  setupSize := program.setup.length
  predictSize := program.predict.length
  learnSize := program.learn.length
  variableCounts := program.variableCounts
  categories := program.histogram
  diversity := diversity
  fitness := fitness
  program := program.toText

/-- A report on a population as an object. -/
def ProgressRecord.toJson (real : Float → Json) (record : ProgressRecord) : Json :=
  .object [("run_id", .ofInt record.run.toInt), ("num_individuals", .ofNat record.individuals),
    ("elapsed_secs", .ofNat record.elapsedSeconds), ("mean", real record.mean),
    ("stdev", real record.stdev), ("best_fitness", real record.bestFitness),
    ("best_overall", real record.bestOverall), ("best_diversity", real record.bestDiversity),
    ("mean_diversity", real record.meanDiversity), ("best_program", .text record.bestProgram)]

/-- The report on a population that a record gives in full. -/
def ProgressRecord.ofJson? (value : Json) : Option ProgressRecord := do
  let field ← fields? ["run_id", "num_individuals", "elapsed_secs", "mean", "stdev",
    "best_fitness", "best_overall", "best_diversity", "mean_diversity", "best_program"] value
  let run ← required signedWord? (field "run_id")
  let individuals ← required natural? (field "num_individuals")
  let elapsedSeconds ← required natural? (field "elapsed_secs")
  let mean ← required float? (field "mean")
  let stdev ← required float? (field "stdev")
  let bestFitness ← required float? (field "best_fitness")
  let bestOverall ← required float? (field "best_overall")
  let bestDiversity ← required float? (field "best_diversity")
  let meanDiversity ← required float? (field "mean_diversity")
  let bestProgram ← required string? (field "best_program")
  pure
    { run, individuals, elapsedSeconds, mean, stdev, bestFitness, bestOverall, bestDiversity,
      meanDiversity, bestProgram }

/-- A report on a member as an object. -/
def DiversityRecord.toJson (real : Float → Json) (record : DiversityRecord) : Json :=
  .object [("run_id", .ofInt record.run.toInt), ("num_individuals", .ofNat record.individuals),
    ("total_ops", .ofNat record.size), ("setup_ops", .ofNat record.setupSize),
    ("predict_ops", .ofNat record.predictSize), ("learn_ops", .ofNat record.learnSize),
    ("variables", record.variableCounts.toJson), ("categories", Histogram.toJson record.categories),
    ("diversity", real record.diversity), ("fitness", real record.fitness),
    ("program", .text record.program)]

/-- The report on a member that a record gives in full. -/
def DiversityRecord.ofJson? (value : Json) : Option DiversityRecord := do
  let field ← fields? ["run_id", "num_individuals", "total_ops", "setup_ops", "predict_ops",
    "learn_ops", "variables", "categories", "diversity", "fitness", "program"] value
  let run ← required signedWord? (field "run_id")
  let individuals ← required natural? (field "num_individuals")
  let size ← required natural? (field "total_ops")
  let setupSize ← required natural? (field "setup_ops")
  let predictSize ← required natural? (field "predict_ops")
  let learnSize ← required natural? (field "learn_ops")
  let variableCounts ← required VariableCounts.ofJson? (field "variables")
  let categories ← required Histogram.ofJson? (field "categories")
  let diversity ← required float? (field "diversity")
  let fitness ← required float? (field "fitness")
  let program ← required string? (field "program")
  pure
    { run, individuals, size, setupSize, predictSize, learnSize, variableCounts, categories,
      diversity, fitness, program }

end EvoSearch
