/-
# Settings of a search

How large the population and the tournaments are, what happens in a generation, how the run takes
part in exchanges, and which of these settings make sense together.
-/

import EvoSearch.Decimal.Text

namespace EvoSearch

/-- What a generation does besides breeding. -/
inductive RunMode
  /-- nothing -/
  | standard
  /-- spend the expensive evaluation only on candidates that clear a hurdle in the cheap one -/
  | hurdles
  /-- prefer candidates whose structure is unlike that of the others -/
  | qualityDiversity
  /-- pass the population through an archive with a cell for each structure; the grid lists the
  numbers of cells for variables and for operations -/
  | mapElites (grid : List UInt64)
  deriving DecidableEq

/-- Which slots of the population take in migrants. -/
inductive SplicePolicy
  | replaceTopHalf
  | replaceBottomHalf
  | replaceWorst
  deriving DecidableEq

/-- How a run exchanges members with others. -/
structure MigrationConfig where
  /-- the probability of an exchange in a generation -/
  probability : Float
  /-- what the run is known by -/
  run : Int64
  splice : SplicePolicy

/-- The settings of a search. -/
structure EvolutionConfig where
  populationSize : UInt64
  tournamentSize : UInt64
  /-- how many individuals are evaluated from one progress report to the next -/
  progressEvery : UInt64
  mode : RunMode
  migration : MigrationConfig
  randomSeed : Option UInt64

/-- A grid of the archive: a number of cells for variables and one for operations, neither of them
zero, and few enough cells in all to be counted in a word. -/
structure Grid where
  vars : UInt64
  ops : UInt64
  vars_pos : 0 < vars.toNat
  ops_pos : 0 < ops.toNat
  capacity_lt : vars.toNat * ops.toNat < UInt64.size

/-- Why a list of sizes is no grid. -/
inductive GridError
  | dimensions (actual : Nat)
  | empty (sizes : List UInt64)
  | tooLarge (sizes : List UInt64)
  deriving DecidableEq

/-- The grid of a list of sizes. -/
def Grid.ofSizes : List UInt64 → Except GridError Grid
  | [vars, ops] =>
    if positive : 0 < vars.toNat ∧ 0 < ops.toNat then
      if capacity_lt : vars.toNat * ops.toNat < UInt64.size then
        .ok { vars, ops, vars_pos := positive.1, ops_pos := positive.2, capacity_lt }
      else
        .error (.tooLarge [vars, ops])
    else
      .error (.empty [vars, ops])
  | sizes => .error (.dimensions sizes.length)

/-- Why settings of a search are refused. -/
inductive EvolutionError
  | populationTooSmall
  | tournamentTooSmall
  | invalidProgressInterval
  | grid (reason : GridError)
  | invalidMigrationProbability (probability : Float)

/-- Refuse settings that no search can work with. -/
def EvolutionConfig.validate (config : EvolutionConfig) : Except EvolutionError Unit := do
  if config.populationSize = 0 then
    throw .populationTooSmall
  if config.tournamentSize = 0 then
    throw .tournamentTooSmall
  if config.progressEvery = 0 then
    throw .invalidProgressInterval
  if let .mapElites sizes := config.mode then
    if let .error reason := Grid.ofSizes sizes then
      throw (.grid reason)
  let probability := config.migration.probability
  if !(0 ≤ probability && probability ≤ 1) then
    throw (.invalidMigrationProbability probability)

/-- Sizes between brackets, as in `[5, 0]`. -/
def sizesText (sizes : List UInt64) : String :=
  "[" ++ ", ".intercalate (sizes.map fun size => String.ofList (Decimal.numeral size.toNat)) ++ "]"

/-- What is wrong with a list of sizes. -/
def GridError.message : GridError → String
  | dimensions actual =>
    "Map-elites grid must have 2 dimensions, got " ++ String.ofList (Decimal.numeral actual)
  | empty sizes => "Map-elites grid capacity must be positive: " ++ sizesText sizes
  | tooLarge sizes => "Map-elites grid capacity overflows: " ++ sizesText sizes

/-- What is wrong with the settings of a search. -/
def EvolutionError.message : EvolutionError → String
  | populationTooSmall => "Population size must be at least 1"
  | tournamentTooSmall => "Tournament size must be at least 1"
  | invalidProgressInterval => "Progress interval must be positive"
  | grid reason => reason.message
  | invalidMigrationProbability probability =>
    "Migration probability must be within [0, 1], got " ++ Decimal.plain probability

end EvoSearch
