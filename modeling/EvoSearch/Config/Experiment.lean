/-
# Settings of an experiment

An experiment is a search with the built-in objective: what programs it may generate, which mix of
operations it rewards, and how long it runs.
-/

import EvoSearch.Config.Evolution
import EvoSearch.Numeric
import EvoSearch.Program.Count

namespace EvoSearch

/-- The numbers of instructions that a part of a program may have, both ends included. -/
structure SizeBounds where
  lo : UInt64
  hi : UInt64
  deriving DecidableEq

/-- The settings of the built-in objective. -/
structure SyntheticConfig where
  setupSize : SizeBounds
  predictSize : SizeBounds
  learnSize : SizeBounds
  /-- how many variables there are of every kind -/
  addresses : UInt8
  /-- the wanted share of every category -/
  targetMix : PerCategory Float

/-- The settings of an experiment. -/
structure ExperimentConfig where
  evolution : EvolutionConfig
  synthetic : SyntheticConfig
  /-- the database that the run shares with others, if it shares one -/
  database : Option String
  /-- how many evaluations the run may use -/
  maxTrainSteps : UInt64
  /-- how many seconds the run may take, if there is a limit -/
  maxSeconds : Option Float

/-- The bounds of a part of a program. -/
def SyntheticConfig.bounds (config : SyntheticConfig) : Section → SizeBounds
  | .setup => config.setupSize
  | .predict => config.predictSize
  | .learn => config.learnSize

/-- Why the settings of an experiment are refused. -/
inductive ConfigError
  | evolution (reason : EvolutionError)
  | invalidBounds (part : Section) (bounds : SizeBounds)
  | noAddresses
  | invalidTargetMix
  | invalidTimeBudget (seconds : Float)

/-- Refuse settings that no objective can work with. -/
def SyntheticConfig.validate (config : SyntheticConfig) : Except ConfigError Unit := do
  if let some part := Section.all.find? fun part =>
      (config.bounds part).hi < (config.bounds part).lo then
    throw (.invalidBounds part (config.bounds part))
  if config.addresses = 0 then
    throw .noAddresses
  let weights := config.targetMix.toList
  if weights.any (fun weight => !weight.isFinite || weight < 0) || Numeric.sum weights ≤ 0 then
    throw .invalidTargetMix

/-- Refuse settings that no experiment can work with. -/
def ExperimentConfig.validate (config : ExperimentConfig) : Except ConfigError Unit := do
  match config.evolution.validate with
  | .ok () => pure ()
  | .error reason => throw (.evolution reason)
  config.synthetic.validate
  if let some seconds := config.maxSeconds then
    if !(0 < seconds && seconds.isFinite) then
      throw (.invalidTimeBudget seconds)

/-- What is wrong with the settings of an experiment. -/
def ConfigError.message : ConfigError → String
  | evolution reason => "Evolution config validation failed: " ++ reason.message
  | invalidBounds part bounds =>
    "Invalid instruction bounds: " ++ part.name ++
      " min (" ++ String.ofList (Decimal.numeral bounds.lo.toNat) ++
      ") > max (" ++ String.ofList (Decimal.numeral bounds.hi.toNat) ++ ")"
  | noAddresses => "At least one address per kind is required"
  | invalidTargetMix => "Target mix weights must be non-negative and not all zero"
  | invalidTimeBudget seconds =>
    "Time budget must be a positive number of seconds, got " ++ Decimal.plain seconds

end EvoSearch
