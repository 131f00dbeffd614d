/-
# Settings in JSON

Every setting has a default, so an object may say as little as it likes. Writing is told how a
float is to be written; `Json.ofFloat` gives the usual form.
-/

import EvoSearch.Config.Experiment
import EvoSearch.Program.Json

namespace EvoSearch

open Json

namespace RunMode

/-- The sizes of the archive when none are given. -/
def defaultGrid : List UInt64 := [64, 256]

/-- A mode is an object with its name under `type`. -/
def toJson : RunMode → Json
  | standard => .object [("type", .text "Standard")]
  | hurdles => .object [("type", .text "Hurdles")]
  | qualityDiversity => .object [("type", .text "QualityDiversity")]
  | mapElites grid =>
    .object [("type", .text "MapElites"),
      ("grid", .array (grid.map fun size => .ofNat size.toNat))]

/-- Whether a mode without settings may be followed by `rest`: by anything in an object, but by
nothing in a list. -/
def hasNoItems : (rest : Json) → Bool
  | .array items => items.isEmpty
  | _ => true

/-- The mode of a name, with `rest` being what else is said about it. -/
def ofName? (name : String) (rest : Json) : Option RunMode :=
  if name = "MapElites" then do
    let field ← fields? ["grid"] rest
    let grid ← withDefault (list? word?) defaultGrid (field "grid")
    pure (mapElites grid)
  else if hasNoItems rest then
    [("Standard", standard), ("Hurdles", hurdles), ("QualityDiversity", qualityDiversity)].lookup
      name
  else
    none

/-- How deep the text of an experiment may nest around what is said about a mode. -/
def nestingLimit : Nat := 127

/-- The mode of an object that has one `type`, or of a list that starts with it. All that is said
besides has to be readable, even where it does not matter. `outer` is the number of containers
that the value stands in. -/
def ofJson? (outer : Nat) : Json → Option RunMode
  | .object members =>
    match members.filter fun member => member.1 == "type" with
    | [(_, .text name)] =>
      let rest := members.filter fun member => member.1 != "type"
      if membersReadable (nestingLimit - 1 - outer) rest then ofName? name (.object rest) else none
    | _ => none
  | .array (.text name :: items) =>
    if areReadable (nestingLimit - 1 - outer) items then ofName? name (.array items) else none
  | _ => none

end RunMode

namespace SplicePolicy

/-- The name of a policy. -/
def name : SplicePolicy → String
  | replaceTopHalf => "ReplaceTopHalf"
  | replaceBottomHalf => "ReplaceBottomHalf"
  | replaceWorst => "ReplaceWorst"

/-- The policy of a name. -/
def ofJson? : Json → Option SplicePolicy :=
  name? [("ReplaceTopHalf", replaceTopHalf), ("ReplaceBottomHalf", replaceBottomHalf),
    ("ReplaceWorst", replaceWorst)]

end SplicePolicy

namespace MigrationConfig

/-- No exchanges. -/
def standard : MigrationConfig where
  probability := 0
  run := 0
  splice := .replaceTopHalf

/-- Migration settings as an object. -/
def toJson (real : Float → Json) (config : MigrationConfig) : Json :=
  .object [("migrate_prob", real config.probability), ("run_id", .ofInt config.run.toInt),
    ("splice", .text config.splice.name)]

/-- The migration settings of a record. -/
def ofJson? (value : Json) : Option MigrationConfig := do
  let field ← fields? ["migrate_prob", "run_id", "splice"] value
  let probability ← withDefault float? standard.probability (field "migrate_prob")
  let run ← withDefault signedWord? standard.run (field "run_id")
  let splice ← withDefault SplicePolicy.ofJson? standard.splice (field "splice")
  pure { probability, run, splice }

end MigrationConfig

/-- An integer or null. -/
def ofOptionalWord : Option UInt64 → Json
  | some n => .ofNat n.toNat
  | none => .null

namespace EvolutionConfig

/-- A population of a hundred in the standard mode. -/
def standard : EvolutionConfig where
  populationSize := 100
  tournamentSize := 10
  progressEvery := 1000
  mode := .standard
  migration := .standard
  randomSeed := none

/-- The settings of a search as an object. -/
def toJson (real : Float → Json) (config : EvolutionConfig) : Json :=
  .object [("population_size", .ofNat config.populationSize.toNat),
    ("tournament_size", .ofNat config.tournamentSize.toNat),
    ("progress_every", .ofNat config.progressEvery.toNat), ("mode", config.mode.toJson),
    ("migration", config.migration.toJson real), ("random_seed", ofOptionalWord config.randomSeed)]

/-- The settings of a search, from a record that stands in `outer` containers. -/
def ofJson? (outer : Nat) (value : Json) : Option EvolutionConfig := do
  let field ← fields? ["population_size", "tournament_size", "progress_every", "mode",
    "migration", "random_seed"] value
  let populationSize ← withDefault word? standard.populationSize (field "population_size")
  let tournamentSize ← withDefault word? standard.tournamentSize (field "tournament_size")
  let progressEvery ← withDefault word? standard.progressEvery (field "progress_every")
  let mode ← withDefault (RunMode.ofJson? (outer + 1)) standard.mode (field "mode")
  let migration ← withDefault MigrationConfig.ofJson? standard.migration (field "migration")
  let randomSeed ← withDefault (nullable? word?) standard.randomSeed (field "random_seed")
  pure { populationSize, tournamentSize, progressEvery, mode, migration, randomSeed }

end EvolutionConfig

namespace SizeBounds

/-- Bounds are a list of two. -/
def toJson (bounds : SizeBounds) : Json :=
  .array [.ofNat bounds.lo.toNat, .ofNat bounds.hi.toNat]

/-- The bounds of a list of two. -/
def ofJson? (value : Json) : Option SizeBounds :=
  (pair? word? word? value).map fun (lo, hi) => { lo, hi }

end SizeBounds

namespace SyntheticConfig

/-- Short programs over ten variables of each kind, mostly of arithmetic and linear algebra. -/
def standard : SyntheticConfig where
  setupSize := { lo := 1, hi := 10 }
  predictSize := { lo := 1, hi := 20 }
  learnSize := { lo := 1, hi := 20 }
  addresses := 10
  targetMix :=
    { arithmetic := 0.4, trigonometric := 0.1, precalculated := 0.1, linearAlgebra := 0.3,
      probabilityStatistics := 0.1 }

/-- The settings of the objective as an object. -/
def toJson (real : Float → Json) (config : SyntheticConfig) : Json :=
  .object [("setup_size", config.setupSize.toJson), ("predict_size", config.predictSize.toJson),
    ("learn_size", config.learnSize.toJson), ("num_addresses", .ofNat config.addresses.toNat),
    ("target_mix", .array (config.targetMix.toList.map real))]

/-- The target mix of a list of five. -/
def mixOfJson? (value : Json) : Option (PerCategory Float) := do
  let weights ← list? float? value
  PerCategory.ofList? weights

/-- The settings of the objective, from a record. -/
def ofJson? (value : Json) : Option SyntheticConfig := do
  let field ← fields? ["setup_size", "predict_size", "learn_size", "num_addresses",
    "target_mix"] value
  let setupSize ← withDefault SizeBounds.ofJson? standard.setupSize (field "setup_size")
  let predictSize ← withDefault SizeBounds.ofJson? standard.predictSize (field "predict_size")
  let learnSize ← withDefault SizeBounds.ofJson? standard.learnSize (field "learn_size")
  let addresses ← withDefault byte? standard.addresses (field "num_addresses")
  let targetMix ← withDefault mixOfJson? standard.targetMix (field "target_mix")
  pure { setupSize, predictSize, learnSize, addresses, targetMix }

end SyntheticConfig

namespace ExperimentConfig

/-- Ten thousand evaluations of the standard search, without a database or a time limit. -/
def standard : ExperimentConfig where
  evolution := .standard
  synthetic := .standard
  database := none
  maxTrainSteps := 10000
  maxSeconds := none

/-- The settings of an experiment as an object. -/
def toJson (real : Float → Json) (config : ExperimentConfig) : Json :=
  .object [("evolution", config.evolution.toJson real),
    ("synthetic", config.synthetic.toJson real),
    ("database", (config.database.map Json.text).getD .null),
    ("max_train_steps", .ofNat config.maxTrainSteps.toNat),
    ("max_seconds", (config.maxSeconds.map real).getD .null)]

/-- The settings of an experiment, from a record. -/
def ofJson? (value : Json) : Option ExperimentConfig := do
  let field ← fields? ["evolution", "synthetic", "database", "max_train_steps",
    "max_seconds"] value
  let evolution ← withDefault (EvolutionConfig.ofJson? 1) standard.evolution (field "evolution")
  let synthetic ← withDefault SyntheticConfig.ofJson? standard.synthetic (field "synthetic")
  let database ← withDefault (nullable? string?) standard.database (field "database")
  let maxTrainSteps ← withDefault word? standard.maxTrainSteps (field "max_train_steps")
  let maxSeconds ← withDefault (nullable? float?) standard.maxSeconds (field "max_seconds")
  pure { evolution, synthetic, database, maxTrainSteps, maxSeconds }

/-- The settings that a text holds. -/
def decode? (text : String) : Option ExperimentConfig := do
  let value ← Json.ofText? text
  ofJson? value

end ExperimentConfig

end EvoSearch
