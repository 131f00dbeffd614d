/-
# Engines

An engine is a search at some point of its run: its settings and collaborators, the population, and
what the strategy of its mode, the schedule of reports and the record of the best have to know.
-/

import EvoSearch.Archive.Refill
import EvoSearch.Hurdle
import EvoSearch.Migration
import EvoSearch.Report.Schedule
import EvoSearch.Report.Stats

namespace EvoSearch

/-- What the mode of a run keeps from one generation to the next. -/
inductive Strategy
  | standard
  | hurdles (hurdle : Hurdle)
  | qualityDiversity
  | mapElites (archive : Archive)

namespace Strategy

/-- The strategy of a mode, before the first generation. -/
def ofMode : RunMode → Except EvolutionError Strategy
  | .standard => .ok standard
  | .hurdles => .ok (hurdles .unset)
  | .qualityDiversity => .ok qualityDiversity
  | .mapElites sizes =>
    match Grid.ofSizes sizes with
    | .ok grid => .ok (mapElites (.ofGrid grid))
    | .error reason => .error (.grid reason)

/-- What tournaments go by. -/
def tournamentScore : Strategy → TournamentScore
  | qualityDiversity => .fitnessPlusDiversity
  | _ => .fitness

/-- Whether cheap fitnesses are collected for a hurdle. -/
def collectsEarly : Strategy → Bool
  | hurdles _ => true
  | _ => false

/-- Judge a candidate in the way of the strategy. -/
def evaluate {ε : Type} [Evaluator ε] (strategy : Strategy) (program : Program) (evaluator : ε) :
    Evaluation × ε :=
  match strategy with
  | hurdles hurdle => hurdle.evaluate program evaluator
  | _ => Evaluation.full program evaluator

end Strategy

/-- A search at some point of its run. -/
structure Engine (γ μ ε : Type) where
  config : EvolutionConfig
  generator : γ
  mutator : μ
  evaluator : ε
  population : Population
  strategy : Strategy
  reporter : Reporter
  /-- the best of all populations so far -/
  best : Option Scored
  /-- cheap fitnesses since the hurdle was last moved -/
  earlyObserved : List Float
  /-- how many individuals have been evaluated -/
  individuals : Nat
  /-- how many generations are complete -/
  generation : Nat
  /-- whether the population has been seeded -/
  seeded : Bool

namespace Engine

variable {γ μ ε : Type}

/-- A search before its population is seeded. `start` is the time. -/
def new (config : EvolutionConfig) (generator : γ) (mutator : μ) (evaluator : ε) (start : Nat) :
    Except EvolutionError (Engine γ μ ε) := do
  config.validate
  let strategy ← Strategy.ofMode config.mode
  pure
    { config, generator, mutator, evaluator, strategy
      population := .ofSize config.populationSize.toNat
      reporter := .ofInterval config.progressEvery.toNat start
      best := none
      earlyObserved := []
      individuals := 0
      generation := 0
      seeded := false }

/-- Whether there is room for the population and the archive of a run. -/
def fits (config : EvolutionConfig) : Bool :=
  hasRoom config.populationSize.toNat Population.slotWidth &&
    match config.mode with
    | .mapElites sizes =>
      match Grid.ofSizes sizes with
      | .ok grid => hasRoom grid.capacity Archive.cellWidth
      | .error _ => true
    | _ => true

/-- A search before its population is seeded, if there is room for it. Settings that are refused
take no room. -/
def allocate (config : EvolutionConfig) (generator : γ) (mutator : μ) (evaluator : ε)
    (start : Nat) : Except Fault (Except EvolutionError (Engine γ μ ε)) :=
  match config.validate with
  | .error reason => .ok (.error reason)
  | .ok () =>
    if fits config then .ok (new config generator mutator evaluator start) else .error .noRoom

/-- How many train steps the evaluations so far have taken. -/
def trainSteps [Evaluator ε] (engine : Engine γ μ ε) : Nat :=
  Evaluator.trainSteps engine.evaluator

/-- The archive, in a run that has one. -/
def archive? (engine : Engine γ μ ε) : Option Archive :=
  match engine.strategy with
  | .mapElites archive => some archive
  | _ => none

/-- The hurdle, in a run that has one. -/
def hurdle? (engine : Engine γ μ ε) : Option Hurdle :=
  match engine.strategy with
  | .hurdles hurdle => some hurdle
  | _ => none

end Engine

end EvoSearch
