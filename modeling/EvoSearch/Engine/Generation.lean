/-
# Generations

One generation: the best member moves to the front, every other slot gets a child of a tournament's
winner, the strategy of the run does its part, migrants may come, and the best of the population is
held against the best so far.
-/

import EvoSearch.Engine.Basic

namespace EvoSearch.Engine

variable {γ μ ε : Type}

/-- Hold a candidate against the best so far, which stays unless it is beaten. -/
def noteBest (engine : Engine γ μ ε) (candidate : Scored) : Engine γ μ ε :=
  match engine.best with
  | none => { engine with best := some candidate }
  | some best =>
    if beats candidate.fitness best.fitness then { engine with best := some candidate } else engine

/-- Hold the best of the population against the best so far. -/
def updateBest {I : Interface} (engine : Engine γ μ ε) : Script I (Engine γ μ ε) := do
  let (slot, _) ← engine.population.best
  pure (engine.noteBest slot.scored)

/-- Report to the store if a report is due. What the store makes of it does not matter. -/
def report (engine : Engine γ μ ε) : Act (Engine γ μ ε) := do
  if engine.reporter.isDue engine.individuals then
    let run := engine.config.migration.run
    let best ← engine.population.best
    let _ ← Act.call (.logDiversity (engine.population.diversityRecords run engine.individuals))
    let time ← Act.now
    let overall := (engine.best.map Scored.fitness).getD Numeric.nan
    let _ ← Act.call (.logProgress (engine.population.progressRecord run engine.individuals
      (engine.reporter.elapsedSeconds time) best overall))
    pure { engine with reporter := engine.reporter.mark engine.individuals }
  else
    pure engine

/-- Copy the best slot to the front. -/
def promoteBest {I : Interface} (engine : Engine γ μ ε) : Script I (Engine γ μ ε) := do
  let (slot, index) ← engine.population.best
  if index = 0 then
    pure engine
  else do
    let population ← Script.ofOption .outOfRange (engine.population.replace? 0 slot)
    pure { engine with population }

variable [Generator γ] [Mutator μ] [Evaluator ε]

/-- Fill a slot with a new program, judged in both tiers. -/
def seedSlot (engine : Engine γ μ ε) (index : Nat) : Draw (Engine γ μ ε) := do
  let (program, generator) ← Generator.generate engine.generator
  let (program, mutator) ← Mutator.mutate .neutral program engine.mutator
  let (fitness, evaluator) := Evaluator.evaluate program engine.evaluator
  let (early, evaluator) := Evaluator.evaluateEarly program evaluator
  let population ← Script.ofOption .outOfRange
    (engine.population.replace? index (.fresh { program, fitness } (some early)))
  pure
    { engine with
      generator, mutator, evaluator, population
      earlyObserved :=
        if engine.strategy.collectsEarly then engine.earlyObserved ++ [early]
        else engine.earlyObserved
      individuals := engine.individuals + 1 }

/-- Fill a slot with a child of the winner of a tournament. -/
def breedSlot (engine : Engine γ μ ε) (index : Nat) : Draw (Engine γ μ ε) := do
  let (parent, _) ← engine.population.tournament engine.config.tournamentSize.toNat
    engine.strategy.tournamentScore
  let (child, mutator) ← Mutator.mutate .full parent.program engine.mutator
  let (evaluation, evaluator) := engine.strategy.evaluate child engine.evaluator
  let population ← Script.ofOption .outOfRange
    (engine.population.replace? index
      (.fresh { program := child, fitness := evaluation.fitness } evaluation.earlyFitness))
  pure
    { engine with
      mutator, evaluator, population
      earlyObserved := engine.earlyObserved ++ evaluation.earlyFitness.toList
      individuals := engine.individuals + 1 }

/-- Fill all slots but the first. -/
def breed (engine : Engine γ μ ε) : Draw (Engine γ μ ε) :=
  (List.range' 1 (engine.population.size - 1)).foldlM breedSlot engine

omit [Generator γ] [Mutator μ] [Evaluator ε] in
/-- What the strategy does with the population of a generation. -/
def applyStrategy (engine : Engine γ μ ε) : Draw (Engine γ μ ε) :=
  match engine.strategy with
  | .standard => pure engine
  | .qualityDiversity => pure { engine with population := engine.population.scoreDiversity }
  | .mapElites archive => do
    let (_, archive, population) ← archive.apply engine.population
    pure { engine with population, strategy := .mapElites archive }
  | .hurdles hurdle =>
    pure
      { engine with
        strategy := .hurdles (hurdle.recompute engine.earlyObserved)
        earlyObserved := [] }

omit [Generator γ] [Mutator μ] [Evaluator ε] in
/-- Take the chance to migrate. -/
def migrate (engine : Engine γ μ ε) : Act (Engine γ μ ε) := do
  let (_, population) ← engine.config.migration.migrate engine.population
  pure { engine with population }

/-- One generation. -/
def step (engine : Engine γ μ ε) : Act (Engine γ μ ε) := do
  let engine ← engine.promoteBest
  let engine ← engine.breed.act
  let engine ← engine.applyStrategy.act
  let engine ← engine.migrate
  let engine ← { engine with generation := engine.generation + 1 }.updateBest
  engine.report

end EvoSearch.Engine
