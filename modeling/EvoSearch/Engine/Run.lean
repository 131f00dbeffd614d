/-
# Runs

A run seeds its population once, and then goes through generations until it has used up its train
steps or its time. It may be taken up again as often as one likes.
-/

import EvoSearch.Engine.Generation

namespace EvoSearch.Engine

variable {γ μ ε : Type} [Generator γ] [Mutator μ] [Evaluator ε]

/-- Fill all slots with new programs. -/
def seed (engine : Engine γ μ ε) : Act (Engine γ μ ε) := do
  let engine ← ((List.range engine.population.size).foldlM seedSlot engine : Draw _).act
  let engine ← { engine with seeded := true }.updateBest
  engine.report

/-- How far a run may go. -/
structure Budget where
  /-- train steps, from the start of the run on -/
  steps : Nat
  /-- nanoseconds, if there is a limit -/
  time : Option Nat

/-- Go through generations, `fuel` of them at the most, while less than the budget has been used.
A generation that takes no train steps is the last one. Gives the number of generations. -/
def continueRun (budget : Budget) (stepsBefore startTime : Nat) :
    (fuel : Nat) → (generations : Nat) → Engine γ μ ε → Act (Nat × Engine γ μ ε)
  | 0, generations, engine => pure (generations, engine)
  | fuel + 1, generations, engine =>
    if engine.trainSteps - stepsBefore < budget.steps then do
      let time ← Act.now
      if budget.time.all fun limit => time - startTime < limit then do
        let next ← engine.step
        if engine.trainSteps < next.trainSteps then
          continueRun budget stepsBefore startTime fuel (generations + 1) next
        else
          pure (generations + 1, next)
      else
        pure (generations, engine)
    else
      pure (generations, engine)

/-- Go through generations until the budget is used up. Since each of them takes a train step, or
is the last, there are no more of them than train steps to use. -/
def run (engine : Engine γ μ ε) (budget : Budget) : Act (Nat × Engine γ μ ε) := do
  if engine.seeded then
    let startTime ← Act.now
    engine.continueRun budget engine.trainSteps startTime budget.steps 0
  else
    .fault .notSeeded

omit [Generator γ] [Mutator μ] [Evaluator ε] in
/-- Keep the best so far as the result of the run. -/
def recordFinal (engine : Engine γ μ ε) : Act (Except Store.Error Unit) :=
  match engine.best with
  | none => pure (.ok ())
  | some best => Act.call (.logFinal engine.config.migration.run best)

end EvoSearch.Engine
