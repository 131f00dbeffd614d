/-
# The built-in objective

A program is judged by how close the shares of the categories among its instructions come to a
target mix: one minus half the sum of the differences. The cheap tier looks at the predicting part
alone.
-/

import EvoSearch.Collaborator
import EvoSearch.Config.Experiment

namespace EvoSearch.Synthetic

/-- The shares that weights stand for. -/
def sharesOf (mix : PerCategory Float) : PerCategory Float :=
  let total := Numeric.sum mix.toList
  mix.map fun weight => weight / total

/-- The score of a histogram. One without instructions scores zero. -/
def score (target : PerCategory Float) (histogram : Histogram) : Float :=
  let total := histogram.total
  if total = 0 then
    0
  else
    let differences := Category.all.map fun category =>
      (Float.ofNat (histogram.get category) / Float.ofNat total - target.get category).abs
    1 - 0.5 * Numeric.sum differences

/-- A judge by a target mix, counting a train step for each evaluation. -/
structure Objective where
  target : PerCategory Float
  steps : Nat

/-- The judge of some settings, before any evaluation. -/
def Objective.ofConfig (config : SyntheticConfig) : Objective where
  target := sharesOf config.targetMix
  steps := 0

instance : Evaluator Objective where
  evaluate program objective :=
    (score objective.target program.histogram, { objective with steps := objective.steps + 1 })
  evaluateEarly program objective :=
    (score objective.target (Histogram.ofInstructions program.predict),
      { objective with steps := objective.steps + 1 })
  trainSteps objective := objective.steps

end EvoSearch.Synthetic
