/-
# Hurdles

A hurdle is the cheap fitness that a candidate has to exceed to earn the expensive evaluation. It
is moved from time to time to the upper quartile of the cheap fitnesses seen since.
-/

import EvoSearch.Collaborator
import EvoSearch.Numeric

namespace EvoSearch

/-- The outcome of judging one candidate. -/
structure Evaluation where
  fitness : Float
  /-- of the cheap evaluation, if there was one -/
  earlyFitness : Option Float

/-- The expensive evaluation only. -/
def Evaluation.full {ε : Type} [Evaluator ε] (program : Program) (evaluator : ε) :
    Evaluation × ε :=
  let (fitness, evaluator) := Evaluator.evaluate program evaluator
  ({ fitness, earlyFitness := none }, evaluator)

/-- Leave out every value that equals the last one that is kept. -/
def dropRepeatsAfter (last : Float) : List Float → List Float
  | [] => []
  | x :: rest => if x == last then dropRepeatsAfter last rest else x :: dropRepeatsAfter x rest

/-- Leave out the repeats in a sorted row. -/
def dropRepeats : List Float → List Float
  | [] => []
  | x :: rest => x :: dropRepeatsAfter x rest

/-- The finite ones among some values, sorted and each once. -/
def distinctFinite (values : List Float) : List Float :=
  dropRepeats ((values.filter Float.isFinite).mergeSort fun a b => Numeric.rank a ≤ Numeric.rank b)

/-- How much of the distinct values a hurdle stands above. -/
def hurdlePercentile : Float := 0.75

/-- The value three quarters up the distinct finite ones, if there are any. -/
def percentileThreshold (values : List Float) : Option Float :=
  let distinct := distinctFinite values
  let index := (hurdlePercentile * Float.ofNat distinct.length).toUInt64.toNat
  distinct[min index (distinct.length - 1)]?

/-- A hurdle. It is set unless it is zero. -/
structure Hurdle where
  value : Float

namespace Hurdle

/-- No hurdle yet. -/
def unset : Hurdle where
  value := 0

/-- Whether candidates are held back. -/
def isSet (hurdle : Hurdle) : Bool :=
  hurdle.value != 0

/-- Judge a candidate: cheaply first, and expensively if it clears the hurdle. While the hurdle is
not set every candidate gets the expensive evaluation, and only that. -/
def evaluate {ε : Type} [Evaluator ε] (hurdle : Hurdle) (program : Program) (evaluator : ε) :
    Evaluation × ε :=
  if hurdle.isSet then
    let (early, evaluator) := Evaluator.evaluateEarly program evaluator
    if hurdle.value < early then
      let (fitness, evaluator) := Evaluator.evaluate program evaluator
      ({ fitness, earlyFitness := some early }, evaluator)
    else
      ({ fitness := early, earlyFitness := some early }, evaluator)
  else
    Evaluation.full program evaluator

/-- Move the hurdle to where the cheap fitnesses put it; without finite ones it stays. -/
def recompute (hurdle : Hurdle) (earlyFitnesses : List Float) : Hurdle :=
  match percentileThreshold earlyFitnesses with
  | some value => { value }
  | none => hurdle

end Hurdle

end EvoSearch
