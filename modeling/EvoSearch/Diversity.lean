/-
# Diversity

How unlike the others the structure of a program is: the sum of its distances to all of them, in
numbers of instructions and of variables, on a scale from the most ordinary to the most unusual of
the population.
-/

import EvoSearch.Population.Basic

namespace EvoSearch

/-- The structure of a program, as two numbers. -/
structure Features where
  ops : UInt64
  vars : UInt64
  deriving DecidableEq

namespace Features

/-- The features of a program. -/
def ofProgram (program : Program) : Features where
  ops := UInt64.ofNat program.size
  vars := UInt64.ofNat program.variableCounts.total

/-- How far two numbers are apart. -/
def gap (a b : UInt64) : UInt64 :=
  if a ≤ b then b - a else a - b

/-- How far two programs are apart: in instructions and in variables together. -/
def distance (a b : Features) : UInt64 :=
  gap a.ops b.ops + gap a.vars b.vars

end Features

/-- For all features, the sum of the distances to all. -/
def rawDiversity (features : List Features) : List Float :=
  features.map fun a =>
    (features.foldl (fun total b => total + Features.distance a b) (0 : UInt64)).toFloat

/-- For all features, where the sum of distances lies between the smallest and the largest; zero
where these are the same. -/
def normalizedDiversity (features : List Features) : List Float :=
  let raw := rawDiversity features
  let least := raw.foldl Numeric.smaller Numeric.infinity
  let most := raw.foldl Numeric.larger (-Numeric.infinity)
  let range := most - least
  if range ≤ 0 then raw.map fun _ => 0 else raw.map fun x => (x - least) / range

/-- The features of the occupants, slot by slot. -/
def Population.features (population : Population) : List Features :=
  population.slots.toList.map fun slot => Features.ofProgram slot.program

/-- Score the diversity of every slot. -/
def Population.scoreDiversity (population : Population) : Population where
  slots :=
    (List.zipWith (fun slot diversity => { slot with diversity }) population.slots.toList
      (normalizedDiversity population.features)).toArray

end EvoSearch
