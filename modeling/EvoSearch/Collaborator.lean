/-
# Collaborators of a search

What a search leaves to others: making programs, changing them, and judging them. Each collaborator
may have a state of its own, which it hands back with every result.
-/

import EvoSearch.Program.Basic
import EvoSearch.Random.Draw

namespace EvoSearch

/-- How much a mutation changes. -/
inductive Intensity
  /-- of the seeds; it may leave the program as it is -/
  | neutral
  /-- of the generations -/
  | full
  deriving DecidableEq

/-- A maker of programs. -/
class Generator (γ : Type) where
  /-- A program to start from. -/
  generate : γ → Draw (Program × γ)

/-- A changer of programs. -/
class Mutator (μ : Type) where
  /-- A program made from another. -/
  mutate : Intensity → Program → μ → Draw (Program × μ)

/-- A judge of programs, in two tiers. -/
class Evaluator (ε : Type) where
  /-- The fitness of a program. -/
  evaluate : Program → ε → Float × ε
  /-- A cheap estimate of the fitness of a program. -/
  evaluateEarly : Program → ε → Float × ε
  /-- How many train steps the evaluations so far have taken. It never falls. -/
  trainSteps : ε → Nat

end EvoSearch
