/-
# Migration

An exchange withdraws what the run has published before, publishes the population as it is now, and
fetches members of other runs, half as many as there are slots. The migrants are written into the
population only when all three calls have succeeded.
-/

import EvoSearch.Act
import EvoSearch.Config.Evolution
import EvoSearch.Population.Basic

namespace EvoSearch

/-- The order in which slots give way to migrants: NaN first, then from the worst fitness on. -/
def givesWayBefore (a b : Float) : Bool :=
  match a.isNaN, b.isNaN with
  | true, _ => true
  | false, true => false
  | false, false => Numeric.rank a ≤ Numeric.rank b

/-- The indices of the slots that migrants may take, in the order in which they take them. -/
def SplicePolicy.targets (policy : SplicePolicy) (population : Population) : List Nat :=
  let half := population.size / 2
  match policy with
  | .replaceTopHalf => List.range half
  | .replaceBottomHalf => List.range' half (population.size - half)
  | .replaceWorst =>
    let entries := population.fitnesses.zipIdx
    (entries.mergeSort fun a b => givesWayBefore a.1 b.1).map Prod.snd

/-- Where each migrant goes. No more than half of the slots take one. -/
def SplicePolicy.landings (policy : SplicePolicy) (population : Population)
    (migrants : List Scored) : List (Nat × Scored) :=
  ((policy.targets population).zip migrants).take (population.size / 2)

/-- The population with migrants in some of its slots. They keep their fitness. -/
def Population.splice (population : Population) (policy : SplicePolicy)
    (migrants : List Scored) : Population :=
  (policy.landings population migrants).foldl
    (fun population landing => population.set landing.1 (Slot.fresh landing.2 none)) population

/-- The population with migrants in some of its slots, if it has the slots that they go to. -/
def Population.splice? (population : Population) (policy : SplicePolicy)
    (migrants : List Scored) : Option Population :=
  if (policy.landings population migrants).all fun landing => landing.1 < population.size then
    some (population.splice policy migrants)
  else
    none

/-- What came of the chance to migrate. -/
inductive MigrationOutcome
  /-- there was no exchange -/
  | skipped
  /-- so many migrants have come -/
  | migrated (count : Nat)
  /-- a call failed, and nothing has changed -/
  | failed
  deriving DecidableEq

namespace MigrationConfig

/-- Withdraw, publish and fetch, up to the first call that fails. -/
def exchange (config : MigrationConfig) (population : Population) :
    Act (Except Store.Error (List Scored)) := do
  match ← Act.call (.withdraw config.run) with
  | .error error => pure (.error error)
  | .ok () =>
    match ← Act.call (.publish config.run population.members) with
    | .error error => pure (.error error)
    | .ok _ => Act.call (.sample config.run (population.size / 2))

/-- Exchange members with other runs, with the configured probability. A probability is drawn
unless the configured one is zero or less. -/
def migrate (config : MigrationConfig) (population : Population) :
    Act (MigrationOutcome × Population) := do
  if config.probability ≤ 0 then
    pure (.skipped, population)
  else
    let drawn ← Draw.probability.act
    if config.probability ≤ drawn then
      pure (.skipped, population)
    else
      match ← config.exchange population with
      | .error _ => pure (.failed, population)
      | .ok migrants =>
        let spliced ← Script.ofOption .outOfRange (population.splice? config.splice migrants)
        pure (.migrated (config.splice.landings population migrants).length, spliced)

end MigrationConfig

end EvoSearch
