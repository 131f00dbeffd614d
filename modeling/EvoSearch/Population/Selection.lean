/-
# Selection

Both the search for the best member and a tournament go through a row once and keep the first of
those that nothing else beats.
-/

import EvoSearch.Population.Basic

namespace EvoSearch

/-- The first in a row that nothing in the row beats; `champion` stands in front of the row. -/
def champion {α : Type} (score : α → Float) (leader : α) : List α → α
  | [] => leader
  | challenger :: row =>
    champion score (if beats (score challenger) (score leader) then challenger else leader) row

/-- What a tournament goes by. -/
inductive TournamentScore
  | fitness
  | fitnessPlusDiversity
  deriving DecidableEq

/-- The score of a slot in a tournament. -/
def TournamentScore.of : TournamentScore → Slot → Float
  | fitness, slot => slot.fitness
  | fitnessPlusDiversity, slot => slot.fitness + slot.diversity

namespace Population

/-- The best slot with its index; the first one of equals. An empty population has none. -/
def best? (population : Population) : Option (Slot × Nat) :=
  match population.slots.toList.zipIdx with
  | [] => none
  | first :: row => some (champion (fun entry => entry.1.fitness) first row)

/-- The best slot with its index, which an empty population cannot give. -/
def best {I : Interface} (population : Population) : Script I (Slot × Nat) :=
  Script.ofOption .emptyPopulation population.best?

/-- Draw `contestants` slots, any of them as often as it comes, and pick the best of them; the
first one of equals. -/
def tournament (population : Population) (contestants : Nat) (score : TournamentScore) :
    Draw (Slot × Nat) := do
  let drawn ← Script.replicate contestants population.drawSlot
  match drawn with
  | [] => .fault .emptyTournament
  | first :: row => pure (champion (fun entry => score.of entry.1) first row)

end Population

end EvoSearch
