/-
# Faults

A fault ends a computation for good. It is not an error that a caller handles (those are ordinary
values: a refused configuration, a failed store call); it is the outcome of using an operation
outside its domain, or of a redraw loop that never came to an end.
-/

namespace EvoSearch

/-- The ways in which a computation can come to an end without a result. -/
inductive Fault
  | emptyIndexRange
  | emptyRange
  | emptyPopulation
  | emptyTournament
  | notSeeded
  | outOfRange
  | noRoom
  | stalled
  deriving DecidableEq

namespace Fault

/-- The text that goes with a fault, for the faults that have a fixed one. -/
def message? : Fault → Option String
  | emptyIndexRange => some "uniform_index requires a non-empty range"
  | emptyPopulation => some "best-index search over an empty population"
  | emptyTournament => some "tournament size must be at least 1"
  | notSeeded => some "run() called before init()"
  | emptyRange => none
  | outOfRange => none
  | noRoom => none
  | stalled => none

end Fault

end EvoSearch
