/-
# A store in memory

Four tables that keep everything as it is given.
-/

import EvoSearch.Numeric
import EvoSearch.Random.Sample
import EvoSearch.Store.Call

namespace EvoSearch.Store

/-- A program with its fitness, under the run that it belongs to. -/
structure Entry where
  run : Int64
  scored : Scored

/-- The tables, each with the oldest row first. -/
structure Memory where
  members : List Entry
  progress : List ProgressRecord
  diversity : List DiversityRecord
  finals : List Entry

namespace Memory

/-- A store with nothing in it. -/
def empty : Memory where
  members := []
  progress := []
  diversity := []
  finals := []

/-- The members that a run has published. -/
def membersOf (memory : Memory) (run : Int64) : List Scored :=
  (memory.members.filter fun entry => entry.run == run).map Entry.scored

/-- The members of the other runs. -/
def foreignTo (memory : Memory) (run : Int64) : List Scored :=
  (memory.members.filter fun entry => entry.run != run).map Entry.scored

/-- The members and results of one run or of all, without those of fitness NaN. -/
def candidates (memory : Memory) (run : Option Int64) : List Scored :=
  let entries := (memory.members ++ memory.finals).filter fun entry =>
    run.all (· == entry.run) && !entry.scored.fitness.isNaN
  entries.map Entry.scored

/-- The last one of the best in a row, by the order of all floats. -/
def lastBest? : List Scored → Option Scored
  | [] => none
  | first :: row => some <| row.foldl (fun best next =>
      if Numeric.rank best.fitness ≤ Numeric.rank next.fitness then next else best) first

instance : Backend Memory where
  serve
    | .withdraw run, memory =>
      pure (.ok (),
        { memory with members := memory.members.filter fun entry => entry.run != run })
    | .publish run members, memory =>
      pure (.ok members.length,
        { memory with members := memory.members ++ members.map fun scored => { run, scored } })
    | .sample run count, memory => do
      let rows ← Draw.sample (memory.foreignTo run) count
      pure (.ok rows, memory)
    | .logProgress record, memory =>
      pure (.ok (), { memory with progress := memory.progress ++ [record] })
    | .logDiversity records, memory =>
      pure (.ok (), { memory with diversity := memory.diversity ++ records })
    | .logFinal run result, memory =>
      pure (.ok (), { memory with finals := memory.finals ++ [{ run, scored := result }] })
    | .best run, memory => pure (.ok (lastBest? (memory.candidates run)), memory)

end Memory

end EvoSearch.Store
