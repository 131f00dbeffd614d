/-
# A store in a relational database

Four tables of cells. Programs are kept as text, so they have to be read back; a NaN is kept as an
empty cell, and minus zero as zero. A table may be missing, and then every call that names it
fails.
-/

import EvoSearch.Numeric
import EvoSearch.Store.Call

namespace EvoSearch.Store

/-- One cell of a row. -/
inductive Cell
  | null
  | integer (value : Int64)
  | real (value : Float)
  | text (value : String)

/-- What becomes of a float in a cell. -/
def storedReal (x : Float) : Option Float :=
  if x.isNaN then none else if x == 0 then some 0 else some x

namespace Cell

/-- The cell of a float. -/
def ofFloat (x : Float) : Cell :=
  ((storedReal x).map real).getD null

/-- The cell of a number, which wraps around at 64 bits. -/
def ofNat (n : Nat) : Cell :=
  integer (Int64.ofNat n)

end Cell

/-- A row of published programs. -/
structure ProgramRow where
  run : Int64
  /-- the listings of the three parts -/
  setup : Option String
  predict : Option String
  learn : Option String
  /-- the text that the program is read back from -/
  encoded : String
  fitness : Option Float

/-- A row of results. -/
structure ResultRow where
  run : Int64
  /-- the text for people to read -/
  text : String
  /-- the text that the program is read back from -/
  encoded : String
  fitness : Option Float

/-- The tables, each with the oldest row first, or missing. -/
structure Database where
  programs : Option (List ProgramRow)
  diversity : Option (List (List Cell))
  progress : Option (List (List Cell))
  results : Option (List ResultRow)

/-- The row of a member of a run. -/
def ProgramRow.ofScored (run : Int64) (scored : Scored) : ProgramRow where
  run := run
  setup := some (scored.program.listing .setup)
  predict := some (scored.program.listing .predict)
  learn := some (scored.program.listing .learn)
  encoded := scored.program.encode
  fitness := storedReal scored.fitness

/-- The row of the result of a run. -/
def ResultRow.ofScored (run : Int64) (scored : Scored) : ResultRow where
  run := run
  text := scored.program.toText
  encoded := scored.program.encode
  fitness := storedReal scored.fitness

/-- An optional text in a cell. -/
def Cell.ofText? (text? : Option String) : Cell :=
  (text?.map text).getD null

/-- An optional float in a cell. -/
def Cell.ofReal? (value : Option Float) : Cell :=
  (value.map real).getD null

/-- The cells of a published program. -/
def ProgramRow.cells (row : ProgramRow) : List Cell :=
  [.integer row.run, .ofText? row.setup, .ofText? row.predict, .ofText? row.learn,
    .text row.encoded, .ofReal? row.fitness]

/-- The cells of a result. -/
def ResultRow.cells (row : ResultRow) : List Cell :=
  [.integer row.run, .text row.text, .text row.encoded, .ofReal? row.fitness]

/-- The cells of a report on a population. -/
def progressCells (record : ProgressRecord) : List Cell :=
  [.integer record.run, .ofNat record.individuals, .ofNat record.elapsedSeconds,
    .ofFloat record.mean, .ofFloat record.stdev, .ofFloat record.bestFitness,
    .ofFloat record.bestOverall, .ofFloat record.bestDiversity, .ofFloat record.meanDiversity,
    .text record.bestProgram]

/-- The cells of a report on a member. -/
def diversityCells (record : DiversityRecord) : List Cell :=
  [.integer record.run, .ofNat record.individuals, .ofNat record.size, .ofNat record.setupSize,
    .ofNat record.predictSize, .ofNat record.learnSize, .ofNat record.variableCounts.total,
    .ofNat record.variableCounts.scalar, .ofNat record.variableCounts.vector,
    .ofNat record.variableCounts.matrix] ++
  record.categories.toList.map .ofNat ++
  [.ofFloat record.diversity, .ofFloat record.fitness, .text record.program]

namespace Database

/-- A database with nothing in its tables. -/
def empty : Database where
  programs := some []
  diversity := some []
  progress := some []
  results := some []

/-- The database with the tables made that are missing. -/
def complete (database : Database) : Database where
  programs := some (database.programs.getD [])
  diversity := some (database.diversity.getD [])
  progress := some (database.progress.getD [])
  results := some (database.results.getD [])

/-- The failure of a call that names a missing table. -/
def missing (table : String) : Error :=
  .database ("no such table: " ++ table)

/-- The member of a row, if its program can be read back. -/
def readBack (encoded : String) (fitness : Option Float) : Except Error Scored :=
  match Program.decode? encoded with
  | some program => .ok { program, fitness := fitness.getD Numeric.nan }
  | none => .error (.serialization "not a program")

/-- The rows in random order. -/
def shuffled {α : Type} (rows : List α) : Draw (List α) := do
  let keys ← Script.replicate rows.length Draw.word
  pure (((keys.zip rows).mergeSort fun a b => a.1 ≤ b.1).map Prod.snd)

/-- The first `count` rows. The count wraps around at 64 bits, and a negative one is no limit. -/
def limited {α : Type} (count : Nat) (rows : List α) : List α :=
  let limit := Int64.ofNat count
  if limit < 0 then rows else rows.take limit.toInt.toNat

/-- The texts and fitnesses of published programs and of results, of one run or of all, those
without a fitness left out. -/
def candidates (programs : List ProgramRow) (results : List ResultRow) (run : Option Int64) :
    List (String × Float) :=
  let wanted (owner : Int64) : Bool := run.all (· == owner)
  (programs.filter fun row => wanted row.run).filterMap
      (fun row => row.fitness.map (row.encoded, ·)) ++
    (results.filter fun row => wanted row.run).filterMap
      fun row => row.fitness.map (row.encoded, ·)

/-- The first one of the highest in a row. -/
def firstHighest? : List (String × Float) → Option (String × Float)
  | [] => none
  | first :: row =>
    some (row.foldl (fun best next => if best.2 < next.2 then next else best) first)

instance : Backend Database where
  serve
    | .withdraw run, database =>
      match database.programs with
      | none => pure (.error (missing "algs"), database)
      | some rows =>
        pure (.ok (), { database with programs := some (rows.filter fun row => row.run != run) })
    | .publish run members, database =>
      match database.programs with
      | none => pure (.error (missing "algs"), database)
      | some rows =>
        pure (.ok members.length,
          { database with programs := some (rows ++ members.map (ProgramRow.ofScored run)) })
    | .sample run count, database =>
      match database.programs with
      | none => pure (.error (missing "algs"), database)
      | some rows => do
        let rows ← shuffled (rows.filter fun row => row.run != run)
        pure ((limited count rows).mapM (fun row => readBack row.encoded row.fitness), database)
    | .logProgress record, database =>
      match database.progress with
      | none => pure (.error (missing "progress"), database)
      | some rows =>
        pure (.ok (), { database with progress := some (rows ++ [progressCells record]) })
    | .logDiversity records, database =>
      match database.diversity with
      | none => pure (.error (missing "diversity"), database)
      | some rows =>
        pure (.ok (), { database with diversity := some (rows ++ records.map diversityCells) })
    | .logFinal run result, database =>
      match database.results with
      | none => pure (.error (missing "final_results"), database)
      | some rows =>
        pure (.ok (), { database with results := some (rows ++ [.ofScored run result]) })
    | .best run, database =>
      match database.programs, database.results with
      | none, _ => pure (.error (missing "algs"), database)
      | _, none => pure (.error (missing "final_results"), database)
      | some programs, some results =>
        match firstHighest? (candidates programs results run) with
        | none => pure (.ok none, database)
        | some (encoded, fitness) =>
          pure ((readBack encoded (some fitness)).map some, database)

end Database

end EvoSearch.Store
