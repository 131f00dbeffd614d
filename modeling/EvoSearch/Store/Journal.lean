/-
# Databases as files

A database is kept in a file as the list of its changes, a line each behind a header, so that
several runs may add to the same file. The database is what the changes make of an empty one.
-/

import EvoSearch.Store.Database

namespace EvoSearch.Store

open Json

namespace Cell

/-- A cell in JSON. A float is written as its bits, in a list, since it may be infinite. -/
def toJson : Cell → Json
  | null => .null
  | integer value => .ofInt value.toInt
  | real value => .array [.ofNat value.toBits.toNat]
  | text value => .text value

/-- The cell of a value. -/
def ofJson? : Json → Option Cell
  | .null => some null
  | .array [bits] => bits.word?.map fun word => real (Float.ofBits word)
  | .text value => some (text value)
  | value => value.signedWord?.map integer

/-- The text of a cell that holds one, or none where it is empty. -/
def text? : Cell → Option (Option String)
  | text value => some (some value)
  | null => some none
  | _ => none

/-- The float of a cell that holds one, or none where it is empty. -/
def real? : Cell → Option (Option Float)
  | real value => some (some value)
  | null => some none
  | _ => none

@[simp] theorem text?_ofText? (value : Option String) : (ofText? value).text? = some value := by
  cases value <;> rfl

@[simp] theorem real?_ofReal? (value : Option Float) : (ofReal? value).real? = some value := by
  cases value <;> rfl

end Cell

/-- The published program of a row of cells. -/
def ProgramRow.ofCells? : List Cell → Option ProgramRow
  | [.integer run, setup, predict, learn, .text encoded, fitness] => do
    let setup ← setup.text?
    let predict ← predict.text?
    let learn ← learn.text?
    let fitness ← fitness.real?
    pure { run, setup, predict, learn, encoded, fitness }
  | _ => none

/-- The result of a row of cells. -/
def ResultRow.ofCells? : List Cell → Option ResultRow
  | [.integer run, .text text, .text encoded, fitness] => do
    let fitness ← fitness.real?
    pure { run, text, encoded, fitness }
  | _ => none

@[simp] theorem ProgramRow.ofCells?_cells (row : ProgramRow) : ofCells? row.cells = some row := by
  simp [ofCells?, cells]

@[simp] theorem ResultRow.ofCells?_cells (row : ResultRow) : ofCells? row.cells = some row := by
  simp [ofCells?, cells]

/-- What a call changes. -/
inductive Change
  /-- take out the programs of a run -/
  | withdraw (run : Int64)
  | programs (rows : List ProgramRow)
  | diversity (rows : List (List Cell))
  | progress (row : List Cell)
  | result (row : ResultRow)

namespace Change

/-- The change that a call makes; there is none if the call only asks for something. -/
def ofCall? : Call → Option Change
  | .withdraw run => some (withdraw run)
  | .publish run members => some (programs (members.map (ProgramRow.ofScored run)))
  | .sample _ _ => none
  | .logProgress record => some (progress (progressCells record))
  | .logDiversity records => some (diversity (records.map diversityCells))
  | .logFinal run scored => some (result (.ofScored run scored))
  | .best _ => none

/-- The database after a change. Missing tables stay missing. -/
def apply (database : Database) : Change → Database
  | withdraw run =>
    { database with programs := database.programs.map (List.filter fun row => row.run != run) }
  | programs rows => { database with programs := database.programs.map (· ++ rows) }
  | diversity rows => { database with diversity := database.diversity.map (· ++ rows) }
  | progress row => { database with progress := database.progress.map (· ++ [row]) }
  | result row => { database with results := database.results.map (· ++ [row]) }

/-- On a database with all of its tables, a call that changes something succeeds and makes its
change. -/
theorem serve_eq_apply {call : Call} {change : Change} (changes : ofCall? call = some change)
    {database : Database} (complete : database.complete = database) :
    ∃ reply, Backend.serve call database = pure (.ok reply, change.apply database) := by
  obtain ⟨programs, diversity, progress, results⟩ := database
  cases programs <;> cases diversity <;> cases progress <;> cases results <;>
    simp [Database.complete] at complete
  cases call <;> simp only [ofCall?, Option.some.injEq, reduceCtorEq] at changes <;>
    subst changes <;> exact ⟨_, rfl⟩

/-- Rows of cells in JSON. -/
def rowsJson (rows : List (List Cell)) : Json :=
  .array (rows.map fun row => .array (row.map Cell.toJson))

/-- A change in JSON: an object whose one key tells what is changed. -/
def toJson : Change → Json
  | withdraw run => .object [("withdraw", .ofInt run.toInt)]
  | programs rows => .object [("programs", rowsJson (rows.map ProgramRow.cells))]
  | diversity rows => .object [("diversity", rowsJson rows)]
  | progress row => .object [("progress", rowsJson [row])]
  | result row => .object [("result", rowsJson [row.cells])]

/-- The rows of cells of a value. -/
def rowsOfJson? : Json → Option (List (List Cell)) :=
  list? (list? Cell.ofJson?)

/-- The change of a value. -/
def ofJson? : Json → Option Change
  | .object [("withdraw", run)] => run.signedWord?.map withdraw
  | .object [("programs", value)] => do
    let rows ← rowsOfJson? value
    programs <$> rows.mapM ProgramRow.ofCells?
  | .object [("diversity", value)] => diversity <$> rowsOfJson? value
  | .object [("progress", value)] => do
    match ← rowsOfJson? value with
    | [row] => pure (progress row)
    | _ => none
  | .object [("result", value)] => do
    match ← rowsOfJson? value with
    | [row] => result <$> ResultRow.ofCells? row
    | _ => none
  | _ => none

/-- The line of a change. -/
def line (change : Change) : String :=
  change.toJson.toText ++ "\n"

/-- The change of a line. -/
def ofLine? (line : String) : Option Change := do
  let value ← Json.ofText? line
  ofJson? value

end Change

namespace Journal

/-- The first bytes of the file of a database. They are not those of a text, so that no text is
taken for a database, and no database for a text. -/
def header : ByteArray :=
  ByteArray.mk #[0xfe, 0xff] ++ "evosearch database, a line for every change\n".toUTF8

/-- Whether a file is that of a database which has been opened before. -/
def isJournal (file : ByteArray) : Bool :=
  file.extract 0 header.size == header

/-- The database after the change of one line. The piece behind the last line is empty. -/
def advance? (database : Database) (line : String) : Option Database :=
  if line.isEmpty then some database else (Change.ofLine? line).map (Change.apply database)

/-- The database after the changes of some lines. -/
def replay? (database : Database) (lines : ByteArray) : Option Database := do
  let text ← String.fromUTF8? lines
  (text.splitOn "\n").foldlM advance? database

end Journal

end EvoSearch.Store
