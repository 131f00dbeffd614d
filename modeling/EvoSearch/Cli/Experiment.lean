/-
# Running an experiment

Seed the population of an experiment, go through generations until its budget is used up, keep the
result in its store, and tell about it.
-/

import EvoSearch.Cli.Shelf
import EvoSearch.Config.Json
import EvoSearch.Engine.Run
import EvoSearch.Synthetic.Mutation
import EvoSearch.Synthetic.Objective

namespace EvoSearch

/-- Nanoseconds of a number of seconds that is not negative, the nearest ones; of two, the even
one. There are none for so many seconds that 64 bits cannot count them. -/
def nanoseconds? (seconds : Float) : Option Nat :=
  match Decimal.Binary.ofFloat? seconds with
  | none => none
  | some binary =>
    let nanoseconds := Decimal.roundDiv .toEven
      (binary.significand * Nat.pow 2 binary.exponent.toNat * 1000000000)
      (Nat.pow 2 (-binary.exponent).toNat)
    if nanoseconds < UInt64.size * 1000000000 then some nanoseconds else none

/-- How far an experiment may go. -/
def ExperimentConfig.budget (config : ExperimentConfig) : Engine.Budget where
  steps := config.maxTrainSteps.toNat
  time := config.maxSeconds.bind nanoseconds?

/-- A mode, spelled out. -/
def RunMode.describe : RunMode → String
  | standard => "Standard"
  | hurdles => "Hurdles"
  | qualityDiversity => "QualityDiversity"
  | mapElites grid => "MapElites \x7b grid: " ++ sizesText grid ++ " \x7d"

namespace Cli

open EvoSearch.Decimal EvoSearch.Random EvoSearch.Synthetic

/-- The search of an experiment. -/
abbrev Search : Type := Engine RandomPrograms InstructionEdits Objective

/-- What an experiment has come to. -/
structure Outcome where
  generations : Nat
  search : Search
  /-- nanoseconds from seeding on -/
  elapsed : Nat

/-- The numeral of a number as a string. -/
def numeralText (n : Nat) : String :=
  String.ofList (numeral n)

/-- The lines that an experiment starts with. -/
def heading (config : ExperimentConfig) : String :=
  let evolution := config.evolution
  "Regularized Evolution\n" ++
  "=====================\n" ++
  "Run id: " ++ String.ofList (signedNumeral evolution.migration.run.toInt) ++ "\n" ++
  "Population: " ++ numeralText evolution.populationSize.toNat ++
    " (tournament " ++ numeralText evolution.tournamentSize.toNat ++ ")\n" ++
  "Mode: " ++ evolution.mode.describe ++ "\n" ++
  "Migration probability: " ++ plain evolution.migration.probability ++ "\n" ++
  "Train steps: " ++ numeralText config.maxTrainSteps.toNat ++ "\n\n"

/-- The line about the time that an experiment has taken, and about its speed. -/
def timeLine (individuals elapsed : Nat) : String :=
  let seconds := Float32.ofNat (elapsed / 1000000000) +
    Float32.ofNat (elapsed % 1000000000) / 1000000000
  let rate := Float32.ofNat individuals / seconds
  "Time: " ++ fixed 2 seconds.toFloat ++ "s (" ++ fixed 1 rate.toFloat ++ " individuals/s)\n"

/-- The lines about the best program. -/
def bestLines (best : Scored) : String :=
  "Best fitness: " ++ fixed 6 best.fitness ++ "\n" ++ best.program.toText

/-- The lines that an experiment ends with. -/
def summary (outcome : Outcome) : String :=
  let search := outcome.search
  "Generations: " ++ numeralText outcome.generations ++ "\n" ++
  "Individuals: " ++ numeralText search.individuals ++ "\n" ++
  timeLine search.individuals outcome.elapsed ++
  match search.best with
  | some best => "\n" ++ bestLines best
  | none => ""

/-- Seed the population and go through generations. The result is kept in the store if the store
takes it. -/
def explore (search : Search) (budget : Engine.Budget) : Act Outcome := do
  let start ← Act.now
  let search ← search.seed
  let (generations, search) ← search.run budget
  let stop ← Act.now
  let _ ← search.recordFinal
  pure { generations, search, elapsed := stop - start }

/-- Run an experiment with its store at hand, and tell about it. -/
def conduct (config : ExperimentConfig) (shelf : Shelf) : Script Host ExitCode := do
  Host.print (heading config)
  let start ← Host.now
  let engine ← Shelf.ofOutcome (Engine.allocate config.evolution
    (RandomPrograms.mk config.synthetic) (InstructionEdits.mk config.synthetic)
    (Objective.ofConfig config.synthetic) start)
  match engine with
  | .error reason => Host.fail ("Error creating engine: " ++ reason.message)
  | .ok search => do
    let seed ←
      match config.evolution.randomSeed with
      | some seed => pure seed
      | none => Host.entropy
    let (outcome, _) ← perform (explore search config.budget) { words := .ofSeed seed, shelf }
    Host.print (summary outcome)
    pure 0

/-- The database that a text names, or a message about both. -/
def openDatabase (text : String) : Attempt Shelf :=
  tryCatch (Shelf.ofText text) fun reason =>
    throw ("Error opening database " ++ text ++ ": " ++ reason)

/-- The store that an experiment asks for. -/
def shelfOf (config : ExperimentConfig) : Attempt Shelf :=
  match config.database with
  | none => pure Shelf.inMemory
  | some text => openDatabase text

/-- Run the experiment that a text describes. -/
def runText (text : String) : Script Host ExitCode := do
  match ExperimentConfig.decode? text with
  | none => Host.fail "Error parsing config: not the settings of an experiment"
  | some config =>
    match config.validate with
    | .error reason => Host.fail ("Invalid config: " ++ reason.message)
    | .ok () => do
      match ← (shelfOf config).run with
      | .error message => Host.fail message
      | .ok shelf => conduct config shelf

/-- The text in the file of a path. -/
def readText (path : String) : Attempt String := do
  if path.contains '\x00' then throw "a path holds no zero character"
  match String.fromUTF8? (← Host.read (.ofText path)) with
  | none => throw "not a text"
  | some text => pure text

/-- Run the experiment that a file describes. -/
def runExperiment (path : String) : Script Host ExitCode := do
  match ← (readText path).run with
  | .error reason => Host.fail ("Error reading config file: " ++ reason)
  | .ok text => runText text

end Cli

end EvoSearch
