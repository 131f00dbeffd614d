/-
# Commands

What the program can be asked to do on its command line: run an experiment, tell the best program
of a database, or show what settings look like.
-/

import EvoSearch.Cli.Experiment
import EvoSearch.Cli.RunId

namespace EvoSearch.Cli

/-- A command. -/
inductive Command
  | showUsage
  | showSettings
  /-- tell the best program of a database, of one run or of all -/
  | showBest (database : Option String) (run : Option String)
  /-- run the experiment that a file describes -/
  | experiment (path : String)
  deriving DecidableEq

/-- The command of some arguments. Arguments behind those that it needs do not matter. -/
def Command.ofArguments : List String → Command
  | [] => showUsage
  | "--example" :: _ => showSettings
  | "--best" :: [] => showBest none none
  | "--best" :: database :: [] => showBest (some database) none
  | "--best" :: database :: run :: _ => showBest (some database) (some run)
  | path :: _ => experiment path

/-- What the program is called by. -/
def programName : String := "regevo"

/-- How to ask for the best program. -/
def bestUsage : String :=
  programName ++ " --best <database> [run_id]"

/-- How to use the program. -/
def usage : String :=
  "Usage: " ++ programName ++ " <config.json>\n" ++
  "       " ++ bestUsage ++ "\n" ++
  "\n" ++
  "Run regularized evolution from JSON configuration.\n" ++
  "\n" ++
  "Arguments:\n" ++
  "  config.json  Path to experiment configuration file\n" ++
  "  --best       Print the best program stored in a database\n" ++
  "\n" ++
  "Example configuration is generated with --example flag.\n"

/-- Tell the best program of a database, of one run or of all. -/
def showBest (path : String) (run : Option Int64) : Script Host ExitCode := do
  match ← (openDatabase path).run with
  | .error message => Host.fail message
  | .ok shelf => do
    match ← shelf.serve (.best run) with
    | (.error error, _) => Host.fail ("Error reading database: " ++ error.message)
    | (.ok none, _) => do
      Host.print "No stored candidates\n"
      pure 0
    | (.ok (some best), _) => do
      Host.print (bestLines best)
      pure 0

/-- Do what a command asks for. -/
def Command.run : Command → Script Host ExitCode
  | showUsage => do
    Host.complain usage
    pure 1
  | showSettings => do
    Host.print ("Example configuration (config.json):\n" ++
      (ExperimentConfig.standard.toJson Json.ofFloat).toIndentedText ++ "\n")
    pure 0
  | .showBest none _ => Host.fail ("Usage: " ++ bestUsage)
  | .showBest (some path) none => Cli.showBest path none
  | .showBest (some path) (some text) =>
    match RunId.ofText text with
    | .error reason => Host.fail ("Invalid run id " ++ text ++ ": " ++ reason.message)
    | .ok run => Cli.showBest path (some run)
  | experiment path => runExperiment path

end EvoSearch.Cli
