/-
# The program

Commands on a real machine.
-/

import EvoSearch.Cli.Command

namespace EvoSearch.Cli

/-- Try to do something with a file, and give the reason where that is not possible. -/
def attempt {α : Type} (action : IO α) : IO (Except String α) := do
  try
    pure (.ok (← action))
  catch reason =>
    pure (.error (toString reason))

/-- The word of some bytes. -/
def wordOfBytes (bytes : ByteArray) : UInt64 :=
  bytes.foldl (fun word byte => word <<< 8 ||| byte.toUInt64) 0

/-- Try to do something with the file of a path. A path that is no text is out of reach here. -/
def attemptAt {α : Type} (path : Path) (action : String → IO α) : IO (Except String α) :=
  match path.text? with
  | some text => attempt (action text)
  | none => pure (.error "a path that is no text")

/-- Look what there is at the end of a path. -/
def look (path : Path) : IO Sight :=
  match path.text? with
  | none => pure .blocked
  | some text =>
    try
      let _ ← IO.FS.Handle.mk text .read
      pure .present
    catch
      | .noFileOrDirectory .. => pure .missing
      | _ => pure .blocked

/-- Take a file away, if there is one. -/
def remove (path : String) : IO Unit :=
  try
    IO.FS.removeFile path
  catch
    | .noFileOrDirectory .. => pure ()
    | reason => throw reason

/-- Answer a question of a command. -/
def answer : (request : Request) → IO request.Answer
  | .directory => do pure (.ofText (toString (← IO.currentDir)))
  | .look path => look path
  | .read path => attemptAt path fun text => IO.FS.readBinFile text
  | .write path bytes => attemptAt path fun text => IO.FS.writeBinFile text bytes
  | .append path bytes => attemptAt path fun text =>
    IO.FS.withFile text .append fun file => file.write bytes
  | .delete path => attemptAt path remove
  | .clock => IO.monoNanosNow
  | .entropy => wordOfBytes <$> IO.getRandomBytes 8
  | .print text => IO.print text
  | .complain text => IO.eprint text

/-- Run a script to its end, or to its fault. -/
def execute {α : Type} : Script Host α → IO (Except Fault α)
  | .done value => pure (.ok value)
  | .fault reason => pure (.error reason)
  | .ask request next => do
    let given ← answer request
    execute (next given)

end EvoSearch.Cli

open EvoSearch EvoSearch.Cli in
/-- Run the command of the arguments. -/
def main (arguments : List String) : IO UInt32 := do
  match ← execute (Command.ofArguments arguments).run with
  | .ok code => pure code.toUInt32
  | .error reason => do
    if let some message := reason.message? then
      IO.eprintln message
    pure faultCode.toUInt32
