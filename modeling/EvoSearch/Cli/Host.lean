/-
# Hosts

What a command asks of the machine that it runs on: bytes in files, the clock, some entropy, and
the two streams that it writes to.
-/

import EvoSearch.Cli.Path
import EvoSearch.Script

namespace EvoSearch.Cli

/-- What there is at the end of a path. -/
inductive Sight
  | missing
  /-- a file or a directory -/
  | present
  /-- a path that could lead to nothing, since a file is in its way or a name is too long -/
  | blocked
  deriving DecidableEq

/-- A question to the machine. -/
inductive Request
  /-- the directory that paths start from, unless they start at the root -/
  | directory
  /-- what there is at the end of a path -/
  | look (path : Path)
  /-- the bytes of a file -/
  | read (path : Path)
  /-- put bytes in the place of those in a file, which is made if it is missing -/
  | write (path : Path) (bytes : ByteArray)
  /-- write behind the bytes of a file, which is made if it is missing -/
  | append (path : Path) (bytes : ByteArray)
  /-- take a file away, if there is one -/
  | delete (path : Path)
  /-- nanoseconds since some point in the past -/
  | clock
  /-- a word that cannot be foreseen -/
  | entropy
  /-- write to the output -/
  | print (text : String)
  /-- write to the error output -/
  | complain (text : String)

/-- What a question to the machine is answered with. A file that is out of reach is answered with
the reason. -/
abbrev Request.Answer : Request → Type
  | directory => Path
  | look _ => Sight
  | read _ => Except String ByteArray
  | write _ _ => Except String Unit
  | append _ _ => Except String Unit
  | delete _ => Except String Unit
  | clock => Nat
  | entropy => UInt64
  | print _ => Unit
  | complain _ => Unit

/-- The machine that a command runs on. -/
abbrev Host : Interface where
  Query := Request
  Answer := Request.Answer

/-- A script on a machine that may be given up, with a reason. -/
abbrev Attempt (α : Type) : Type := ExceptT String (Script Host) α

/-- How a command ends: zero if it has done what it was asked to do. -/
abbrev ExitCode : Type := UInt8

/-- The exit code of a command that comes to an end by a fault. -/
def faultCode : ExitCode := 101

namespace Host

/-- The directory that paths start from. -/
def directory : Script Host Path :=
  .ask .directory .done

/-- Look what there is at the end of a path. -/
def look (path : Path) : Script Host Sight :=
  .ask (.look path) .done

/-- The bytes of a file. -/
def read (path : Path) : Attempt ByteArray :=
  ExceptT.mk (.ask (.read path) .done)

/-- Put bytes in the place of those in a file. -/
def write (path : Path) (bytes : ByteArray) : Attempt Unit :=
  ExceptT.mk (.ask (.write path bytes) .done)

/-- Write behind the bytes of a file. -/
def append (path : Path) (bytes : ByteArray) : Attempt Unit :=
  ExceptT.mk (.ask (.append path bytes) .done)

/-- Take a file away. -/
def delete (path : Path) : Attempt Unit :=
  ExceptT.mk (.ask (.delete path) .done)

/-- Look at the clock. -/
def now : Script Host Nat :=
  .ask .clock .done

/-- A word that cannot be foreseen. -/
def entropy : Script Host UInt64 :=
  .ask .entropy .done

/-- Write to the output. -/
def print (text : String) : Script Host Unit :=
  .ask (.print text) .done

/-- Write to the error output. -/
def complain (text : String) : Script Host Unit :=
  .ask (.complain text) .done

/-- Give up with a message. -/
def fail (message : String) : Script Host ExitCode := do
  complain (message ++ "\n")
  pure 1

end Host

end EvoSearch.Cli
