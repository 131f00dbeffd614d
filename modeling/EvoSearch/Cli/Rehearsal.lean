/-
# Rehearsals

A rehearsal runs commands on no machine at all: its files are rows of bytes by place, its clock
stands still, and what a command writes is kept. Paths start from one directory that has no name to
be called by, and there are no directories but those on the way to it and to the files.
-/

import EvoSearch.Cli.Command

namespace EvoSearch.Cli

/-- What there is in a rehearsal. -/
structure Rehearsal where
  files : List (Place × ByteArray)
  output : String
  errors : String

namespace Rehearsal

/-- The path of the directory that paths start from. There is a zero in it, as in no path of a
command, so that it is only reached by starting from it. -/
def directory : Path := .ofText "/tmp/\x00rehearsals"

/-- The place of the directory that paths start from. -/
def home : Place :=
  directory.pieces.filter fun piece => !piece.isStill

/-- Whether a place is a directory: one on the way to the directory that paths start from, or on
the way to a file. -/
def isDirectory (files : List (Place × ByteArray)) (place : Place) : Bool :=
  place.isPrefixOf home || files.any fun file => place.isPrefixOf file.1 && place ≠ file.1

/-- The bytes of the file at a place. -/
def file? (files : List (Place × ByteArray)) (place : Place) : Option ByteArray :=
  files.lookup place

/-- What there is at a place, given that there is a way to it. -/
def sightOf (files : List (Place × ByteArray)) (place : Place) : Sight :=
  if isDirectory files place || (file? files place).isSome then .present else .missing

/-- The length of the longest name of a file or directory. -/
def longestName : Nat := 255

/-- The length that all paths stay below. -/
def pathLimit : Nat := 4096

/-- Go on from a place, piece by piece. Only directories have something in them. Where there is no
way on, the reason is told by what is to be seen. -/
def walk (files : List (Place × ByteArray)) : (place : Place) → (pieces : List Piece) →
    Except Sight Place
  | place, [] => .ok place
  | place, piece :: pieces =>
    if (file? files place).isSome then .error .blocked
    else if !isDirectory files place then .error .missing
    else if piece.isStill then walk files place pieces
    else if piece.isUp then walk files place.dropLast pieces
    else if longestName < piece.length then .error .blocked
    else walk files (place ++ [piece]) pieces

/-- The place that a path leads to, whether there is something or not. -/
def placeOf (files : List (Place × ByteArray)) (path : Path) : Except Sight Place :=
  if pathLimit ≤ path.length then .error .blocked
  else if path.bytes = [] then .error .missing
  else walk files (if path.isRooted then [] else home) path.pieces

/-- What there is at the end of a path. -/
def sight (files : List (Place × ByteArray)) (path : Path) : Sight :=
  match placeOf files path with
  | .ok place => sightOf files place
  | .error sight => sight

/-- The place of the null device, a file that is always empty. -/
def nullDevice : Place :=
  [(Path.ofText "dev").bytes, (Path.ofText "null").bytes]

/-- The place of the file that a path leads to, whether there is one or not. -/
def filePlace? (files : List (Place × ByteArray)) (path : Path) : Option Place :=
  match placeOf files path with
  | .ok place => if isDirectory files place then none else some place
  | .error _ => none

/-- The files with other bytes in one of them. -/
def update (change : ByteArray → ByteArray) (place : Place) :
    List (Place × ByteArray) → List (Place × ByteArray)
  | [] => [(place, change .empty)]
  | (other, old) :: files =>
    if other = place then (other, change old) :: files
    else (other, old) :: update change place files

/-- Change the bytes of a file, which is made if it is missing. -/
def store (change : ByteArray → ByteArray) (path : Path) (rehearsal : Rehearsal) :
    Except String Unit × Rehearsal :=
  match filePlace? rehearsal.files path with
  | none => (.error "unable to open file", rehearsal)
  | some place =>
    if place = nullDevice then (.error "not changed", rehearsal)
    else (.ok (), { rehearsal with files := update change place rehearsal.files })

/-- Take a file away. A directory stays, and a path that could lead to nothing is an error. -/
def remove (path : Path) (rehearsal : Rehearsal) : Except String Unit × Rehearsal :=
  match placeOf rehearsal.files path with
  | .error .missing => (.ok (), rehearsal)
  | .error _ => (.error "unable to delete file", rehearsal)
  | .ok place =>
    if isDirectory rehearsal.files place || place = nullDevice then
      (.error "not a file", rehearsal)
    else (.ok (), { rehearsal with files := rehearsal.files.filter fun file => file.1 ≠ place })

/-- Answer a question of a command. -/
def serve : (request : Request) → Rehearsal → request.Answer × Rehearsal
  | .directory, rehearsal => (directory, rehearsal)
  | .look path, rehearsal => (sight rehearsal.files path, rehearsal)
  | .read path, rehearsal =>
    match (filePlace? rehearsal.files path).bind (file? rehearsal.files) with
    | none => (.error "no such file", rehearsal)
    | some bytes => (.ok bytes, rehearsal)
  | .write path bytes, rehearsal => rehearsal.store (fun _ => bytes) path
  | .append path bytes, rehearsal => rehearsal.store (fun old => old ++ bytes) path
  | .delete path, rehearsal => rehearsal.remove path
  | .clock, rehearsal => (0, rehearsal)
  | .entropy, rehearsal => (0, rehearsal)
  | .print text, rehearsal => ((), { rehearsal with output := rehearsal.output ++ text })
  | .complain text, rehearsal => ((), { rehearsal with errors := rehearsal.errors ++ text })

/-- Run a script to its end, or to its fault. -/
def perform {α : Type} : Script Host α → Rehearsal → Except Fault α × Rehearsal
  | .done value, rehearsal => (.ok value, rehearsal)
  | .fault reason, rehearsal => (.error reason, rehearsal)
  | .ask request next, rehearsal =>
    let (answer, rehearsal) := rehearsal.serve request
    perform (next answer) rehearsal

/-- A rehearsal with some texts in files, each by its path. -/
def ofTexts (texts : List (String × String)) : Rehearsal where
  files := (nullDevice, .empty) :: texts.map fun text =>
    (home ++ (Path.ofText text.1).pieces.filter (fun piece => !piece.isStill), text.2.toUTF8)
  output := ""
  errors := ""

/-- Run the command of some arguments on the files that there are. Gives its exit code, what it
writes, and the files that it leaves. -/
def run (rehearsal : Rehearsal) (arguments : List String) : ExitCode × Rehearsal :=
  let start := { rehearsal with output := "", errors := "" }
  match perform (Command.ofArguments arguments).run start with
  | (.ok code, rehearsal) => (code, rehearsal)
  | (.error _, rehearsal) => (faultCode, rehearsal)

end Rehearsal

end EvoSearch.Cli
