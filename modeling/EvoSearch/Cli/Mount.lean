/-
# Mounting a volume

Before the file of a database is used, its place is found, and what others may have left beside it
is cleared away: the journal of a change that was broken off, a log of changes, and the index of
that log. None of these adds anything to the database, but a volume that may only be read is refused
beside a journal that calls for a change. A journal that starts with a zero has been put out of use
by its owner, and an empty file is nothing at all.
-/

import EvoSearch.Cli.Host
import EvoSearch.Cli.Location
import EvoSearch.Store.Image
import EvoSearch.Store.Journal

namespace EvoSearch.Cli

open EvoSearch.Store

namespace Place

/-- The length of the longest path that is gone through on the way to a place. -/
def longestPath : Nat := 511

/-- Go on from a place by a piece of a path. What is not there yet is no hindrance. -/
def step (place : Place) (piece : Piece) : Script Host (Option Place) :=
  if piece.isStill then pure (some place)
  else if piece.isUp then pure (some place.dropLast)
  else
    let place : Place := place ++ [piece]
    if longestPath < place.path.length then pure none
    else do
      let sight ← Host.look place.path
      pure (if sight = .blocked then none else some place)

/-- Go on from a place by some pieces of a path. -/
def walk : (place : Place) → (pieces : List Piece) → Script Host (Option Place)
  | place, [] => pure (some place)
  | place, piece :: pieces => do
    match ← place.step piece with
    | some place => place.walk pieces
    | none => pure none

/-- The place that a path leads to. -/
def ofPath (path : Path) : Script Host (Option Place) := do
  if path.isRooted then walk [] path.pieces
  else walk [] ((← Host.directory).pieces ++ path.pieces)

end Place

/-- A volume that is ready for use. -/
structure Mounted where
  path : Path
  writable : Bool
  /-- whether changes go to a log before they go to the file -/
  logged : Bool

/-- What stands at the place of a file that others may have left. -/
inductive Leftover
  | none
  | file (bytes : ByteArray)
  /-- something that is no file -/
  | obstacle

/-- What stands at the end of the path of a leftover. An empty file does not count. -/
def Leftover.find (path : Path) : Script Host Leftover := do
  match ← (Host.read path).run with
  | .ok bytes => pure (if bytes.isEmpty then .none else .file bytes)
  | .error _ => pure (if (← Host.look path) = .present then .obstacle else .none)

namespace Volume

/-- What is told of a file that cannot be used. -/
def unusable : String := "unable to open database file"

/-- What is told of a change to a database that may only be read. -/
def readOnly : String := "attempt to write a readonly database"

/-- What is told of a file with something else in it. -/
def foreign : String := "file is not a database"

/-- What is told of a database that somebody else uses. -/
def locked : String := "database is locked"

/-- What is told of a log whose index is of no use. -/
def unsettled : String := "locking protocol"

/-- The path of the journal of a file. -/
def journal (path : Path) : Path := path.beside "-journal"

/-- The path of the log of a file. -/
def log (path : Path) : Path := path.beside "-wal"

/-- The path of the index of the log of a file. -/
def index (path : Path) : Path := path.beside "-shm"

/-- The path of the marker of those who use a file. -/
def marker (path : Path) : Path := path.beside ".lock"

/-- The length of the longest path of a database; that of its journal is longer by eight bytes. -/
def longestPath : Nat := 504

/-- Find the path of the file of a volume, from the root on. -/
def locate (volume : Volume) : Attempt Path := do
  match ← Place.ofPath volume.path with
  | none => throw unusable
  | some place =>
    if place = [] || longestPath < place.path.length then throw unusable
    else pure place.path

/-- Make sure that the path which has to lead to something does so. -/
def checkModel (volume : Volume) : Attempt Unit := do
  match volume.model? with
  | none => pure ()
  | some model => if (← Host.look model) ≠ .present then throw unusable

/-- The bytes of the file of a volume, which is made if it may be. -/
def contents (volume : Volume) (path : Path) : Attempt ByteArray := do
  if volume.access = .create then
    Host.append path .empty
  Host.read path

/-- Make sure that nobody else uses the file. Only markers outlast their owners. -/
def checkMarker (volume : Volume) (path : Path) : Attempt Unit := do
  match volume.locking with
  | .marker => if (← Host.look (marker path)) ≠ .missing then throw locked
  | _ => pure ()

/-- Whether the journal of a broken-off change is left to its owner: a marker tells that there is
one. Whoever sets a marker takes it for that of an owner, too. -/
def sparesJournal (volume : Volume) (path : Path) : Script Host Bool := do
  match volume.locking with
  | .marker => pure true
  | .heeding => pure ((← Host.look (marker path)) = .present)
  | _ => pure false

/-- Whether a journal has been put out of use: it starts with a zero. -/
def isDisused (journal : ByteArray) : Bool :=
  (journal.extract 0 1).data = #[0]

/-- Whether an attempt succeeds. -/
def succeeds (attempt : Attempt Unit) : Script Host Bool := do
  match ← attempt.run with
  | .ok () => pure true
  | .error _ => pure false

/-- Take away a leftover, if that is possible. -/
def discard (path : Path) : Script Host Unit := do
  let _ ← succeeds (Host.delete path)

/-- Clear away the journal of a broken-off change. Beside a blank file it means nothing. -/
def clearJournal (volume : Volume) (path : Path) (blank : Bool) : Attempt Unit := do
  if !(← volume.sparesJournal path) then
    match ← Leftover.find (journal path) with
    | .none => pure ()
    | .obstacle => if !blank then throw unusable
    | .file bytes =>
      if blank then
        if volume.access ≠ .read || !volume.locking.locksFile then
          discard (journal path)
      else if !isDisused bytes then
        if volume.access = .read then throw readOnly
        else Host.delete (journal path)

/-- The bytes of an index of an empty log. They are not those of a text. -/
def emptyIndex : ByteArray :=
  ByteArray.mk (Array.replicate 32768 0xff)

/-- Whether a log does without an index: it ends within its header, or the header carries no mark
of its owner. -/
def isUnmarked (log : ByteArray) : Bool :=
  log.size < 32 || (log.extract 16 24).data.all (· = 0)

/-- Use a file that may only be read, as there is no index for its log. -/
def mountUnindexed (path : Path) (bytes : ByteArray) : Attempt Mounted :=
  if isUnmarked bytes then pure { path, writable := false, logged := true }
  else throw unsettled

/-- Use a file with its log, of which the index is made anew. Afterwards both are gone, unless
nothing may be changed. One who has the file alone needs no index. -/
def mountLogged (volume : Volume) (path : Path) (bytes : ByteArray) : Attempt Mounted := do
  let writable := volume.access ≠ .read
  if volume.locking = .whole && writable then
    discard (log path)
    pure { path, writable, logged := true }
  else if volume.fixedIndex then
    if (← Host.look (index path)) = .present then mountUnindexed path bytes
    else throw unusable
  else if ← succeeds (Host.write (index path) emptyIndex) then
    if writable then
      discard (log path)
      discard (index path)
    pure { path, writable, logged := true }
  else
    mountUnindexed path bytes

/-- Clear away the log of a file, or use the file with it. Beside a blank file it means nothing. -/
def clearLog (volume : Volume) (path : Path) (blank : Bool) : Attempt Mounted := do
  let plain : Mounted := { path, writable := volume.access ≠ .read, logged := false }
  match ← Leftover.find (log path) with
  | .none => pure plain
  | .obstacle => throw unusable
  | .file bytes =>
    if blank then
      discard (log path)
      pure plain
    else if volume.locking.locksFile then volume.mountLogged path bytes
    else throw unusable

/-- Clear away what others may have left beside a file. -/
def clear (volume : Volume) (path : Path) (blank : Bool) : Attempt Mounted := do
  if volume.frozen then pure { path, writable := false, logged := false }
  else
    volume.checkMarker path
    volume.clearJournal path blank
    volume.clearLog path blank

end Volume

namespace Mounted

/-- Make a change. Outside of a log it has a journal of its own, which is gone afterwards. -/
def change (mounted : Mounted) (act : Attempt Unit) : Attempt Unit := do
  if !mounted.writable then throw Volume.readOnly
  else
    if !mounted.logged then
      Host.delete (Volume.journal mounted.path)
    act

/-- Put a database without anything in it in the place of a file. -/
def format (mounted : Mounted) : Attempt Unit :=
  mounted.change (Host.write mounted.path Journal.header)

end Mounted

/-- Make a volume ready for use. A file of one byte counts as a blank one, and a database is put in
the place of a bare image. -/
def Volume.mount (volume : Volume) : Attempt Mounted := do
  let path ← volume.locate
  volume.checkModel
  let bytes ← volume.contents path
  let blank := bytes.size ≤ 1
  let mounted ← volume.clear path blank
  if blank || Image.isBare bytes then
    mounted.format
    pure mounted
  else if Journal.isJournal bytes then pure mounted
  else throw foreign

end EvoSearch.Cli
