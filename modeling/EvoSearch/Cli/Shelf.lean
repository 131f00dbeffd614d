/-
# Where a command keeps its store

In memory, in a database of its own, or in the file of a database that it shares with others. A
file is read on from where the last reading ended, since others may have added to it.
-/

import EvoSearch.Act
import EvoSearch.Cli.Mount
import EvoSearch.Store.Memory

namespace EvoSearch.Cli

open EvoSearch.Random EvoSearch.Store

/-- The store of a command. -/
inductive Shelf
  | memory (session : Session Memory KeyStream)
  /-- a database that nobody else sees -/
  | database (session : Session Database KeyStream)
  /-- a database in a file, of which so many bytes have been read -/
  | file (mounted : Mounted) (seen : Nat) (session : Session Database KeyStream)

namespace Shelf

/-- Go on as the outcome of a pure step tells. -/
def ofOutcome {I : Interface} {α : Type} : Except Fault α → Script I α
  | .ok value => .done value
  | .error reason => .fault reason

/-- A store in memory. Its chance is the same every time. -/
def inMemory : Shelf :=
  memory { tables := .empty, words := .ofSeed 0 }

/-- The database of a location, with its tables in place. -/
def ofLocation (location : Location) : Attempt Shelf := do
  let words := KeyStream.ofSeed (← Host.entropy)
  match location with
  | .file volume => do
    let mounted ← volume.mount
    pure (file mounted Journal.header.size { tables := .empty, words })
  | .memory writable =>
    if writable then pure (database { tables := .empty, words })
    else throw Volume.readOnly

/-- The database that a text names. -/
def ofText (text : String) : Attempt Shelf :=
  match Location.ofText text with
  | .error reason => throw reason.message
  | .ok location => ofLocation location

/-- The database of a file with everything that has been added to it. -/
def catchUp (path : Path) (seen : Nat) (session : Session Database KeyStream) :
    Script Host (Except Error (Nat × Session Database KeyStream)) := do
  match ← (Host.read path).run with
  | .error reason => pure (.error (.database reason))
  | .ok bytes =>
    match Journal.replay? session.tables (bytes.extract seen bytes.size) with
    | none => pure (.error (.database "database disk image is malformed"))
    | some tables => pure (.ok (bytes.size, { session with tables }))

/-- Answer a call from a database, whose own chance is used up for it. -/
def answer {σ : Type} [Backend σ] (call : Call) (session : Session σ KeyStream) :
    Script Host (Except Error call.Reply × Session σ KeyStream) :=
  ofOutcome (session.serve Draw.longPatience .none call)

/-- Answer a call. What it changes in a file is added at the end of the file. -/
def serve (call : Call) : Shelf → Script Host (Except Error call.Reply × Shelf)
  | memory session => do
    let (reply, session) ← answer call session
    pure (reply, memory session)
  | database session => do
    let (reply, session) ← answer call session
    pure (reply, database session)
  | file mounted seen session =>
    match Change.ofCall? call with
    | some change => do
      match ← (mounted.change (Host.append mounted.path change.line.toUTF8)).run with
      | .error reason => pure (.error (.database reason), file mounted seen session)
      | .ok () => do
        let (reply, _) ← answer call session
        pure (reply, file mounted seen session)
    | none => do
      match ← catchUp mounted.path seen session with
      | .error error => pure (.error error, file mounted seen session)
      | .ok (seen, session) => do
        let (reply, session) ← answer call session
        pure (reply, file mounted seen session)

end Shelf

/-- What the search of a command runs on. -/
structure Desk where
  words : KeyStream
  shelf : Shelf

/-- Do what an act does on a machine. -/
def perform {α : Type} : Act α → Desk → Script Host (α × Desk)
  | .done value, desk => pure (value, desk)
  | .fault reason, _ => .fault reason
  | .ask (.chance choice) next, desk =>
    match choice.serve Draw.longPatience desk.words with
    | .error reason => .fault reason
    | .ok (answer, words) => perform (next answer) { desk with words }
  | .ask (.store call) next, desk => do
    let (reply, shelf) ← desk.shelf.serve call
    perform (next reply) { desk with shelf }
  | .ask .clock next, desk =>
    .ask .clock fun time => perform (next time) desk

end EvoSearch.Cli
