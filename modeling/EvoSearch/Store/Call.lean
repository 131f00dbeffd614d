/-
# Calls to a store

Runs know of each other only through a store. A call to it is one transaction: it is answered, or
it fails and the store is as it was. What a store holds and how it picks a sample is up to it.
-/

import EvoSearch.Random.Draw
import EvoSearch.Record

namespace EvoSearch.Store

/-- Why a call fails. -/
inductive Error
  | database (detail : String)
  | serialization (detail : String)
  | poisoned
  | unavailable (detail : String)
  deriving DecidableEq

/-- What there is to say about a failed call. -/
def Error.message : Error → String
  | database detail => "Database error: " ++ detail
  | serialization detail => "Serialization error: " ++ detail
  | poisoned => "Store lock poisoned"
  | unavailable detail => "Store unavailable: " ++ detail

/-- A call to a store. -/
inductive Call
  /-- take back all members that a run has published -/
  | withdraw (run : Int64)
  /-- publish members of a run -/
  | publish (run : Int64) (members : List Scored)
  /-- fetch up to so many members of other runs, picked at random -/
  | sample (run : Int64) (count : Nat)
  /-- keep a report on a population -/
  | logProgress (record : ProgressRecord)
  /-- keep reports on the members of a population -/
  | logDiversity (records : List DiversityRecord)
  /-- keep the result of a run -/
  | logFinal (run : Int64) (result : Scored)
  /-- look up the best member or result, of one run or of all -/
  | best (run : Option Int64)

/-- What a call is answered with. -/
abbrev Call.Reply : Call → Type
  | withdraw _ => Unit
  | publish _ _ => Nat
  | sample _ _ => List Scored
  | logProgress _ => Unit
  | logDiversity _ => Unit
  | logFinal _ _ => Unit
  | best _ => Option Scored

/-- A kind of store, with `σ` for what it holds. A store has a chance of its own, which no run
takes part in. -/
class Backend (σ : Type) where
  serve : (call : Call) → σ → Draw (Except Error call.Reply × σ)

/-- A store in use: what it holds, and the words of its own chance. -/
structure Session (σ ρ : Type) where
  tables : σ
  words : ρ

/-- The calls that fail for reasons outside the store, and how they do. -/
abbrev Outage : Type := Call → Option Error

/-- No call fails. -/
def Outage.none : Outage := fun _ => Option.none

/-- Answer a call, unless there is an outage. -/
def Session.serve {σ ρ : Type} [Backend σ] [Random.WordStream ρ] (patience : Nat)
    (outage : Outage) (call : Call) (session : Session σ ρ) :
    Except Fault (Except Error call.Reply × Session σ ρ) :=
  match outage call with
  | some error => .ok (.error error, session)
  | none =>
    match (Backend.serve call session.tables).run patience session.words with
    | .error reason => .error reason
    | .ok ((reply, tables), words) => .ok (reply, { tables, words })

end EvoSearch.Store
