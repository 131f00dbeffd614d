/-
# Acts

An act is what a running search does: it depends on chance, calls a store, and looks at the clock.
Being a script, it can be run on its own, or stopped between any two of its calls while others go
on with the same store.
-/

import EvoSearch.Store.Call

namespace EvoSearch

/-- A question of a running search. -/
inductive Effect
  | chance (choice : Choice)
  | store (call : Store.Call)
  | clock

/-- What a question of a running search is answered with. The clock tells nanoseconds. -/
abbrev Effect.Answer : Effect → Type
  | chance _ => UInt64
  | store call => Except Store.Error call.Reply
  | clock => Nat

/-- What a running search stands in. -/
abbrev Surroundings : Interface where
  Query := Effect
  Answer := Effect.Answer

/-- A computation of a running search. -/
abbrev Act (α : Type) : Type := Script Surroundings α

/-- A draw as an act. -/
def Draw.act {α : Type} (draw : Draw α) : Act α :=
  Script.lift Effect.chance (fun _ answer => answer) draw

namespace Act

variable {α : Type}

/-- Call the store. -/
def call (call : Store.Call) : Act (Except Store.Error call.Reply) :=
  .ask (.store call) .done

/-- Look at the clock. -/
def now : Act Nat :=
  .ask .clock .done

/-- What an act runs on: the words of the run's own chance, and a store. -/
structure Stage (σ ρ : Type) where
  words : ρ
  store : Store.Session σ ρ

/-- Answer a question of an act at a standing clock. -/
def serve {σ ρ : Type} [Store.Backend σ] [Random.WordStream ρ] (patience : Nat)
    (outage : Store.Outage) (time : Nat) :
    (effect : Effect) → Stage σ ρ → Except Fault (effect.Answer × Stage σ ρ)
  | .chance choice, stage =>
    match choice.serve patience stage.words with
    | .error reason => .error reason
    | .ok (answer, words) => .ok (answer, { stage with words })
  | .store call, stage =>
    match stage.store.serve patience outage call with
    | .error reason => .error reason
    | .ok (reply, store) => .ok (reply, { stage with store })
  | .clock, stage => .ok (time, stage)

/-- Run an act at a standing clock. -/
def run {σ ρ : Type} [Store.Backend σ] [Random.WordStream ρ] (patience : Nat)
    (outage : Store.Outage) (time : Nat) (act : Act α) (stage : Stage σ ρ) :
    Except Fault (α × Stage σ ρ) :=
  Script.run (serve patience outage time) act stage

end Act

end EvoSearch
