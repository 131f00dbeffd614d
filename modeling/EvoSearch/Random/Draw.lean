/-
# Draws

A draw is a script that asks chance for numbers. What it can end in is fixed by the script; which
of these it ends in is fixed by the stream of words that it is run on.
-/

import EvoSearch.Script
import EvoSearch.Random.Range
import EvoSearch.Random.Stream

namespace EvoSearch

open EvoSearch.Random

/-- A question to chance. Every number that the question admits is as likely as the others. -/
inductive Choice
  /-- a number up to and including `bound`, from 64-bit words -/
  | upTo (bound : UInt64)
  /-- a number up to and including `bound`, from 32-bit words -/
  | upTo32 (bound : UInt32)
  /-- a number up to and including `bound`, drawn again until `hit` holds of it -/
  | firstHit (bound : UInt64) (hit : UInt64 → Bool)
  /-- a number up to and including `bound`, from 32-bit words of which as many as possible are
  used, drawn again until `hit` holds of it -/
  | firstHit32 (bound : UInt32) (hit : UInt64 → Bool)
  /-- a number up to and including `bound`, from 64-bit words of which as many as possible are
  used, drawn again until `hit` holds of it -/
  | firstHit64 (bound : UInt64) (hit : UInt64 → Bool)

namespace Choice

/-- The answers that a question admits. -/
def Admits : Choice → UInt64 → Prop
  | upTo bound, answer => answer ≤ bound
  | upTo32 bound, answer => answer.toNat ≤ bound.toNat
  | .firstHit bound hit, answer => answer ≤ bound ∧ hit answer = true
  | .firstHit32 bound hit, answer => answer.toNat ≤ bound.toNat ∧ hit answer = true
  | .firstHit64 bound hit, answer => answer ≤ bound ∧ hit answer = true

/-- Repeat `attempt` until it brings something, `patience` times at the most. -/
def retry {α ρ : Type} (attempt : ρ → Except Fault (Option α × ρ)) :
    (patience : Nat) → ρ → Except Fault (α × ρ)
  | 0, _ => .error .stalled
  | patience + 1, stream =>
    match attempt stream with
    | .error reason => .error reason
    | .ok (some found, stream) => .ok (found, stream)
    | .ok (none, stream) => retry attempt patience stream

variable {ρ : Type} [WordStream ρ]

/-- A number up to `bound` from 64-bit words, passing over the words that are not used. -/
def fromWords64 (patience : Nat) (bound : UInt64) : ρ → Except Fault (UInt64 × ρ) :=
  retry (fun stream =>
    let (word, stream) := WordStream.next64 stream
    .ok (wordOffset? bound word, stream)) patience

/-- A number up to `bound` from 32-bit words, passing over the words that are not used. -/
def fromWords32 (patience : Nat) (bound : UInt32) : ρ → Except Fault (UInt64 × ρ) :=
  retry (fun stream =>
    let (word, stream) := WordStream.next stream
    .ok ((offset? 32 (bound.toNat + 1) word.toNat).map UInt64.ofNat, stream)) patience

/-- A number up to `bound` from 32-bit words, passing over as few words as possible. -/
def fromMostWords32 (patience : Nat) (bound : UInt32) : ρ → Except Fault (UInt64 × ρ) :=
  let span := bound.toNat + 1
  retry (fun stream =>
    let (word, stream) := WordStream.next stream
    .ok ((offsetWithin? (widestZone 32 span) 32 span word.toNat).map UInt64.ofNat, stream)) patience

/-- A number up to `bound` from 64-bit words, passing over as few words as possible. -/
def fromMostWords64 (patience : Nat) (bound : UInt64) : ρ → Except Fault (UInt64 × ρ) :=
  let span := bound.toNat + 1
  retry (fun stream =>
    let (word, stream) := WordStream.next64 stream
    .ok ((offsetWithin? (widestZone 64 span) 64 span word.toNat).map UInt64.ofNat, stream)) patience

/-- Draw numbers until `hit` holds of one. -/
def firstOf (patience : Nat) (hit : UInt64 → Bool) (draw : ρ → Except Fault (UInt64 × ρ)) :
    ρ → Except Fault (UInt64 × ρ) :=
  retry (fun stream =>
    match draw stream with
    | .error reason => .error reason
    | .ok (number, stream) => .ok (if hit number then some number else none, stream)) patience

/-- Answer a question from a stream of words. -/
def serve (patience : Nat) : Choice → ρ → Except Fault (UInt64 × ρ)
  | upTo bound => fromWords64 patience bound
  | upTo32 bound => fromWords32 patience bound
  | .firstHit bound hit => firstOf patience hit (fromWords64 patience bound)
  | .firstHit32 bound hit => firstOf patience hit (fromMostWords32 patience bound)
  | .firstHit64 bound hit => firstOf patience hit (fromMostWords64 patience bound)

end Choice

/-- Chance: choices, answered by numbers. -/
abbrev Chance : Interface where
  Query := Choice
  Answer _ := UInt64

/-- A computation that depends on chance. -/
abbrev Draw (α : Type) : Type := Script Chance α

namespace Draw

variable {α : Type}

/-- Run a draw on a stream. A redraw loop that does not end within `patience` rounds stalls. -/
def run {ρ : Type} [WordStream ρ] (patience : Nat) (draw : Draw α) (stream : ρ) :
    Except Fault (α × ρ) :=
  Script.run (Choice.serve patience) draw stream

/-- A patience that no real stream exhausts. -/
def longPatience : Nat := 0x4000000000000000

/-- A number up to and including `bound`. -/
def upTo (bound : UInt64) : Draw UInt64 :=
  .ask (.upTo bound) .done

/-- A number up to and including `bound`, from 32-bit words. -/
def upTo32 (bound : UInt32) : Draw UInt64 :=
  .ask (.upTo32 bound) .done

/-- A number up to and including `bound`, from 32-bit words of which as many as possible are used,
drawn again until `hit` holds of it. -/
def firstHit32 (bound : UInt32) (hit : UInt64 → Bool) : Draw UInt64 :=
  .ask (.firstHit32 bound hit) .done

/-- A number up to and including `bound`, from 64-bit words of which as many as possible are used,
drawn again until `hit` holds of it. -/
def firstHit64 (bound : UInt64) (hit : UInt64 → Bool) : Draw UInt64 :=
  .ask (.firstHit64 bound hit) .done

/-- Any 64-bit word, such as a seed for another stream. -/
def word : Draw UInt64 :=
  upTo 0xffffffffffffffff

/-- A probability: a multiple of `2 ^ (-53)` in `[0, 1)`. -/
def probability : Draw Float := do
  let bits ← word
  pure ((bits >>> 11).toFloat * 1.1102230246251565e-16)

/-- A number from `lo` to `hi`, both included. -/
def between (lo hi : UInt64) : Draw UInt64 :=
  if lo ≤ hi then do
    let offset ← upTo (hi - lo)
    pure (lo + offset)
  else
    .fault .emptyRange

/-- An index below `size`. -/
def index (size : Nat) : Draw Nat :=
  if size = 0 then
    .fault .emptyIndexRange
  else do
    let number ← upTo (UInt64.ofNat (size - 1))
    pure number.toNat

/-- An index below `size`, drawn again until `hit` holds of it. -/
def indexUntil (size : Nat) (hit : Nat → Bool) : Draw Nat :=
  if size = 0 then
    .fault .emptyIndexRange
  else
    .ask (.firstHit (UInt64.ofNat (size - 1)) fun number => hit number.toNat)
      fun number => .done number.toNat

end Draw

end EvoSearch
