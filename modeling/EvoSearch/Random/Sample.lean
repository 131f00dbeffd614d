/-
# Samples without replacement

A sample of `count` rows takes every row once at the most, in random order. There are four ways to
draw it. All are fair; which of them is used depends on the two sizes alone, and is a guess at the
fastest.
-/

import EvoSearch.Random.Draw

namespace EvoSearch.Draw

variable {α : Type}

/-- Put `fresh` at the end, or `newest` in front of `fresh` where that has been taken before. -/
def place (newest fresh : Nat) : List Nat → List Nat
  | [] => [fresh]
  | taken :: rest =>
    if taken = fresh then newest :: taken :: rest else taken :: place newest fresh rest

/-- Put `fresh` at the end, or `newest` where `fresh` has been taken before. -/
def placeLast (newest fresh : Nat) (taken : List Nat) : List Nat :=
  taken ++ [if taken.contains fresh then newest else fresh]

/-- Take `count` more positions, the next of them from those up to `newest`, and put each in its
place. -/
def growPositions (put : (newest fresh : Nat) → List Nat → List Nat) :
    (count newest : Nat) → List Nat → Draw (List Nat)
  | 0, _, taken => pure taken
  | count + 1, newest, taken => do
    let fresh ← upTo32 (UInt32.ofNat newest)
    growPositions put count (newest + 1) (put newest fresh.toNat taken)

/-- Swap the row at `last` with a random one not behind it, and so on down to the second row. -/
def shuffleDown : (last : Nat) → Array α → Draw (Array α)
  | 0, rows => pure rows
  | last + 1, rows => do
    let position ← upTo32 (UInt32.ofNat (last + 1))
    shuffleDown last (rows.swapIfInBounds (last + 1) position.toNat)

/-- Take `count` rows from the front, after swapping each with a random one not before it. -/
def shuffleFront : (count : Nat) → List α → Draw (List α)
  | 0, _ => pure []
  | _ + 1, [] => pure []
  | count + 1, head :: rest => do
    let offset ← upTo32 (UInt32.ofNat rest.length)
    match offset.toNat with
    | 0 => do
      let others ← shuffleFront count rest
      pure (head :: others)
    | position + 1 => do
      let chosen ← Script.ofOption .outOfRange rest[position]?
      let others ← shuffleFront count (rest.set position head)
      pure (chosen :: others)

/-- A position out of `total`, drawn again until it is one that has not been taken. It is drawn from
words of 32 bits, as long as the total fits into one, and from words of 64 bits beyond that. -/
def drawNew (total : Nat) (taken : List Nat) : Draw UInt64 :=
  let hit (position : UInt64) : Bool := !taken.contains position.toNat
  if total < UInt32.size then firstHit32 (UInt32.ofNat (total - 1)) hit
  else firstHit64 (UInt64.ofNat (total - 1)) hit

/-- Take `count` more positions out of `total`, each of them a new one. The positions taken are
listed with the last one first. -/
def drawApart (total : Nat) : (count : Nat) → List Nat → Draw (List Nat)
  | 0, taken => pure taken
  | count + 1, taken => do
    let fresh ← drawNew total taken
    drawApart total count (fresh.toNat :: taken)

/-- A way to draw a sample. -/
inductive Method
  /-- choose positions one by one, each step letting one more position into the running, and put
  each at once where it belongs in the random order -/
  | grow
  /-- choose positions in the same way, and shuffle them in the end -/
  | growAndShuffle
  /-- shuffle the front of the list -/
  | shuffle
  /-- choose positions one by one among all, drawing again those that have been taken -/
  | redraw
  deriving DecidableEq

/-- The way to draw a sample of `count` out of `total`. The bounds on the total, one proportional
to the count and one of the second degree in it, are computed in single precision; they are lower
where the total is large. A total beyond 32 bits leaves no choice. -/
def Method.ofSizes (count total : Nat) : Method :=
  let size := Float32.ofNat count
  let all := Float32.ofNat total
  let large : Bool := 500000 ≤ total
  if UInt32.size ≤ total then redraw
  else if count < 163 then
    let slope : Float32 := if large then 8 / 45 else 1.6
    let base : Float32 := if large then 70 / 9 else 10
    if 11 < count && all < (base + slope * size) * size then shuffle
    else if count < 50 then grow
    else growAndShuffle
  else
    let factor : Float32 := if large then 330 / 9 else 270
    if all < factor * size then shuffle else redraw

/-- The rows at some positions. -/
def rowsAt (rows : List α) (positions : List Nat) : List α :=
  let table := rows.toArray
  positions.filterMap fun position => table[position]?

/-- Up to `count` of the rows, each once at the most, in random order. -/
def sample (rows : List α) (count : Nat) : Draw (List α) :=
  let total := rows.length
  let count := min count total
  match Method.ofSizes count total with
  | .grow => do
    let positions ← growPositions place count (total - count) []
    pure (rowsAt rows positions)
  | .growAndShuffle => do
    let positions ← growPositions placeLast count (total - count) []
    let positions ← shuffleDown (count - 1) positions.toArray
    pure (rowsAt rows positions.toList)
  | .shuffle => shuffleFront count rows
  | .redraw => do
    let positions ← drawApart total count []
    pure (rowsAt rows positions.reverse)

end EvoSearch.Draw
