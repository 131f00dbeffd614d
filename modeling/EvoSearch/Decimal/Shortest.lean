/-
# Shortest decimals

The shortest decimal of a double is the one with the fewest digits among those that read back as
the double, and of these the nearest; two may be as near as each other. It lies on the coarsest
decimal grid that has a point within the reals that round to the double, so the grids are tried
from the coarsest on; the test is exact integer arithmetic.
-/

import EvoSearch.Decimal.Binary

namespace EvoSearch.Decimal

/-- The number `digits * 10 ^ exponent`. -/
structure Scaled where
  digits : Nat
  exponent : Int
  deriving DecidableEq

/-- The reals that round to `value * 2 ^ exponent`: those from `low` to `high` on the same scale,
with the two ends or without. -/
structure Interval where
  low : Nat
  value : Nat
  high : Nat
  exponent : Int
  closed : Bool

/-- The interval of a double: half way to either neighbour, in quarters of its last place. The
ends round to it when its significand is even. -/
def Interval.ofBinary (x : Binary) : Interval where
  low := 4 * x.significand - if x.narrowBelow then 1 else 2
  value := 4 * x.significand
  high := 4 * x.significand + 2
  exponent := x.exponent - 2
  closed := x.significand % 2 = 0

/-- The point of the grid `10 ^ place` that lies in the interval, the one nearest to the value. -/
def Interval.gridPoint? (tie : Tie) (interval : Interval) (place : Int) : Option Nat :=
  let scale := Nat.pow 2 interval.exponent.toNat * Nat.pow 10 (-place).toNat
  let unit := Nat.pow 2 (-interval.exponent).toNat * Nat.pow 10 place.toNat
  let inside (point : Nat) : Bool :=
    if interval.closed then
      interval.low * scale ≤ point * unit && point * unit ≤ interval.high * scale
    else
      interval.low * scale < point * unit && point * unit < interval.high * scale
  let below := interval.value * scale / unit
  match inside below, inside (below + 1) with
  | true, false => some below
  | false, true => some (below + 1)
  | true, true => some (roundDiv tie (interval.value * scale) unit)
  | false, false => none

/-- Try the grids from `10 ^ place` on, `grids` of them, each ten times as fine as the last. -/
def Interval.coarsest (tie : Tie) (interval : Interval) : (grids : Nat) → (place : Int) → Scaled
  | 0, place => { digits := 0, exponent := place }
  | grids + 1, place =>
    match interval.gridPoint? tie place with
    | some digits => { digits, exponent := place }
    | none => interval.coarsest tie grids (place - 1)

/-- The shortest decimal of a number; of two, the one that `tie` names. No double needs a grid
coarser than `10 ^ 309` or finer than `10 ^ (-330)`. -/
def shortest (tie : Tie) (x : Binary) : Scaled :=
  if x.significand = 0 then { digits := 0, exponent := 0 }
  else (Interval.ofBinary x).coarsest tie 640 309

end EvoSearch.Decimal
