/-
# Numbers of JSON

A number is kept as it is written, so that integers of any size and the difference between `1` and
`1.0` survive. What it means as an integer or as a float is a function of that.
-/

import EvoSearch.Decimal.Text

namespace EvoSearch.Json

open Decimal

/-- A number of JSON: sign, whole part, digits behind the point, power of ten. -/
structure Number where
  negative : Bool
  whole : Nat
  fraction : List Digit
  exponent : Option Int
  deriving DecidableEq

namespace Number

/-- A natural number, written without point and exponent. -/
def ofNat (n : Nat) : Number where
  negative := false
  whole := n
  fraction := []
  exponent := none

/-- An integer, written without point and exponent. -/
def ofInt (n : Int) : Number where
  negative := n < 0
  whole := n.natAbs
  fraction := []
  exponent := none

/-- The integer of a number that is written as one. Minus zero is no integer. -/
def toInt? (n : Number) : Option Int :=
  if n.fraction.isEmpty && n.exponent.isNone then
    if n.negative then
      if n.whole = 0 then none else some (-(n.whole : Int))
    else
      some n.whole
  else
    none

/-- The first digits of a number, as many as 64 bits can hold, and how many there are behind. -/
def firstDigits (n : Nat) : Nat × Nat :=
  if n < UInt64.size then (n, 0)
  else
    let (first, behind) := firstDigits (n / 10)
    (first, behind + 1)
termination_by n
decreasing_by
  have positive : 0 < UInt64.size := by decide
  exact Nat.div_lt_self (by omega) (by decide)

/-- Put digits behind those of a number, as many as 64 bits can hold. Tells how many these are. -/
def addDigits (n : Nat) : List Digit → Nat × Nat
  | [] => (n, 0)
  | digit :: rest =>
    let next := 10 * n + digit.val
    if next < UInt64.size then
      let (all, added) := addDigits next rest
      (all, added + 1)
    else
      (n, 0)

/-- The float of a power of ten, up to `10 ^ 308`. -/
def powerOfTen (exponent : Nat) : Float :=
  Float.ofScientific 1 false exponent

/-- A float times a power of ten, rounded at every step, unless that is too large for a float. There
is no float for powers beyond `10 ^ 308`, so a number may be made small in two steps; what then is
still to be made smaller comes to zero. -/
def scale? (x : Float) (exponent : Int) : Option Float :=
  if exponent < 0 then
    let places := exponent.natAbs
    if places ≤ 308 then some (x / powerOfTen places)
    else if places ≤ 616 then some (x / powerOfTen 308 / powerOfTen (places - 308))
    else some 0
  else if x == 0 then some 0
  else if exponent ≤ 308 then
    let product := x * powerOfTen exponent.toNat
    if product.isFinite then some product else none
  else none

/-- The float of a number, unless the number is too large for one. It is computed in floats, from
the digits that 64 bits can hold and a power of ten. While the digits make no more than `2 ^ 53`
and the power is no more than `10 ^ 22`, both are exact and the float is the nearest one. -/
def toFloat? (n : Number) : Option Float :=
  let (whole, behind) := firstDigits n.whole
  let (all, places) := addDigits whole n.fraction
  let size := scale? (UInt64.ofNat all).toFloat (n.exponent.getD 0 + behind - places)
  if n.negative then size.map fun x => -x else size

/-- Floats are written as their shortest decimals, of two that are as near as each other the even
one. From `10 ^ (-5)` on and below `10 ^ 16` they are spelled out with at least one digit behind
the point; outside, there is one digit in front of the point and an exponent. -/
def ofFloat? (x : Float) : Option Number :=
  match Binary.ofFloat? x with
  | none => none
  | some binary =>
    let shortest := shortest .toEven binary
    let row := digits shortest.digits
    let magnitude := shortest.exponent + row.length - 1
    if shortest.digits = 0 || (-5 ≤ magnitude && magnitude < 16) then
      let (whole, fraction) := shortest.split
      let fraction := if fraction.isEmpty then [Digit.zero] else fraction
      some { negative := binary.negative, whole, fraction, exponent := none }
    else
      let whole := value (row.take 1)
      some { negative := binary.negative, whole, fraction := row.drop 1, exponent := magnitude }

/-- The text of a number. The exponent has a sign in any case. -/
def text (n : Number) : List Char :=
  assemble n.negative n.whole n.fraction ++
    match n.exponent with
    | none => []
    | some exponent =>
      'e' :: (if exponent < 0 then '-' else '+') :: numeral exponent.natAbs

end Number

end EvoSearch.Json
