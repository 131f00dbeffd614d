/-
# Numbers in messages and reports

Two ways to write a double for a reader: the shortest decimal, spelled out without an exponent,
and a fixed number of decimal places.
-/

import EvoSearch.Decimal.Digits
import EvoSearch.Decimal.Shortest

namespace EvoSearch.Decimal

/-- The digits of `digits * 10 ^ exponent` in front of the point and behind it. -/
def Scaled.split (x : Scaled) : Nat × List Digit :=
  if 0 ≤ x.exponent then
    (x.digits * Nat.pow 10 x.exponent.toNat, [])
  else
    let places := (-x.exponent).toNat
    (x.digits / Nat.pow 10 places, lastDigits places x.digits)

/-- A sign, the whole part, and the fraction behind a point if there is one. -/
def assemble (negative : Bool) (whole : Nat) (fraction : List Digit) : List Char :=
  (if negative then ['-'] else []) ++ numeral whole ++
    (if fraction.isEmpty then [] else '.' :: chars fraction)

/-- The text of a float that is not finite. -/
def nonFinite (x : Float) : List Char :=
  if x.isNaN then ['N', 'a', 'N'] else if x < 0 then ['-', 'i', 'n', 'f'] else ['i', 'n', 'f']

/-- The shortest decimal, without an exponent, and without a point where it is whole. Of two
decimals that are as near as each other it is the one further from zero. -/
def plain (x : Float) : String :=
  String.ofList <|
    match Binary.ofFloat? x with
    | none => nonFinite x
    | some binary =>
      let (whole, fraction) := (shortest .up binary).split
      assemble binary.negative whole fraction

/-- The exact value rounded to `places` decimal places, a half going to the even neighbour. -/
def fixed (places : Nat) (x : Float) : String :=
  String.ofList <|
    match Binary.ofFloat? x with
    | none => nonFinite x
    | some binary =>
      let rounded := roundDiv .toEven
        (binary.significand * Nat.pow 2 binary.exponent.toNat * Nat.pow 10 places)
        (Nat.pow 2 (-binary.exponent).toNat)
      assemble binary.negative (rounded / Nat.pow 10 places) (lastDigits places rounded)

end EvoSearch.Decimal
