/-
# Floats as scaled integers

Every finite double is an integer times a power of two. The exact decimal work of the library is
done on these two numbers, never on the float itself.
-/

namespace EvoSearch.Decimal

/-- The number `significand * 2 ^ exponent`, with a sign that zero has as well. -/
structure Binary where
  negative : Bool
  significand : Nat
  exponent : Int
  deriving DecidableEq

/-- The scaled integer of a finite double; there is none for an infinity or a NaN. -/
def Binary.ofFloat? (x : Float) : Option Binary :=
  let bits := x.toBits.toNat
  let negative : Bool := bits / Nat.pow 2 63 = 1
  let biased : Nat := bits / Nat.pow 2 52 % Nat.pow 2 11
  let fraction := bits % Nat.pow 2 52
  if biased = Nat.pow 2 11 - 1 then none
  else if biased = 0 then some { negative, significand := fraction, exponent := -1074 }
  else some { negative, significand := fraction + Nat.pow 2 52, exponent := (biased : Int) - 1075 }

/-- The lower of two neighbouring doubles is half as far away below the powers of two. -/
def Binary.narrowBelow (x : Binary) : Bool :=
  x.significand = Nat.pow 2 52 && -1074 < x.exponent

/-- Where a number goes that lies half way between two integers. -/
inductive Tie
  | toEven
  | up
  deriving DecidableEq

/-- The nearest integer to `numerator / denominator`; of two, the one that `tie` names. -/
def roundDiv (tie : Tie) (numerator denominator : Nat) : Nat :=
  let quotient := numerator / denominator
  match compare (2 * (numerator % denominator)) denominator with
  | .lt => quotient
  | .gt => quotient + 1
  | .eq =>
    match tie with
    | .toEven => quotient + quotient % 2
    | .up => quotient + 1

end EvoSearch.Decimal
