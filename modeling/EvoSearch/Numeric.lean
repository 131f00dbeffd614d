/-
# Comparing and adding floats

Fitnesses are floats of any kind, infinite ones and NaN among them. The search compares them by
`beats`, in which every number is better than NaN; where rows have to be sorted there is a total
order that also tells the two zeros apart.
-/

namespace EvoSearch

/-- Whether a challenger takes the place of an incumbent: it is greater, or the incumbent is NaN
and the challenger is not. -/
def beats (challenger incumbent : Float) : Bool :=
  incumbent < challenger || (incumbent.isNaN && !challenger.isNaN)

namespace Numeric

/-- The bit that tells the negative floats from the others. -/
def signBit : Nat := 0x8000000000000000

/-- The place of a float other than NaN in the order of all of them, minus zero being the last of
the negative ones. -/
def rank (x : Float) : Int :=
  let bits := x.toBits.toNat
  if bits < signBit then bits else signBit - 1 - (bits : Int)

/-- The terms added up from the first to the last, onto minus zero. -/
def sum (terms : List Float) : Float :=
  terms.foldl (· + ·) (-0.0)

/-- The larger of two floats, or the one that is a number. -/
def larger (a b : Float) : Float :=
  if a.isNaN || a < b then b else a

/-- The smaller of two floats, or the one that is a number. -/
def smaller (a b : Float) : Float :=
  if a.isNaN || b < a then b else a

/-- Positive infinity. -/
def infinity : Float := Float.ofBits 0x7ff0000000000000

/-- The value that is no number. -/
def nan : Float := Float.ofBits 0x7ff8000000000000

end Numeric

end EvoSearch
