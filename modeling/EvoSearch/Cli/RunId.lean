/-
# Run ids on the command line

A run id is an integer of 64 bits: digits, with a sign in front if one likes. The text is read from
the left, so of two faults the one that comes first is told.
-/

import EvoSearch.Decimal.Digits

namespace EvoSearch.Cli

/-- Why a text is no run id. -/
inductive RunIdError
  | empty
  | invalidDigit
  | tooLarge
  | tooSmall
  deriving DecidableEq

/-- What is wrong with a text that is no run id. -/
def RunIdError.message : RunIdError → String
  | empty => "cannot parse integer from empty string"
  | invalidDigit => "invalid digit found in string"
  | tooLarge => "number too large to fit in target type"
  | tooSmall => "number too small to fit in target type"

namespace RunId

/-- Read digits behind those that make `value`; each adds to it, or takes away in a negative
number. -/
def readDigits (negative : Bool) (value : Int) : List Char → Except RunIdError Int64
  | [] => .ok (Int64.ofInt value)
  | c :: rest =>
    match Decimal.Digit.ofChar? c with
    | none => .error .invalidDigit
    | some digit =>
      let next := 10 * value + if negative then -(digit.val : Int) else digit.val
      if Int64.maxValue.toInt < next then .error .tooLarge
      else if next < Int64.minValue.toInt then .error .tooSmall
      else readDigits negative next rest

/-- The run id of a text. -/
def ofText (text : String) : Except RunIdError Int64 :=
  match text.toList with
  | [] => .error .empty
  | ['+'] => .error .invalidDigit
  | ['-'] => .error .invalidDigit
  | '+' :: rest => readDigits false 0 rest
  | '-' :: rest => readDigits true 0 rest
  | chars => readDigits false 0 chars

end RunId

end EvoSearch.Cli
