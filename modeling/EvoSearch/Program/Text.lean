/-
# Programs as text

The text that reports and logs show for a program: an instruction a line, under the head of its
part. The parts also have a shorter listing, which separates instructions by semicolons.
-/

import EvoSearch.Decimal.Digits
import EvoSearch.Program.Basic

namespace EvoSearch

open Decimal

/-- The letter of a kind of variable. -/
def VariableKind.letter : VariableKind → Char
  | scalar => 's'
  | vector => 'v'
  | matrix => 'm'

/-- The characters of a variable: its letter and its number. -/
def Address.chars (address : Address) : List Char :=
  address.kind.letter :: numeral address.index.toNat

/-- Variables with a comma and a blank in between. -/
def Address.listChars : List Address → List Char
  | [] => []
  | [address] => address.chars
  | address :: rest => address.chars ++ ',' :: ' ' :: listChars rest

/-- The characters of an instruction, as in `s3 = op0(s1, s2)`. -/
def Instruction.chars (instruction : Instruction) : List Char :=
  instruction.out.chars ++ " = op".toList ++ numeral instruction.op.code.toNat ++
    '(' :: Address.listChars instruction.inputs ++ [')']

/-- The text of an instruction. -/
def Instruction.toText (instruction : Instruction) : String :=
  String.ofList instruction.chars

namespace Program

/-- The characters of one part: its head, and a line for each instruction. -/
def partChars (part : Section) (instructions : List Instruction) : List Char :=
  "def ".toList ++ part.name.toList ++ "():\n".toList ++
    instructions.flatMap fun instruction => ' ' :: ' ' :: instruction.chars ++ ['\n']

/-- The characters of a program. -/
def chars (program : Program) : List Char :=
  Section.all.flatMap fun part => partChars part (program.part part)

/-- The text of a program. -/
def toText (program : Program) : String :=
  String.ofList program.chars

/-- The listing of one part: every instruction and a semicolon behind it. -/
def listing (program : Program) (part : Section) : String :=
  String.ofList ((program.part part).flatMap fun instruction => instruction.chars ++ [';'])

end Program

end EvoSearch
