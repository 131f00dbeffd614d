/-
# Programs

A program is three rows of instructions: what it does once, what it does to predict, and what it
does to learn. An instruction applies an operation to some variables and writes one. Nothing here
executes a program; what counts is its structure.
-/

namespace EvoSearch

/-- The families that the known operations fall into. -/
inductive Category
  | arithmetic
  | trigonometric
  | precalculated
  | linearAlgebra
  | probabilityStatistics
  deriving DecidableEq

/-- All categories, in their order. -/
def Category.all : List Category :=
  [arithmetic, trigonometric, precalculated, linearAlgebra, probabilityStatistics]

/-- The number of an operation. -/
structure Opcode where
  code : UInt8
  deriving DecidableEq

/-- The number of known operations; their codes are those below it. -/
def Opcode.known : Nat := 65

/-- The family of an operation. Operations that are not known have none. -/
def Opcode.category? (op : Opcode) : Option Category :=
  if op.code < 7 then some .arithmetic
  else if op.code < 13 then some .trigonometric
  else if op.code < 18 then some .precalculated
  else if op.code < 44 then some .linearAlgebra
  else if op.code < 65 then some .probabilityStatistics
  else none

/-- The kinds of variables. -/
inductive VariableKind
  | scalar
  | vector
  | matrix
  deriving DecidableEq

/-- A variable: its kind, and its number among those of the kind. -/
structure Address where
  kind : VariableKind
  index : UInt8
  deriving DecidableEq

/-- One instruction, `out = op(inputs)`. -/
structure Instruction where
  op : Opcode
  out : Address
  inputs : List Address
  deriving DecidableEq

/-- The three parts of a program. -/
inductive Section
  | setup
  | predict
  | learn
  deriving DecidableEq

/-- The parts of a program, in their order. -/
def Section.all : List Section :=
  [setup, predict, learn]

/-- The name of a part. -/
def Section.name : Section → String
  | setup => "setup"
  | predict => "predict"
  | learn => "learn"

/-- A program, as its three parts. -/
structure Program where
  setup : List Instruction
  predict : List Instruction
  learn : List Instruction
  deriving DecidableEq

namespace Program

/-- The program without instructions. -/
def empty : Program where
  setup := []
  predict := []
  learn := []

/-- The instructions of one part. -/
def part (program : Program) : Section → List Instruction
  | .setup => program.setup
  | .predict => program.predict
  | .learn => program.learn

/-- The program with other instructions in one part. -/
def withPart (program : Program) (part : Section) (instructions : List Instruction) : Program :=
  match part with
  | .setup => { program with setup := instructions }
  | .predict => { program with predict := instructions }
  | .learn => { program with learn := instructions }

/-- The instructions of all parts. -/
def instructions (program : Program) : List Instruction :=
  program.setup ++ program.predict ++ program.learn

/-- The number of instructions. -/
def size (program : Program) : Nat :=
  program.setup.length + program.predict.length + program.learn.length

@[simp] theorem part_withPart (program : Program) (part : Section)
    (instructions : List Instruction) : (program.withPart part instructions).part part =
      instructions := by
  cases part <;> rfl

theorem part_withPart_of_ne {program : Program} {part other : Section}
    {instructions : List Instruction} (different : other ≠ part) :
    (program.withPart part instructions).part other = program.part other := by
  cases part <;> cases other <;> first | rfl | exact absurd rfl different

@[simp] theorem withPart_part (program : Program) (part : Section) :
    program.withPart part (program.part part) = program := by
  cases part <;> rfl

theorem length_instructions (program : Program) :
    program.instructions.length = program.size := by
  simp [instructions, size, Nat.add_assoc]

end Program

end EvoSearch
