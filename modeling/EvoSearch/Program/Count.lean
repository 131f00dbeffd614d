/-
# Counting programs

What the structure of a program is judged by: how many instructions there are of every category,
and how far up the variables of every kind are written.
-/

import EvoSearch.Program.Basic

namespace EvoSearch

/-- One value for every category. -/
structure PerCategory (α : Type) where
  arithmetic : α
  trigonometric : α
  precalculated : α
  linearAlgebra : α
  probabilityStatistics : α
  deriving DecidableEq

namespace PerCategory

variable {α β : Type}

/-- The value of a category. -/
def get (table : PerCategory α) : Category → α
  | .arithmetic => table.arithmetic
  | .trigonometric => table.trigonometric
  | .precalculated => table.precalculated
  | .linearAlgebra => table.linearAlgebra
  | .probabilityStatistics => table.probabilityStatistics

/-- The table of a function. -/
def ofFn (f : Category → α) : PerCategory α where
  arithmetic := f .arithmetic
  trigonometric := f .trigonometric
  precalculated := f .precalculated
  linearAlgebra := f .linearAlgebra
  probabilityStatistics := f .probabilityStatistics

/-- The values, in the order of the categories. -/
def toList (table : PerCategory α) : List α :=
  Category.all.map table.get

/-- Five values as a table. -/
def ofList? : List α → Option (PerCategory α)
  | [arithmetic, trigonometric, precalculated, linearAlgebra, probabilityStatistics] =>
    some { arithmetic, trigonometric, precalculated, linearAlgebra, probabilityStatistics }
  | _ => none

/-- A function of every value. -/
def map (f : α → β) (table : PerCategory α) : PerCategory β :=
  ofFn fun category => f (table.get category)

@[simp] theorem get_ofFn (f : Category → α) (category : Category) :
    (ofFn f).get category = f category := by
  cases category <;> rfl

@[simp] theorem ofList?_toList (table : PerCategory α) : ofList? table.toList = some table := rfl

end PerCategory

/-- How many instructions there are of every category. -/
abbrev Histogram : Type := PerCategory Nat

/-- The instructions of every category in a row. Those of unknown operations do not count. -/
def Histogram.ofInstructions (instructions : List Instruction) : Histogram :=
  PerCategory.ofFn fun category =>
    instructions.countP fun instruction => instruction.op.category? = some category

/-- All instructions of a histogram. -/
def Histogram.total (histogram : Histogram) : Nat :=
  histogram.arithmetic + histogram.trigonometric + histogram.precalculated +
    histogram.linearAlgebra + histogram.probabilityStatistics

/-- The histogram of a program. -/
def Program.histogram (program : Program) : Histogram :=
  Histogram.ofInstructions program.instructions

/-- For every kind, the highest number of a variable that is written, or 0. -/
structure VariableCounts where
  scalar : Nat
  vector : Nat
  matrix : Nat
  deriving DecidableEq

/-- The three numbers together. -/
def VariableCounts.total (counts : VariableCounts) : Nat :=
  counts.scalar + counts.vector + counts.matrix

/-- The highest number of a variable of one kind that is written in a row of instructions. -/
def highestWritten (kind : VariableKind) (instructions : List Instruction) : Nat :=
  instructions.foldl (fun highest instruction =>
    if instruction.out.kind = kind then max highest instruction.out.index.toNat else highest) 0

/-- The variable counts of a program. Variables that are only read do not count. -/
def Program.variableCounts (program : Program) : VariableCounts where
  scalar := highestWritten .scalar program.instructions
  vector := highestWritten .vector program.instructions
  matrix := highestWritten .matrix program.instructions

end EvoSearch
