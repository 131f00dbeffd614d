/-
# Programs in JSON

A program is an object of its three parts, an instruction an object of its operation, of the
variable that it writes and of those that it reads.
-/

import EvoSearch.Json.Decode
import EvoSearch.Json.Printer
import EvoSearch.Program.Count

namespace EvoSearch

open Json

/-- The names of the categories. -/
def Category.names : List (String × Category) :=
  [("Arithmetic", arithmetic), ("Trigonometric", trigonometric), ("Precalculated", precalculated),
    ("LinearAlgebra", linearAlgebra), ("ProbabilityStatistics", probabilityStatistics)]

/-- The name of a category. -/
def Category.name : Category → String
  | arithmetic => "Arithmetic"
  | trigonometric => "Trigonometric"
  | precalculated => "Precalculated"
  | linearAlgebra => "LinearAlgebra"
  | probabilityStatistics => "ProbabilityStatistics"

/-- The category of a name. -/
def Category.ofJson? : Json → Option Category :=
  name? names

/-- The name of a part of a program, in the form that stands for the part itself. -/
def Section.title : Section → String
  | setup => "Setup"
  | predict => "Predict"
  | learn => "Learn"

/-- The part of a program that a title names. -/
def Section.ofJson? : Json → Option Section :=
  name? [("Setup", setup), ("Predict", predict), ("Learn", learn)]

/-- An operation is its number. -/
def Opcode.toJson (op : Opcode) : Json :=
  .ofNat op.code.toNat

/-- The operation of a number. -/
def Opcode.ofJson? (value : Json) : Option Opcode :=
  value.byte?.map fun code => { code }

/-- The names of the kinds of variables. -/
def VariableKind.names : List (String × VariableKind) :=
  [("Scalar", scalar), ("Vector", vector), ("Matrix", matrix)]

/-- The name of a kind of variable. -/
def VariableKind.name : VariableKind → String
  | scalar => "Scalar"
  | vector => "Vector"
  | matrix => "Matrix"

/-- A variable is an object with its kind for a key, and its number. -/
def Address.toJson (address : Address) : Json :=
  .object [(address.kind.name, .ofNat address.index.toNat)]

/-- The variable of an object with a kind for its only key. -/
def Address.ofJson? : Json → Option Address
  | .object [(name, value)] => do
    let kind ← VariableKind.names.lookup name
    let index ← value.byte?
    pure { kind, index }
  | _ => none

/-- An instruction as an object. -/
def Instruction.toJson (instruction : Instruction) : Json :=
  .object [("op", instruction.op.toJson), ("out", instruction.out.toJson),
    ("inputs", .array (instruction.inputs.map Address.toJson))]

/-- The instruction of a record; it reads nothing if nothing is said. -/
def Instruction.ofJson? (value : Json) : Option Instruction := do
  let field ← fields? ["op", "out", "inputs"] value
  let op ← required Opcode.ofJson? (field "op")
  let out ← required Address.ofJson? (field "out")
  let inputs ← withDefault (list? Address.ofJson?) [] (field "inputs")
  pure { op, out, inputs }

namespace Program

/-- A program as an object. -/
def toJson (program : Program) : Json :=
  .object [("setup", .array (program.setup.map Instruction.toJson)),
    ("predict", .array (program.predict.map Instruction.toJson)),
    ("learn", .array (program.learn.map Instruction.toJson))]

/-- The program of a record; a part that is not given is empty. -/
def ofJson? (value : Json) : Option Program := do
  let field ← fields? ["setup", "predict", "learn"] value
  let setup ← withDefault (list? Instruction.ofJson?) [] (field "setup")
  let predict ← withDefault (list? Instruction.ofJson?) [] (field "predict")
  let learn ← withDefault (list? Instruction.ofJson?) [] (field "learn")
  pure { setup, predict, learn }

/-- The text that a program is stored as. -/
def encode (program : Program) : String :=
  program.toJson.toText

/-- The program that a stored text holds. -/
def decode? (text : String) : Option Program := do
  let value ← Json.ofText? text
  ofJson? value

end Program

/-- A histogram as an object. -/
def Histogram.toJson (histogram : Histogram) : Json :=
  .object [("arithmetic", .ofNat histogram.arithmetic),
    ("trigonometric", .ofNat histogram.trigonometric),
    ("precalculated", .ofNat histogram.precalculated),
    ("linear_algebra", .ofNat histogram.linearAlgebra),
    ("probability_statistics", .ofNat histogram.probabilityStatistics)]

/-- The histogram of a record that gives all counts. -/
def Histogram.ofJson? (value : Json) : Option Histogram := do
  let field ← fields? ["arithmetic", "trigonometric", "precalculated", "linear_algebra",
    "probability_statistics"] value
  let arithmetic ← required natural? (field "arithmetic")
  let trigonometric ← required natural? (field "trigonometric")
  let precalculated ← required natural? (field "precalculated")
  let linearAlgebra ← required natural? (field "linear_algebra")
  let probabilityStatistics ← required natural? (field "probability_statistics")
  pure { arithmetic, trigonometric, precalculated, linearAlgebra, probabilityStatistics }

/-- Variable counts as an object. -/
def VariableCounts.toJson (counts : VariableCounts) : Json :=
  .object [("scalar", .ofNat counts.scalar), ("vector", .ofNat counts.vector),
    ("matrix", .ofNat counts.matrix)]

/-- The variable counts of a record that gives all of them. -/
def VariableCounts.ofJson? (value : Json) : Option VariableCounts := do
  let field ← fields? ["scalar", "vector", "matrix"] value
  let scalar ← required natural? (field "scalar")
  let vector ← required natural? (field "vector")
  let matrix ← required natural? (field "matrix")
  pure { scalar, vector, matrix }

end EvoSearch
