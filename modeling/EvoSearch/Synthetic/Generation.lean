/-
# Random programs

Instructions with any of the known operations, up to two inputs, and any of the variables; and
programs of such instructions, with a random number of them in each part.
-/

import EvoSearch.Collaborator
import EvoSearch.Config.Experiment
import EvoSearch.Room

namespace EvoSearch.Synthetic

/-- The largest number of inputs of a generated instruction. -/
def maxInputs : UInt64 := 2

/-- The kind of variable of a number below three. -/
def kindOf (n : Nat) : VariableKind :=
  if n = 0 then .scalar else if n = 1 then .vector else .matrix

/-- Any of the variables. -/
def drawAddress (addresses : UInt8) : Draw Address := do
  let index ← Draw.index addresses.toNat
  let kind ← Draw.index 3
  pure { kind := kindOf kind, index := UInt8.ofNat index }

/-- Any instruction. -/
def drawInstruction (addresses : UInt8) : Draw Instruction := do
  let code ← Draw.index Opcode.known
  let out ← drawAddress addresses
  let arity ← Draw.between 0 maxInputs
  let inputs ← Script.replicate arity.toNat (drawAddress addresses)
  pure { op := { code := UInt8.ofNat code }, out, inputs }

/-- The bytes of an instruction: four words. -/
def instructionWidth : Nat := 32

/-- As many instructions as the bounds of a part allow, if there is room for them. -/
def drawPart (config : SyntheticConfig) (part : Section) : Draw (List Instruction) := do
  let length ← Draw.between (config.bounds part).lo (config.bounds part).hi
  if hasRoom length.toNat instructionWidth then
    Script.replicate length.toNat (drawInstruction config.addresses)
  else
    throw .noRoom

/-- Any program within the bounds. -/
def drawProgram (config : SyntheticConfig) : Draw Program := do
  let setup ← drawPart config .setup
  let predict ← drawPart config .predict
  let learn ← drawPart config .learn
  pure { setup, predict, learn }

/-- A generator of random programs. -/
structure RandomPrograms where
  config : SyntheticConfig

instance : Generator RandomPrograms where
  generate generator := do
    let program ← drawProgram generator.config
    pure (program, generator)

end EvoSearch.Synthetic
