/-
# Mutations

A mutation edits one instruction of one part of a program: it puts another one in its place, puts
a new one in, or takes it out. It keeps to the bounds of the part, so the edit that was drawn gives
way to another one where it would leave them.
-/

import EvoSearch.Synthetic.Generation

namespace EvoSearch.Synthetic

/-- What an edit does. -/
inductive Action
  | alter
  | insert
  | remove
  deriving DecidableEq

/-- Whether a part of some length stays within its bounds, and has an instruction to work on. -/
def Action.isLegal (length : Nat) (bounds : SizeBounds) : Action → Bool
  | alter => 0 < length
  | insert => length < bounds.hi.toNat
  | remove => bounds.lo.toNat < length

/-- The first legal one of the wanted action and the others in their order. -/
def Action.choose? (wanted : Action) (length : Nat) (bounds : SizeBounds) : Option Action :=
  [wanted, alter, insert, remove].find? (isLegal length bounds)

/-- The action of a number below three. -/
def Action.ofIndex (n : Nat) : Action :=
  if n = 0 then alter else if n = 1 then insert else remove

/-- The part of a program of a number below three. -/
def sectionOf (n : Nat) : Section :=
  if n = 0 then .setup else if n = 1 then .predict else .learn

/-- An edit of a row of instructions. -/
inductive Edit
  | alter (position : Nat) (instruction : Instruction)
  | insert (position : Nat) (instruction : Instruction)
  | remove (position : Nat)
  deriving DecidableEq

/-- The row after an edit. -/
def Edit.apply (row : List Instruction) : Edit → List Instruction
  | alter position instruction => row.set position instruction
  | insert position instruction => row.insertIdx position instruction
  | remove position => row.eraseIdx position

/-- Whether a row of some length has the place that an edit goes to. There is one more place to put
an instruction in than there are instructions. -/
def Edit.fitsIn (length : Nat) : Edit → Bool
  | alter position _ => position < length
  | insert position _ => position ≤ length
  | remove position => position < length

/-- The row after an edit, if it has the place that the edit goes to. -/
def Edit.applyTo? (row : List Instruction) (edit : Edit) : Option (List Instruction) :=
  if edit.fitsIn row.length then some (edit.apply row) else none

/-- Any edit of a row of some length that takes the given action. -/
def drawEdit (addresses : UInt8) (length : Nat) : Action → Draw Edit
  | .alter => do
    let position ← Draw.index length
    let instruction ← drawInstruction addresses
    pure (.alter position instruction)
  | .insert => do
    let position ← Draw.between 0 (UInt64.ofNat length)
    let instruction ← drawInstruction addresses
    pure (.insert position.toNat instruction)
  | .remove => do
    let position ← Draw.index length
    pure (.remove position)

/-- A program that differs from another in one edit, or not at all where no edit is legal. -/
def mutateFully (config : SyntheticConfig) (parent : Program) : Draw Program := do
  let part ← sectionOf <$> Draw.index 3
  let wanted ← Action.ofIndex <$> Draw.index 3
  let row := parent.part part
  match wanted.choose? row.length (config.bounds part) with
  | none => pure parent
  | some action => do
    let edit ← drawEdit config.addresses row.length action
    let edited ← Script.ofOption .outOfRange (edit.applyTo? row)
    pure (parent.withPart part edited)

/-- A neutral mutation uses up one word and leaves the program as it is. -/
def mutateNeutrally (parent : Program) : Draw Program := do
  let _ ← Draw.word
  pure parent

/-- A mutator by single edits. -/
structure InstructionEdits where
  config : SyntheticConfig

instance : Mutator InstructionEdits where
  mutate intensity parent mutator := do
    let program ←
      match intensity with
      | .neutral => mutateNeutrally parent
      | .full => mutateFully mutator.config parent
    pure (program, mutator)

end EvoSearch.Synthetic
