/-
# Drawing and editing programs

With settings that are not refused, every range that a random program or a mutation draws from has
something in it. A program that is drawn keeps to the settings; a program that is mutated may be any
program at all, also one that does not, since the edit is picked by the length that is found and
goes to a place that the row has.
-/

import EvoSearch.Proofs.Chance
import EvoSearch.Synthetic.Mutation

namespace EvoSearch

open Script

/-- Settings of the built-in objective that are not refused: no bounds are the wrong way round, and
there is a variable to use. -/
structure SyntheticConfig.IsSound (config : SyntheticConfig) : Prop where
  bounds : ∀ part, (config.bounds part).lo ≤ (config.bounds part).hi
  addresses : 0 < config.addresses.toNat

/-- There is room for the longest parts that the settings allow. -/
def SyntheticConfig.HasRoom (config : SyntheticConfig) : Prop :=
  ∀ part, hasRoom (config.bounds part).hi.toNat Synthetic.instructionWidth = true

theorem SyntheticConfig.isSound_of_validate {config : SyntheticConfig}
    (valid : config.validate = .ok ()) : config.IsSound := by
  rw [validate] at valid
  cases inverted : Section.all.find? fun part =>
      decide ((config.bounds part).hi < (config.bounds part).lo) with
  | some part =>
    rw [inverted] at valid
    cases valid
  | none =>
    rw [inverted] at valid
    by_cases none : config.addresses = 0
    · rw [if_pos none] at valid
      cases valid
    · refine ⟨?_, ?_⟩
      · intro part
        have listed : part ∈ Section.all := by
          cases part <;> decide
        have ordered := List.find?_eq_none.mp inverted part listed
        rw [decide_eq_true_iff, UInt64.not_lt] at ordered
        exact ordered
      · apply Nat.pos_of_ne_zero
        intro zero
        exact none (UInt8.toNat_inj.mp zero)

/-- An instruction over the known operations and the given number of variables of every kind. -/
structure Instruction.IsWithin (addresses : UInt8) (instruction : Instruction) : Prop where
  op : instruction.op.code.toNat < Opcode.known
  out : instruction.out.index < addresses
  arity : instruction.inputs.length ≤ Synthetic.maxInputs.toNat
  inputs : ∀ input ∈ instruction.inputs, input.index < addresses

instance (addresses : UInt8) (instruction : Instruction) :
    Decidable (instruction.IsWithin addresses) :=
  decidable_of_iff (instruction.op.code.toNat < Opcode.known ∧
      instruction.out.index < addresses ∧ instruction.inputs.length ≤ Synthetic.maxInputs.toNat ∧
      ∀ input ∈ instruction.inputs, input.index < addresses)
    ⟨fun ⟨op, out, arity, inputs⟩ => ⟨op, out, arity, inputs⟩,
      fun within => ⟨within.op, within.out, within.arity, within.inputs⟩⟩

/-- A row of instructions that a part of a program may consist of. -/
structure SyntheticConfig.Allows (config : SyntheticConfig) (part : Section)
    (row : List Instruction) : Prop where
  lo_le : (config.bounds part).lo.toNat ≤ row.length
  le_hi : row.length ≤ (config.bounds part).hi.toNat
  within : ∀ instruction ∈ row, instruction.IsWithin config.addresses

instance (config : SyntheticConfig) (part : Section) (row : List Instruction) :
    Decidable (config.Allows part row) :=
  decidable_of_iff ((config.bounds part).lo.toNat ≤ row.length ∧
      row.length ≤ (config.bounds part).hi.toNat ∧
      ∀ instruction ∈ row, instruction.IsWithin config.addresses)
    ⟨fun ⟨lo_le, le_hi, within⟩ => ⟨lo_le, le_hi, within⟩,
      fun allows => ⟨allows.lo_le, allows.le_hi, allows.within⟩⟩

namespace Synthetic

variable {config : SyntheticConfig} {addresses : UInt8}

theorem ensures_drawAddress (positive : 0 < addresses.toNat) :
    (drawAddress addresses).Ensures Choice.Admits fun address => address.index < addresses := by
  apply (Draw.ensures_index positive).bind
  intro index index_lt
  apply (Draw.ensures_index (by decide)).bind
  intro kind _
  have index_small : index < 256 := Nat.lt_trans index_lt addresses.toNat_lt
  show UInt8.ofNat index < addresses
  rwa [UInt8.lt_iff_toNat_lt, UInt8.toNat_ofNat', Nat.mod_eq_of_lt index_small]

theorem ensures_drawInstruction (positive : 0 < addresses.toNat) :
    (drawInstruction addresses).Ensures Choice.Admits (Instruction.IsWithin addresses) := by
  apply (Draw.ensures_index (by decide)).bind
  intro code code_lt
  apply (ensures_drawAddress positive).bind
  intro out out_lt
  apply (Draw.ensures_between (by decide)).bind
  rintro arity ⟨_, arity_le⟩
  apply (ensures_replicate (ensures_drawAddress positive) arity.toNat).bind
  rintro inputs ⟨length_eq, inputs_lt⟩
  refine ⟨?_, out_lt, ?_, inputs_lt⟩
  · have code_small : code < 256 := Nat.lt_trans code_lt (by decide)
    show (UInt8.ofNat code).toNat < Opcode.known
    rwa [UInt8.toNat_ofNat', Nat.mod_eq_of_lt code_small]
  · show inputs.length ≤ maxInputs.toNat
    rw [length_eq]
    exact UInt64.le_iff_toNat_le.mp arity_le

theorem ensures_drawPart (sound : config.IsSound) (room : config.HasRoom) (part : Section) :
    (drawPart config part).Ensures Choice.Admits (config.Allows part) := by
  apply (Draw.ensures_between (sound.bounds part)).bind
  rintro length ⟨lo_le, le_hi⟩
  have le_hi := UInt64.le_iff_toNat_le.mp le_hi
  rw [if_pos (hasRoom_of_le (room part) le_hi)]
  apply (ensures_replicate (ensures_drawInstruction sound.addresses) length.toNat).mono
  rintro row ⟨length_eq, within⟩
  refine ⟨?_, ?_, within⟩
  · rw [length_eq]
    exact UInt64.le_iff_toNat_le.mp lo_le
  · rw [length_eq]
    exact le_hi

/-- A program that is drawn has parts that the settings allow. -/
theorem ensures_drawProgram (sound : config.IsSound) (room : config.HasRoom) :
    (drawProgram config).Ensures Choice.Admits fun program =>
      ∀ part, config.Allows part (program.part part) := by
  apply (ensures_drawPart sound room .setup).bind
  intro setup setup_allowed
  apply (ensures_drawPart sound room .predict).bind
  intro predict predict_allowed
  apply (ensures_drawPart sound room .learn).bind
  intro learn learn_allowed part
  cases part with
  | setup => exact setup_allowed
  | predict => exact predict_allowed
  | learn => exact learn_allowed

/-- The action that is chosen is a legal one. -/
theorem isLegal_of_choose? {wanted action : Action} {length : Nat} {bounds : SizeBounds}
    (chosen : wanted.choose? length bounds = some action) :
    action.isLegal length bounds = true :=
  List.find?_some chosen

/-- An edit that takes a legal action goes to a place that the row has. -/
theorem ensures_drawEdit {action : Action} {length : Nat} {bounds : SizeBounds}
    (positive : 0 < addresses.toNat) (legal : action.isLegal length bounds = true) :
    (drawEdit addresses length action).Ensures Choice.Admits fun edit =>
      edit.fitsIn length = true := by
  cases action with
  | alter =>
    apply (Draw.ensures_index (of_decide_eq_true legal)).bind
    intro position position_lt
    apply (ensures_drawInstruction positive).bind
    intro instruction _
    exact decide_eq_true position_lt
  | insert =>
    apply (Draw.ensures_between (UInt64.le_iff_toNat_le.mpr (Nat.zero_le _))).bind
    rintro position ⟨_, position_le⟩
    apply (ensures_drawInstruction positive).bind
    intro instruction _
    exact decide_eq_true (Draw.toNat_le_of_le_ofNat position_le)
  | remove =>
    have occupied : 0 < length := Nat.zero_lt_of_lt (of_decide_eq_true legal)
    apply (Draw.ensures_index occupied).bind
    intro position position_lt
    exact decide_eq_true position_lt

/-- Any program can be mutated, also one that does not keep to the settings. -/
theorem ensures_mutateFully (sound : config.IsSound) (parent : Program) :
    (mutateFully config parent).Ensures Choice.Admits fun _ => True := by
  rw [mutateFully, map_eq_pure_bind, bind_assoc]
  apply (Draw.ensures_index (by decide)).bind
  intro number _
  rw [pure_eq_done, done_bind, map_eq_pure_bind, bind_assoc]
  apply (Draw.ensures_index (by decide)).bind
  intro other _
  rw [pure_eq_done, done_bind]
  dsimp only
  split
  · trivial
  · next action chosen =>
    apply (ensures_drawEdit sound.addresses (isLegal_of_choose? chosen)).bind
    intro edit fits
    rw [Edit.applyTo?, if_pos fits, ofOption_some, done_bind]
    trivial

theorem ensures_mutate (sound : config.IsSound) (intensity : Intensity) (parent : Program) :
    (Mutator.mutate intensity parent (InstructionEdits.mk config)).Ensures Choice.Admits
      fun mutated => mutated.2 = InstructionEdits.mk config := by
  cases intensity with
  | neutral =>
    intro word _
    exact rfl
  | full =>
    apply (ensures_mutateFully sound parent).bind
    intro child _
    exact rfl

theorem ensures_generate (sound : config.IsSound) (room : config.HasRoom) :
    (Generator.generate (RandomPrograms.mk config)).Ensures Choice.Admits
      fun generated => generated.2 = RandomPrograms.mk config := by
  apply (ensures_drawProgram sound room).bind
  intro program _
  exact rfl

end Synthetic

end EvoSearch
