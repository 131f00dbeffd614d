/-
# Every program can become every other

A mutation that may draw any number of each range leads from any program of the search space to any
other one in a finite number of steps, and never leaves the space on the way. A part is made into
another row from its front on: an instruction is replaced as long as both rows have one there, and
then the rest is taken out, or put in. Taking out never goes below the length of the row that is
wanted, and putting in never above it, so bounds that both rows keep are kept in between, also where
they leave no choice of length at all.

What makes this work is that every instruction of the space can be drawn, and every place of a
row.
-/

import Mathlib.Logic.Relation
import EvoSearch.Proofs.SearchSpace

namespace EvoSearch

open Script

namespace Script

variable {I : Interface} {α β : Type} {allowed : (q : I.Query) → I.Answer q → Prop}

/-- A sequence can end in whatever its second part can, behind a result of its first part. -/
theorem Reaches.bind {script : Script I α} {f : α → Script I β} {mid : α} {value : β}
    (first : script.Reaches allowed mid) (second : (f mid).Reaches allowed value) :
    (script >>= f).Reaches allowed value := by
  induction first with
  | done mid => exact second
  | ask q next answer mid granted _ ih => exact .ask q _ answer value granted (ih second)

theorem Reaches.map {script : Script I α} {f : α → β} {mid : α}
    (reaches : script.Reaches allowed mid) : (f <$> script).Reaches allowed (f mid) := by
  rw [map_eq_pure_bind]
  exact reaches.bind (.done (f mid))

/-- A script over and over again can end in any row of its results. -/
theorem reaches_replicate {body : Script I α} {results : List α}
    (each : ∀ result ∈ results, body.Reaches allowed result) :
    (replicate results.length body).Reaches allowed results := by
  induction results with
  | nil => exact .done []
  | cons head tail ih =>
    obtain ⟨head_reached, tail_reached⟩ := List.forall_mem_cons.mp each
    rw [List.length_cons, replicate_succ]
    exact head_reached.bind ((ih tail_reached).bind (.done (head :: tail)))

end Script

namespace Draw

theorem reaches_upTo {bound number : UInt64} (le : number ≤ bound) :
    (upTo bound).Reaches Choice.Admits number := by
  have admitted : (Choice.upTo bound).Admits number := le
  rw [upTo]
  exact .ask _ _ number number admitted (.done number)

/-- Every index below a size can be drawn, as long as a word can count that far. -/
theorem reaches_index {size position : Nat} (lt : position < size) (few : size ≤ UInt64.size) :
    (index size).Reaches Choice.Admits position := by
  have word : (UInt64.ofNat position).toNat = position :=
    UInt64.toNat_ofNat_of_lt' (Nat.lt_of_lt_of_le lt few)
  have last : (UInt64.ofNat (size - 1)).toNat = size - 1 :=
    UInt64.toNat_ofNat_of_lt' (by omega)
  have le : UInt64.ofNat position ≤ UInt64.ofNat (size - 1) := by
    rw [UInt64.le_iff_toNat_le, word, last]
    omega
  rw [index, if_neg (Nat.ne_zero_of_lt lt)]
  apply (reaches_upTo le).bind
  rw [word]
  exact .done position

/-- Every number of a range can be drawn, its ends among them. -/
theorem reaches_between {lo hi number : UInt64} (lo_le : lo ≤ number) (le_hi : number ≤ hi) :
    (between lo hi).Reaches Choice.Admits number := by
  have le := UInt64.le_trans lo_le le_hi
  obtain ⟨offset, inside, rfl⟩ := (exists_offset_iff le).mpr ⟨lo_le, le_hi⟩
  rw [between, if_pos le]
  exact (reaches_upTo inside).bind (.done _)

end Draw

namespace Synthetic

variable {config : SyntheticConfig} {addresses : UInt8} {part : Section}

/-! ## What can be drawn -/

theorem exists_kindOf (kind : VariableKind) : ∃ number < 3, kindOf number = kind := by
  cases kind with
  | scalar => exact ⟨0, by decide, rfl⟩
  | vector => exact ⟨1, by decide, rfl⟩
  | matrix => exact ⟨2, by decide, rfl⟩

theorem exists_sectionOf (part : Section) : ∃ number < 3, sectionOf number = part := by
  cases part with
  | setup => exact ⟨0, by decide, rfl⟩
  | predict => exact ⟨1, by decide, rfl⟩
  | learn => exact ⟨2, by decide, rfl⟩

theorem exists_ofIndex (action : Action) : ∃ number < 3, Action.ofIndex number = action := by
  cases action with
  | alter => exact ⟨0, by decide, rfl⟩
  | insert => exact ⟨1, by decide, rfl⟩
  | remove => exact ⟨2, by decide, rfl⟩

theorem reaches_drawAddress {address : Address} (inside : address.index < addresses) :
    (drawAddress addresses).Reaches Choice.Admits address := by
  obtain ⟨kind, index⟩ := address
  obtain ⟨number, number_lt, rfl⟩ := exists_kindOf kind
  have index_lt : index.toNat < addresses.toNat := UInt8.lt_iff_toNat_lt.mp inside
  have few : addresses.toNat ≤ UInt64.size :=
    Nat.le_of_lt (Nat.lt_trans addresses.toNat_lt (by decide))
  apply (Draw.reaches_index index_lt few).bind
  apply (Draw.reaches_index number_lt (by decide)).bind
  rw [UInt8.ofNat_toNat]
  exact .done _

/-- Every instruction within the settings can be drawn. -/
theorem reaches_drawInstruction {instruction : Instruction}
    (within : instruction.IsWithin addresses) :
    (drawInstruction addresses).Reaches Choice.Admits instruction := by
  obtain ⟨⟨code⟩, out, inputs⟩ := instruction
  obtain ⟨known, out_inside, arity_le, inputs_inside⟩ := within
  dsimp only at known out_inside arity_le inputs_inside
  have arity_eq : (UInt64.ofNat inputs.length).toNat = inputs.length :=
    UInt64.toNat_ofNat_of_lt' (Nat.lt_of_le_of_lt arity_le maxInputs.toNat_lt)
  apply (Draw.reaches_index known (by decide)).bind
  apply (reaches_drawAddress out_inside).bind
  have arity_reached : (Draw.between 0 maxInputs).Reaches Choice.Admits
      (UInt64.ofNat inputs.length) := by
    apply Draw.reaches_between
    · exact UInt64.le_iff_toNat_le.mpr (Nat.zero_le _)
    · rw [UInt64.le_iff_toNat_le, arity_eq]
      exact arity_le
  apply arity_reached.bind
  rw [arity_eq]
  apply (reaches_replicate fun input mem => reaches_drawAddress (inputs_inside input mem)).bind
  rw [UInt8.ofNat_toNat]
  exact .done _

/-- What an edit does. -/
def Edit.action : Edit → Action
  | alter .. => .alter
  | insert .. => .insert
  | remove .. => .remove

/-- An edit that puts in nothing but an instruction within the settings. -/
def Edit.IsWithin (addresses : UInt8) : Edit → Prop
  | alter _ instruction => instruction.IsWithin addresses
  | insert _ instruction => instruction.IsWithin addresses
  | remove _ => True

/-- Every edit of a row within the settings can be drawn, if a word can count the instructions. -/
theorem reaches_drawEdit {edit : Edit} {length : Nat} (fits : edit.fitsIn length = true)
    (within : edit.IsWithin addresses) (few : length < UInt64.size) :
    (drawEdit addresses length edit.action).Reaches Choice.Admits edit := by
  cases edit with
  | alter position instruction =>
    exact (Draw.reaches_index (of_decide_eq_true fits) (Nat.le_of_lt few)).bind
      ((reaches_drawInstruction within).bind (.done _))
  | insert position instruction =>
    have position_le : position ≤ length := of_decide_eq_true fits
    have word : (UInt64.ofNat position).toNat = position :=
      UInt64.toNat_ofNat_of_lt' (Nat.lt_of_le_of_lt position_le few)
    have place_reached : (Draw.between 0 (UInt64.ofNat length)).Reaches Choice.Admits
        (UInt64.ofNat position) := by
      apply Draw.reaches_between
      · exact UInt64.le_iff_toNat_le.mpr (Nat.zero_le _)
      · rw [UInt64.le_iff_toNat_le, word, UInt64.toNat_ofNat_of_lt' few]
        exact position_le
    apply place_reached.bind
    rw [word]
    exact (reaches_drawInstruction within).bind (.done _)
  | remove position =>
    exact (Draw.reaches_index (of_decide_eq_true fits) (Nat.le_of_lt few)).bind (.done _)

/-! ## Steps -/

theorem choose?_of_isLegal {action : Action} {length : Nat} {bounds : SizeBounds}
    (legal : action.isLegal length bounds = true) :
    action.choose? length bounds = some action := by
  rw [Action.choose?, List.find?_cons, legal]

/-- A full mutation can make any edit that goes to a place of the part, is legal there, and keeps
within the settings. -/
theorem reaches_mutateFully (parent : Program) (part : Section) {edit : Edit}
    (fits : edit.fitsIn (parent.part part).length = true)
    (legal : edit.action.isLegal (parent.part part).length (config.bounds part) = true)
    (within : edit.IsWithin config.addresses)
    (few : (parent.part part).length < UInt64.size) :
    (mutateFully config parent).Reaches Choice.Admits
      (parent.withPart part (edit.apply (parent.part part))) := by
  obtain ⟨number, number_lt, rfl⟩ := exists_sectionOf part
  obtain ⟨other, other_lt, other_eq⟩ := exists_ofIndex edit.action
  refine (Draw.reaches_index number_lt (by decide)).map.bind ?_
  refine (Draw.reaches_index other_lt (by decide)).map.bind ?_
  simp only [other_eq, choose?_of_isLegal legal]
  refine (reaches_drawEdit fits within few).bind ?_
  rw [Edit.applyTo?, if_pos fits]
  exact .done _

/-- One full mutation within the space, for some numbers of the ranges that it draws from. -/
structure Mutates (config : SyntheticConfig) (parent child : Program) : Prop where
  from_space : config.Contains parent
  to_space : config.Contains child
  reaches : (Mutator.mutate .full parent (InstructionEdits.mk config)).Reaches Choice.Admits
    (child, InstructionEdits.mk config)

variable {program goal : Program} {row target : List Instruction}

theorem allows_part (contains : config.Contains program) (part : Section) :
    config.Allows part (program.part part) where
  lo_le := (contains.fits part).1
  le_hi := (contains.fits part).2
  within instruction mem := (contains.belongs part instruction mem).toIsWithin

/-- A program of the space is still one with another row in one part, if the part may consist of
it. -/
theorem contains_withPart (contains : config.Contains program) (allows : config.Allows part row) :
    config.Contains (program.withPart part row) := by
  apply SyntheticConfig.contains_of_allows
  intro other
  by_cases same : other = part
  · subst same
    rwa [Program.part_withPart]
  · rw [Program.part_withPart_of_ne same]
    exact allows_part contains other

@[simp] theorem withPart_withPart (program : Program) (part : Section)
    (row edited : List Instruction) :
    (program.withPart part row).withPart part edited = program.withPart part edited := by
  cases part <;> rfl

/-- A part may consist of a row if all that is in it comes from one of two rows that it may consist
of, and the length lies between theirs. -/
theorem allows_between {mid : List Instruction} (here : config.Allows part row)
    (there : config.Allows part target) (min_le : min row.length target.length ≤ mid.length)
    (le_max : mid.length ≤ max row.length target.length)
    (listed : ∀ instruction ∈ mid, instruction ∈ row ∨ instruction ∈ target) :
    config.Allows part mid where
  lo_le := Nat.le_trans (Nat.le_min.mpr ⟨here.lo_le, there.lo_le⟩) min_le
  le_hi := Nat.le_trans le_max (Nat.max_le.mpr ⟨here.le_hi, there.le_hi⟩)
  within instruction mem :=
    (listed instruction mem).elim (here.within instruction) (there.within instruction)

/-- One legal edit of a row, within the settings. -/
def Turns (config : SyntheticConfig) (part : Section) (row edited : List Instruction) : Prop :=
  ∃ edit : Edit, edit.fitsIn row.length = true ∧
    edit.action.isLegal row.length (config.bounds part) = true ∧
    edit.IsWithin config.addresses ∧ edit.apply row = edited

theorem turns_replace {front back : List Instruction} {old new : Instruction}
    (within : new.IsWithin config.addresses) :
    Turns config part (front ++ old :: back) (front ++ new :: back) := by
  have inside : front.length < (front ++ old :: back).length := by simp
  exact ⟨.alter front.length new, decide_eq_true inside,
    decide_eq_true (Nat.zero_lt_of_lt inside), within, apply_alter front back old new⟩

theorem turns_insert {front back : List Instruction} {new : Instruction}
    (within : new.IsWithin config.addresses)
    (room : (front ++ back).length < (config.bounds part).hi.toNat) :
    Turns config part (front ++ back) (front ++ new :: back) := by
  refine ⟨.insert front.length new, decide_eq_true ?_, decide_eq_true room, within,
    apply_insert front back new⟩
  simp

theorem turns_remove {front back : List Instruction} {old : Instruction}
    (spare : (config.bounds part).lo.toNat < (front ++ old :: back).length) :
    Turns config part (front ++ old :: back) (front ++ back) := by
  refine ⟨.remove front.length, decide_eq_true ?_, decide_eq_true spare, trivial,
    apply_remove front back old⟩
  simp

/-- One legal edit that keeps to the bounds at both of its ends. -/
structure Passes (config : SyntheticConfig) (part : Section) (row edited : List Instruction) :
    Prop where
  here : config.Allows part row
  there : config.Allows part edited
  turns : Turns config part row edited

/-- From its front on, a row is made into the one that is wanted. What is in front is as it should
be already. -/
theorem reflTransGen_passes (front : List Instruction) : ∀ row target : List Instruction,
    config.Allows part (front ++ row) → config.Allows part (front ++ target) →
    Relation.ReflTransGen (Passes config part) (front ++ row) (front ++ target)
  | [], [], _, _ => .refl
  | old :: row, [], here, there => by
    have spare := there.lo_le
    have between : config.Allows part (front ++ row) := by
      apply allows_between here there
      · simp
      · simp
      · simp +contextual [or_imp]
    refine .head ⟨here, between, turns_remove ?_⟩ (reflTransGen_passes front row [] between there)
    simp only [List.length_append, List.length_cons, List.length_nil] at spare ⊢
    omega
  | [], new :: target, here, there => by
    have room := there.le_hi
    have between : config.Allows part (front ++ [new]) := by
      apply allows_between here there
      · simp
      · simp
      · simp +contextual [or_imp]
    have rest := reflTransGen_passes (front ++ [new]) [] target (by rwa [List.append_nil])
      (by rwa [← List.append_cons])
    rw [List.append_nil, ← List.append_cons] at rest
    refine .head ⟨here, between, turns_insert ?_ ?_⟩ rest
    · exact there.within new (by simp)
    · simp only [List.length_append, List.length_cons, List.length_nil] at room ⊢
      omega
  | old :: row, new :: target, here, there => by
    have between : config.Allows part (front ++ new :: row) := by
      have same : (front ++ new :: row).length = (front ++ old :: row).length := by simp
      apply allows_between here there
      · exact same ▸ Nat.min_le_left _ _
      · exact same ▸ Nat.le_max_left _ _
      · simp +contextual [or_imp]
    have rest := reflTransGen_passes (front ++ [new]) row target (by rwa [← List.append_cons])
      (by rwa [← List.append_cons])
    rw [← List.append_cons, ← List.append_cons] at rest
    exact .head ⟨here, between, turns_replace (there.within new (by simp))⟩ rest

/-- What a legal edit makes of one part is a step of the program. -/
theorem mutates_of_passes (contains : config.Contains program)
    (passes : Passes config part row target) :
    Mutates config (program.withPart part row) (program.withPart part target) where
  from_space := contains_withPart contains passes.here
  to_space := contains_withPart contains passes.there
  reaches := by
    obtain ⟨edit, fits, legal, within, rfl⟩ := passes.turns
    have few : row.length < UInt64.size :=
      Nat.lt_of_le_of_lt passes.here.le_hi (config.bounds part).hi.toNat_lt
    have row_eq := Program.part_withPart program part row
    have edited := reaches_mutateFully (program.withPart part row) part (by rwa [row_eq])
      (by rwa [row_eq]) within (by rwa [row_eq])
    rw [row_eq, withPart_withPart] at edited
    exact edited.bind (.done _)

/-- One part of a program is made into another row that it may consist of. -/
theorem reflTransGen_withPart (contains : config.Contains program)
    (allows : config.Allows part target) :
    Relation.ReflTransGen (Mutates config) program (program.withPart part target) := by
  have rows : Relation.ReflTransGen (Passes config part) (program.part part) target :=
    reflTransGen_passes [] _ _ (allows_part contains part) allows
  have lifted : Relation.ReflTransGen (Mutates config)
      (program.withPart part (program.part part)) (program.withPart part target) :=
    rows.lift (program.withPart part) fun row edited => mutates_of_passes contains
  rwa [Program.withPart_part] at lifted

/-- Every program of the space is led to every other one by a finite number of full mutations, each
of them for some numbers out of the ranges that it draws from, and all programs on the way are of
the space. This takes no more of the settings than that both programs keep to them. -/
theorem space_is_connected (contains : config.Contains program)
    (goal_contains : config.Contains goal) :
    Relation.ReflTransGen (Mutates config) program goal := by
  have setup_allowed := allows_part goal_contains .setup
  have predict_allowed := allows_part goal_contains .predict
  have learn_allowed := allows_part goal_contains .learn
  have behind_setup := contains_withPart contains setup_allowed
  have behind_predict := contains_withPart behind_setup predict_allowed
  have first := reflTransGen_withPart contains setup_allowed
  have second := reflTransGen_withPart behind_setup predict_allowed
  have third := reflTransGen_withPart behind_predict learn_allowed
  exact (first.trans second).trans third

/-- A program of the narrow space, where one part has to stay empty, another has to keep its
length, and the last one has room for a single instruction. -/
def narrowStart : Program where
  setup := []
  predict := [⟨⟨0⟩, ⟨.scalar, 0⟩, []⟩, ⟨⟨64⟩, ⟨.matrix, 0⟩, [⟨.vector, 0⟩]⟩]
  learn := []

/-- A program of the narrow space that has no instruction in common with the other. -/
def narrowGoal : Program where
  setup := []
  predict := [⟨⟨7⟩, ⟨.vector, 0⟩, [⟨.scalar, 0⟩, ⟨.matrix, 0⟩]⟩, ⟨⟨13⟩, ⟨.scalar, 0⟩, []⟩]
  learn := [⟨⟨44⟩, ⟨.matrix, 0⟩, []⟩]

theorem space_is_connected_of_narrow : narrowSpace.validate = .ok () ∧
    narrowSpace.Contains narrowStart ∧ narrowSpace.Contains narrowGoal ∧
    Relation.ReflTransGen (Mutates narrowSpace) narrowStart narrowGoal := by
  have start_contains : narrowSpace.Contains narrowStart :=
    SyntheticConfig.contains_of_allows fun part => by cases part <;> decide
  have goal_contains : narrowSpace.Contains narrowGoal :=
    SyntheticConfig.contains_of_allows fun part => by cases part <;> decide
  exact ⟨rfl, start_contains, goal_contains, space_is_connected start_contains goal_contains⟩

end Synthetic

end EvoSearch
