/-
# The search space

Settings of the built-in objective span a space of programs: parts of a length within the bounds,
made of instructions of known operations. Programs that are drawn lie in it. A mutation takes one
step from any program at all: it edits one place of one part, with an instruction of the space, and
never leads a part across a bound. So it stays in the space, and leads back towards it from outside.

What an edit puts in is what the stream brings behind the choice of the part, so a program that
comes out unchanged has had an instruction drawn a second time, or there was nothing to edit.
-/

import EvoSearch.Proofs.Drawing
import EvoSearch.Proofs.Synthesis

namespace EvoSearch

open Script EvoSearch.Random

theorem Opcode.isSome_category? {op : Opcode} (known : op.code.toNat < Opcode.known) :
    op.category?.isSome = true := by
  have last : op.code < 65 := UInt8.lt_iff_toNat_lt.mpr known
  simp only [category?, last, if_true]
  split_ifs <;> rfl

/-- An instruction of the space: it is within the settings, and its operation has a category. -/
structure Instruction.Belongs (addresses : UInt8) (instruction : Instruction) : Prop extends
    Instruction.IsWithin addresses instruction where
  known : instruction.op.category?.isSome = true

theorem Instruction.IsWithin.belongs {addresses : UInt8} {instruction : Instruction}
    (within : instruction.IsWithin addresses) : instruction.Belongs addresses where
  toIsWithin := within
  known := Opcode.isSome_category? within.op

namespace SyntheticConfig

variable {config : SyntheticConfig}

/-- All parts of a program have a length within the bounds, both ends included. -/
def Fits (config : SyntheticConfig) (program : Program) : Prop :=
  ∀ part, (config.bounds part).lo.toNat ≤ (program.part part).length ∧
    (program.part part).length ≤ (config.bounds part).hi.toNat

/-- A program of the space. -/
structure Contains (config : SyntheticConfig) (program : Program) : Prop where
  fits : config.Fits program
  belongs : ∀ part, ∀ instruction ∈ program.part part, instruction.Belongs config.addresses

theorem contains_of_allows {program : Program}
    (allows : ∀ part, config.Allows part (program.part part)) : config.Contains program where
  fits part := ⟨(allows part).lo_le, (allows part).le_hi⟩
  belongs part instruction mem := ((allows part).within instruction mem).belongs

end SyntheticConfig

namespace Draw

variable {α β ρ : Type} [WordStream ρ] {patience : Nat} {short : Prop}

/-- How a draw may end on a stream: with what it should bring, or in a redraw loop that does not
come to an end, or for want of room where there is not enough. -/
inductive Outcome (short : Prop) (post : α → ρ → Prop) : Except Fault (α × ρ) → Prop
  | stalled : Outcome short post (.error .stalled)
  | noRoom : short → Outcome short post (.error .noRoom)
  | value {value : α} {after : ρ} : post value after → Outcome short post (.ok (value, after))

omit [WordStream ρ] in
theorem Outcome.mono {post weaker : α → ρ → Prop} {result : Except Fault (α × ρ)}
    (outcome : Outcome short post result)
    (weaken : ∀ value after, result = .ok (value, after) → post value after → weaker value after) :
    Outcome short weaker result := by
  cases outcome with
  | stalled => exact .stalled
  | noRoom lacking => exact .noRoom lacking
  | value holds => exact .value (weaken _ _ rfl holds)

theorem outcome_of_ensures {draw : Draw α} {post : α → Prop}
    (ensures : draw.Ensures Choice.Admits post) (stream : ρ) :
    Outcome short (fun value _ => post value) (draw.run patience stream) := by
  cases run : draw.run patience stream with
  | error reason =>
    obtain rfl := stalled_of_run ensures run
    exact .stalled
  | ok ended => exact .value (of_run ensures run)

theorem Outcome.bind {draw : Draw α} {f : α → Draw β} {mid : α → ρ → Prop} {post : β → ρ → Prop}
    {stream : ρ} (first : Outcome short mid (draw.run patience stream))
    (second : ∀ value between, mid value between →
      Outcome short post ((f value).run patience between)) :
    Outcome short post ((draw >>= f).run patience stream) := by
  rw [Draw.run, run_bind]
  revert first
  rw [Draw.run]
  generalize Script.run (Choice.serve patience) draw stream = result
  rintro (_ | lacking | holds)
  · exact .stalled
  · exact .noRoom lacking
  · exact second _ _ holds

end Draw

namespace Synthetic

variable {config : SyntheticConfig} {addresses : UInt8} {ρ : Type} [WordStream ρ] {patience : Nat}
  {stream mid after : ρ} {part : Section} {row edited : List Instruction} {parent child : Program}

/-! ## Generation -/

theorem outcome_drawPart (sound : config.IsSound) (part : Section) (stream : ρ) :
    Draw.Outcome (¬ config.HasRoom) (fun row _ => config.Allows part row)
      ((drawPart config part).run patience stream) := by
  apply (Draw.outcome_of_ensures (Draw.ensures_between (sound.bounds part)) stream).bind
  rintro length between ⟨lo_le, le_hi⟩
  rw [UInt64.le_iff_toNat_le] at lo_le le_hi
  split
  · have each := ensures_replicate (ensures_drawInstruction sound.addresses) length.toNat
    apply (Draw.outcome_of_ensures each between).mono
    rintro row after - ⟨length_eq, within⟩
    exact ⟨length_eq ▸ lo_le, length_eq ▸ le_hi, within⟩
  · next lacking =>
    exact .noRoom fun room => lacking (hasRoom_of_le (room part) le_hi)

theorem outcome_drawProgram (sound : config.IsSound) (stream : ρ) :
    Draw.Outcome (¬ config.HasRoom) (fun program _ => config.Contains program)
      ((drawProgram config).run patience stream) := by
  apply (outcome_drawPart sound .setup stream).bind
  intro setup behind_setup setup_allowed
  apply (outcome_drawPart sound .predict behind_setup).bind
  intro predict behind_predict predict_allowed
  apply (outcome_drawPart sound .learn behind_predict).bind
  intro learn behind_learn learn_allowed
  refine .value (SyntheticConfig.contains_of_allows fun part => ?_)
  cases part with
  | setup => exact setup_allowed
  | predict => exact predict_allowed
  | learn => exact learn_allowed

/-! ## Mutation -/

/-- A part that there is nothing to edit in, or one edit of a part: an instruction replaced, put in
where there is still room below the upper bound, or taken out where there are some left above the
lower bound. The place and the new instruction are those that come on the stream from `stream` up to
`after`. -/
inductive Edited (config : SyntheticConfig) (part : Section) (patience : Nat) (stream : ρ) :
    (after : ρ) → (row edited : List Instruction) → Prop
  | nothing : (config.bounds part).hi = 0 → Edited config part patience stream stream [] []
  | replaced (front back : List Instruction) (old new : Instruction) (mid after : ρ) :
      (Draw.index (front ++ old :: back).length).run patience stream = .ok (front.length, mid) →
      (drawInstruction config.addresses).run patience mid = .ok (new, after) →
      new.Belongs config.addresses →
      Edited config part patience stream after (front ++ old :: back) (front ++ new :: back)
  | inserted (front back : List Instruction) (place : UInt64) (new : Instruction) (mid after : ρ) :
      (Draw.between 0 (UInt64.ofNat (front ++ back).length)).run patience stream =
        .ok (place, mid) → place.toNat = front.length →
      (drawInstruction config.addresses).run patience mid = .ok (new, after) →
      new.Belongs config.addresses →
      (front ++ back).length < (config.bounds part).hi.toNat →
      Edited config part patience stream after (front ++ back) (front ++ new :: back)
  | removed (front back : List Instruction) (old : Instruction) (after : ρ) :
      (Draw.index (front ++ old :: back).length).run patience stream = .ok (front.length, after) →
      (config.bounds part).lo.toNat < (front ++ old :: back).length →
      Edited config part patience stream after (front ++ old :: back) (front ++ back)

theorem exists_front {position : Nat} (inside : position ≤ row.length) :
    ∃ front back, row = front ++ back ∧ front.length = position :=
  ⟨row.take position, row.drop position, (List.take_append_drop _ _).symm,
    List.length_take_of_le inside⟩

theorem exists_front_cons {position : Nat} (inside : position < row.length) :
    ∃ front old back, row = front ++ old :: back ∧ front.length = position := by
  obtain ⟨front, _ | ⟨old, back⟩, rfl, rfl⟩ := exists_front (Nat.le_of_lt inside)
  · simp at inside
  · exact ⟨front, old, back, rfl, rfl⟩

theorem apply_alter (front back : List Instruction) (old new : Instruction) :
    (Edit.alter front.length new).apply (front ++ old :: back) = front ++ new :: back := by
  simp [Edit.apply]

theorem apply_insert (front back : List Instruction) (new : Instruction) :
    (Edit.insert front.length new).apply (front ++ back) = front ++ new :: back := by
  rw [Edit.apply]
  induction front with
  | nil => rfl
  | cons first front ih => exact congrArg (first :: ·) ih

theorem apply_remove (front back : List Instruction) (old : Instruction) :
    (Edit.remove front.length).apply (front ++ old :: back) = front ++ back := by
  rw [Edit.apply, List.eraseIdx_append_of_length_le (Nat.le_refl _), Nat.sub_self,
    List.eraseIdx_zero, List.tail_cons]

theorem belongs_of_run (positive : 0 < addresses.toNat) {instruction : Instruction}
    (run : (drawInstruction addresses).run patience stream = .ok (instruction, after)) :
    instruction.Belongs addresses :=
  (Draw.of_run (ensures_drawInstruction positive) run).belongs

/-- What a legal action does to a row is one edit. -/
theorem edited_of_run (positive : 0 < config.addresses.toNat) {action : Action} {edit : Edit}
    (legal : action.isLegal row.length (config.bounds part) = true)
    (run : (drawEdit config.addresses row.length action).run patience stream = .ok (edit, after))
    (fits : edit.fitsIn row.length = true) :
    Edited config part patience stream after row (edit.apply row) := by
  cases action with
  | alter =>
    obtain ⟨position, mid, place_run, run⟩ := exists_of_run_bind run
    obtain ⟨new, last, new_run, run⟩ := exists_of_run_bind run
    obtain ⟨rfl, rfl⟩ := Prod.mk.inj (Except.ok.inj run)
    obtain ⟨front, old, back, rfl, rfl⟩ := exists_front_cons (of_decide_eq_true fits)
    rw [apply_alter]
    exact .replaced front back old new mid last place_run new_run (belongs_of_run positive new_run)
  | insert =>
    obtain ⟨place, mid, place_run, run⟩ := exists_of_run_bind run
    obtain ⟨new, last, new_run, run⟩ := exists_of_run_bind run
    obtain ⟨rfl, rfl⟩ := Prod.mk.inj (Except.ok.inj run)
    obtain ⟨front, back, rfl, place_eq⟩ := exists_front (of_decide_eq_true fits)
    rw [← place_eq, apply_insert]
    exact .inserted front back place new mid last place_run place_eq.symm new_run
      (belongs_of_run positive new_run) (of_decide_eq_true legal)
  | remove =>
    obtain ⟨position, mid, place_run, run⟩ := exists_of_run_bind run
    obtain ⟨rfl, rfl⟩ := Prod.mk.inj (Except.ok.inj run)
    obtain ⟨front, old, back, rfl, rfl⟩ := exists_front_cons (of_decide_eq_true fits)
    rw [apply_remove]
    exact .removed front back old mid place_run (of_decide_eq_true legal)

/-- Nothing can be done to a part only if it is empty and has to stay so. -/
theorem nothing_of_choose? {wanted : Action} {length : Nat} {bounds : SizeBounds}
    (none : wanted.choose? length bounds = none) : length = 0 ∧ bounds.hi = 0 := by
  have illegal (action : Action) (listed : action ∈ [wanted, .alter, .insert, .remove]) :
      ¬ action.isLegal length bounds = true :=
    List.find?_eq_none.mp none action listed
  have no_alter := illegal .alter (by simp)
  have no_insert := illegal .insert (by simp)
  simp only [Action.isLegal, decide_eq_true_eq] at no_alter no_insert
  exact ⟨by omega, UInt64.toNat_inj.mp (by rw [UInt64.toNat_zero]; omega)⟩

/-- What comes first on a stream is the part to be edited, and a number for what to do there. -/
def Chooses (patience : Nat) (stream : ρ) (part : Section) (mid : ρ) : Prop :=
  ∃ number other between, (Draw.index 3).run patience stream = .ok (number, between) ∧
    (Draw.index 3).run patience between = .ok (other, mid) ∧ sectionOf number = part

/-- A mutation that comes to its end has chosen a part, and has edited that part and no other. -/
theorem exists_edited_of_run (sound : config.IsSound)
    (run : (mutateFully config parent).run patience stream = .ok (child, after)) :
    ∃ part mid, Chooses patience stream part mid ∧
      (∀ other, other ≠ part → child.part other = parent.part other) ∧
      Edited config part patience mid after (parent.part part) (child.part part) := by
  rw [mutateFully, map_eq_pure_bind, bind_assoc] at run
  obtain ⟨number, between, number_run, run⟩ := exists_of_run_bind run
  rw [pure_eq_done, done_bind, map_eq_pure_bind, bind_assoc] at run
  obtain ⟨other, mid, other_run, run⟩ := exists_of_run_bind run
  rw [pure_eq_done, done_bind] at run
  refine ⟨sectionOf number, mid, ⟨number, other, between, number_run, other_run, rfl⟩, ?_⟩
  dsimp only at run
  -- the wanted action does not matter, since what is chosen in the end is legal
  split at run
  · next none =>
    obtain ⟨rfl, rfl⟩ := Prod.mk.inj (Except.ok.inj run)
    obtain ⟨empty, hi_eq⟩ := nothing_of_choose? none
    refine ⟨fun _ _ => rfl, ?_⟩
    rw [List.length_eq_zero_iff.mp empty]
    exact .nothing hi_eq
  · next action chosen =>
    have legal := isLegal_of_choose? chosen
    obtain ⟨edit, last, edit_run, run⟩ := exists_of_run_bind run
    have fits := Draw.of_run (ensures_drawEdit sound.addresses legal) edit_run
    rw [Edit.applyTo?, if_pos fits, ofOption_some, done_bind] at run
    obtain ⟨rfl, rfl⟩ := Prod.mk.inj (Except.ok.inj run)
    refine ⟨fun other different => Program.part_withPart_of_ne different, ?_⟩
    rw [Program.part_withPart]
    exact edited_of_run sound.addresses legal edit_run fits

/-- An instruction is drawn that is the same as the one at the place drawn before. -/
def Redraws (addresses : UInt8) (patience : Nat) (stream after : ρ) (row : List Instruction) :
    Prop :=
  ∃ position old mid, (Draw.index row.length).run patience stream = .ok (position, mid) ∧
    row[position]? = some old ∧
    (drawInstruction addresses).run patience mid = .ok (old, after)

namespace Edited

theorem lt_hi (edit : Edited config part patience stream after row edited)
    (longer : row.length < edited.length) : row.length < (config.bounds part).hi.toNat := by
  cases edit with
  | nothing => simp at longer
  | replaced => simp at longer
  | inserted _ _ _ _ _ _ _ _ _ _ room => exact room
  | removed =>
    simp only [List.length_append, List.length_cons] at longer
    omega

theorem lo_lt (edit : Edited config part patience stream after row edited)
    (shorter : edited.length < row.length) : (config.bounds part).lo.toNat < row.length := by
  cases edit with
  | nothing => simp at shorter
  | replaced => simp at shorter
  | inserted =>
    simp only [List.length_append, List.length_cons] at shorter
    omega
  | removed _ _ _ _ _ spare => exact spare

theorem length_le (edit : Edited config part patience stream after row edited) :
    edited.length ≤ row.length + 1 ∧ row.length ≤ edited.length + 1 := by
  cases edit with
  | nothing => simp
  | replaced => simp
  | inserted => simp; omega
  | removed => simp; omega

/-- A row stays as it is where there is nothing to do, or where the instruction that is drawn is the
one that it replaces. -/
theorem redraws_of_eq (edit : Edited config part patience stream after row edited)
    (same : edited = row) : row = [] ∧ (config.bounds part).hi = 0 ∨
      Redraws config.addresses patience stream after row := by
  cases edit with
  | nothing hi_eq => exact .inl ⟨rfl, hi_eq⟩
  | replaced front back old new mid last place_run new_run =>
    obtain rfl : new = old := by simpa using same
    exact .inr ⟨front.length, new, mid, place_run, by simp, new_run⟩
  | inserted => simpa using congrArg List.length same
  | removed => simpa using congrArg List.length same

end Edited

/-- A child differs from its parent by one edit of the part that was chosen. That part gets longer
only if it was below its upper bound, and shorter only if it was above its lower bound, so that a
child is within the bounds if the parent is. The two are the same only if there was nothing to do in
the part, or if an instruction was drawn that was there before. -/
structure IsChild (config : SyntheticConfig) (patience : Nat) (stream after : ρ) (part : Section)
    (parent child : Program) : Prop where
  others : ∀ other, other ≠ part → child.part other = parent.part other
  edited : Edited config part patience stream after (parent.part part) (child.part part)
  lt_hi : (parent.part part).length < (child.part part).length →
    (parent.part part).length < (config.bounds part).hi.toNat
  lo_lt : (child.part part).length < (parent.part part).length →
    (config.bounds part).lo.toNat < (parent.part part).length
  fits : config.Fits parent → config.Fits child
  unchanged : child = parent → parent.part part = [] ∧ (config.bounds part).hi = 0 ∨
    Redraws config.addresses patience stream after (parent.part part)

theorem isChild_of_edited
    (others : ∀ other, other ≠ part → child.part other = parent.part other)
    (edit : Edited config part patience stream after (parent.part part) (child.part part)) :
    IsChild config patience stream after part parent child where
  others := others
  edited := edit
  lt_hi := edit.lt_hi
  lo_lt := edit.lo_lt
  fits fits other := by
    by_cases same : other = part
    · subst same
      have := fits other
      have := edit.lt_hi
      have := edit.lo_lt
      have := edit.length_le
      omega
    · rw [others other same]
      exact fits other
  unchanged same := edit.redraws_of_eq (congrArg (Program.part · part) same)

theorem outcome_mutateFully (sound : config.IsSound) (parent : Program) (stream : ρ) :
    Draw.Outcome False
      (fun child after => ∃ part mid, Chooses patience stream part mid ∧
        IsChild config patience mid after part parent child)
      ((mutateFully config parent).run patience stream) := by
  apply (Draw.outcome_of_ensures (ensures_mutateFully sound parent) stream).mono
  rintro child after run -
  obtain ⟨part, mid, chooses, others, edit⟩ := exists_edited_of_run sound run
  exact ⟨part, mid, chooses, isChild_of_edited others edit⟩

/-- A neutral mutation takes one word of 64 bits off the stream and nothing else. -/
theorem run_mutate_neutral (parent : Program) (patience : Nat) (stream : ρ) :
    (Mutator.mutate .neutral parent (InstructionEdits.mk config)).run (patience + 1) stream =
      .ok ((parent, InstructionEdits.mk config), (WordStream.next64 stream).2) :=
  rfl

/-- With settings that are not refused, all programs that are drawn lie in the space, as long as
there is room for the longest parts that the settings allow; on a stream, a draw can only end in
another way if a redraw loop does not come to an end, or for want of that room. Every program can be
mutated, also one from outside the space, and the child is a step away from it. A neutral mutation
takes one word and hands back the program. -/
theorem stays_in_space (valid : config.validate = .ok ()) :
    (config.HasRoom → (Generator.generate (RandomPrograms.mk config)).Ensures Choice.Admits
      fun generated => config.Contains generated.1) ∧
    (∀ (ρ : Type) [WordStream ρ] (patience : Nat) (stream : ρ),
      Draw.Outcome (¬ config.HasRoom) (fun generated _ => config.Contains generated.1)
        ((Generator.generate (RandomPrograms.mk config)).run patience stream)) ∧
    ∀ parent,
      ((Mutator.mutate .full parent (InstructionEdits.mk config)).Ensures Choice.Admits
        fun mutated => mutated.2 = InstructionEdits.mk config) ∧
      ∀ (ρ : Type) [WordStream ρ] (patience : Nat) (stream : ρ),
        Draw.Outcome False
          (fun mutated after => ∃ part mid, Chooses patience stream part mid ∧
            IsChild config patience mid after part parent mutated.1)
          ((Mutator.mutate .full parent (InstructionEdits.mk config)).run patience stream) ∧
        (Mutator.mutate .neutral parent (InstructionEdits.mk config)).run (patience + 1) stream =
          .ok ((parent, InstructionEdits.mk config), (WordStream.next64 stream).2) := by
  have sound := SyntheticConfig.isSound_of_validate valid
  refine ⟨fun room => ?_, fun ρ _ patience stream => ?_, fun parent =>
    ⟨ensures_mutate sound .full parent, fun ρ _ patience stream => ⟨?_, ?_⟩⟩⟩
  · apply (ensures_drawProgram sound room).bind
    intro program allows
    exact SyntheticConfig.contains_of_allows allows
  · apply (outcome_drawProgram sound stream).bind
    intro program after contained
    exact .value contained
  · apply (outcome_mutateFully sound parent stream).bind
    intro child after is_child
    exact .value is_child
  · exact run_mutate_neutral parent patience stream

/-- Settings that leave no choice of lengths but in one part. -/
def narrowSpace : SyntheticConfig where
  setupSize := ⟨0, 0⟩
  predictSize := ⟨2, 2⟩
  learnSize := ⟨0, 1⟩
  addresses := 1
  targetMix := ⟨1, 0, 0, 0, 0⟩

/-- A program outside of that space: one part is too long, another one is too short, and its
instruction is of an unknown operation. -/
def stranger : Program where
  setup := [⟨⟨255⟩, ⟨.matrix, 200⟩, []⟩]
  predict := []
  learn := []

/-- A stream of zeros has the first instruction replaced by the first one of the space. -/
theorem stays_in_space_of_stranger : ∃ child after part mid,
    (Mutator.mutate .full stranger (InstructionEdits.mk narrowSpace)).run 1
      (⟨fun _ => 0, 0⟩ : Tape) = .ok ((child, InstructionEdits.mk narrowSpace), after) ∧
    child = { stranger with setup := [⟨⟨0⟩, ⟨.scalar, 0⟩, []⟩] } ∧
    Chooses 1 (⟨fun _ => 0, 0⟩ : Tape) part mid ∧
    IsChild narrowSpace 1 mid after part stranger child := by
  have valid : narrowSpace.validate = .ok () := rfl
  obtain ⟨outcome, _⟩ := (((stays_in_space valid).2.2 stranger).2 Tape 1 ⟨fun _ => 0, 0⟩)
  have run : (Mutator.mutate .full stranger (InstructionEdits.mk narrowSpace)).run 1
      (⟨fun _ => 0, 0⟩ : Tape) = .ok (({ stranger with setup := [⟨⟨0⟩, ⟨.scalar, 0⟩, []⟩] },
        InstructionEdits.mk narrowSpace), ⟨fun _ => 0, 14⟩) := rfl
  rw [run] at outcome
  cases outcome with
  | value holds =>
    obtain ⟨part, mid, chooses, is_child⟩ := holds
    exact ⟨_, _, part, mid, run, rfl, chooses, is_child⟩

end Synthetic

end EvoSearch
