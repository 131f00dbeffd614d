/-
# Slots that are turned down

A population keeps its size when it passes through an archive. A slot that takes over the cell of
its program stays as it is, even if it loses the cell to a later one. The slots that are turned down
are filled only when all offers have been made, from the archive as it stands then: one after
another, each with the occupant of the first taken cell that is drawn for it. In front of an archive
with no elite at all, they stay.

If the occupants have been in the cells of their programs before, so they are afterwards, and then
no slot is better than what its own cell holds.
-/

import EvoSearch.Proofs.ArchiveHistory
import EvoSearch.Proofs.Drawing
import EvoSearch.Proofs.Faultless
import EvoSearch.Proofs.Selection

namespace EvoSearch.Archive

open Numeric Script EvoSearch.Random

/-- A slot takes over the cell of its program, when those in front of it have been offered. -/
def takesOver (archive : Archive) (slots : List Slot) (index : Nat) : Bool :=
  match slots[index]? with
  | none => false
  | some slot =>
    (archive.offerAll (offersOf archive.grid ((slots.take index).map Slot.scored))).accepts
      (archive.cellOf slot.program) slot.scored

/-- The indices of the slots that do not. -/
def turnedDown (archive : Archive) (slots : List Slot) : List Nat :=
  (List.range slots.length).filter fun index => !archive.takesOver slots index

variable {archive archive' : Archive} {slot : Slot} {slots : List Slot} {index : Nat}

theorem takesOver_zero : archive.takesOver (slot :: slots) 0 =
    archive.accepts (archive.cellOf slot.program) slot.scored :=
  rfl

theorem takesOver_succ : archive.takesOver (slot :: slots) (index + 1) =
    (archive.offer (archive.cellOf slot.program) slot.scored).takesOver slots index :=
  rfl

theorem turnedDown_cons : archive.turnedDown (slot :: slots) =
    (if archive.accepts (archive.cellOf slot.program) slot.scored then [] else [0]) ++
      ((archive.offer (archive.cellOf slot.program) slot.scored).turnedDown slots).map (· + 1) := by
  rw [turnedDown, List.length_cons, List.range_succ_eq_map, List.filter_cons, takesOver_zero,
    List.filter_map]
  cases archive.accepts (archive.cellOf slot.program) slot.scored <;> rfl

/-- What the offers leave to be filled. -/
theorem discarded_eq (archive : Archive) (start : Nat) (slots : List Slot) :
    (archive.offerSlots start slots).2 = (archive.turnedDown slots).map (start + ·) := by
  induction slots generalizing archive start with
  | nil => rfl
  | cons slot slots ih =>
    rw [offerSlots, turnedDown_cons]
    dsimp only
    rw [ih, List.map_append, List.map_map]
    have shift : (fun index => start + index) ∘ (· + 1) = (start + 1 + ·) :=
      funext fun index => by simp only [Function.comp_apply]; omega
    rw [shift]
    split <;> rfl

theorem nodup_turnedDown : (archive.turnedDown slots).Nodup :=
  List.nodup_range.filter _

theorem lt_length_of_mem_turnedDown (mem : index ∈ archive.turnedDown slots) :
    index < slots.length :=
  List.mem_range.mp (List.mem_filter.mp mem).1

theorem mem_turnedDown_iff (within : index < slots.length) :
    index ∈ archive.turnedDown slots ↔ archive.takesOver slots index = false := by
  simp [turnedDown, within]

theorem countP_takesOver (archive : Archive) (slots : List Slot) :
    (List.range slots.length).countP (archive.takesOver slots) +
      (archive.turnedDown slots).length = slots.length := by
  have parts := List.length_eq_countP_add_countP (archive.takesOver slots)
    (l := List.range slots.length)
  rw [turnedDown, ← List.countP_eq_length_filter]
  rw [List.length_range] at parts
  simpa using parts.symm

/-- A slot that takes its cell over finds it taken in the end, by nothing worse. -/
theorem exists_occupant_of_takesOver (start : Nat) (found : slots[index]? = some slot)
    (taken : archive.takesOver slots index = true) :
    ∃ elite,
      (archive.offerSlots start slots).1.occupant? (archive.cellOf slot.program) = some elite ∧
      height slot.fitness ≤ height elite.fitness := by
  induction slots generalizing archive start index with
  | nil => cases found
  | cons head slots ih =>
    rw [offerSlots]
    dsimp only
    cases index with
    | zero =>
      obtain rfl := Option.some.inj found
      rw [takesOver_zero] at taken
      have occupies : (archive.offer (archive.cellOf head.program) head.scored).occupant?
          (archive.cellOf head.program) = some head.scored := by
        rw [occupant?_offer (archive.cellOf_lt_size head.program), if_pos ⟨rfl, taken⟩]
      obtain ⟨elite, kept, le⟩ := exists_occupant?_offerSlots occupies
      exact ⟨elite, kept, le⟩
    | succ index =>
      rw [takesOver_succ] at taken
      exact ih (start + 1) found taken

/-- An archive that is empty behind all offers has turned all of them down. -/
theorem turnedDown_eq_range (start : Nat)
    (empty : ∀ elite, ¬ (archive.offerSlots start slots).1.Keeps elite) :
    archive.turnedDown slots = List.range slots.length := by
  apply List.filter_eq_self.mpr
  intro index mem
  cases taken : archive.takesOver slots index with
  | false => rfl
  | true =>
    obtain ⟨elite, occupies, _⟩ := exists_occupant_of_takesOver start
      (List.getElem?_eq_getElem (List.mem_range.mp mem)) taken
    exact absurd ⟨_, occupies⟩ (empty elite)

/-- Every occupant is in the cell of its program. -/
def IsInPlace (archive : Archive) : Prop :=
  ∀ cell elite, archive.occupant? cell = some elite → archive.cellOf elite.program = cell

theorem isInPlace_ofGrid (grid : Grid) : (ofGrid grid).IsInPlace :=
  fun cell elite found => absurd ⟨cell, found⟩ (not_keeps_ofGrid grid elite)

theorem IsInPlace.offerSlots (inPlace : archive.IsInPlace) (start : Nat) (slots : List Slot) :
    (archive.offerSlots start slots).1.IsInPlace := by
  induction slots generalizing archive start with
  | nil => exact inPlace
  | cons slot slots ih =>
    apply ih
    intro cell elite found
    rw [occupant?_offer (archive.cellOf_lt_size slot.program)] at found
    split at found
    · next taken =>
      obtain rfl := Option.some.inj found
      exact taken.1
    · exact inPlace cell elite found

/-- The cells that are drawn in a search for a taken one: those that miss, and the one that hits. -/
structure Hunt where
  misses : List Nat
  cell : Nat

/-- All of them, in order. -/
def Hunt.draws (hunt : Hunt) : List Nat :=
  hunt.misses ++ [hunt.cell]

/-- A search goes past vacant cells, and ends at an elite. -/
structure Finds (archive : Archive) (hunt : Hunt) (elite : Scored) : Prop where
  vacant : ∀ miss ∈ hunt.misses, archive.occupant? miss = none
  found : archive.occupant? hunt.cell = some elite

section Stream

variable {ρ : Type} [WordStream ρ] {patience : Nat} {stream after : ρ} {update update' : Update}
  {population population' : Population} {discarded : List Nat}

theorem exists_hunt_of_run {sampled : Option Scored} (occupied : archive.isEmpty = false)
    (run : archive.sampleOccupied.run patience stream = .ok (sampled, after)) :
    ∃ hunt elite, sampled = some elite ∧ archive.Finds hunt elite ∧
      Draw.Brings patience archive.cells.size stream hunt.draws after := by
  rw [sampleOccupied, occupied, if_neg Bool.false_ne_true, Draw.run, run_bind] at run
  split at run
  · cases run
  · next cell mid search =>
    obtain ⟨misses, brings, vacant, _⟩ := Draw.exists_misses_of_run search
    cases found : archive.occupant? cell with
    | none =>
      rw [found] at run
      cases run
    | some elite =>
      rw [found] at run
      obtain ⟨rfl, rfl⟩ := Prod.mk.inj (Except.ok.inj run)
      refine ⟨⟨misses, cell⟩, elite, rfl, ⟨?_, found⟩, brings⟩
      intro miss mem
      simpa using vacant miss mem

/-- From an archive with an elite, every slot to be filled is filled, with what is found for it. -/
theorem exists_hunts_of_run (occupied : archive.isEmpty = false) (nodup : discarded.Nodup)
    (run : (archive.refill update population discarded).run patience stream =
      .ok ((update', population'), after)) :
    update' = { update with resampled := update.resampled + discarded.length } ∧
      ∃ hunts, Draw.Brings patience archive.cells.size stream (hunts.flatMap Hunt.draws) after ∧
        List.Forall₂ (fun index hunt => ∃ elite, archive.Finds hunt elite ∧
          population'.slot? index = some (.fresh elite none)) discarded hunts := by
  induction discarded generalizing update population stream with
  | nil =>
    obtain ⟨same, rfl⟩ := Prod.mk.inj (Except.ok.inj run)
    exact ⟨(Prod.mk.inj same).1.symm, [], Draw.brings_nil, .nil⟩
  | cons index discarded ih =>
    obtain ⟨fresh, nodup⟩ := List.nodup_cons.mp nodup
    rw [refill, Draw.run, run_bind] at run
    split at run
    · cases run
    · next sampled mid sample_run =>
      obtain ⟨hunt, elite, rfl, finds, brings⟩ := exists_hunt_of_run occupied sample_run
      dsimp only at run
      rw [run_bind] at run
      cases placed : population.replace? index (.fresh elite none) with
      | none =>
        rw [placed] at run
        cases run
      | some filled =>
        rw [placed] at run
        obtain ⟨update_eq, hunts, rest_brings, rest⟩ := ih nodup run
        refine ⟨?_, hunt :: hunts, brings.append rest_brings, .cons ⟨elite, finds, ?_⟩ rest⟩
        · rw [update_eq, List.length_cons]
          simp only [Nat.add_right_comm, Nat.add_assoc]
        · -- no later slot is at the same index
          obtain ⟨talk, yields⟩ := exists_yields_of_run_eq_ok run
          rw [(refills_of_yields yields).stays index (.inl fresh)]
          rw [Population.replace?] at placed
          split at placed
          · next within =>
            obtain rfl := Option.some.inj placed
            rw [Population.slot?_set, if_pos rfl, if_pos within]
          · cases placed

/-- In front of an empty archive all slots stay, and nothing is drawn. -/
theorem refill_of_isEmpty (empty : archive.isEmpty = true) :
    archive.refill update population discarded =
      pure ({ update with kept := update.kept + discarded.length }, population) := by
  induction discarded generalizing update with
  | nil => rfl
  | cons index discarded ih =>
    rw [refill, sampleOccupied, if_pos empty, pure_eq_done, done_bind]
    dsimp only
    rw [ih, List.length_cons]
    simp only [Nat.add_right_comm, Nat.add_assoc]

/-- What a population and an archive have become when the one has passed through the other, and
where the stream stands by then. -/
structure Conserves (patience : Nat) (stream : ρ) (archive : Archive) (population : Population)
    (update : Update) (archive' : Archive) (population' : Population) (after : ρ) : Prop where
  /-- The archive has been offered all slots, in order. -/
  archive_eq : archive' = archive.offerAll (offersOf archive.grid population.members)
  size_eq : population'.size = population.size
  accepted_eq : update.accepted =
    (List.range population.size).countP (archive.takesOver population.slots.toList)
  total_eq : update.accepted + update.resampled + update.kept = population.size
  stays : ∀ index, archive.takesOver population.slots.toList index = true →
    population'.slot? index = population.slot? index
  /-- The slots turned down are filled in order, each with the first elite that is hit. -/
  refilled : (∃ elite, archive'.Keeps elite) → update.kept = 0 ∧
    ∃ hunts, Draw.Brings patience archive'.cells.size stream (hunts.flatMap Hunt.draws) after ∧
      List.Forall₂ (fun index hunt => ∃ elite, archive'.Finds hunt elite ∧
          population'.slot? index = some (.fresh elite none))
        (archive.turnedDown population.slots.toList) hunts
  kept : (∀ elite, ¬ archive'.Keeps elite) →
    update.kept = population.size ∧ population' = population ∧ after = stream

/-- The two phases of a passage, on a stream. -/
theorem exists_refill_of_run (run : (archive.apply population).run patience stream =
    .ok ((update, archive', population'), after)) :
    archive' = (archive.offerSlots 0 population.slots.toList).1 ∧
      (archive'.refill
        { accepted := population.size - (archive.turnedDown population.slots.toList).length,
          resampled := 0, kept := 0 }
        population (archive.turnedDown population.slots.toList)).run patience stream =
        .ok ((update, population'), after) := by
  have discarded_eq : (archive.offerSlots 0 population.slots.toList).2 =
      archive.turnedDown population.slots.toList := by
    rw [Archive.discarded_eq]
    simp
  rw [apply, offerSlots?_eq, ofOption_some, done_bind] at run
  dsimp only at run
  rw [discarded_eq, Draw.run, run_bind] at run
  split at run
  · cases run
  · next outcome last refill_run =>
    obtain ⟨same, rfl⟩ := Prod.mk.inj (Except.ok.inj run)
    obtain ⟨rfl, rest⟩ := Prod.mk.inj same
    obtain ⟨rfl, rfl⟩ := Prod.mk.inj rest
    exact ⟨rfl, refill_run⟩

theorem conserves_of_run (run : (archive.apply population).run patience stream =
    .ok ((update, archive', population'), after)) :
    Conserves patience stream archive population update archive' population' after := by
  obtain ⟨archive_eq, refill_run⟩ := exists_refill_of_run run
  have counts := archive.countP_takesOver population.slots.toList
  have length_eq : population.slots.toList.length = population.size := Array.length_toList
  obtain ⟨talk, yields⟩ := exists_yields_of_run_eq_ok refill_run
  have refills := refills_of_yields yields
  have offered : archive' = archive.offerAll (offersOf archive.grid population.members) := by
    rw [archive_eq, offerSlots_eq_offerAll]
    rfl
  rw [length_eq] at counts
  have stays (index : Nat) (taken : archive.takesOver population.slots.toList index = true) :
      population'.slot? index = population.slot? index := by
    apply refills.stays index
    left
    intro mem
    rw [mem_turnedDown_iff (lt_length_of_mem_turnedDown mem), taken] at mem
    cases mem
  cases empty : archive'.isEmpty with
  | true =>
    have none_kept := isEmpty_iff.mp empty
    have all_down : (archive.turnedDown population.slots.toList).length = population.size := by
      rw [turnedDown_eq_range 0 (archive_eq ▸ none_kept), List.length_range, length_eq]
    rw [refill_of_isEmpty empty] at refill_run
    obtain ⟨same, rfl⟩ := Prod.mk.inj (Except.ok.inj refill_run)
    obtain ⟨rfl, rfl⟩ := Prod.mk.inj same
    refine ⟨offered, rfl, ?_, ?_, stays, ?_, ?_⟩
    · dsimp only
      omega
    · dsimp only
      omega
    · exact fun ⟨elite, kept⟩ => absurd kept (none_kept elite)
    · exact fun _ => ⟨by dsimp only; omega, rfl, rfl⟩
  | false =>
    obtain ⟨update_eq, hunts, brings, filled⟩ :=
      exists_hunts_of_run empty nodup_turnedDown refill_run
    refine ⟨offered, refills.size_eq, ?_, ?_, stays, ?_, ?_⟩
    · rw [update_eq]
      dsimp only
      omega
    · rw [update_eq]
      dsimp only
      omega
    · exact fun _ => ⟨by rw [update_eq], hunts, brings, filled⟩
    · intro none_kept
      rw [isEmpty_iff.mpr none_kept] at empty
      cases empty

/-- Behind a passage that leaves occupants in place, no slot is better than what its own cell
holds. -/
theorem not_beats_occupant_of_run (inPlace : archive'.IsInPlace)
    (run : (archive.apply population).run patience stream =
      .ok ((update, archive', population'), after))
    (occupied : ∃ elite, archive'.Keeps elite) (slot_holds : population'.Holds slot) :
    ∃ elite, archive'.occupant? (archive'.cellOf slot.program) = some elite ∧
      beats slot.fitness elite.fitness = false := by
  obtain ⟨archive_eq, refill_run⟩ := exists_refill_of_run run
  obtain ⟨talk, yields⟩ := exists_yields_of_run_eq_ok refill_run
  have refills := refills_of_yields yields
  obtain ⟨index, found⟩ := slot_holds
  by_cases down : index ∈ archive.turnedDown population.slots.toList
  · obtain ⟨elite, ⟨cell, kept⟩, filled⟩ := refills.filled index down occupied
    obtain rfl := Option.some.inj (filled.symm.trans found)
    refine ⟨elite, ?_, not_beats_iff.mpr (Int.le_refl _)⟩
    rw [← kept]
    exact congrArg archive'.occupant? (inPlace cell elite kept)
  · rw [refills.stays index (.inl down)] at found
    have within : index < population.slots.toList.length := by
      rw [Array.length_toList]
      exact (Array.getElem?_eq_some_iff.mp found).1
    rw [mem_turnedDown_iff within, Bool.not_eq_false] at down
    have listed : population.slots.toList[index]? = some slot := by
      simpa [Population.slot?] using found
    obtain ⟨elite, occupies, le⟩ := exists_occupant_of_takesOver 0 listed down
    refine ⟨elite, ?_, not_beats_iff.mpr le⟩
    have grid_eq : archive'.grid = archive.grid := by
      rw [archive_eq, offerSlots_eq_offerAll, grid_offerAll]
    rw [cellOf, grid_eq, archive_eq]
    exact occupies

end Stream

/-- An archive through which some populations have passed, one after another. -/
inductive Visited (start : Archive) : Archive → Prop
  | new : Visited start start
  | visit {archive archive' : Archive} {population population' : Population} {update : Update}
      {talk : List Chance.Line} : Visited start archive →
      (archive.apply population).Yields talk (update, archive', population') →
      Visited start archive'

theorem IsInPlace.of_apply (inPlace : archive.IsInPlace) {population population' : Population}
    {update : Update} {talk : List Chance.Line}
    (yields : (archive.apply population).Yields talk (update, archive', population')) :
    archive'.IsInPlace := by
  rw [eq_offerAll_of_apply yields, Population.members, ← offerSlots_eq_offerAll archive 0]
  exact inPlace.offerSlots 0 _

theorem Visited.isInPlace {start : Archive} (visited : start.Visited archive)
    (inPlace : start.IsInPlace) : archive.IsInPlace := by
  induction visited with
  | new => exact inPlace
  | visit _ yields ih => exact ih.of_apply yields

/-- A passage conserves the population, and a redraw loop is all that can keep it from coming to an
end. If the occupants have been in the cells of their programs, they still are, and then either
there are none, or every slot finds its own cell taken by an occupant that it does not beat. So it
is in particular for an archive that has been empty once and has only seen passages since. -/
theorem passages_conserve (archive : Archive) (population : Population) :
    (∀ (ρ : Type) [WordStream ρ] (patience : Nat) (stream : ρ),
      (∀ reason, (archive.apply population).run patience stream = .error reason →
        reason = .stalled) ∧
      ∀ update archive' population' after, (archive.apply population).run patience stream =
          .ok ((update, archive', population'), after) →
        Conserves patience stream archive population update archive' population' after ∧
        (archive.IsInPlace → archive'.IsInPlace ∧
          ((∃ elite, archive'.Keeps elite) → ∀ slot, population'.Holds slot →
            ∃ elite, archive'.occupant? (archive'.cellOf slot.program) = some elite ∧
              beats slot.fitness elite.fitness = false))) ∧
    ∀ grid, (ofGrid grid).Visited archive → archive.IsInPlace := by
  constructor
  · intro ρ _ patience stream
    refine ⟨fun reason faulty => Draw.stalled_of_run (ensures_apply archive population) faulty, ?_⟩
    intro update archive' population' after run
    refine ⟨conserves_of_run run, fun inPlace => ?_⟩
    obtain ⟨talk, yields⟩ := exists_yields_of_run_eq_ok run
    have still_in_place := inPlace.of_apply yields
    exact ⟨still_in_place, fun occupied _ => not_beats_occupant_of_run still_in_place run occupied⟩
  · exact fun grid visited => visited.isInPlace (isInPlace_ofGrid grid)

/-- A grid of two cells, of which the empty program has the first. -/
def twoCells : Grid where
  vars := 2
  ops := 1
  vars_pos := by decide
  ops_pos := by decide
  capacity_lt := by decide

/-- Words that bring the cells 1 and 0 of two. -/
def twoWords : Tape where
  word place := if place = 1 then 0x80000000 else 0
  position := 0

/-- The first slot loses its cell to the second, and stays; the third one is filled after a miss. -/
theorem passages_conserve_of_triple : ∃ update archive' population' after elite,
    ((ofGrid twoCells).apply (.ofFitnesses [1, 2, -1])).run 2 twoWords =
      .ok ((update, archive', population'), after) ∧
    update = { accepted := 2, resampled := 1, kept := 0 } ∧
    Conserves 2 twoWords (ofGrid twoCells) (.ofFitnesses [1, 2, -1]) update archive' population'
      after ∧
    population'.slot? 2 = some (.fresh elite none) ∧ archive'.Keeps elite ∧
    ∀ slot, population'.Holds slot →
      ∃ elite, archive'.occupant? (archive'.cellOf slot.program) = some elite ∧
        beats slot.fitness elite.fitness = false := by
  obtain ⟨passages, _⟩ := passages_conserve (ofGrid twoCells) (.ofFitnesses [1, 2, -1])
  obtain ⟨_, ends⟩ := passages Tape 2 twoWords
  have counted : (((ofGrid twoCells).apply (.ofFitnesses [1, 2, -1])).run 2 twoWords).toOption.map
      (fun outcome => outcome.1.1) = some { accepted := 2, resampled := 1, kept := 0 } := by
    decide +kernel
  cases run : ((ofGrid twoCells).apply (.ofFitnesses [1, 2, -1])).run 2 twoWords with
  | error reason =>
    rw [run] at counted
    cases counted
  | ok outcome =>
    obtain ⟨⟨update, archive', population'⟩, after⟩ := outcome
    rw [run] at counted
    have update_eq : update = { accepted := 2, resampled := 1, kept := 0 } :=
      Option.some.inj counted
    obtain ⟨conserves, in_place⟩ := ends update archive' population' after run
    obtain ⟨_, not_beats⟩ := in_place (isInPlace_ofGrid twoCells)
    have occupied : ∃ elite, archive'.Keeps elite := by
      -- with no elite at all, all three would have been kept
      by_contra none_kept
      have all_kept := (conserves.kept (not_exists.mp none_kept)).1
      rw [update_eq] at all_kept
      cases all_kept
    obtain ⟨_, hunts, _, filled⟩ := conserves.refilled occupied
    have down : (ofGrid twoCells).turnedDown
        (Population.ofFitnesses [1, 2, -1]).slots.toList = [2] := by
      decide +kernel
    rw [down] at filled
    cases filled with
    | cons first _ =>
      obtain ⟨elite, finds, slot_eq⟩ := first
      exact ⟨update, archive', population', after, elite, rfl, update_eq, conserves, slot_eq,
        ⟨_, finds.found⟩, not_beats occupied⟩

end EvoSearch.Archive
