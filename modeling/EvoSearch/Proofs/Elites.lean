/-
# What an archive does to a population

A population that has passed through an archive holds slots of its own and elites of the archive.
Every elite was there before, or stands in a slot that has stayed. A slot that has gone was turned
down, and then the archive keeps something better: a cell never gets worse, and only a fitness below
zero is turned down by an empty one.
-/

import EvoSearch.Archive.Refill
import EvoSearch.Proofs.Dialogue
import EvoSearch.Proofs.Peak

namespace EvoSearch

open Numeric

namespace Archive

variable {archive : Archive} {cell other : Nat} {candidate elite : Scored}

/-- A candidate occupies one of the cells. -/
def Keeps (archive : Archive) (elite : Scored) : Prop :=
  ∃ cell, archive.occupant? cell = some elite

/-- Nothing below zero occupies a cell. -/
def IsNonnegative (archive : Archive) : Prop :=
  ∀ elite, archive.Keeps elite → 0 ≤ height elite.fitness

theorem not_keeps_ofGrid (grid : Grid) (elite : Scored) : ¬ (ofGrid grid).Keeps elite := by
  rintro ⟨cell, found⟩
  by_cases within : cell < grid.capacity <;>
    simp [occupant?, ofGrid, within] at found

theorem isEmpty_iff : archive.isEmpty = true ↔ ∀ elite, ¬ archive.Keeps elite := by
  rw [isEmpty, Array.all_eq_true]
  constructor
  · rintro empty elite ⟨cell, found⟩
    rw [occupant?, Option.join_eq_some_iff] at found
    obtain ⟨within, taken⟩ := Array.getElem?_eq_some_iff.mp found
    have none := empty cell within
    rw [taken] at none
    cases none
  · intro empty cell within
    cases taken : archive.cells[cell] with
    | none => rfl
    | some elite =>
      refine absurd ⟨cell, ?_⟩ (empty elite)
      rw [occupant?, Array.getElem?_eq_getElem within, taken]
      rfl

theorem cellOf_lt_size (archive : Archive) (program : Program) :
    archive.cellOf program < archive.cells.size := by
  rw [archive.size_cells]
  exact archive.grid.cellOf_lt _

/-- Every program has a cell, so that all slots can be offered. -/
theorem offerSlots?_eq (archive : Archive) (index : Nat) (slots : List Slot) :
    archive.offerSlots? index slots = some (archive.offerSlots index slots) := by
  rw [offerSlots?, if_pos]
  rw [List.all_eq_true]
  intro slot _
  exact decide_eq_true (archive.cellOf_lt_size slot.program)

theorem occupant?_offer (within : cell < archive.cells.size) :
    (archive.offer cell candidate).occupant? other =
      if cell = other ∧ archive.accepts cell candidate = true then some candidate
      else archive.occupant? other := by
  by_cases accepted : archive.accepts cell candidate = true
  · by_cases same : cell = other
    · subst same
      simp [offer, occupant?, accepted, within]
    · simp [offer, occupant?, accepted, same]
  · simp [offer, occupant?, accepted]

/-- A candidate is turned down by something better, or by an empty cell if it is below zero. -/
theorem of_accepts_eq_false (rejected : archive.accepts cell candidate = false) :
    height candidate.fitness < 0 ∨
      ∃ elite, archive.occupant? cell = some elite ∧
        height candidate.fitness < height elite.fitness := by
  rw [accepts] at rejected
  cases occupant : archive.occupant? cell with
  | none =>
    rw [occupant, acceptsOver, decide_eq_false_iff_not, zero_le_iff, Int.not_le] at rejected
    exact .inl rejected
  | some elite =>
    rw [occupant, acceptsOver, Bool.not_eq_false'] at rejected
    exact .inr ⟨elite, rfl, beats_iff.mp rejected⟩

theorem zero_le_of_accepts (accepted : archive.accepts cell candidate = true)
    (nonnegative : archive.IsNonnegative) : 0 ≤ height candidate.fitness := by
  rw [accepts] at accepted
  cases occupant : archive.occupant? cell with
  | none =>
    rw [occupant, acceptsOver, decide_eq_true_iff] at accepted
    exact zero_le_iff.mp accepted
  | some elite =>
    rw [occupant, acceptsOver, Bool.not_eq_true', not_beats_iff] at accepted
    exact Int.le_trans (nonnegative elite ⟨cell, occupant⟩) accepted

/-- No cell gets worse by an offer. -/
theorem exists_occupant?_offer (candidate : Scored) (within : cell < archive.cells.size)
    (kept : archive.occupant? other = some elite) :
    ∃ better, (archive.offer cell candidate).occupant? other = some better ∧
      height elite.fitness ≤ height better.fitness := by
  rw [occupant?_offer within]
  by_cases taken : cell = other ∧ archive.accepts cell candidate = true
  · obtain ⟨rfl, accepted⟩ := taken
    refine ⟨candidate, if_pos ⟨rfl, accepted⟩, ?_⟩
    rwa [accepts, kept, acceptsOver, Bool.not_eq_true', not_beats_iff] at accepted
  · exact ⟨elite, by rw [if_neg taken, kept], Int.le_refl _⟩

theorem IsNonnegative.offer (nonnegative : archive.IsNonnegative)
    (within : cell < archive.cells.size) : (archive.offer cell candidate).IsNonnegative := by
  rintro elite ⟨other, found⟩
  rw [occupant?_offer within] at found
  split at found
  · next taken =>
    obtain rfl := Option.some.inj found
    exact zero_le_of_accepts taken.2 nonnegative
  · exact nonnegative elite ⟨other, found⟩

variable {slots : List Slot} {start : Nat}

theorem exists_occupant?_offerSlots (kept : archive.occupant? cell = some elite) :
    ∃ better, (archive.offerSlots start slots).1.occupant? cell = some better ∧
      height elite.fitness ≤ height better.fitness := by
  induction slots generalizing archive start elite with
  | nil => exact ⟨elite, kept, Int.le_refl _⟩
  | cons slot slots ih =>
    obtain ⟨better, better_kept, le⟩ :=
      exists_occupant?_offer slot.scored (archive.cellOf_lt_size slot.program) kept
    obtain ⟨best, best_kept, le_best⟩ := ih better_kept
    exact ⟨best, best_kept, Int.le_trans le le_best⟩

theorem IsNonnegative.offerSlots (nonnegative : archive.IsNonnegative) :
    (archive.offerSlots start slots).1.IsNonnegative := by
  induction slots generalizing archive start with
  | nil => exact nonnegative
  | cons slot slots ih => exact ih (nonnegative.offer (archive.cellOf_lt_size slot.program))

/-- Only slots that have been offered are turned down. -/
theorem exists_of_mem_discarded {index : Nat}
    (discarded : index ∈ (archive.offerSlots start slots).2) :
    ∃ place, index = start + place ∧ place < slots.length := by
  induction slots generalizing archive start with
  | nil => cases discarded
  | cons slot slots ih =>
    have later (mem : index ∈ ((archive.offer (archive.cellOf slot.program)
        slot.scored).offerSlots (start + 1) slots).2) :
        ∃ place, index = start + place ∧ place < (slot :: slots).length := by
      obtain ⟨place, rfl, within⟩ := ih mem
      exact ⟨place + 1, by omega, Nat.succ_lt_succ within⟩
    rw [offerSlots] at discarded
    dsimp only at discarded
    split at discarded
    · exact later discarded
    · rcases List.mem_cons.mp discarded with rfl | mem
      · exact ⟨0, rfl, Nat.succ_pos _⟩
      · exact later mem

/-- The elites behind the offers are old ones, and slots that were not turned down. -/
theorem keeps_of_offerSlots (kept : (archive.offerSlots start slots).1.Keeps elite) :
    archive.Keeps elite ∨ ∃ place slot, slots[place]? = some slot ∧ slot.scored = elite ∧
      start + place ∉ (archive.offerSlots start slots).2 := by
  induction slots generalizing archive start with
  | nil => exact .inl kept
  | cons slot slots ih =>
    rw [offerSlots]
    dsimp only
    rcases ih kept with ⟨cell, found⟩ | ⟨place, elected, found, same, stays⟩
    · rw [occupant?_offer (archive.cellOf_lt_size slot.program)] at found
      split at found
      · next taken =>
        refine .inr ⟨0, slot, rfl, Option.some.inj found, ?_⟩
        rw [if_pos taken.2]
        intro discarded
        obtain ⟨place, same, _⟩ := exists_of_mem_discarded discarded
        omega
      · exact .inl ⟨cell, found⟩
    · refine .inr ⟨place + 1, elected, found, same, ?_⟩
      have apart : start + (place + 1) ≠ start := by omega
      rw [← Nat.add_assoc, Nat.add_right_comm] at apart ⊢
      split
      · exact stays
      · exact List.not_mem_cons_of_ne_of_not_mem apart stays

/-- A slot that is turned down is below zero, or below something that the archive then keeps. -/
theorem lt_of_mem_discarded {place : Nat} {slot : Slot} (found : slots[place]? = some slot)
    (discarded : start + place ∈ (archive.offerSlots start slots).2) :
    height slot.fitness < 0 ∨ ∃ elite, (archive.offerSlots start slots).1.Keeps elite ∧
      height slot.fitness < height elite.fitness := by
  induction slots generalizing archive start place with
  | nil => cases found
  | cons head slots ih =>
    rw [offerSlots] at discarded ⊢
    dsimp only at discarded ⊢
    cases place with
    | zero =>
      obtain rfl := Option.some.inj found
      split at discarded
      · obtain ⟨place, same, _⟩ := exists_of_mem_discarded discarded
        omega
      · next rejected =>
        rcases of_accepts_eq_false (Bool.not_eq_true _ ▸ rejected) with negative |
          ⟨elite, kept, below⟩
        · exact .inl negative
        · obtain ⟨better, better_kept, le⟩ := exists_occupant?_offer
            head.scored (archive.cellOf_lt_size head.program) kept
          obtain ⟨best, best_kept, le_best⟩ := exists_occupant?_offerSlots better_kept
          exact .inr ⟨best, ⟨_, best_kept⟩,
            Int.lt_of_lt_of_le below (Int.le_trans le le_best)⟩
    | succ place =>
      have shifted : start + (place + 1) = start + 1 + place := by omega
      rw [shifted] at discarded
      apply ih found
      split at discarded
      · exact discarded
      · rcases List.mem_cons.mp discarded with same | behind
        · omega
        · exact behind

/-- What comes of filling slots from an archive, which has no say if it is empty. -/
structure Refills (archive : Archive) (discarded : List Nat) (before after : Population) :
    Prop where
  size_eq : after.size = before.size
  stays : ∀ index, (index ∉ discarded ∨ ∀ elite, ¬ archive.Keeps elite) →
    after.slot? index = before.slot? index
  filled : ∀ index ∈ discarded, (∃ elite, archive.Keeps elite) →
    ∃ elite, archive.Keeps elite ∧ after.slot? index = some (.fresh elite none)

theorem keeps_of_sampleOccupied {dialogue : List Chance.Line}
    (yields : archive.sampleOccupied.Yields dialogue (some elite)) : archive.Keeps elite := by
  rw [sampleOccupied] at yields
  split at yields
  · cases (Script.yields_pure_iff.mp yields).2
  · obtain ⟨_, cell, _, _, rest, _⟩ := Script.yields_bind_iff.mp yields
    obtain ⟨_, found, _, found_yields, last, _⟩ := Script.yields_bind_iff.mp rest
    obtain ⟨_, same⟩ := Script.yields_pure_iff.mp last
    obtain rfl := Option.some.inj same
    exact ⟨cell, (Script.yields_ofOption_iff.mp found_yields).2⟩

theorem not_keeps_of_sampleOccupied {dialogue : List Chance.Line}
    (yields : archive.sampleOccupied.Yields dialogue none) : ¬ archive.Keeps elite := by
  rw [sampleOccupied] at yields
  split at yields
  · next empty => exact isEmpty_iff.mp empty elite
  · obtain ⟨_, cell, _, _, rest, _⟩ := Script.yields_bind_iff.mp yields
    obtain ⟨_, found, _, _, last, _⟩ := Script.yields_bind_iff.mp rest
    cases (Script.yields_pure_iff.mp last).2

/-- One more slot that is filled in front of the others. -/
theorem Refills.cons {index : Nat} {discarded : List Nat} {before after : Population}
    (kept : archive.Keeps elite) (within : index < before.size)
    (refills : archive.Refills discarded (before.set index (.fresh elite none)) after) :
    archive.Refills (index :: discarded) before after where
  size_eq := by rw [refills.size_eq, Population.size_set]
  stays := by
    rintro other (apart | empty)
    · rw [List.mem_cons, not_or] at apart
      rw [refills.stays other (.inl apart.2), Population.slot?_set, if_neg (Ne.symm apart.1)]
    · exact (empty elite kept).elim
  filled := by
    intro other mem occupied
    by_cases later : other ∈ discarded
    · exact refills.filled other later occupied
    · obtain rfl : other = index := (List.mem_cons.mp mem).resolve_right later
      refine ⟨elite, kept, ?_⟩
      rw [refills.stays other (.inl later), Population.slot?_set, if_pos rfl, if_pos within]

theorem refills_of_yields {discarded : List Nat} {update update' : Update}
    {population population' : Population} {dialogue : List Chance.Line}
    (yields : (archive.refill update population discarded).Yields dialogue
      (update', population')) : archive.Refills discarded population population' := by
  induction discarded generalizing update population dialogue with
  | nil =>
    obtain ⟨_, same⟩ := Script.yields_pure_iff.mp yields
    obtain ⟨_, rfl⟩ := Prod.mk.inj same
    exact ⟨rfl, fun _ _ => rfl, by rintro _ ⟨⟩⟩
  | cons index discarded ih =>
    rw [refill] at yields
    obtain ⟨_, sampled, _, sampled_yields, rest, _⟩ := Script.yields_bind_iff.mp yields
    cases sampled with
    | none =>
      have empty (elite) : ¬ archive.Keeps elite := not_keeps_of_sampleOccupied sampled_yields
      have refills := ih rest
      exact ⟨refills.size_eq, fun other _ => refills.stays other (.inr empty),
        fun _ _ ⟨elite, kept⟩ => (empty elite kept).elim⟩
    | some elite =>
      obtain ⟨_, placed, _, placed_yields, rest, _⟩ := Script.yields_bind_iff.mp rest
      obtain ⟨_, found⟩ := Script.yields_ofOption_iff.mp placed_yields
      rw [Population.replace?] at found
      split at found
      · next within =>
        obtain rfl := Option.some.inj found
        exact .cons (keeps_of_sampleOccupied sampled_yields) within (ih rest)
      · cases found

/-- What passing a population through an archive makes of both. -/
structure Shapes (archive : Archive) (population : Population) (archive' : Archive)
    (population' : Population) : Prop where
  size_eq : population'.size = population.size
  nonnegative : archive.IsNonnegative → archive'.IsNonnegative
  /-- An elite has been one before, or it is in a slot that has stayed. -/
  elite : ∀ elite, archive'.Keeps elite → archive.Keeps elite ∨ ∃ index slot,
    population.slot? index = some slot ∧ population'.slot? index = some slot ∧
      slot.scored = elite
  /-- A slot has stayed, or it holds an elite. -/
  slot : ∀ index, population'.slot? index = population.slot? index ∨
    ∃ elite, archive'.Keeps elite ∧ population'.slot? index = some (.fresh elite none)
  /-- A slot that has gone stood below an elite. -/
  gone : archive'.IsNonnegative → ∀ index slot, population.slot? index = some slot →
    population'.slot? index = some slot ∨
      ∃ elite, archive'.Keeps elite ∧ height slot.fitness < height elite.fitness

theorem shapes_of_apply {archive' : Archive} {population population' : Population}
    {update : Update} {dialogue : List Chance.Line}
    (yields : (archive.apply population).Yields dialogue (update, archive', population')) :
    archive.Shapes population archive' population' := by
  rw [apply, offerSlots?_eq, Script.ofOption_some, Script.done_bind] at yields
  obtain ⟨_, ⟨_, refilled⟩, _, refill_yields, last, _⟩ := Script.yields_bind_iff.mp yields
  obtain ⟨_, same⟩ := Script.yields_pure_iff.mp last
  obtain ⟨_, rfl, rfl⟩ : _ ∧ archive' = _ ∧ population' = refilled := by simpa using same
  have refills := refills_of_yields refill_yields
  refine ⟨refills.size_eq, .offerSlots, ?_, ?_, ?_⟩
  · intro elite kept
    rcases keeps_of_offerSlots kept with old | ⟨index, slot, found, same, stays⟩
    · exact .inl old
    · rw [Nat.zero_add] at stays
      have found : population.slot? index = some slot := by simpa [Population.slot?] using found
      exact .inr ⟨index, slot, found, by rw [refills.stays index (.inl stays), found], same⟩
  · intro index
    by_cases discarded : index ∈ (archive.offerSlots 0 population.slots.toList).2
    · by_cases occupied : ∃ elite, (archive.offerSlots 0 population.slots.toList).1.Keeps elite
      · exact .inr (refills.filled index discarded occupied)
      · exact .inl (refills.stays index (.inr (not_exists.mp occupied)))
    · exact .inl (refills.stays index (.inl discarded))
  · intro nonnegative index slot found
    by_cases occupied : ∃ elite, (archive.offerSlots 0 population.slots.toList).1.Keeps elite
    · by_cases discarded : index ∈ (archive.offerSlots 0 population.slots.toList).2
      · obtain ⟨elite, kept⟩ := occupied
        rw [← Nat.zero_add index] at discarded
        rcases lt_of_mem_discarded (by simpa [Population.slot?] using found) discarded with
          negative | better
        · exact .inr ⟨elite, kept, Int.lt_of_lt_of_le negative (nonnegative elite kept)⟩
        · exact .inr better
      · exact .inl (by rw [refills.stays index (.inl discarded), found])
    · exact .inl (by rw [refills.stays index (.inr (not_exists.mp occupied)), found])

end Archive

end EvoSearch
