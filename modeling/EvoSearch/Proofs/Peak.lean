/-
# The peak of a population

The search for the best member and the tournament go by the same scan, and what it keeps is beaten
by nothing in the row. For a whole population this fixes one number, the height of its best
fitness, which is what can be followed through a generation while slots come and go.
-/

import EvoSearch.Population.Selection
import EvoSearch.Proofs.Order

namespace EvoSearch

open Numeric

variable {α : Type} (score : α → Float)

theorem champion_mem (leader : α) (row : List α) : champion score leader row ∈ leader :: row := by
  induction row generalizing leader with
  | nil => exact List.mem_cons_self
  | cons challenger row ih =>
    rw [champion]
    split
    · exact List.mem_cons_of_mem leader (ih challenger)
    · rcases List.mem_cons.mp (ih leader) with same | behind
      · rw [same]
        exact List.mem_cons_self
      · exact List.mem_cons_of_mem leader (List.mem_cons_of_mem challenger behind)

/-- Nothing in a row stands higher than what the scan of the row keeps. -/
theorem height_le_champion (leader : α) (row : List α) (x : α) (x_mem : x ∈ leader :: row) :
    height (score x) ≤ height (score (champion score leader row)) := by
  induction row generalizing leader x with
  | nil =>
    rw [List.mem_singleton.mp x_mem]
    exact Int.le_refl _
  | cons challenger row ih =>
    rw [champion]
    by_cases wins : beats (score challenger) (score leader) = true
    · rw [if_pos wins]
      have above := beats_iff.mp wins
      have kept := ih challenger challenger List.mem_cons_self
      rcases List.mem_cons.mp x_mem with rfl | behind
      · omega
      · exact ih challenger x behind
    · rw [if_neg wins]
      have below := not_beats_iff.mp (Bool.not_eq_true _ ▸ wins)
      have kept := ih leader leader List.mem_cons_self
      rcases List.mem_cons.mp x_mem with rfl | behind
      · exact kept
      · rcases List.mem_cons.mp behind with rfl | further
        · omega
        · exact ih leader x (List.mem_cons_of_mem leader further)

namespace Population

variable {population : Population} {slot : Slot} {peak : Int}

/-- A slot stands somewhere in the population. -/
def Holds (population : Population) (slot : Slot) : Prop :=
  ∃ index, population.slot? index = some slot

/-- The height of the best fitness of a population. -/
structure Peaks (population : Population) (peak : Int) : Prop where
  attained : ∃ slot, population.Holds slot ∧ height slot.fitness = peak
  bound : ∀ slot, population.Holds slot → height slot.fitness ≤ peak

theorem Peaks.unique {other : Int} (first : population.Peaks peak)
    (second : population.Peaks other) : peak = other := by
  obtain ⟨slot, slot_holds, rfl⟩ := first.attained
  obtain ⟨other_slot, other_holds, rfl⟩ := second.attained
  exact Int.le_antisymm (second.bound slot slot_holds) (first.bound other_slot other_holds)

theorem holds_iff_mem_zipIdx :
    population.Holds slot ↔ ∃ index, (slot, index) ∈ population.slots.toList.zipIdx := by
  simp [Holds, slot?, List.mem_zipIdx_iff_getElem?]

theorem slot?_of_best? {index : Nat} (found : population.best? = some (slot, index)) :
    population.slot? index = some slot := by
  rw [best?] at found
  split at found
  · cases found
  · next first row entries =>
    have mem := champion_mem (fun entry : Slot × Nat => entry.1.fitness) first row
    rw [Option.some.inj found, ← entries, List.mem_zipIdx_iff_getElem?] at mem
    simpa [slot?] using mem

/-- The best slot stands at the peak. -/
theorem peaks_of_best? {index : Nat} (found : population.best? = some (slot, index)) :
    population.Peaks (height slot.fitness) := by
  refine ⟨⟨slot, ⟨index, slot?_of_best? found⟩, rfl⟩, ?_⟩
  intro other other_holds
  obtain ⟨place, other_mem⟩ := holds_iff_mem_zipIdx.mp other_holds
  rw [best?] at found
  split at found
  · cases found
  · next first row entries =>
    rw [entries] at other_mem
    have le := height_le_champion (fun entry : Slot × Nat => entry.1.fitness) first row
      (other, place) other_mem
    rwa [Option.some.inj found] at le

theorem exists_best? (occupied : 0 < population.size) :
    ∃ slot index, population.best? = some (slot, index) := by
  have length_pos : 0 < population.slots.toList.zipIdx.length := by simpa [size] using occupied
  rw [best?]
  split
  · next entries =>
    rw [entries] at length_pos
    exact absurd length_pos (Nat.lt_irrefl 0)
  · exact ⟨_, _, rfl⟩

theorem Peaks.exists_best? (peaks : population.Peaks peak) :
    ∃ slot index, population.best? = some (slot, index) ∧ height slot.fitness = peak := by
  obtain ⟨top, ⟨place, top_at⟩, _⟩ := peaks.attained
  obtain ⟨slot, index, found⟩ := Population.exists_best?
    (Nat.zero_lt_of_lt (Array.getElem?_eq_some_iff.mp top_at).1)
  exact ⟨slot, index, found, (peaks_of_best? found).unique peaks⟩

/-- As soon as there is a slot there is a peak, and it is at least as high as the slot. -/
theorem exists_peaks_of_holds (slot_holds : population.Holds slot) :
    ∃ peak, population.Peaks peak ∧ height slot.fitness ≤ peak := by
  have occupied : 0 < population.size := by
    obtain ⟨index, found⟩ := slot_holds
    obtain ⟨within, _⟩ := Array.getElem?_eq_some_iff.mp found
    exact Nat.zero_lt_of_lt within
  obtain ⟨best, index, found⟩ := exists_best? occupied
  exact ⟨_, peaks_of_best? found, (peaks_of_best? found).bound slot slot_holds⟩

end Population

end EvoSearch
