/-
# Where migrants land

A splice writes each of the migrants that it takes to a slot of its own, and leaves all other slots
alone. When the worst slots give way, at least one slot at the peak of the population is among
those that stay, since no more than half of the slots are written to.
-/

import EvoSearch.Migration
import EvoSearch.Proofs.Peak

namespace EvoSearch

open Numeric

theorem givesWayBefore_trans (a b c : Float) (first : givesWayBefore a b = true)
    (second : givesWayBefore b c = true) : givesWayBefore a c = true := by
  revert first second
  unfold givesWayBefore
  cases a.isNaN <;> cases b.isNaN <;> cases c.isNaN <;> simp
  exact Int.le_trans

theorem givesWayBefore_total (a b : Float) :
    (givesWayBefore a b || givesWayBefore b a) = true := by
  unfold givesWayBefore
  cases a.isNaN <;> cases b.isNaN <;> simp
  omega

/-- What gives way before another stands no higher. -/
theorem height_le_of_givesWayBefore {a b : Float} (before : givesWayBefore a b = true) :
    height a ≤ height b := by
  unfold givesWayBefore at before
  cases a_nan : a.isNaN
  · cases b_nan : b.isNaN
    · rw [a_nan, b_nan] at before
      exact height_le_of_rank_le a_nan b_nan (of_decide_eq_true before)
    · rw [a_nan, b_nan] at before
      cases before
  · cases b_nan : b.isNaN
    · rw [height_of_isNaN a_nan]
      exact Int.le_of_lt (height_nan_lt b_nan)
    · exact Int.le_of_eq ((height_of_isNaN a_nan).trans (height_of_isNaN b_nan).symm)

theorem pairwise_givesWayBefore (entries : List (Float × Nat)) :
    (entries.mergeSort fun a b => givesWayBefore a.1 b.1).Pairwise
      fun a b => givesWayBefore a.1 b.1 = true := by
  apply List.pairwise_mergeSort
  · intro a b c
    exact givesWayBefore_trans a.1 b.1 c.1
  · intro a b
    exact givesWayBefore_total a.1 b.1

namespace Population

/-- Slots with the new occupants of some places, put in one after another. -/
abbrev settle (population : Population) (landings : List (Nat × Scored)) : Population :=
  landings.foldl (fun population landing => population.set landing.1 (Slot.fresh landing.2 none))
    population

variable {population : Population} {landings : List (Nat × Scored)} {index : Nat}

theorem length_fitnesses (population : Population) :
    population.fitnesses.length = population.size := by
  simp [fitnesses, size]

theorem size_settle : (population.settle landings).size = population.size := by
  induction landings generalizing population with
  | nil => rfl
  | cons landing landings ih =>
    rw [settle, List.foldl_cons, ih, size_set]

theorem slot?_settle_of_not_mem (untouched : index ∉ landings.map Prod.fst) :
    (population.settle landings).slot? index = population.slot? index := by
  induction landings generalizing population with
  | nil => rfl
  | cons landing landings ih =>
    rw [List.map_cons, List.mem_cons, not_or] at untouched
    rw [settle, List.foldl_cons, ih untouched.2, slot?_set, if_neg (Ne.symm untouched.1)]

theorem slot?_settle_of_mem {scored : Scored} (apart : (landings.map Prod.fst).Nodup)
    (landed : (index, scored) ∈ landings) (within : index < population.size) :
    (population.settle landings).slot? index = some (Slot.fresh scored none) := by
  induction landings generalizing population with
  | nil => cases landed
  | cons landing landings ih =>
    rw [List.map_cons, List.nodup_cons] at apart
    rw [settle, List.foldl_cons]
    rcases List.mem_cons.mp landed with rfl | later
    · rw [slot?_settle_of_not_mem apart.1, slot?_set, if_pos rfl, if_pos within]
    · exact ih apart.2 later (by rwa [size_set])

end Population

namespace SplicePolicy

variable (policy : SplicePolicy) (population : Population) (migrants : List Scored)

/-- Any slot may be among the worst. -/
theorem perm_targets : (replaceWorst.targets population).Perm (List.range population.size) := by
  have sorted := (List.mergeSort_perm population.fitnesses.zipIdx
    fun a b => givesWayBefore a.1 b.1).map Prod.snd
  rwa [List.zipIdx_map_snd, population.length_fitnesses, ← List.range_eq_range'] at sorted

theorem nodup_targets : (policy.targets population).Nodup := by
  cases policy with
  | replaceTopHalf => exact List.nodup_range
  | replaceBottomHalf => exact List.nodup_range'
  | replaceWorst => exact (perm_targets population).nodup_iff.mpr List.nodup_range

theorem lt_size_of_mem_targets {index : Nat} (target : index ∈ policy.targets population) :
    index < population.size := by
  cases policy with
  | replaceTopHalf =>
    have below := List.mem_range.mp target
    omega
  | replaceBottomHalf =>
    have between := List.mem_range'_1.mp target
    omega
  | replaceWorst => exact List.mem_range.mp ((perm_targets population).mem_iff.mp target)

theorem half_le_length_targets : population.size / 2 ≤ (policy.targets population).length := by
  cases policy with
  | replaceTopHalf => exact Nat.le_of_eq List.length_range.symm
  | replaceBottomHalf =>
    rw [targets, List.length_range']
    omega
  | replaceWorst =>
    rw [(perm_targets population).length_eq, List.length_range]
    exact Nat.div_le_self ..

/-- The places that are written to are the first ones among the targets, as many as there are
migrants, but no more than half as many as there are slots. -/
theorem map_fst_landings : (policy.landings population migrants).map Prod.fst =
    (policy.targets population).take (min (population.size / 2) migrants.length) := by
  have enough := policy.half_le_length_targets population
  rw [landings, List.map_take, List.zip_eq_zip_take_min, List.map_fst_zip, List.take_take]
  · congr 1
    omega
  · simp

theorem nodup_landings : ((policy.landings population migrants).map Prod.fst).Nodup := by
  rw [map_fst_landings]
  exact (policy.nodup_targets population).sublist (List.take_sublist _ _)

theorem lt_size_of_mem_landings {landing : Nat × Scored}
    (landed : landing ∈ policy.landings population migrants) :
    landing.1 < population.size := by
  have target := List.mem_map_of_mem (f := Prod.fst) landed
  rw [map_fst_landings] at target
  exact policy.lt_size_of_mem_targets population (List.mem_of_mem_take target)

end SplicePolicy

namespace Population

variable {population : Population} {policy : SplicePolicy} {migrants : List Scored}

/-- All slots that migrants go to are there. -/
theorem splice?_eq (population : Population) (policy : SplicePolicy) (migrants : List Scored) :
    population.splice? policy migrants = some (population.splice policy migrants) := by
  rw [splice?, if_pos]
  rw [List.all_eq_true]
  intro landing landed
  exact decide_eq_true (policy.lt_size_of_mem_landings population migrants landed)

theorem size_splice : (population.splice policy migrants).size = population.size :=
  size_settle

theorem slot?_splice_of_not_mem {index : Nat}
    (untouched : index ∉ (policy.landings population migrants).map Prod.fst) :
    (population.splice policy migrants).slot? index = population.slot? index :=
  slot?_settle_of_not_mem untouched

/-- Every migrant that is taken stands in a slot afterwards. -/
theorem slot?_splice_of_mem {landing : Nat × Scored}
    (landed : landing ∈ policy.landings population migrants) :
    (population.splice policy migrants).slot? landing.1 = some (Slot.fresh landing.2 none) :=
  slot?_settle_of_mem (policy.nodup_landings population migrants) landed
    (policy.lt_size_of_mem_landings population migrants landed)

theorem holds_of_mem_zipIdx_fitnesses {entry : Float × Nat}
    (entry_mem : entry ∈ population.fitnesses.zipIdx) :
    ∃ slot, population.slot? entry.2 = some slot ∧ slot.fitness = entry.1 := by
  rw [List.mem_zipIdx_iff_getElem?, fitnesses, List.getElem?_map] at entry_mem
  obtain ⟨slot, found, same⟩ := Option.map_eq_some_iff.mp entry_mem
  exact ⟨slot, by simpa [slot?] using found, same⟩

/-- The last slot to give way is at the peak. -/
theorem exists_last_target (occupied : 0 < population.size) :
    ∃ front last slot, SplicePolicy.replaceWorst.targets population = front ++ [last] ∧
      population.slot? last = some slot ∧
      ∀ other, population.Holds other → height other.fitness ≤ height slot.fitness := by
  obtain ⟨entries, entries_eq⟩ : ∃ entries, entries =
      population.fitnesses.zipIdx.mergeSort fun a b => givesWayBefore a.1 b.1 := ⟨_, rfl⟩
  have perm : entries.Perm population.fitnesses.zipIdx := entries_eq ▸ List.mergeSort_perm _ _
  have sorted : entries.Pairwise fun a b => givesWayBefore a.1 b.1 = true :=
    entries_eq ▸ pairwise_givesWayBefore _
  obtain ⟨front, last, split⟩ : ∃ front last, entries = front ++ [last] := by
    rcases List.eq_nil_or_concat entries with none | ⟨front, last, split⟩
    · have length := perm.length_eq
      rw [none, List.length_zipIdx, length_fitnesses, List.length_nil] at length
      exact absurd length (Nat.ne_of_lt occupied)
    · exact ⟨front, last, List.concat_eq_append ▸ split⟩
  obtain ⟨slot, found, same⟩ : ∃ slot, population.slot? last.2 = some slot ∧
      slot.fitness = last.1 := by
    apply holds_of_mem_zipIdx_fitnesses
    rw [← perm.mem_iff, split]
    exact List.mem_concat_self
  refine ⟨front.map Prod.snd, last.2, slot, ?_, found, ?_⟩
  · rw [SplicePolicy.targets, ← entries_eq, split, List.map_append]
    rfl
  · rintro other ⟨place, other_at⟩
    have entry_mem : (other.fitness, place) ∈ entries := by
      rw [perm.mem_iff, List.mem_zipIdx_iff_getElem?, fitnesses, List.getElem?_map]
      exact Option.map_eq_some_iff.mpr ⟨other, by simpa [slot?] using other_at, rfl⟩
    rw [split, List.pairwise_append] at sorted
    rw [split, List.mem_append, List.mem_singleton] at entry_mem
    rw [same]
    rcases entry_mem with before | is_last
    · exact height_le_of_givesWayBefore
        (sorted.2.2 _ before _ (List.mem_singleton.mpr rfl))
    · exact Int.le_of_eq (congrArg height (congrArg Prod.fst is_last))

/-- A slot at the peak is among those that stay when the worst ones give way. -/
theorem exists_peak_not_mem_landings (occupied : 0 < population.size) (migrants : List Scored) :
    ∃ index slot, index ∉ (SplicePolicy.replaceWorst.landings population migrants).map Prod.fst ∧
      population.slot? index = some slot ∧
      ∀ other, population.Holds other → height other.fitness ≤ height slot.fitness := by
  obtain ⟨front, last, slot, targets, last_at, highest⟩ := exists_last_target occupied
  have nodup := SplicePolicy.replaceWorst.nodup_targets population
  have length := (SplicePolicy.perm_targets population).length_eq
  rw [targets, List.length_append, List.length_singleton, List.length_range] at length
  rw [targets, List.nodup_append] at nodup
  refine ⟨last, slot, ?_, last_at, highest⟩
  rw [SplicePolicy.map_fst_landings, targets, List.take_append_of_le_length (by omega)]
  intro early
  exact nodup.2.2 last (List.mem_of_mem_take early) last (List.mem_singleton.mpr rfl) rfl

/-- A slot at the peak stays when the worst ones give way. -/
theorem exists_survivor {peak : Int} (peaks : population.Peaks peak) (migrants : List Scored) :
    ∃ slot, (population.splice .replaceWorst migrants).Holds slot ∧
      height slot.fitness = peak := by
  obtain ⟨top, ⟨place, top_at⟩, rfl⟩ := peaks.attained
  have occupied : 0 < population.size :=
    Nat.zero_lt_of_lt (Array.getElem?_eq_some_iff.mp top_at).1
  obtain ⟨index, slot, untouched, found, highest⟩ := exists_peak_not_mem_landings occupied migrants
  refine ⟨slot, ⟨index, ?_⟩, ?_⟩
  · rw [slot?_splice_of_not_mem untouched, found]
  · exact Int.le_antisymm (peaks.bound slot ⟨index, found⟩) (highest top ⟨place, top_at⟩)

end Population

end EvoSearch
