/-
# Which slots give way

A splice takes as many migrants as there are, but no more than half as many as there are slots, and
puts each of them to a place of its own. The places are the first ones of the upper half, the first
ones of the lower half, or those of the worst fitnesses, depending on the policy.

The worst come first in the one order of all slots in which the fitnesses ascend, NaN in front and
minus zero in front of zero, and which leaves slots of the same fitness as they stand. It refines
the order that the search itself goes by, so no slot that gives way is better than one that stays.
-/

import EvoSearch.Proofs.Selection
import EvoSearch.Proofs.Splice

namespace EvoSearch

open Numeric

/-- A float comes before another where all numbers are told apart: it is beaten by the other, or the
two are minus zero and zero. -/
def Precedes (x y : Float) : Prop :=
  beats y x = true ∨ x = -0.0 ∧ y = 0

/-- One float precedes another exactly if the other does not give way before it. -/
theorem precedes_iff {x y : Float} : Precedes x y ↔ givesWayBefore y x = false := by
  have not_zeros (nan : y.isNaN = true) : ¬ (x = -0.0 ∧ y = 0) := by
    rintro ⟨_, rfl⟩
    revert nan
    decide
  rw [Precedes, beats_iff, givesWayBefore]
  cases hx : x.isNaN <;> cases hy : y.isNaN
  · rw [decide_eq_false_iff_not, Int.not_le, rank_lt_iff hx hy]
  · have above := height_nan_lt hx
    rw [height_of_isNaN hy]
    simp only [Bool.true_eq_false, iff_false, not_or]
    exact ⟨by omega, not_zeros hy⟩
  · rw [height_of_isNaN hx]
    simp only [iff_true]
    exact .inl (height_nan_lt hy)
  · rw [height_of_isNaN hx, height_of_isNaN hy]
    simp only [Bool.true_eq_false, iff_false, not_or]
    exact ⟨Int.lt_irrefl _, not_zeros hy⟩

theorem Precedes.asymm {x y : Float} (first : Precedes x y) : ¬ Precedes y x := by
  intro second
  have total := givesWayBefore_total x y
  rw [precedes_iff.mp first, precedes_iff.mp second] at total
  cases total

/-- Sorting keeps what has stood in a certain way, unless it turns it round for good. -/
theorem pairwise_mergeSort_or {α : Type} (le : α → α → Bool) {stands : α → α → Prop} {row : List α}
    (trans : ∀ a b c, le a b = true → le b c = true → le a c = true)
    (total : ∀ a b, (le a b || le b a) = true) (pairwise : row.Pairwise stands) :
    (row.mergeSort le).Pairwise fun a b => le b a = false ∨ le a b = true ∧ stands a b := by
  induction row with
  | nil => simp
  | cons head rest ih =>
    obtain ⟨head_stands, rest_pairwise⟩ := List.pairwise_cons.mp pairwise
    obtain ⟨front, back, sorted_eq, rest_eq, before⟩ := List.mergeSort_cons trans total head rest
    have sorted := List.pairwise_mergeSort trans total (head :: rest)
    have rest_sorted := ih rest_pairwise
    rw [sorted_eq] at sorted
    rw [rest_eq, List.pairwise_append] at rest_sorted
    rw [sorted_eq, List.pairwise_append, List.pairwise_cons]
    obtain ⟨front_sorted, back_sorted, across⟩ := rest_sorted
    refine ⟨front_sorted, ⟨?_, back_sorted⟩, ?_⟩
    · intro other behind
      have in_rest : other ∈ rest.mergeSort le := rest_eq ▸ List.mem_append_right _ behind
      have le_other : le head other = true :=
        (List.pairwise_cons.mp (List.pairwise_append.mp sorted).2.1).1 other behind
      exact .inr ⟨le_other, head_stands other (List.mem_mergeSort.mp in_rest)⟩
    · intro early early_mem late late_mem
      rcases List.mem_cons.mp late_mem with rfl | late_mem
      · left
        simpa using before early early_mem
      · exact across early early_mem late late_mem

namespace SplicePolicy

variable (policy : SplicePolicy) {population : Population} {migrants : List Scored}

theorem length_landings : (policy.landings population migrants).length =
    min (population.size / 2) migrants.length := by
  have enough := policy.half_le_length_targets population
  rw [← List.length_map (f := Prod.fst), map_fst_landings, List.length_take]
  omega

/-- The migrants take their places in the same order as they come. -/
theorem mem_landings_of_turn {turn place : Nat} {migrant : Scored}
    (place_at : ((policy.landings population migrants).map Prod.fst)[turn]? = some place)
    (migrant_at : migrants[turn]? = some migrant) :
    (place, migrant) ∈ policy.landings population migrants := by
  rw [List.getElem?_map, Option.map_eq_some_iff] at place_at
  obtain ⟨⟨_, other⟩, landing_at, rfl⟩ := place_at
  have zipped := landing_at
  rw [landings, List.getElem?_take] at zipped
  split at zipped
  · have other_at := (List.getElem?_zip_eq_some.mp zipped).2
    obtain rfl := Option.some.inj (other_at.symm.trans migrant_at)
    exact List.mem_of_getElem? landing_at
  · cases zipped

end SplicePolicy

namespace Population

variable {population population' : Population} {policy : SplicePolicy} {migrants : List Scored}
  {places order other : List Nat}

/-- All slots of a population in ascending order of their fitnesses, those of the same fitness as
they stand. -/
structure Ascends (population : Population) (order : List Nat) : Prop where
  perm : order.Perm (List.range population.size)
  pairwise : order.Pairwise fun i j => ∀ slot other, population.slot? i = some slot →
    population.slot? j = some other → Precedes slot.fitness other.fitness ∨
      ¬ Precedes other.fitness slot.fitness ∧ i < j

/-- There is no more than one such order. -/
theorem Ascends.unique (ascends : population.Ascends order)
    (other_ascends : population.Ascends other) : order = other := by
  refine List.Perm.eq_of_pairwise ?_ ascends.pairwise other_ascends.pairwise
    (ascends.perm.trans other_ascends.perm.symm)
  intro i j i_mem j_mem forth back
  have i_within := List.mem_range.mp (ascends.perm.mem_iff.mp i_mem)
  have j_within := List.mem_range.mp (other_ascends.perm.mem_iff.mp j_mem)
  have i_at : population.slot? i = some population.slots[i] := Array.getElem?_eq_getElem i_within
  have j_at : population.slot? j = some population.slots[j] := Array.getElem?_eq_getElem j_within
  rcases forth _ _ i_at j_at with below | ⟨not_above, i_lt⟩
  · rcases back _ _ j_at i_at with above | ⟨not_below, _⟩
    · exact absurd above below.asymm
    · exact absurd below not_below
  · rcases back _ _ j_at i_at with above | ⟨_, j_lt⟩
    · exact absurd above not_above
    · omega

/-- The worst slots first is such an order. -/
theorem ascends_targets (population : Population) :
    population.Ascends (SplicePolicy.replaceWorst.targets population) := by
  refine ⟨SplicePolicy.perm_targets population, ?_⟩
  rw [SplicePolicy.targets, List.pairwise_map]
  have in_turn : population.fitnesses.zipIdx.Pairwise fun a b => a.2 < b.2 := by
    rw [← List.pairwise_map (R := fun i j => i < j), List.zipIdx_map_snd]
    exact List.pairwise_lt_range'
  have sorted := pairwise_mergeSort_or
    (fun a b : Float × Nat => givesWayBefore a.1 b.1)
    (fun a b c => givesWayBefore_trans a.1 b.1 c.1)
    (fun a b => givesWayBefore_total a.1 b.1) in_turn
  refine sorted.imp_of_mem fun {a b} a_mem b_mem stands slot other slot_at other_at => ?_
  rw [List.mem_mergeSort] at a_mem b_mem
  obtain ⟨_, at_a, a_eq⟩ := holds_of_mem_zipIdx_fitnesses a_mem
  obtain ⟨_, at_b, b_eq⟩ := holds_of_mem_zipIdx_fitnesses b_mem
  obtain rfl := Option.some.inj (at_a.symm.trans slot_at)
  obtain rfl := Option.some.inj (at_b.symm.trans other_at)
  rw [a_eq, b_eq, precedes_iff, precedes_iff, Bool.not_eq_false]
  exact stands

/-- None of the first slots in ascending order is better than one that comes later. -/
theorem Ascends.not_beats (ascends : population.Ascends order) {count place index : Nat}
    {gone slot : Slot} (early : place ∈ order.take count) (late : index ∉ order.take count)
    (gone_at : population.slot? place = some gone) (slot_at : population.slot? index = some slot) :
    beats gone.fitness slot.fitness = false := by
  have listed : index ∈ order :=
    ascends.perm.mem_iff.mpr (List.mem_range.mpr (Array.getElem?_eq_some_iff.mp slot_at).1)
  have pairwise := ascends.pairwise
  rw [← List.take_append_drop count order] at listed pairwise
  have behind := (List.mem_append.mp listed).resolve_left late
  have stands := (List.pairwise_append.mp pairwise).2.2 place early index behind _ _ gone_at slot_at
  have not_before : ¬ Precedes slot.fitness gone.fitness :=
    stands.elim Precedes.asymm And.left
  rw [Precedes, not_or, Bool.not_eq_true] at not_before
  exact not_before.1

/-- What a splice makes of a population, and the places that migrants take, in their order. -/
structure Lands (population : Population) (policy : SplicePolicy) (migrants : List Scored)
    (places : List Nat) (population' : Population) : Prop where
  splice_eq : population.splice? policy migrants = some population'
  size_eq : population'.size = population.size
  /-- So many are reported to have come. -/
  count_eq : (policy.landings population migrants).length = places.length
  length_eq : places.length = min (population.size / 2) migrants.length
  nodup : places.Nodup
  lands : ∀ (turn place : Nat) (migrant : Scored), places[turn]? = some place →
    migrants[turn]? = some migrant → population'.slot? place = some (.fresh migrant none)
  stays : ∀ index, index ∉ places → population'.slot? index = population.slot? index
  top : policy = .replaceTopHalf → places = List.range places.length
  bottom : policy = .replaceBottomHalf →
    places = List.range' (population.size / 2) places.length
  /-- These are the first ones in the only ascending order. -/
  worst : policy = .replaceWorst → ∃ order, population.Ascends order ∧
    (∀ other, population.Ascends other → other = order) ∧ places = order.take places.length
  not_beats : policy = .replaceWorst → ∀ place index gone slot, place ∈ places →
    index ∉ places → population.slot? place = some gone → population.slot? index = some slot →
    beats gone.fitness slot.fitness = false
  peak_stays : policy = .replaceWorst → 0 < population.size → ∃ index slot, index ∉ places ∧
    population'.slot? index = some slot ∧
    ∀ other, population.Holds other → beats other.fitness slot.fitness = false

/-- Migrants land one by one in the first places of the policy, and nothing else changes. -/
theorem exists_lands (population : Population) (policy : SplicePolicy) (migrants : List Scored) :
    ∃ places population', population.Lands policy migrants places population' := by
  have length_eq : ((policy.landings population migrants).map Prod.fst).length =
      min (population.size / 2) migrants.length := by
    rw [List.length_map, policy.length_landings]
  refine ⟨(policy.landings population migrants).map Prod.fst, population.splice policy migrants,
    splice?_eq .., size_splice, (List.length_map ..).symm, length_eq,
    policy.nodup_landings population migrants, ?_, fun _ => slot?_splice_of_not_mem,
    ?_, ?_, ?_, ?_, ?_⟩
  · intro turn place migrant place_at migrant_at
    exact slot?_splice_of_mem (policy.mem_landings_of_turn place_at migrant_at)
  · rintro rfl
    rw [length_eq, SplicePolicy.map_fst_landings]
    exact List.take_range.trans (congrArg List.range (by omega))
  · rintro rfl
    rw [length_eq, SplicePolicy.map_fst_landings]
    exact List.take_range'_of_length_ge (by omega)
  · rintro rfl
    refine ⟨_, population.ascends_targets, ?_, ?_⟩
    · exact fun other ascends => ascends.unique population.ascends_targets
    · rw [length_eq, SplicePolicy.map_fst_landings]
  · rintro rfl place index gone slot
    rw [SplicePolicy.map_fst_landings]
    exact population.ascends_targets.not_beats
  · rintro rfl occupied
    obtain ⟨index, slot, untouched, found, highest⟩ :=
      exists_peak_not_mem_landings occupied migrants
    refine ⟨index, slot, untouched, ?_, fun other holds => ?_⟩
    · rw [slot?_splice_of_not_mem untouched, found]
    · exact not_beats_iff.mpr (highest other holds)

end Population

end EvoSearch
