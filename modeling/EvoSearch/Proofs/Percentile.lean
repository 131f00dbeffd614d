/-
# Three quarters up

The hurdle is put where exactly three quarters of the distinct finite values are below, rounded
down. The place is worked out with floats, but nothing is rounded on the way: three quarters of a
number below 2^50 are a fraction with two bits below the line, and few enough above it.

What the values are sorted by tells the two zeros apart, while repeats are found by an equality that
does not. So among values that are the same number the first one in the order of their bits is kept,
and what comes out depends on nothing but which finite values there are.
-/

import Mathlib.Data.List.Perm.Subperm
import EvoSearch.Proofs.Fractions
import EvoSearch.Proofs.Grading
import EvoSearch.Proofs.HurdleHistory

namespace EvoSearch

open Numeric

variable {values others row other : List Float} {x y : Float}

theorem isFraction_hurdlePercentile : IsFraction hurdlePercentile 3 2 :=
  ⟨51, ⟨by decide, by decide⟩, rfl⟩

/-- The place in the row of distinct values, which is never behind its end. -/
theorem toNat_index {count : Nat} (positive : 0 < count) (few : count < 0x4000000000000) :
    (hurdlePercentile * Float.ofNat count).toUInt64.toNat = 3 * count / 4 := by
  have product := isFraction_hurdlePercentile.mul (isFraction_ofNat positive (by omega))
    (by omega) (by decide)
  rw [product.toUInt64, Nat.shiftRight_eq_div_pow]

/-- In an ascending row as many are less than one as there are in front of it. -/
theorem countP_lt_of_ascending {heights : List Int} (ascending : heights.Pairwise (· < ·))
    {index : Nat} {value : Int} (found : heights[index]? = some value) :
    heights.countP (fun other => other < value) = index := by
  induction heights generalizing index with
  | nil => cases found
  | cons least heights ih =>
    obtain ⟨least_lt, ascending⟩ := List.pairwise_cons.mp ascending
    cases index with
    | zero =>
      obtain rfl := Option.some.inj found
      rw [List.countP_eq_zero]
      intro other mem
      rw [decide_eq_true_iff]
      rcases List.mem_cons.mp mem with rfl | behind
      · exact Int.lt_irrefl _
      · exact Int.not_lt.mpr (Int.le_of_lt (least_lt other behind))
    | succ index =>
      have below : least < value := least_lt value (List.mem_of_getElem? found)
      rw [List.countP_cons, ih ascending found, if_pos (decide_eq_true below)]

/-- A row has all finite numbers among some values in it, each of them once. -/
structure ListsFinite (values row : List Float) : Prop where
  mem : ∀ x ∈ row, x ∈ values ∧ x.isFinite = true
  covers : ∀ x ∈ values, x.isFinite = true → ∃ y ∈ row, (y == x) = true
  apart : row.Pairwise fun x y => (x == y) = false

theorem beq_iff_of_isFinite (x_finite : x.isFinite = true) (y_finite : y.isFinite = true) :
    (x == y) = true ↔ height x = height y := by
  rw [beq_iff, not_isNaN_of_isFinite x_finite, not_isNaN_of_isFinite y_finite]
  simp only [true_and]

theorem lt_iff_of_isFinite (x_finite : x.isFinite = true) (y_finite : y.isFinite = true) :
    x < y ↔ height x < height y := by
  rw [lt_iff, not_isNaN_of_isFinite x_finite, not_isNaN_of_isFinite y_finite]
  simp only [true_and]

theorem mem_distinctFinite (mem : x ∈ distinctFinite values) : x ∈ values ∧ x.isFinite = true :=
  List.mem_filter.mp ((distills_distinctFinite values).mem x mem)

theorem listsFinite_distinctFinite (values : List Float) :
    ListsFinite values (distinctFinite values) := by
  have distills := distills_distinctFinite values
  refine ⟨fun x mem => mem_distinctFinite mem, fun x mem finite => ?_, ?_⟩
  · obtain ⟨y, y_mem, same⟩ := distills.covers x (List.mem_filter.mpr ⟨mem, finite⟩)
    exact ⟨y, y_mem, (beq_iff_of_isFinite (mem_distinctFinite y_mem).2 finite).mpr same⟩
  · refine distills.ascending.imp_of_mem fun x_mem y_mem below => ?_
    rw [← Bool.not_eq_true,
      beq_iff_of_isFinite (mem_distinctFinite x_mem).2 (mem_distinctFinite y_mem).2]
    exact Int.ne_of_lt below

namespace ListsFinite

theorem nodup_heights (lists : ListsFinite values row) : (row.map height).Nodup := by
  rw [List.Nodup, List.pairwise_map]
  refine lists.apart.imp_of_mem fun x_mem y_mem apart => ?_
  rw [← Bool.not_eq_true, beq_iff_of_isFinite (lists.mem _ x_mem).2 (lists.mem _ y_mem).2] at apart
  exact apart

theorem length_le (lists : ListsFinite values row) : row.length ≤ values.length := by
  have nodup : row.Nodup :=
    List.Pairwise.of_map height (fun _ _ => mt (congrArg height)) lists.nodup_heights
  exact (List.subperm_of_subset nodup fun x mem => (lists.mem x mem).1).length_le

theorem mem_heights_iff (lists : ListsFinite values row) {place : Int} :
    place ∈ row.map height ↔ ∃ x ∈ values, x.isFinite = true ∧ height x = place := by
  rw [List.mem_map]
  constructor
  · rintro ⟨x, x_mem, rfl⟩
    exact ⟨x, (lists.mem x x_mem).1, (lists.mem x x_mem).2, rfl⟩
  · rintro ⟨x, x_mem, finite, rfl⟩
    obtain ⟨y, y_mem, same⟩ := lists.covers x x_mem finite
    exact ⟨y, y_mem, (beq_iff_of_isFinite (lists.mem y y_mem).2 finite).mp same⟩

/-- All such rows are of the same numbers. -/
theorem perm_heights (lists : ListsFinite values row) (other_lists : ListsFinite values other) :
    (row.map height).Perm (other.map height) := by
  rw [List.perm_ext_iff_of_nodup lists.nodup_heights other_lists.nodup_heights]
  intro place
  rw [lists.mem_heights_iff, other_lists.mem_heights_iff]

theorem countP_lt (lists : ListsFinite values row) {threshold : Float}
    (finite : threshold.isFinite = true) : row.countP (fun x => x < threshold) =
      (row.map height).countP (fun place => place < height threshold) := by
  rw [List.countP_map]
  apply List.countP_congr
  intro x x_mem
  simp only [decide_eq_true_eq, Function.comp_apply]
  exact lt_iff_of_isFinite (lists.mem x x_mem).2 finite

end ListsFinite

/-- The threshold is the value at three quarters of the distinct ones. -/
theorem getElem?_of_percentileThreshold (few : values.length < 0x4000000000000) {threshold : Float}
    (found : percentileThreshold values = some threshold) :
    (distinctFinite values)[3 * (distinctFinite values).length / 4]? = some threshold := by
  have length_le := (listsFinite_distinctFinite values).length_le
  have positive : 0 < (distinctFinite values).length := by
    apply Nat.pos_of_ne_zero
    intro none
    rw [percentileThreshold, List.length_eq_zero_iff.mp none] at found
    cases found
  rwa [percentileThreshold, toNat_index positive (by omega), Nat.min_eq_left (by omega)] at found

theorem mem_of_percentileThreshold {threshold : Float}
    (found : percentileThreshold values = some threshold) : threshold ∈ distinctFinite values :=
  List.mem_of_getElem? found

/-- Three quarters of the finite numbers are below the threshold, however they are listed. -/
theorem countP_of_percentileThreshold (few : values.length < 0x4000000000000) {threshold : Float}
    (found : percentileThreshold values = some threshold) (lists : ListsFinite values row) :
    row.countP (fun x => x < threshold) = 3 * row.length / 4 := by
  have perm := lists.perm_heights (listsFinite_distinctFinite values)
  have length_eq : row.length = (distinctFinite values).length := by
    rw [← List.length_map (f := height), perm.length_eq, List.length_map]
  have finite := (mem_distinctFinite (mem_of_percentileThreshold found)).2
  have ascending : ((distinctFinite values).map height).Pairwise (· < ·) :=
    List.pairwise_map.mpr (distills_distinctFinite values).ascending
  rw [lists.countP_lt finite, perm.countP_eq, length_eq]
  apply countP_lt_of_ascending ascending
  rw [List.getElem?_map, getElem?_of_percentileThreshold few found]
  rfl

/-- The same finite values are in two lists, no matter where and how often. -/
def SameFinite (values others : List Float) : Prop :=
  ∀ x, x.isFinite = true → (x ∈ others ↔ x ∈ values)

/-- Values may be put in another order and repeated, and others that are not finite may come in. -/
theorem SameFinite.of_perm {extra : List Float}
    (no_news : ∀ x ∈ extra, x ∈ values ∨ x.isFinite = false)
    (perm : others.Perm (extra ++ values)) : SameFinite values others := by
  intro x finite
  rw [perm.mem_iff, List.mem_append]
  constructor
  · rintro (in_extra | in_values)
    · rcases no_news x in_extra with in_values | infinite
      · exact in_values
      · rw [infinite] at finite
        cases finite
    · exact in_values
  · exact .inr

/-- Of values that are the same number, the one that is kept comes first in the order of the bits.
-/
theorem rank_le_of_mem_dropRepeatsAfter {last : Float}
    (numbers : ∀ x ∈ last :: row, x.isNaN = false)
    (sorted : (last :: row).Pairwise fun x y => rank x ≤ rank y)
    (kept : x ∈ last :: dropRepeatsAfter last row) :
    ∀ y ∈ last :: row, height y = height x → rank x ≤ rank y := by
  induction row generalizing last with
  | nil =>
    intro y listed _
    obtain rfl := List.mem_singleton.mp kept
    obtain rfl := List.mem_singleton.mp listed
    exact Int.le_refl _
  | cons next rest ih =>
    obtain ⟨last_le, rest_sorted⟩ := List.pairwise_cons.mp sorted
    have distills := distills_dropRepeatsAfter numbers (pairwise_height_of_rank numbers sorted)
    obtain ⟨last_below, _⟩ := List.pairwise_cons.mp distills.ascending
    rcases List.mem_cons.mp kept with rfl | behind
    · intro y listed _
      rcases List.mem_cons.mp listed with rfl | further
      · exact Int.le_refl _
      · exact last_le y further
    · have above := last_below x behind
      rw [dropRepeatsAfter] at behind
      intro y listed same
      split at behind
      · next repeated =>
        -- what is left out is the same number as the last one kept, and below all that come later
        obtain ⟨_, _, next_eq⟩ := beq_iff.mp repeated
        have shorter : (last :: rest).Sublist (last :: next :: rest) :=
          .cons_cons last (List.sublist_cons_self next rest)
        apply ih (fun z z_mem => numbers z (shorter.subset z_mem)) (sorted.sublist shorter)
          (List.mem_cons_of_mem _ behind) y _ same
        rcases List.mem_cons.mp listed with rfl | further
        · exact List.mem_cons_self
        · rcases List.mem_cons.mp further with rfl | further
          · omega
          · exact List.mem_cons_of_mem _ further
      · rcases List.mem_cons.mp listed with rfl | further
        · omega
        · exact ih (fun z z_mem => numbers z (List.mem_cons_of_mem _ z_mem)) rest_sorted behind y
            further same

theorem rank_le_of_mem_distinctFinite (kept : x ∈ distinctFinite values) (mem : y ∈ values)
    (finite : y.isFinite = true) (same : height y = height x) : rank x ≤ rank y := by
  have sorted := pairwise_mergeSort_rank (values.filter Float.isFinite)
  have perm := List.mergeSort_perm (values.filter Float.isFinite)
    fun x y => decide (rank x ≤ rank y)
  rw [distinctFinite] at kept
  revert sorted perm kept
  generalize (values.filter Float.isFinite).mergeSort _ = row
  intro kept sorted perm
  have numbers (z : Float) (z_mem : z ∈ row) : z.isNaN = false :=
    not_isNaN_of_isFinite (List.mem_filter.mp (perm.mem_iff.mp z_mem)).2
  have listed : y ∈ row := perm.mem_iff.mpr (List.mem_filter.mpr ⟨mem, finite⟩)
  cases row with
  | nil => cases kept
  | cons first rest => exact rank_le_of_mem_dropRepeatsAfter numbers sorted kept y listed same

/-- What is kept of some values depends on nothing but which finite ones there are. -/
theorem mem_distinctFinite_iff : x ∈ distinctFinite values ↔ x ∈ values ∧ x.isFinite = true ∧
    ∀ y, y ∈ values → y.isFinite = true → height y = height x → rank x ≤ rank y := by
  constructor
  · intro kept
    obtain ⟨mem, finite⟩ := mem_distinctFinite kept
    exact ⟨mem, finite, fun y => rank_le_of_mem_distinctFinite kept⟩
  · rintro ⟨mem, finite, least⟩
    obtain ⟨y, kept, same⟩ := (distills_distinctFinite values).covers x
      (List.mem_filter.mpr ⟨mem, finite⟩)
    obtain ⟨y_mem, y_finite⟩ := mem_distinctFinite kept
    have le := rank_le_of_mem_distinctFinite kept mem finite same.symm
    have ge := least y y_mem y_finite same
    rwa [rank_inj (Int.le_antisymm ge le)]

theorem SameFinite.distinctFinite_eq (alike : SameFinite values others) :
    distinctFinite others = distinctFinite values := by
  have mem_iff (x : Float) : x ∈ distinctFinite others ↔ x ∈ distinctFinite values := by
    rw [mem_distinctFinite_iff, mem_distinctFinite_iff]
    constructor
    · rintro ⟨mem, finite, least⟩
      exact ⟨(alike x finite).mp mem, finite,
        fun y y_mem y_finite => least y ((alike y y_finite).mpr y_mem) y_finite⟩
    · rintro ⟨mem, finite, least⟩
      exact ⟨(alike x finite).mpr mem, finite,
        fun y y_mem y_finite => least y ((alike y y_finite).mp y_mem) y_finite⟩
  have ascending := (distills_distinctFinite values).ascending
  have others_ascending := (distills_distinctFinite others).ascending
  have nodup (row : List Float) (ascending : row.Pairwise fun x y => height x < height y) :
      row.Nodup := by
    rw [List.Nodup]
    exact ascending.imp fun below same => Int.ne_of_lt below (congrArg height same)
  refine List.Perm.eq_of_pairwise ?_ others_ascending ascending
    ((List.perm_ext_iff_of_nodup (nodup _ others_ascending) (nodup _ ascending)).mpr mem_iff)
  intro x y _ _ below above
  exact absurd below (Int.not_lt.mpr (Int.le_of_lt above))

theorem SameFinite.percentileThreshold_eq (alike : SameFinite values others) :
    percentileThreshold others = percentileThreshold values := by
  rw [percentileThreshold, percentileThreshold, alike.distinctFinite_eq]

/-- A percentile is none exactly if there are no finite values. Otherwise it is one of them, and
exactly three quarters of the distinct ones are below it, rounded down. It stays the same to the
bit, and the hurdle that is made of it with it, when values come in another order or again, or with
others that are not finite. From such values alone nothing is made, and a hurdle stays where it is.
-/
theorem percentileThreshold_exact (values : List Float) :
    (percentileThreshold values = none ↔ ∀ value ∈ values, value.isFinite = false) ∧
    (∃ row, ListsFinite values row) ∧
    (∀ threshold, percentileThreshold values = some threshold →
      threshold ∈ values ∧ threshold.isFinite = true ∧
      (values.length < 0x4000000000000 → ∀ row, ListsFinite values row →
        row.countP (fun x => x < threshold) = 3 * row.length / 4)) ∧
    (∀ others, SameFinite values others → percentileThreshold others = percentileThreshold values ∧
      ∀ hurdle : Hurdle, hurdle.recompute others = hurdle.recompute values) ∧
    (∀ extra others, (∀ x ∈ extra, x ∈ values ∨ x.isFinite = false) →
      others.Perm (extra ++ values) → SameFinite values others) ∧
    ((∀ value ∈ values, value.isFinite = false) →
      ∀ hurdle : Hurdle, hurdle.recompute values = hurdle) := by
  refine ⟨percentileThreshold_eq_none_iff, ⟨_, listsFinite_distinctFinite values⟩, ?_, ?_, ?_, ?_⟩
  · intro threshold found
    obtain ⟨mem, finite⟩ := mem_distinctFinite (mem_of_percentileThreshold found)
    exact ⟨mem, finite, fun few _ => countP_of_percentileThreshold few found⟩
  · intro others alike
    refine ⟨alike.percentileThreshold_eq, fun hurdle => ?_⟩
    rw [Hurdle.recompute_eq, Hurdle.recompute_eq, alike.percentileThreshold_eq]
  · exact fun extra others no_news perm => .of_perm no_news perm
  · intro none_finite hurdle
    rw [Hurdle.recompute_eq, percentileThreshold_eq_none_iff.mpr none_finite]
    rfl

/-- Eight values, four of which are distinct finite numbers. -/
def mixedValues : List Float := [1, nan, -0.0, infinity, 0, 2, 1, -1]

/-- Three of the four are below the threshold, and still are with two more values in another order.
From the values that are not finite nothing is made. -/
theorem percentileThreshold_exact_of_mixed : ∃ threshold,
    percentileThreshold mixedValues = some threshold ∧ threshold ∈ mixedValues ∧
    ListsFinite mixedValues [2, 0, -1, 1] ∧
    [2, 0, -1, 1].countP (fun x => x < threshold) = 3 ∧
    percentileThreshold (nan :: mixedValues.reverse ++ [2]) = some threshold ∧
    ∀ hurdle : Hurdle, hurdle.recompute [nan, infinity] = hurdle := by
  obtain ⟨none_iff, _, some_of, same_of, same_finite, _⟩ := percentileThreshold_exact mixedValues
  obtain ⟨_, _, _, _, _, stays⟩ := percentileThreshold_exact [nan, infinity]
  cases found : percentileThreshold mixedValues with
  | none => exact absurd (none_iff.mp found 1 List.mem_cons_self) (by decide)
  | some threshold =>
    obtain ⟨mem, _, count⟩ := some_of threshold found
    have finite : ∀ x ∈ [2, 0, -1, 1], Float.isFinite x = true := by decide +kernel
    have listed : ∀ x ∈ [2, 0, -1, 1], x ∈ mixedValues := by simp [mixedValues]
    have lists : ListsFinite mixedValues [2, 0, -1, 1] :=
      ⟨fun x mem => ⟨listed x mem, finite x mem⟩, by decide +kernel, by decide +kernel⟩
    have perm : (nan :: mixedValues.reverse ++ [2]).Perm ([nan, 2] ++ mixedValues) :=
      (List.perm_append_comm.trans ((List.reverse_perm _).append_left [2])).cons nan
    have no_news : ∀ x ∈ [nan, 2], x ∈ mixedValues ∨ x.isFinite = false := by
      simp [mixedValues]
    have alike := same_finite [nan, 2] _ no_news perm
    exact ⟨threshold, rfl, mem, lists, count (by decide) _ lists,
      (same_of _ alike).1.trans found, stays (by decide +kernel)⟩

end EvoSearch
