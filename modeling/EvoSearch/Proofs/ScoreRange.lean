/-
# How far scores reach

A score is one minus half the distance between two mixes, and mixes are at most two apart. But
shares are rounded, and so is everything that is worked out with them. Rounding may stretch the
weights of the target and the shares of the program, so that the distance between mixes that have
nothing in common comes out a few last places above two, and the score below zero.

It is shown that this is as bad as it gets: whatever the settings that have been accepted, a score
is a number, at most one, and not below zero by more than 2^-50. It is negative exactly if the
distance, as it has been added up, is above two, and then an empty cell turns the program down.
Weights too large to be added up are no exception, as all shares of the target are zero then. Only
programs with more instructions than a word can count are left out.
-/

import Mathlib.Algebra.BigOperators.Ring.List
import EvoSearch.Archive.Basic
import EvoSearch.Synthetic.Objective
import EvoSearch.Proofs.Settings
import EvoSearch.Proofs.Summation

namespace EvoSearch.Synthetic

open Numeric

variable {config : SyntheticConfig} {program : Program} {target : PerCategory Float}
  {histogram : Histogram} {x y : Float}

/-! ## Histograms -/

/-- An instruction counts for one category at most. -/
theorem total_ofInstructions_le (instructions : List Instruction) :
    (Histogram.ofInstructions instructions).total ≤ instructions.length := by
  induction instructions with
  | nil => decide
  | cons instruction rest ih =>
    simp only [Histogram.ofInstructions, Histogram.total, PerCategory.ofFn, List.countP_cons,
      List.length_cons] at ih ⊢
    cases instruction.op.category? with
    | none =>
      simp only [reduceCtorEq, decide_false, Bool.false_eq_true, if_false]
      omega
    | some category =>
      cases category <;> simp only [reduceCtorEq, decide_false, decide_true, Option.some.injEq,
        Bool.false_eq_true, if_false, if_true] <;> omega

/-- The count of a category is one of those that are added up. -/
theorem get_le_total (histogram : Histogram) (category : Category) :
    histogram.get category ≤ histogram.total := by
  cases category <;> simp only [PerCategory.get, Histogram.total] <;> omega

/-! ## Shares -/

theorem leastPlace_le : leastPlace ≤ unitError ^ 2 := by
  have powers : (2 ^ (-1074 : Int) : ℚ) ≤ 2 ^ (-106 : Int) :=
    zpow_le_zpow_right₀ one_le_two (by decide)
  apply powers.trans
  norm_num [unitError]

/-- A share that has been stretched already is stretched once more by the division. -/
theorem div_bounds (x_finite : x.isFinite = true) (y_finite : y.isFinite = true)
    (x_nonneg : 0 ≤ value x) (y_pos : 0 < value y) {share stretch limit : ℚ}
    (le : value x / value y ≤ share * stretch) (share_nonneg : 0 ≤ share) (share_le : share ≤ 1)
    (stretch_le : stretch ≤ 2) (limit_le : stretch * (1 + unitError) ≤ limit) :
    (x / y).isFinite = true ∧ 0 ≤ value (x / y) ∧
      value (x / y) ≤ share * limit + unitError ^ 2 := by
  have computes := computes_div x_finite y_finite y_pos.ne'
  have nonneg : 0 ≤ value x / value y := by positivity
  have error_nonneg := unitError_nonneg
  have large := le_greatestPlace
  have stretched := mul_le_mul_of_nonneg_left stretch_le share_nonneg
  have finite := computes.isFinite (by rw [abs_of_nonneg nonneg]; linarith)
  obtain ⟨exponent, rounds⟩ := computes.rounds finite
  have error := (abs_le.mp rounds.abs_sub_le).2
  rw [abs_of_nonneg nonneg] at error
  have least := leastPlace_le
  have least_pos := leastPlace_pos
  refine ⟨finite, computes.le_value finite isDyadic_zero nonneg, ?_⟩
  calc value (x / y) ≤ value x / value y * (1 + unitError) + unitError ^ 2 := by
        unfold unitError at least ⊢
        linarith
    _ ≤ share * stretch * (1 + unitError) + unitError ^ 2 := by gcongr
    _ ≤ share * limit + unitError ^ 2 := by
        rw [mul_assoc]
        gcongr

/-- The share of some of the instructions. -/
theorem count_share_bounds {count total : Nat} (le : count ≤ total) (positive : 0 < total)
    (few : total < 0x10000000000000000) :
    (Float.ofNat count / Float.ofNat total).isFinite = true ∧
      0 ≤ value (Float.ofNat count / Float.ofNat total) ∧
      value (Float.ofNat count / Float.ofNat total) ≤
        count / total * (1 + 7 / 2 * unitError) + unitError ^ 2 := by
  have total_pos : (0 : ℚ) < total := by exact_mod_cast positive
  have count_le : (count : ℚ) ≤ total := by exact_mod_cast le
  have count_finite := (computes_ofNat count).isFinite (abs_natCast_le_greatest (by omega))
  have total_finite := (computes_ofNat total).isFinite (abs_natCast_le_greatest few)
  have count_most := ((computes_ofNat count).between count_finite (Nat.cast_nonneg count)
    (natCast_multiple count)).2
  have total_least := ((computes_ofNat total).between total_finite (Nat.cast_nonneg total)
    (natCast_multiple total)).1
  have count_nonneg := (computes_ofNat count).le_value count_finite isDyadic_zero
    (Nat.cast_nonneg count)
  have shrunk_pos : (0 : ℚ) < 1 - unitError := by norm_num [unitError]
  have least_pos : (0 : ℚ) < total * (1 - unitError) := mul_pos total_pos shrunk_pos
  have quotient_le : value (Float.ofNat count) / value (Float.ofNat total) ≤
      count / total * ((1 + unitError) / (1 - unitError)) := by
    rw [div_mul_div_comm]
    gcongr
    exact count_nonneg.trans count_most
  have share_le : (count / total : ℚ) ≤ 1 := (div_le_one total_pos).mpr count_le
  exact div_bounds count_finite total_finite count_nonneg (least_pos.trans_le total_least)
    quotient_le (by positivity) share_le (by norm_num [unitError]) (by norm_num [unitError])

/-- The share of a weight. There is none of a sum that is out of reach. -/
theorem weight_share_bounds {total : Float} {exact : ℚ} (accumulates : Accumulates exact 4 total)
    (total_pos : ¬ total ≤ 0) (x_finite : x.isFinite = true) (x_nonneg : 0 ≤ value x)
    (x_le : value x ≤ exact) :
    (x / total).isFinite = true ∧ 0 ≤ value (x / total) ∧
      value (x / total) ≤ value x / exact * (1 + 11 / 2 * unitError) + unitError ^ 2 := by
  have error_nonneg := unitError_nonneg
  rcases accumulates with ⟨rfl, _⟩ | ⟨total_finite, below, above⟩
  · obtain ⟨finite, none⟩ := div_infinity x_finite
    have exact_nonneg := x_nonneg.trans x_le
    rw [none]
    exact ⟨finite, le_rfl, by positivity⟩
  · have value_pos : 0 < value total := by
      rwa [le_iff_value_le total_finite (by decide), value_zero, not_le] at total_pos
    have exact_pos : 0 < exact := by
      have stretch_pos : (0 : ℚ) < (1 + unitError) ^ 4 := by positivity
      exact pos_of_mul_pos_left (value_pos.trans_le above) stretch_pos.le
    have shrink_pos : (0 : ℚ) < (1 - unitError) ^ 4 := by norm_num [unitError]
    have quotient_le : value x / value total ≤ value x / exact * (1 / (1 - unitError) ^ 4) := by
      rw [div_mul_div_comm, mul_one]
      gcongr
    have share_le : value x / exact ≤ 1 := (div_le_one exact_pos).mpr x_le
    exact div_bounds x_finite total_finite x_nonneg value_pos quotient_le (by positivity) share_le
      (by norm_num [unitError]) (by norm_num [unitError])

/-- Two shares are not further apart than their sum. -/
theorem difference_bounds (x_finite : x.isFinite = true) (y_finite : y.isFinite = true)
    (x_nonneg : 0 ≤ value x) (y_nonneg : 0 ≤ value y) (near : value x + value y ≤ 4) :
    (x - y).abs.isFinite = true ∧ 0 ≤ value (x - y).abs ∧
      value (x - y).abs ≤ value x + value y := by
  have large := le_greatestPlace
  have computes := computes_sub x_finite y_finite
  have finite := computes.isFinite (by rw [abs_le]; constructor <;> linarith)
  have le_x := computes.value_le finite (isDyadic_value x_finite) (by linarith)
  have neg_y_le := computes.le_value finite (isDyadic_value y_finite).neg (by linarith)
  have distance_le : |value (x - y)| ≤ value x + value y := by
    rw [abs_le]
    constructor <;> linarith
  have computes_distance := computes_abs finite
  have distance_finite := computes_distance.isFinite (by
    rw [abs_abs]
    linarith)
  have value_eq := computes_distance.value_eq distance_finite (isDyadic_value finite).abs
  rw [value_eq]
  exact ⟨distance_finite, abs_nonneg _, distance_le⟩

/-! ## The distance of a histogram from the target -/

/-- How far the share of a category is from the target. -/
def difference (target : PerCategory Float) (histogram : Histogram) (category : Category) : Float :=
  (Float.ofNat (histogram.get category) / Float.ofNat histogram.total - target.get category).abs

/-- How far all shares are from the target, as they are added up. -/
def distance (target : PerCategory Float) (histogram : Histogram) : Float :=
  Numeric.sum (Category.all.map (difference target histogram))

theorem score_eq (total_ne : histogram.total ≠ 0) :
    score target histogram = 1 - 0.5 * distance target histogram :=
  if_neg total_ne

/-- The distances of the categories add up to two, stretched a little. -/
theorem sum_shares_le {total exact : ℚ} {counts weights : Category → ℚ} (total_pos : 0 < total)
    (counts_eq : (Category.all.map counts).sum = total)
    (weights_eq : (Category.all.map weights).sum = exact) :
    (Category.all.map fun category =>
      counts category / total * (1 + 7 / 2 * unitError) + unitError ^ 2 +
        (weights category / exact * (1 + 11 / 2 * unitError) + unitError ^ 2)).sum ≤
      2 + 9 * unitError + 10 * unitError ^ 2 := by
  have error_nonneg := unitError_nonneg
  have count_shares : (Category.all.map fun category => counts category / total).sum = 1 := by
    simp only [div_eq_mul_inv]
    rw [List.sum_map_mul_right, counts_eq, mul_inv_cancel₀ total_pos.ne']
  have weight_shares : (Category.all.map fun category => weights category / exact).sum ≤ 1 := by
    simp only [div_eq_mul_inv]
    rw [List.sum_map_mul_right, weights_eq, ← div_eq_mul_inv]
    exact div_self_le_one exact
  have constants : (Category.all.map fun _ => unitError ^ 2).sum = 5 * unitError ^ 2 := by
    simp only [Category.all, List.map_cons, List.map_nil, List.sum_cons, List.sum_nil]
    ring
  rw [List.sum_map_add, List.sum_map_add, List.sum_map_add, List.sum_map_mul_right,
    List.sum_map_mul_right, count_shares, constants]
  have stretched := mul_le_mul_of_nonneg_right weight_shares
    (by positivity : 0 ≤ 1 + 11 / 2 * unitError)
  linarith

section Valid

variable (valid : config.validate = .ok ()) (some : 0 < histogram.total)
  (few : histogram.total < 0x10000000000000000)
include valid some few

/-- The distance of a category is at most the sum of both shares, stretched a little. -/
theorem difference_le (category : Category) :
    (difference (sharesOf config.targetMix) histogram category).isFinite = true ∧
      0 ≤ value (difference (sharesOf config.targetMix) histogram category) ∧
      value (difference (sharesOf config.targetMix) histogram category) ≤
        histogram.get category / histogram.total * (1 + 7 / 2 * unitError) + unitError ^ 2 +
          (value (config.targetMix.get category) / (config.targetMix.toList.map value).sum *
            (1 + 11 / 2 * unitError) + unitError ^ 2) := by
  obtain ⟨sound, total_pos⟩ := SyntheticConfig.weights_of_validate valid
  have finite : ∀ weight ∈ config.targetMix.toList, weight.isFinite = true :=
    fun weight mem => (sound weight mem).1
  have nonneg : ∀ weight ∈ config.targetMix.toList, 0 ≤ value weight := by
    intro weight mem
    obtain ⟨weight_finite, not_neg⟩ := sound weight mem
    rwa [lt_iff_value_lt weight_finite (by decide), value_zero, not_lt] at not_neg
  have mem : config.targetMix.get category ∈ config.targetMix.toList :=
    List.mem_map_of_mem (by cases category <;> decide)
  have accumulates : Accumulates (config.targetMix.toList.map value).sum 4
      (Numeric.sum config.targetMix.toList) := accumulates_sum finite nonneg
  have values_nonneg : ∀ share ∈ config.targetMix.toList.map value, 0 ≤ share :=
    List.forall_mem_map.mpr nonneg
  have weight_le := List.single_le_sum values_nonneg _ (List.mem_map_of_mem mem)
  have get_eq : (sharesOf config.targetMix).get category =
      config.targetMix.get category / Numeric.sum config.targetMix.toList :=
    PerCategory.get_ofFn _ category
  obtain ⟨count_finite, count_nonneg, count_le⟩ :=
    count_share_bounds (get_le_total histogram category) some few
  obtain ⟨share_finite, share_nonneg, share_le⟩ :=
    weight_share_bounds accumulates total_pos (finite _ mem) (nonneg _ mem) weight_le
  have count_share_le : (histogram.get category / histogram.total : ℚ) ≤ 1 :=
    div_le_one_of_le₀ (by exact_mod_cast get_le_total histogram category) (Nat.cast_nonneg _)
  have weight_share_le : value (config.targetMix.get category) /
      (config.targetMix.toList.map value).sum ≤ 1 :=
    div_le_one_of_le₀ weight_le (List.sum_nonneg values_nonneg)
  have near : value (Float.ofNat (histogram.get category) / Float.ofNat histogram.total) +
      value (config.targetMix.get category / Numeric.sum config.targetMix.toList) ≤ 4 := by
    unfold unitError at count_le share_le
    linarith
  rw [difference, get_eq]
  obtain ⟨apart_finite, apart_nonneg, apart_le⟩ :=
    difference_bounds count_finite share_finite count_nonneg share_nonneg near
  exact ⟨apart_finite, apart_nonneg, apart_le.trans (add_le_add count_le share_le)⟩

/-- What is accepted is at most four last places above two apart. -/
theorem distance_bounds :
    (distance (sharesOf config.targetMix) histogram).isFinite = true ∧
      0 ≤ value (distance (sharesOf config.targetMix) histogram) ∧
      value (distance (sharesOf config.targetMix) histogram) ≤ 2 + 16 * unitError := by
  have each := difference_le valid some few
  have total_pos : (0 : ℚ) < histogram.total := by exact_mod_cast some
  have counts_eq : (Category.all.map fun category => (histogram.get category : ℚ)).sum =
      histogram.total := by
    rw [Histogram.total]
    simp only [Category.all, List.map_cons, List.map_nil, List.sum_cons, List.sum_nil,
      PerCategory.get]
    push_cast
    ring
  have weights_eq : (Category.all.map fun category => value (config.targetMix.get category)).sum =
      (config.targetMix.toList.map value).sum := by
    rw [PerCategory.toList, List.map_map]
    rfl
  have differences_le := (List.sum_le_sum fun category (_ : category ∈ Category.all) =>
    (each category).2.2).trans (sum_shares_le total_pos counts_eq weights_eq)
  have dyadic : IsDyadic (2 + 16 * unitError) :=
    ⟨0x4000000000001, -49, by decide, by decide, by norm_num [unitError]⟩
  have large := le_greatestPlace
  have near : 2 + 16 * unitError ≤ 0x10000000000000 * greatestPlace := by
    unfold unitError
    linarith
  refine sum_bounds (by decide : 2 ≤ Category.all.length)
    (List.forall_mem_map.mpr fun category _ => (each category).1)
    (List.forall_mem_map.mpr fun category _ => (each category).2.1) dyadic near ?_
  have stretch_pos : 0 ≤ (1 + unitError) ^ 3 := by norm_num [unitError]
  rw [List.map_map]
  calc _ ≤ (2 + 9 * unitError + 10 * unitError ^ 2) * (1 + unitError) ^ 3 :=
        mul_le_mul_of_nonneg_right differences_le stretch_pos
    _ ≤ 2 + 16 * unitError := by norm_num [unitError]

end Valid

/-! ## Scores -/

/-- What can be said of a score: it is a number that is at most one. It is negative only where the
distance has come out above two, and then by very little; empty cells take the program otherwise. -/
structure IsNearUnit (target : PerCategory Float) (histogram : Histogram) (score : Float) :
    Prop where
  finite : score.isFinite = true
  le_one : score ≤ 1
  least_le : -(1 / 2 ^ 50) ≤ value score
  of_neg : score < 0 → value score ≤ -(1 / 2 ^ 52)
  nonneg_iff : 0 ≤ score ↔ histogram.total = 0 ∨ distance target histogram ≤ 2
  accepts_iff : ∀ (archive : Archive) (cell : Nat) (program : Program),
    archive.occupant? cell = none →
      (archive.accepts cell { program, fitness := score } = true ↔
        histogram.total = 0 ∨ distance target histogram ≤ 2)

/-- The distance, halved. -/
theorem half_bounds (finite : x.isFinite = true) (nonneg : 0 ≤ value x)
    (le : value x ≤ 2 + 16 * unitError) :
    (0.5 * x).isFinite = true ∧ 0 ≤ value (0.5 * x) ∧ value (0.5 * x) ≤ 1 + 8 * unitError ∧
      (value x ≤ 2 → value (0.5 * x) ≤ 1) ∧
      (2 < value x → 1 + 2 * unitError ≤ value (0.5 * x)) := by
  have computes := computes_mul (by decide : (0.5 : Float).isFinite = true) finite
  have large := le_greatestPlace
  have most_dyadic : IsDyadic (1 + 8 * unitError) :=
    ⟨0x4000000000001, -50, by decide, by decide, by norm_num [unitError]⟩
  have next_dyadic : IsDyadic (1 + 2 * unitError) :=
    ⟨0x10000000000001, -52, by decide, by decide, by norm_num [unitError]⟩
  rw [value_half] at computes
  have half_finite := computes.isFinite (by
    unfold unitError at le
    rw [abs_of_nonneg (by positivity)]
    linarith)
  refine ⟨half_finite, computes.le_value half_finite isDyadic_zero (by positivity),
    computes.value_le half_finite most_dyadic (by linarith), fun within => ?_, fun beyond => ?_⟩
  · exact computes.value_le half_finite isDyadic_one (by linarith)
  · have next : 0x10000000000001 * 2 ^ (-51 : Int) ≤ value x :=
      (isDyadic_value finite).next_le (by norm_num; exact beyond)
    apply computes.le_value half_finite next_dyadic
    norm_num [unitError] at next ⊢
    linarith

/-- One minus the half. -/
theorem complement_bounds (finite : x.isFinite = true) (nonneg : 0 ≤ value x)
    (le : value x ≤ 1 + 8 * unitError) :
    (1 - x).isFinite = true ∧ value (1 - x) ≤ 1 ∧ -(1 / 2 ^ 50) ≤ value (1 - x) ∧
      (value x ≤ 1 → 0 ≤ value (1 - x)) ∧
      (1 + 2 * unitError ≤ value x → value (1 - x) ≤ -(1 / 2 ^ 52)) := by
  have computes := computes_sub (by decide : (1 : Float).isFinite = true) finite
  have large := le_greatestPlace
  have least_dyadic : IsDyadic (-(1 / 2 ^ 50)) :=
    ⟨-1, -50, by decide, by decide, by norm_num⟩
  have most_dyadic : IsDyadic (-(1 / 2 ^ 52)) :=
    ⟨-1, -52, by decide, by decide, by norm_num⟩
  unfold unitError at le ⊢
  rw [value_one] at computes
  have one_sub_finite := computes.isFinite (by
    rw [abs_le]
    constructor <;> linarith)
  refine ⟨one_sub_finite, computes.value_le one_sub_finite isDyadic_one (by linarith),
    computes.le_value one_sub_finite least_dyadic (by linarith), fun within => ?_,
    fun beyond => ?_⟩
  · exact computes.le_value one_sub_finite isDyadic_zero (by linarith)
  · exact computes.value_le one_sub_finite most_dyadic (by linarith)

/-- An empty cell asks for nothing else than a score that is not negative. -/
theorem accepts_iff_of_empty {archive : Archive} {cell : Nat} {scored : Scored}
    (empty : archive.occupant? cell = none) :
    archive.accepts cell scored = true ↔ 0 ≤ scored.fitness := by
  rw [Archive.accepts, empty, acceptsOver, decide_eq_true_iff]

/-- Where no instruction counts there is nothing to compare. -/
theorem isNearUnit_zero (none : histogram.total = 0) : IsNearUnit target histogram 0 where
  finite := by decide
  le_one := by decide
  least_le := by
    rw [value_zero]
    norm_num
  of_neg less := absurd less (by decide)
  nonneg_iff := iff_of_true (by decide) (.inl none)
  accepts_iff _ _ _ empty :=
    (accepts_iff_of_empty empty).trans (iff_of_true (by decide : (0 : Float) ≤ 0) (.inl none))

/-- The score of a distance that is not above two by more than four last places. -/
theorem isNearUnit_of_distance (total_ne : histogram.total ≠ 0)
    (distance_finite : (distance target histogram).isFinite = true)
    (distance_nonneg : 0 ≤ value (distance target histogram))
    (distance_le : value (distance target histogram) ≤ 2 + 16 * unitError) :
    IsNearUnit target histogram (1 - 0.5 * distance target histogram) := by
  have zero_finite : (0 : Float).isFinite = true := by decide
  have one_finite : (1 : Float).isFinite = true := by decide
  obtain ⟨half_finite, half_nonneg, half_le, half_within, half_beyond⟩ :=
    half_bounds distance_finite distance_nonneg distance_le
  obtain ⟨finite, le_one, least_le, within, beyond⟩ :=
    complement_bounds half_finite half_nonneg half_le
  have two_iff : distance target histogram ≤ 2 ↔ value (distance target histogram) ≤ 2 := by
    rw [le_iff_value_le distance_finite (by decide), value_two]
  have nonneg_iff : 0 ≤ 1 - 0.5 * distance target histogram ↔
      histogram.total = 0 ∨ distance target histogram ≤ 2 := by
    rw [le_iff_value_le zero_finite finite, value_zero, or_iff_right total_ne, two_iff]
    constructor
    · intro score_nonneg
      by_contra far
      have below := beyond (half_beyond (not_le.mp far))
      norm_num at below
      linarith
    · exact fun near => within (half_within near)
  refine ⟨finite, ?_, least_le, ?_, nonneg_iff, fun _ _ _ empty =>
    (accepts_iff_of_empty empty).trans nonneg_iff⟩
  · rwa [le_iff_value_le finite one_finite, value_one]
  · intro less
    rw [lt_iff_value_lt finite zero_finite, value_zero] at less
    apply beyond
    apply half_beyond
    by_contra near
    exact less.not_ge (within (half_within (not_lt.mp near)))

/-- Every score is near the unit interval. -/
theorem isNearUnit_score (valid : config.validate = .ok ())
    (few : histogram.total < 0x10000000000000000) :
    IsNearUnit (sharesOf config.targetMix) histogram
      (score (sharesOf config.targetMix) histogram) := by
  by_cases none : histogram.total = 0
  · rw [score, if_pos none]
    exact isNearUnit_zero none
  · rw [score_eq none]
    obtain ⟨finite, nonneg, le⟩ := distance_bounds valid (Nat.pos_of_ne_zero none) few
    exact isNearUnit_of_distance none finite nonneg le

/-- Whatever target has been accepted and however often it has judged before, the objective gives
programs scores near the unit interval in both tiers. -/
theorem scores_are_near_unit {config : SyntheticConfig} (valid : config.validate = .ok ())
    {program : Program} (countable : program.size < UInt64.size) (steps : Nat) :
    IsNearUnit (Objective.ofConfig config).target program.histogram
        (Evaluator.evaluate program { Objective.ofConfig config with steps }).1 ∧
      IsNearUnit (Objective.ofConfig config).target (Histogram.ofInstructions program.predict)
        (Evaluator.evaluateEarly program { Objective.ofConfig config with steps }).1 := by
  have all_le := total_ofInstructions_le program.instructions
  have predict_le := total_ofInstructions_le program.predict
  rw [Program.length_instructions] at all_le
  unfold Program.size at all_le countable
  constructor
  · exact isNearUnit_score valid (Nat.lt_of_le_of_lt all_le countable)
  · exact isNearUnit_score valid (Nat.lt_of_le_of_lt (by omega) countable)

/-- A target without arithmetic, whose other shares are not powers of two. -/
def withoutArithmetic : SyntheticConfig where
  setupSize := ⟨0, 1⟩
  predictSize := ⟨1, 2⟩
  learnSize := ⟨0, 1⟩
  addresses := 1
  targetMix := ⟨0, 1, 1, 6, 2⟩

/-- A program that does nothing else than arithmetic. -/
def onlyArithmetic : Program where
  setup := []
  predict := [⟨⟨1⟩, ⟨.scalar, 0⟩, []⟩]
  learn := []

theorem scores_are_near_unit_of_arithmetic :
    (withoutArithmetic.validate = .ok () ∧ onlyArithmetic.size < UInt64.size) ∧
      IsNearUnit (Objective.ofConfig withoutArithmetic).target onlyArithmetic.histogram
        (Evaluator.evaluate onlyArithmetic (Objective.ofConfig withoutArithmetic)).1 :=
  ⟨⟨rfl, by decide⟩, (scores_are_near_unit rfl (by decide) 0).1⟩

/-- A score can be negative: this program has nothing in common with the target and is given less
than nothing in both tiers, and no empty cell takes it. -/
theorem score_of_onlyArithmetic_lt_zero :
    withoutArithmetic.validate = .ok () ∧ onlyArithmetic.size = 1 ∧
    (Evaluator.evaluate onlyArithmetic (Objective.ofConfig withoutArithmetic)).1 < 0 ∧
    (Evaluator.evaluateEarly onlyArithmetic (Objective.ofConfig withoutArithmetic)).1 < 0 ∧
    ∀ (archive : Archive) (cell : Nat), archive.occupant? cell = none →
      archive.accepts cell
        { program := onlyArithmetic
          fitness := (Evaluator.evaluate onlyArithmetic
            (Objective.ofConfig withoutArithmetic)).1 } = false := by
  refine ⟨rfl, rfl, by decide +kernel, by decide +kernel, fun archive cell empty => ?_⟩
  rw [← Bool.not_eq_true, accepts_iff_of_empty empty]
  decide +kernel

end EvoSearch.Synthetic
