/-
# What diversity says

The sum of the distances of a program to all others is worked out in words and then held by a float.
As long as these sums stay below 2^53 both are exact. So what a program is given depends on the
features that occur, and neither on their order nor on where the scale of instructions or variables
begins.

The scores put the sums on a scale from zero to one. They are quotients that are rounded, but the
sums are far enough apart for this to do no harm: different quotients of numbers below 2^53 stay
different, and the ends of the scale are reached by the least and the greatest sum only. What is
shown of the rounded scores is shown of the exact quotients too.
-/

import EvoSearch.Diversity
import EvoSearch.Proofs.Arithmetic
import EvoSearch.Proofs.Generation

namespace EvoSearch

open Numeric

variable {features others : List Features} {totals : List Nat} {lo hi m n : Nat} {x y : Float}

/-! ## Sums of distances -/

namespace Features

/-- How far two programs are apart, in numbers of instructions and of variables. -/
def apart (a b : Features) : Nat :=
  ((a.ops.toNat : Int) - b.ops.toNat).natAbs + ((a.vars.toNat : Int) - b.vars.toNat).natAbs

/-- The sum of the distances to all. -/
def totalApart (features : List Features) (a : Features) : Nat :=
  (features.map a.apart).sum

/-- As many instructions and variables more as another one has. -/
def shift (a more : Features) : Features where
  ops := a.ops + more.ops
  vars := a.vars + more.vars

theorem toNat_gap (a b : UInt64) : (gap a b).toNat = ((a.toNat : Int) - b.toNat).natAbs := by
  unfold gap
  split
  next le =>
    have le' := UInt64.le_iff_toNat_le.mp le
    rw [UInt64.toNat_sub_of_le b a le]
    omega
  next above =>
    have le' : b.toNat ≤ a.toNat := by
      have := mt UInt64.le_iff_toNat_le.mpr above
      omega
    rw [UInt64.toNat_sub_of_le a b (UInt64.le_iff_toNat_le.mpr le')]
    omega

theorem toNat_distance {a b : Features} (few : a.apart b < 2 ^ 64) :
    (distance a b).toNat = a.apart b := by
  unfold apart at few
  rw [distance, UInt64.toNat_add, toNat_gap, toNat_gap, apart, Nat.mod_eq_of_lt few]

/-- In words, the sum is exact as long as it fits into one. -/
theorem toNat_foldl_distance (a : Features) (row : List Features) (start : UInt64)
    (few : start.toNat + totalApart row a < 2 ^ 64) :
    (row.foldl (fun total b => total + distance a b) start).toNat =
      start.toNat + totalApart row a := by
  induction row generalizing start with
  | nil => rfl
  | cons b row ih =>
    have split : totalApart (b :: row) a = a.apart b + totalApart row a := List.sum_cons
    rw [split] at few
    have next : (start + distance a b).toNat = start.toNat + a.apart b := by
      rw [UInt64.toNat_add, toNat_distance (by omega), Nat.mod_eq_of_lt (by omega)]
    rw [List.foldl_cons, ih _ (by omega), next, split, Nat.add_assoc]

/-- The order of the others is of no account. -/
theorem totalApart_perm (perm : others.Perm features) : totalApart others = totalApart features :=
  funext fun a => (perm.map a.apart).sum_eq

/-- The distances stay the same when all are moved by the same amounts. -/
theorem totalApart_shift {more : Features} (fits : ∀ a ∈ features,
      a.ops.toNat + more.ops.toNat < 2 ^ 64 ∧ a.vars.toNat + more.vars.toNat < 2 ^ 64)
    {a : Features} (a_mem : a ∈ features) :
    totalApart (features.map (·.shift more)) (a.shift more) = totalApart features a := by
  have moved (b : Features) (b_mem : b ∈ features) :
      (b.shift more).ops.toNat = b.ops.toNat + more.ops.toNat ∧
        (b.shift more).vars.toNat = b.vars.toNat + more.vars.toNat := by
    obtain ⟨ops_fit, vars_fit⟩ := fits b b_mem
    constructor
    · exact (UInt64.toNat_add ..).trans (Nat.mod_eq_of_lt ops_fit)
    · exact (UInt64.toNat_add ..).trans (Nat.mod_eq_of_lt vars_fit)
  unfold totalApart
  rw [List.map_map]
  congr 1
  apply List.map_congr_left
  intro b b_mem
  obtain ⟨a_ops, a_vars⟩ := moved a a_mem
  obtain ⟨b_ops, b_vars⟩ := moved b b_mem
  simp only [Function.comp, apart, a_ops, a_vars, b_ops, b_vars]
  omega

end Features

open Features

/-- All sums of distances have at most as many bits as a mantissa. -/
def IsModest (features : List Features) : Prop :=
  ∀ a ∈ features, totalApart features a < 0x20000000000000

instance (features : List Features) : Decidable (IsModest features) :=
  inferInstanceAs (Decidable (∀ a ∈ features, _))

/-- The float that holds a natural number. -/
def held (n : Nat) : Float :=
  (UInt64.ofNat n).toFloat

theorem isFinite_held (n : Nat) : (held n).isFinite = true :=
  isFinite_toFloat _

theorem value_held (few : n < 0x20000000000000) : value (held n) = n := by
  have word : (UInt64.ofNat n).toNat = n := UInt64.toNat_ofNat_of_lt (Nat.lt_trans few (by decide))
  rw [held, value_toFloat (by omega), word]

theorem held_lt_iff (m_few : m < 0x20000000000000) (n_few : n < 0x20000000000000) :
    held m < held n ↔ m < n := by
  rw [lt_iff_value_lt (isFinite_held m) (isFinite_held n), value_held m_few, value_held n_few,
    Nat.cast_lt]

theorem held_le_iff (m_few : m < 0x20000000000000) (n_few : n < 0x20000000000000) :
    held m ≤ held n ↔ m ≤ n := by
  rw [le_iff_value_le (isFinite_held m) (isFinite_held n), value_held m_few, value_held n_few,
    Nat.cast_le]

theorem held_inj (m_few : m < 0x20000000000000) (n_few : n < 0x20000000000000) :
    held m = held n ↔ m = n := by
  constructor
  · intro same
    have values := congrArg value same
    rw [value_held m_few, value_held n_few] at values
    exact_mod_cast values
  · exact congrArg held

theorem rawDiversity_eq (modest : IsModest features) :
    rawDiversity features = (features.map (totalApart features)).map held := by
  rw [rawDiversity, List.map_map]
  apply List.map_congr_left
  intro a a_mem
  have few := modest a a_mem
  have exact := toNat_foldl_distance a features 0 (by
    rw [UInt64.toNat_zero]
    omega)
  rw [UInt64.toNat_zero, Nat.zero_add] at exact
  rw [Function.comp, held, ← exact, UInt64.ofNat_toNat]

/-! ## The ends of the scale -/

/-- The least and the greatest of some numbers. -/
structure Spans (totals : List Nat) (lo hi : Nat) : Prop where
  lo_mem : lo ∈ totals
  hi_mem : hi ∈ totals
  lo_le : ∀ n ∈ totals, lo ≤ n
  le_hi : ∀ n ∈ totals, n ≤ hi

theorem Spans.perm {row : List Nat} (spans : Spans totals lo hi) (perm : row.Perm totals) :
    Spans row lo hi where
  lo_mem := perm.mem_iff.mpr spans.lo_mem
  hi_mem := perm.mem_iff.mpr spans.hi_mem
  lo_le := fun n n_mem => spans.lo_le n (perm.mem_iff.mp n_mem)
  le_hi := fun n n_mem => spans.le_hi n (perm.mem_iff.mp n_mem)

theorem smaller_held (m_few : m < 0x20000000000000) (n_few : n < 0x20000000000000) :
    smaller (held m) (held n) = held (min m n) := by
  have number := not_isNaN_of_isFinite (isFinite_held m)
  simp only [smaller, number, Bool.false_or, decide_eq_true_iff, held_lt_iff n_few m_few]
  split
  next below => rw [Nat.min_eq_right (Nat.le_of_lt below)]
  next above => rw [Nat.min_eq_left (Nat.le_of_not_lt above)]

theorem larger_held (m_few : m < 0x20000000000000) (n_few : n < 0x20000000000000) :
    larger (held m) (held n) = held (max m n) := by
  have number := not_isNaN_of_isFinite (isFinite_held m)
  simp only [larger, number, Bool.false_or, decide_eq_true_iff, held_lt_iff m_few n_few]
  split
  next below => rw [Nat.max_eq_right (Nat.le_of_lt below)]
  next above => rw [Nat.max_eq_left (Nat.le_of_not_lt above)]

theorem smaller_infinity (finite : x.isFinite = true) : smaller infinity x = x := by
  have below : x < infinity := by
    rw [lt_iff, height_infinity]
    exact ⟨not_isNaN_of_isFinite finite, by decide, (isFinite_iff.mp finite).2⟩
  rw [smaller, decide_eq_true below, Bool.or_true, if_pos rfl]

theorem larger_neg_infinity (finite : x.isFinite = true) : larger (-infinity) x = x := by
  have above : -infinity < x := by
    rw [lt_iff]
    exact ⟨by decide, not_isNaN_of_isFinite finite, (isFinite_iff.mp finite).1⟩
  rw [larger, decide_eq_true above, Bool.or_true, if_pos rfl]

/-- A choice among floats that hold numbers is a choice among the numbers, if it is so for two. -/
theorem foldl_held {choose : Float → Float → Float} {chooseNat : Nat → Nat → Nat}
    (agree : ∀ {m n}, m < 0x20000000000000 → n < 0x20000000000000 →
      choose (held m) (held n) = held (chooseNat m n) ∧ chooseNat m n < 0x20000000000000)
    {row : List Nat} (n_few : n < 0x20000000000000) (few : ∀ m ∈ row, m < 0x20000000000000) :
    (row.map held).foldl choose (held n) = held (row.foldl chooseNat n) := by
  induction row generalizing n with
  | nil => rfl
  | cons m row ih =>
    obtain ⟨m_few, row_few⟩ := List.forall_mem_cons.mp few
    obtain ⟨step_eq, step_few⟩ := agree n_few m_few
    rw [List.map_cons, List.foldl_cons, List.foldl_cons, step_eq, ih step_few row_few]

/-- The ends of the scale are those of the sums. -/
theorem exists_spans (totals_ne : totals ≠ []) (few : ∀ n ∈ totals, n < 0x20000000000000) :
    ∃ lo hi, Spans totals lo hi ∧
      (totals.map held).foldl smaller infinity = held lo ∧
      (totals.map held).foldl larger (-infinity) = held hi := by
  rcases totals with _ | ⟨n, row⟩
  · exact absurd rfl totals_ne
  · obtain ⟨n_few, row_few⟩ := List.forall_mem_cons.mp few
    have least : (n :: row).min? = some (row.foldl min n) := List.min?_cons'
    have greatest : (n :: row).max? = some (row.foldl max n) := List.max?_cons'
    obtain ⟨lo_mem, lo_le⟩ := List.min?_eq_some_iff.mp least
    obtain ⟨hi_mem, le_hi⟩ := List.max?_eq_some_iff.mp greatest
    refine ⟨row.foldl min n, row.foldl max n, ⟨lo_mem, hi_mem, lo_le, le_hi⟩, ?_, ?_⟩
    · rw [List.map_cons, List.foldl_cons, smaller_infinity (isFinite_held n),
        foldl_held (fun m_few n_few => ⟨smaller_held m_few n_few, by omega⟩) n_few row_few]
    · rw [List.map_cons, List.foldl_cons, larger_neg_infinity (isFinite_held n),
        foldl_held (fun m_few n_few => ⟨larger_held m_few n_few, by omega⟩) n_few row_few]

namespace Spans

variable (spans : Spans totals lo hi) (few : ∀ n ∈ totals, n < 0x20000000000000)
include spans few

/-- There is nothing to tell apart if the ends are the same. -/
theorem all_held_eq_iff :
    (∀ r ∈ totals.map held, ∀ other ∈ totals.map held, r = other) ↔ hi ≤ lo := by
  simp only [List.forall_mem_map]
  constructor
  · intro same
    have ends := same hi spans.hi_mem lo spans.lo_mem
    exact Nat.le_of_eq ((held_inj (few hi spans.hi_mem) (few lo spans.lo_mem)).mp ends)
  · intro degenerate m m_mem n n_mem
    have := spans.lo_le m m_mem
    have := spans.le_hi m m_mem
    have := spans.lo_le n n_mem
    have := spans.le_hi n n_mem
    exact congrArg held (by omega)

theorem held_least_iff (n_mem : n ∈ totals) : (∀ m ∈ totals, held n ≤ held m) ↔ n = lo := by
  have lo_le := spans.lo_le n n_mem
  constructor
  · intro least
    have le := (held_le_iff (few n n_mem) (few lo spans.lo_mem)).mp (least lo spans.lo_mem)
    omega
  · rintro rfl m m_mem
    exact (held_le_iff (few n n_mem) (few m m_mem)).mpr (spans.lo_le m m_mem)

theorem held_greatest_iff (n_mem : n ∈ totals) : (∀ m ∈ totals, held m ≤ held n) ↔ n = hi := by
  have le_hi := spans.le_hi n n_mem
  constructor
  · intro greatest
    have le := (held_le_iff (few hi spans.hi_mem) (few n n_mem)).mp (greatest hi spans.hi_mem)
    omega
  · rintro rfl m m_mem
    exact (held_le_iff (few m m_mem) (few n n_mem)).mpr (spans.le_hi m m_mem)

end Spans

/-! ## The scale -/

/-- Scores put numbers on a scale. They are all zero where there is nothing to tell apart; otherwise
they go from zero to one, the ends are where the numbers have theirs, and the order is kept. -/
structure IsScale {α β : Type} [LE α] [LT α] [LE β] [LT β] [OfNat β 0] [OfNat β 1] (raw : List α)
    (scores : List β) : Prop where
  length_eq : scores.length = raw.length
  zeros : (∀ s ∈ scores, s = 0) ↔ ∀ r ∈ raw, ∀ other ∈ raw, r = other
  bounds : (¬ ∀ r ∈ raw, ∀ other ∈ raw, r = other) → ∀ s ∈ scores, 0 ≤ s ∧ s ≤ 1
  zero_iff : (¬ ∀ r ∈ raw, ∀ other ∈ raw, r = other) →
    ∀ graded ∈ raw.zip scores, graded.2 = 0 ↔ ∀ r ∈ raw, graded.1 ≤ r
  one_iff : (¬ ∀ r ∈ raw, ∀ other ∈ raw, r = other) →
    ∀ graded ∈ raw.zip scores, graded.2 = 1 ↔ ∀ r ∈ raw, r ≤ graded.1
  lt_iff : (¬ ∀ r ∈ raw, ∀ other ∈ raw, r = other) →
    ∀ graded ∈ raw.zip scores, ∀ other ∈ raw.zip scores, graded.1 < other.1 ↔ graded.2 < other.2

/-- A score of natural numbers that has its ends at two of them. -/
structure ScoresBetween {β : Type} [LE β] [LT β] [OfNat β 0] [OfNat β 1] (lo hi : Nat)
    (score : Nat → β) : Prop where
  degenerate : hi ≤ lo → ∀ n, score n = 0
  bounds : lo < hi → ∀ n, lo ≤ n → n ≤ hi → 0 ≤ score n ∧ score n ≤ 1
  zero_iff : lo < hi → ∀ n, lo ≤ n → n ≤ hi → (score n = 0 ↔ n = lo)
  one_iff : lo < hi → ∀ n, lo ≤ n → n ≤ hi → (score n = 1 ↔ n = hi)
  lt_iff : lo < hi → ∀ m n, lo ≤ m → m ≤ hi → lo ≤ n → n ≤ hi → (m < n ↔ score m < score n)

/-- A score with its ends at the least and the greatest of some numbers puts them on a scale. -/
theorem ScoresBetween.isScale {β : Type} [LE β] [LT β] [OfNat β 0] [OfNat β 1] {score : Nat → β}
    (between : ScoresBetween lo hi score) (spans : Spans totals lo hi)
    (few : ∀ n ∈ totals, n < 0x20000000000000) :
    IsScale (totals.map held) (totals.map score) := by
  refine ⟨by rw [List.length_map, List.length_map], ?_, ?_, ?_, ?_, ?_⟩
  · rw [spans.all_held_eq_iff few, List.forall_mem_map]
    constructor
    · intro zeros
      by_contra apart
      have lt := Nat.lt_of_not_le apart
      have hi_eq := (between.zero_iff lt hi (Nat.le_of_lt lt) le_rfl).mp (zeros hi spans.hi_mem)
      omega
    · intro degenerate n _
      exact between.degenerate degenerate n
  all_goals rw [spans.all_held_eq_iff few, Nat.not_le]
  all_goals intro lt
  all_goals simp only [List.zip_map', List.forall_mem_map]
  · intro n n_mem
    exact between.bounds lt n (spans.lo_le n n_mem) (spans.le_hi n n_mem)
  · intro n n_mem
    rw [spans.held_least_iff few n_mem]
    exact between.zero_iff lt n (spans.lo_le n n_mem) (spans.le_hi n n_mem)
  · intro n n_mem
    rw [spans.held_greatest_iff few n_mem]
    exact between.one_iff lt n (spans.lo_le n n_mem) (spans.le_hi n n_mem)
  · intro m m_mem n n_mem
    rw [held_lt_iff (few m m_mem) (few n n_mem)]
    exact between.lt_iff lt m n (spans.lo_le m m_mem) (spans.le_hi m m_mem) (spans.lo_le n n_mem)
      (spans.le_hi n n_mem)

/-- The place of a number between two others, as an exact quotient. -/
def exactBetween (lo hi n : Nat) : ℚ :=
  if hi ≤ lo then 0 else (n - lo : Nat) / (hi - lo : Nat)

theorem scoresBetween_exactBetween (lo hi : Nat) : ScoresBetween lo hi (exactBetween lo hi) := by
  refine ⟨fun degenerate n => if_pos degenerate, ?_, ?_, ?_, ?_⟩
  all_goals intro lt
  all_goals have range_pos : (0 : ℚ) < (hi - lo : Nat) := by exact_mod_cast Nat.sub_pos_of_lt lt
  all_goals unfold exactBetween
  all_goals simp only [if_neg (Nat.not_le_of_lt lt)]
  · intro n lo_le le_hi
    have le : ((n - lo : Nat) : ℚ) ≤ (hi - lo : Nat) := by exact_mod_cast (by omega)
    exact ⟨by positivity, (div_le_one range_pos).mpr le⟩
  · intro n lo_le le_hi
    rw [div_eq_zero_iff, or_iff_left range_pos.ne', Nat.cast_eq_zero]
    omega
  · intro n lo_le le_hi
    rw [div_eq_one_iff_eq range_pos.ne', Nat.cast_inj]
    omega
  · intro m n lo_le_m _ lo_le_n _
    rw [div_lt_div_iff_of_pos_right range_pos, Nat.cast_lt]
    omega

/-- The place of a number between two others, as the search computes it. -/
def scoreBetween (lo hi n : Nat) : Float :=
  if hi ≤ lo then 0 else (held n - held lo) / (held hi - held lo)

/-- Differences of the numbers are exact. -/
theorem value_held_sub (le : m ≤ n) (few : n < 0x20000000000000) :
    (held n - held m).isFinite = true ∧ value (held n - held m) = (n - m : Nat) := by
  have computes := computes_sub (isFinite_held n) (isFinite_held m)
  rw [value_held few, value_held (Nat.lt_of_le_of_lt le few), ← Nat.cast_sub le] at computes
  have dyadic : IsDyadic (n - m : Nat) := isDyadic_natCast (by omega)
  have finite := computes.isFinite (abs_natCast_le_greatest (by omega))
  exact ⟨finite, computes.value_eq finite dyadic⟩

/-- Different quotients are not near each other. -/
theorem exactBetween_add_le (few : hi < 0x20000000000000) (lo_le : lo ≤ m) (less : m < n)
    (le_hi : n ≤ hi) :
    exactBetween lo hi m + 1 / 0x20000000000000 < exactBetween lo hi n := by
  have range_pos : (0 : ℚ) < (hi - lo : Nat) := by exact_mod_cast (by omega : 0 < hi - lo)
  have range_few : ((hi - lo : Nat) : ℚ) < 0x20000000000000 := by
    exact_mod_cast (by omega : hi - lo < 0x20000000000000)
  have step : ((m - lo : Nat) + 1 : ℚ) ≤ (n - lo : Nat) := by
    exact_mod_cast (by omega : m - lo + 1 ≤ n - lo)
  have not_le : ¬ hi ≤ lo := by omega
  rw [exactBetween, exactBetween, if_neg not_le, if_neg not_le]
  calc ((m - lo : Nat) / (hi - lo : Nat) + 1 / 0x20000000000000 : ℚ)
      < (m - lo : Nat) / (hi - lo : Nat) + 1 / (hi - lo : Nat) := by gcongr
    _ = ((m - lo : Nat) + 1) / (hi - lo : Nat) := by rw [add_div]
    _ ≤ (n - lo : Nat) / (hi - lo : Nat) := by gcongr

section Rounded

variable (lt : lo < hi) (few : hi < 0x20000000000000) (lo_le : lo ≤ n) (le_hi : n ≤ hi)
include lt few lo_le le_hi

/-- The score is the exact quotient, rounded. -/
theorem computes_scoreBetween : Computes (exactBetween lo hi n) (scoreBetween lo hi n) := by
  obtain ⟨range_finite, range_value⟩ := value_held_sub (Nat.le_of_lt lt) few
  obtain ⟨finite, sub_value⟩ := value_held_sub lo_le (Nat.lt_of_le_of_lt le_hi few)
  have range_ne : ((hi - lo : Nat) : ℚ) ≠ 0 := by exact_mod_cast (by omega : hi - lo ≠ 0)
  have computes := computes_div finite range_finite (range_value ▸ range_ne)
  rw [range_value, sub_value] at computes
  rwa [scoreBetween, exactBetween, if_neg (Nat.not_le_of_lt lt), if_neg (Nat.not_le_of_lt lt)]

theorem isFinite_scoreBetween : (scoreBetween lo hi n).isFinite = true := by
  apply (computes_scoreBetween lt few lo_le le_hi).isFinite
  obtain ⟨nonneg, le_one⟩ := (scoresBetween_exactBetween lo hi).bounds lt n lo_le le_hi
  have large := le_greatestPlace
  rw [abs_of_nonneg nonneg]
  linarith

/-- The last place of numbers below one is enough to tell quotients apart. -/
theorem abs_value_scoreBetween_sub_le :
    |value (scoreBetween lo hi n) - exactBetween lo hi n| ≤ 1 / 0x40000000000000 := by
  obtain ⟨exponent, rounds⟩ := (computes_scoreBetween lt few lo_le le_hi).rounds
    (isFinite_scoreBetween lt few lo_le le_hi)
  obtain ⟨nonneg, le_one⟩ := (scoresBetween_exactBetween lo hi).bounds lt n lo_le le_hi
  exact rounds.abs_sub_le_of_le_one (by rwa [abs_of_nonneg nonneg])

theorem value_scoreBetween_lt (lo_le_m : lo ≤ m) (less : m < n) :
    value (scoreBetween lo hi m) < value (scoreBetween lo hi n) := by
  have le_hi_m : m ≤ hi := by omega
  have above := (abs_le.mp (abs_value_scoreBetween_sub_le lt few lo_le_m le_hi_m)).2
  have below := (abs_le.mp (abs_value_scoreBetween_sub_le lt few lo_le le_hi)).1
  have gap := exactBetween_add_le few lo_le_m less le_hi
  linarith

end Rounded

theorem scoreBetween_lo (lt : lo < hi) (few : hi < 0x20000000000000) :
    scoreBetween lo hi lo = 0 := by
  obtain ⟨range_finite, range_value⟩ := value_held_sub (Nat.le_of_lt lt) few
  have range_pos : (0 : ℚ) < (hi - lo : Nat) := by exact_mod_cast Nat.sub_pos_of_lt lt
  rw [scoreBetween, if_neg (Nat.not_le_of_lt lt), sub_self_of_isFinite (isFinite_held lo),
    zero_div_of_pos range_finite (range_value ▸ range_pos)]

theorem scoreBetween_hi (lt : lo < hi) (few : hi < 0x20000000000000) :
    scoreBetween lo hi hi = 1 := by
  have le := Nat.le_of_lt lt
  have computes := computes_scoreBetween lt few le le_rfl
  have finite := isFinite_scoreBetween lt few le le_rfl
  have exact_one := ((scoresBetween_exactBetween lo hi).one_iff lt hi le le_rfl).mpr rfl
  rw [exact_one] at computes
  have value_eq := computes.value_eq finite isDyadic_one
  exact eq_of_value_eq finite (by decide) (value_eq.trans value_one.symm) (value_one ▸ one_ne_zero)

theorem scoresBetween_scoreBetween (few : hi < 0x20000000000000) :
    ScoresBetween lo hi (scoreBetween lo hi) := by
  refine ⟨fun degenerate n => if_pos degenerate, ?_, ?_, ?_, ?_⟩
  all_goals intro lt
  · intro n lo_le le_hi
    have computes := computes_scoreBetween lt few lo_le le_hi
    have finite := isFinite_scoreBetween lt few lo_le le_hi
    obtain ⟨nonneg, le_one⟩ := (scoresBetween_exactBetween lo hi).bounds lt n lo_le le_hi
    constructor
    · exact (le_iff_value_le (by decide) finite).mpr (computes.le_value finite isDyadic_zero nonneg)
    · rw [le_iff_value_le finite (by decide), value_one]
      exact computes.value_le finite isDyadic_one le_one
  · intro n lo_le le_hi
    refine ⟨fun zero => ?_, by rintro rfl; exact scoreBetween_lo lt few⟩
    by_contra above
    have less := value_scoreBetween_lt lt few lo_le le_hi le_rfl (by omega : lo < n)
    rw [zero, scoreBetween_lo lt few] at less
    exact lt_irrefl _ less
  · intro n lo_le le_hi
    refine ⟨fun one => ?_, by rintro rfl; exact scoreBetween_hi lt few⟩
    by_contra below
    have less := value_scoreBetween_lt lt few (Nat.le_of_lt lt) le_rfl lo_le (by omega : n < hi)
    rw [one, scoreBetween_hi lt few] at less
    exact lt_irrefl _ less
  · intro m n lo_le_m m_le_hi lo_le_n n_le_hi
    rw [lt_iff_value_lt (isFinite_scoreBetween lt few lo_le_m m_le_hi)
      (isFinite_scoreBetween lt few lo_le_n n_le_hi)]
    refine ⟨value_scoreBetween_lt lt few lo_le_n n_le_hi lo_le_m, fun less => ?_⟩
    by_contra above
    rcases (Nat.le_of_not_lt above).lt_or_eq with greater | same
    · exact less.not_gt (value_scoreBetween_lt lt few lo_le_m m_le_hi lo_le_n greater)
    · exact less.ne (congrArg (fun n => value (scoreBetween lo hi n)) same.symm)

/-! ## The scores of a population -/

/-- The scores, with the last of the divisions left exact. -/
def exactDiversity (features : List Features) : List ℚ :=
  let raw := rawDiversity features
  let least := raw.foldl smaller infinity
  let most := raw.foldl larger (-infinity)
  let range := most - least
  if range ≤ 0 then raw.map fun _ => 0 else raw.map fun x => value (x - least) / value range

theorem foldl_eq_of_spans (spans : Spans totals lo hi)
    (few : ∀ n ∈ totals, n < 0x20000000000000) :
    (totals.map held).foldl smaller infinity = held lo ∧
      (totals.map held).foldl larger (-infinity) = held hi := by
  have totals_ne : totals ≠ [] := List.ne_nil_of_mem spans.lo_mem
  obtain ⟨least, greatest, others, least_eq, greatest_eq⟩ := exists_spans totals_ne few
  have least_same : least = lo :=
    Nat.le_antisymm (others.lo_le lo spans.lo_mem) (spans.lo_le least others.lo_mem)
  have greatest_same : greatest = hi :=
    Nat.le_antisymm (spans.le_hi greatest others.hi_mem) (others.le_hi hi spans.hi_mem)
  exact ⟨least_same ▸ least_eq, greatest_same ▸ greatest_eq⟩

/-- The computed range is empty if the ends are the same. -/
theorem range_le_zero_iff (le : lo ≤ hi) (few : hi < 0x20000000000000) :
    held hi - held lo ≤ 0 ↔ hi ≤ lo := by
  obtain ⟨finite, sub_value⟩ := value_held_sub le few
  rw [le_iff_value_le finite (by decide), sub_value, value_zero]
  constructor
  · intro none
    have : hi - lo ≤ 0 := by exact_mod_cast none
    omega
  · intro degenerate
    have : hi - lo ≤ 0 := by omega
    exact_mod_cast this

section Modest

variable (modest : IsModest features) (spans : Spans (features.map (totalApart features)) lo hi)
include modest

theorem few_totals : ∀ n ∈ features.map (totalApart features), n < 0x20000000000000 :=
  List.forall_mem_map.mpr modest

include spans

theorem normalizedDiversity_eq : normalizedDiversity features =
    (features.map (totalApart features)).map (scoreBetween lo hi) := by
  have few := few_totals modest
  obtain ⟨least_eq, most_eq⟩ := foldl_eq_of_spans spans few
  have range_iff := range_le_zero_iff (spans.le_hi lo spans.lo_mem) (few hi spans.hi_mem)
  simp only [normalizedDiversity, rawDiversity_eq modest, least_eq, most_eq, range_iff]
  split
  next degenerate =>
    rw [List.map_map]
    exact List.map_congr_left fun n _ => (if_pos degenerate).symm
  next apart =>
    rw [List.map_map]
    exact List.map_congr_left fun n _ => (if_neg apart).symm

theorem exactDiversity_eq :
    exactDiversity features = (features.map (totalApart features)).map (exactBetween lo hi) := by
  have few := few_totals modest
  have lo_le_hi := spans.le_hi lo spans.lo_mem
  obtain ⟨least_eq, most_eq⟩ := foldl_eq_of_spans spans few
  have range_iff := range_le_zero_iff lo_le_hi (few hi spans.hi_mem)
  simp only [exactDiversity, rawDiversity_eq modest, least_eq, most_eq, range_iff]
  split
  next degenerate =>
    rw [List.map_map]
    exact List.map_congr_left fun n _ => (if_pos degenerate).symm
  next apart =>
    rw [List.map_map]
    refine List.map_congr_left fun n n_mem => ?_
    rw [Function.comp, exactBetween, if_neg apart,
      (value_held_sub (spans.lo_le n n_mem) (few n n_mem)).2,
      (value_held_sub lo_le_hi (few hi spans.hi_mem)).2]

end Modest

theorem IsModest.perm (modest : IsModest features) (perm : others.Perm features) :
    IsModest others := by
  intro a a_mem
  rw [totalApart_perm perm]
  exact modest a (perm.mem_iff.mp a_mem)

/-- Whatever has the same features has the same scores, wherever it stands. -/
theorem scores_of_perm (modest : IsModest features) (perm : others.Perm features) {i j : Nat}
    (same : others[i]? = features[j]?) :
    (rawDiversity others)[i]? = (rawDiversity features)[j]? ∧
      (normalizedDiversity others)[i]? = (normalizedDiversity features)[j]? := by
  have total_eq := totalApart_perm perm
  have raw_eq := rawDiversity_eq (modest.perm perm)
  rw [total_eq] at raw_eq
  constructor
  · rw [raw_eq, rawDiversity_eq modest]
    simp only [List.getElem?_map, same]
  · by_cases empty : features = []
    · obtain rfl := empty
      obtain rfl := perm.eq_nil
      rfl
    · have totals_ne : features.map (totalApart features) ≠ [] := mt List.map_eq_nil_iff.mp empty
      obtain ⟨lo, hi, spans, _⟩ := exists_spans totals_ne (few_totals modest)
      have normalized_eq := normalizedDiversity_eq (modest.perm perm)
        (by rw [total_eq]; exact spans.perm (perm.map _))
      rw [total_eq] at normalized_eq
      rw [normalized_eq, normalizedDiversity_eq modest spans]
      simp only [List.getElem?_map, same]

/-- Only differences count. -/
theorem rawDiversity_shift {more : Features} (modest : IsModest features)
    (fits : ∀ a ∈ features,
      a.ops.toNat + more.ops.toNat < 2 ^ 64 ∧ a.vars.toNat + more.vars.toNat < 2 ^ 64) :
    rawDiversity (features.map (·.shift more)) = rawDiversity features := by
  have shifted_modest : IsModest (features.map (·.shift more)) := by
    rw [IsModest, List.forall_mem_map]
    intro a a_mem
    rw [totalApart_shift fits a_mem]
    exact modest a a_mem
  have totals_eq : (features.map (·.shift more)).map (totalApart (features.map (·.shift more))) =
      features.map (totalApart features) := by
    rw [List.map_map]
    exact List.map_congr_left fun a a_mem => totalApart_shift fits a_mem
  rw [rawDiversity_eq modest, rawDiversity_eq shifted_modest, totals_eq]

theorem normalizedDiversity_congr (same : rawDiversity others = rawDiversity features) :
    normalizedDiversity others = normalizedDiversity features := by
  unfold normalizedDiversity
  rw [same]

/-- The scores are a scale, whether or not the last division is rounded. -/
theorem isScale_diversity (modest : IsModest features) :
    IsScale (rawDiversity features) (exactDiversity features) ∧
      IsScale (rawDiversity features) (normalizedDiversity features) ∧
      List.Forall₂ Computes (exactDiversity features) (normalizedDiversity features) := by
  by_cases empty : features = []
  · obtain rfl := empty
    have none : normalizedDiversity [] = [] := by simp [normalizedDiversity, rawDiversity]
    have none_exact : exactDiversity [] = [] := by simp [exactDiversity, rawDiversity]
    rw [none, none_exact]
    refine ⟨?_, ?_, .nil⟩ <;> constructor <;> simp [rawDiversity]
  · have few := few_totals modest
    have totals_ne : features.map (totalApart features) ≠ [] := mt List.map_eq_nil_iff.mp empty
    obtain ⟨lo, hi, spans, _⟩ := exists_spans totals_ne few
    have hi_few := few hi spans.hi_mem
    rw [rawDiversity_eq modest, exactDiversity_eq modest spans, normalizedDiversity_eq modest spans]
    refine ⟨(scoresBetween_exactBetween lo hi).isScale spans few,
      (scoresBetween_scoreBetween hi_few).isScale spans few, ?_⟩
    rw [List.forall₂_map_left_iff, List.forall₂_map_right_iff, List.forall₂_same]
    intro n n_mem
    rcases Nat.lt_or_ge lo hi with lt | degenerate
    · exact computes_scoreBetween lt hi_few (spans.lo_le n n_mem) (spans.le_hi n n_mem)
    · rw [exactBetween, scoreBetween, if_pos degenerate, if_pos degenerate]
      exact computes_zero

namespace Population

variable {population : Population}

theorem slot?_scoreDiversity_none {index : Nat} (missing : population.slot? index = none) :
    population.scoreDiversity.slot? index = none := by
  rw [slot?, Array.getElem?_eq_none_iff] at missing ⊢
  exact (Nat.le_of_eq size_scoreDiversity).trans missing

/-- Scores have no part in what is scored. -/
theorem features_scoreDiversity : population.scoreDiversity.features = population.features := by
  apply List.ext_getElem?
  intro index
  have told (population : Population) : population.features[index]? =
      (population.slot? index).map fun slot => Features.ofProgram slot.program := by
    rw [features, List.getElem?_map, slot?, Array.getElem?_toList]
  rw [told, told]
  cases found : population.slot? index with
  | none => rw [slot?_scoreDiversity_none found]
  | some slot =>
    obtain ⟨score, _, scored⟩ := slot?_scoreDiversity found
    rw [scored]
    rfl

/-- To score again changes nothing. -/
theorem scoreDiversity_scoreDiversity :
    population.scoreDiversity.scoreDiversity = population.scoreDiversity := by
  have ext {first second : Population} (same : ∀ index, first.slot? index = second.slot? index) :
      first = second := by
    cases first
    cases second
    exact congrArg Population.mk (Array.ext_getElem? same)
  apply ext
  intro index
  cases found : population.slot? index with
  | none => rw [slot?_scoreDiversity_none found,
      slot?_scoreDiversity_none (slot?_scoreDiversity_none found)]
  | some slot =>
    obtain ⟨score, score_eq, scored⟩ := slot?_scoreDiversity found
    obtain ⟨again, again_eq, scored_again⟩ := slot?_scoreDiversity scored
    rw [features_scoreDiversity, score_eq, Option.some.injEq] at again_eq
    rw [scored_again, scored, again_eq]

end Population

/-- The scores of diversity are the sums of distances on a scale. The sums are exact; they and the
scores depend on nothing but the features that occur and their differences; the least and the
greatest sum have the ends of the scale, with the last division exact or rounded; and a population
is given just these scores, slot by slot. -/
theorem diversity_is_a_scale {features : List Features} (modest : IsModest features) :
    (∀ (i : Nat) a, features[i]? = some a → ∃ raw, (rawDiversity features)[i]? = some raw ∧
      raw.isFinite = true ∧ value raw = totalApart features a) ∧
    (∀ others : List Features, others.Perm features → ∀ i j : Nat, others[i]? = features[j]? →
      (rawDiversity others)[i]? = (rawDiversity features)[j]? ∧
      (normalizedDiversity others)[i]? = (normalizedDiversity features)[j]?) ∧
    (∀ more : Features, (∀ a ∈ features,
        a.ops.toNat + more.ops.toNat < 2 ^ 64 ∧ a.vars.toNat + more.vars.toNat < 2 ^ 64) →
      rawDiversity (features.map (·.shift more)) = rawDiversity features ∧
      normalizedDiversity (features.map (·.shift more)) = normalizedDiversity features) ∧
    IsScale (rawDiversity features) (exactDiversity features) ∧
    IsScale (rawDiversity features) (normalizedDiversity features) ∧
    List.Forall₂ Computes (exactDiversity features) (normalizedDiversity features) ∧
    ∀ population : Population,
      population.scoreDiversity.size = population.size ∧
      (∀ (i : Nat) slot, population.slot? i = some slot → ∃ score,
        (normalizedDiversity (population.slots.toList.map fun slot => {
          ops := UInt64.ofNat slot.program.size
          vars := UInt64.ofNat slot.program.variableCounts.total }))[i]? = some score ∧
        population.scoreDiversity.slot? i = some { slot with diversity := score }) ∧
      population.scoreDiversity.scoreDiversity = population.scoreDiversity := by
  obtain ⟨exact_scale, scale, rounded⟩ := isScale_diversity modest
  refine ⟨?_, fun _ perm _ _ same => scores_of_perm modest perm same, ?_, exact_scale, scale,
    rounded, ?_⟩
  · intro i a found
    refine ⟨held (totalApart features a), ?_, isFinite_held _,
      value_held (modest a (List.mem_of_getElem? found))⟩
    rw [rawDiversity_eq modest, List.getElem?_map, List.getElem?_map, found]
    rfl
  · intro more fits
    have raw_eq := rawDiversity_shift modest fits
    exact ⟨raw_eq, normalizedDiversity_congr raw_eq⟩
  · intro population
    exact ⟨Population.size_scoreDiversity, fun i slot found =>
      Population.slot?_scoreDiversity found, Population.scoreDiversity_scoreDiversity⟩

/-- Three programs, the middle one of which is the most ordinary. -/
theorem diversity_is_a_scale_of_three :
    IsModest [⟨1, 0⟩, ⟨3, 1⟩, ⟨6, 1⟩] ∧
      IsScale (rawDiversity [⟨1, 0⟩, ⟨3, 1⟩, ⟨6, 1⟩])
        (normalizedDiversity [⟨1, 0⟩, ⟨3, 1⟩, ⟨6, 1⟩]) :=
  ⟨by decide, (diversity_is_a_scale (by decide)).2.2.2.2.1⟩

end EvoSearch
