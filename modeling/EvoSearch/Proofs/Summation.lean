/-
# Adding up

Adding up floats one by one rounds after every term. Where no term is negative the errors can be
told against the exact sum: every rounding stretches or shrinks it by one half of a last place at
most. So the sum of a row is off by a factor that has to do with the length of the row alone, unless
it is out of reach and has become infinite.

The sum starts from minus zero, which changes nothing, so the first term is not rounded.
-/

import EvoSearch.Proofs.Arithmetic

namespace EvoSearch.Numeric

open Float.Model Float.Model.UnpackedFloat

variable {exact : ℚ} {roundings : Nat} {terms : List Float} {x y : Float}

/-- By how much a number may be stretched when it is rounded. -/
def unitError : ℚ := 1 / 0x20000000000000

theorem unitError_nonneg : 0 ≤ unitError := by
  norm_num [unitError]

theorem unitError_le_one : unitError ≤ 1 := by
  norm_num [unitError]

theorem IsDyadic.multiple {number : ℚ} (dyadic : IsDyadic number) :
    ∃ factor : Int, number = factor * leastPlace := by
  obtain ⟨factor, exponent, _, least_le, rfl⟩ := dyadic
  exact exists_mul_zpow_eq factor least_le

theorem natCast_multiple (n : Nat) : ∃ factor : Int, (n : ℚ) = factor * leastPlace := by
  obtain ⟨factor, one_eq⟩ := isDyadic_one.multiple
  exact ⟨n * factor, by rw [Int.cast_mul, mul_assoc, ← one_eq, mul_one, Int.cast_natCast]⟩

/-- What is not negative and a multiple of the least place is stretched or shrunk by rounding. -/
theorem Computes.between {number : ℚ} (computes : Computes number x) (finite : x.isFinite = true)
    (nonneg : 0 ≤ number) (multiple : ∃ factor : Int, number = factor * leastPlace) :
    number * (1 - unitError) ≤ value x ∧ value x ≤ number * (1 + unitError) := by
  obtain ⟨exponent, rounds⟩ := computes.rounds finite
  have error := rounds.abs_sub_le_of_multiple multiple
  rw [abs_of_nonneg nonneg] at error
  obtain ⟨below, above⟩ := abs_le.mp error
  unfold unitError
  constructor <;> linarith

/-- A sum has been added up with so many roundings: it is infinite, if it was out of reach, or has
been stretched or shrunk as often. -/
def Accumulates (exact : ℚ) (roundings : Nat) (x : Float) : Prop :=
  (x = infinity ∧ 0x10000000000000 * greatestPlace < exact * (1 + unitError) ^ roundings) ∨
    (x.isFinite = true ∧ exact * (1 - unitError) ^ roundings ≤ value x ∧
      value x ≤ exact * (1 + unitError) ^ roundings)

theorem infinity_add (finite : y.isFinite = true) : infinity + y = infinity := by
  have stays {a : UnpackedFloat} (a_finite : a.isFinite = true) :
      UnpackedFloat.add .binary64 (.infinity .positive) a = .infinity .positive := by
    rcases a with _ | _ | _ | _ <;> first | rfl | cases a_finite
  apply float_ext
  change (Float.Model.pack (UnpackedFloat.add .binary64 (.infinity .positive) _)).toBits = _
  rw [stays finite]
  rfl

namespace Accumulates

theorem of_finite (finite : x.isFinite = true) : Accumulates (value x) 0 x :=
  .inr ⟨finite, by rw [pow_zero, mul_one], by rw [pow_zero, mul_one]⟩

/-- One more term is one more rounding. -/
theorem add (accumulates : Accumulates exact roundings x) (exact_nonneg : 0 ≤ exact)
    (y_finite : y.isFinite = true) (y_nonneg : 0 ≤ value y) :
    Accumulates (exact + value y) (roundings + 1) (x + y) := by
  have error_nonneg := unitError_nonneg
  have shrink_nonneg : 0 ≤ 1 - unitError := sub_nonneg.mpr unitError_le_one
  have shrink_le : (1 - unitError) ^ roundings ≤ 1 := pow_le_one₀ shrink_nonneg (by linarith)
  have le_stretch : 1 ≤ (1 + unitError) ^ roundings := one_le_pow₀ (by linarith)
  have stretched : (exact * (1 + unitError) ^ roundings + value y) * (1 + unitError) ≤
      (exact + value y) * (1 + unitError) ^ (roundings + 1) := by
    rw [pow_succ, ← mul_assoc, add_mul exact]
    gcongr
    exact le_mul_of_one_le_right y_nonneg le_stretch
  have shrunk : (exact + value y) * (1 - unitError) ^ (roundings + 1) ≤
      (exact * (1 - unitError) ^ roundings + value y) * (1 - unitError) := by
    rw [pow_succ, ← mul_assoc, add_mul exact]
    gcongr
    exact mul_le_of_le_one_right y_nonneg shrink_le
  have sum_nonneg : 0 ≤ exact * (1 + unitError) ^ roundings + value y := by positivity
  have grows := le_mul_of_one_le_right sum_nonneg (by linarith : 1 ≤ 1 + unitError)
  rcases accumulates with ⟨rfl, far⟩ | ⟨x_finite, below, above⟩
  · exact .inl ⟨infinity_add y_finite, by linarith⟩
  · have x_nonneg : 0 ≤ value x := le_trans (by positivity) below
    have computes := computes_add x_finite y_finite
    have number_nonneg := add_nonneg x_nonneg y_nonneg
    cases finite : (x + y).isFinite with
    | false =>
      refine .inl ⟨computes.eq_infinity number_nonneg finite, ?_⟩
      by_contra near
      have reached := computes.isFinite (by rw [abs_of_nonneg number_nonneg]; linarith)
      rw [finite] at reached
      cases reached
    | true =>
      obtain ⟨factor, x_multiple⟩ := (isDyadic_value x_finite).multiple
      obtain ⟨other, y_multiple⟩ := (isDyadic_value y_finite).multiple
      have multiple : ∃ factor : Int, value x + value y = factor * leastPlace :=
        ⟨factor + other, by rw [x_multiple, y_multiple]; push_cast; ring⟩
      obtain ⟨least, most⟩ := computes.between finite number_nonneg multiple
      refine .inr ⟨finite, shrunk.trans (le_trans ?_ least), (most.trans ?_).trans stretched⟩
      · gcongr
      · gcongr

theorem foldl (accumulates : Accumulates exact roundings x) (exact_nonneg : 0 ≤ exact)
    (finite : ∀ y ∈ terms, y.isFinite = true) (nonneg : ∀ y ∈ terms, 0 ≤ value y) :
    Accumulates (exact + (terms.map value).sum) (roundings + terms.length)
      (terms.foldl (· + ·) x) := by
  induction terms generalizing exact roundings x with
  | nil =>
    rw [List.map_nil, List.sum_nil, add_zero]
    exact accumulates
  | cons y terms ih =>
    obtain ⟨y_finite, terms_finite⟩ := List.forall_mem_cons.mp finite
    obtain ⟨y_nonneg, terms_nonneg⟩ := List.forall_mem_cons.mp nonneg
    have rest := ih (accumulates.add exact_nonneg y_finite y_nonneg)
      (add_nonneg exact_nonneg y_nonneg) terms_finite terms_nonneg
    rw [List.map_cons, List.sum_cons, ← add_assoc, List.length_cons,
      Nat.add_comm terms.length, ← Nat.add_assoc]
    exact rest

/-- A sum that stays in reach is finite. -/
theorem isFinite (accumulates : Accumulates exact roundings x)
    (near : exact * (1 + unitError) ^ roundings ≤ 0x10000000000000 * greatestPlace) :
    x.isFinite = true := by
  rcases accumulates with ⟨_, far⟩ | ⟨finite, _⟩
  · exact absurd near (not_le.mpr far)
  · exact finite

end Accumulates

/-- Minus zero is what a sum can start from. -/
theorem neg_zero_add (finite : x.isFinite = true) :
    (-0.0 + x).isFinite = true ∧ value (-0.0 + x) = value x := by
  have same {a : UnpackedFloat} (a_rounded : IsRounded a) (stands : StandsAt (height x) a) :
      (Float.Model.pack (UnpackedFloat.add .binary64 (.zero .negative) a)).unpack.isFinite = true ∧
        unpackedValue (Float.Model.pack (UnpackedFloat.add .binary64 (.zero .negative) a)).unpack =
          unpackedValue a := by
    rcases a with _ | _ | s | ⟨s, m, d, m_pos⟩
    · exact False.elim a_rounded
    · exact False.elim a_rounded
    · cases s <;> exact ⟨rfl, rfl⟩
    · change (Float.Model.pack (.finite s m d m_pos)).unpack.isFinite = true ∧
        unpackedValue (Float.Model.pack (.finite s m d m_pos)).unpack = _
      rcases unpack_pack_or a_rounded with ⟨a_finite, packed⟩ | far
      · rw [packed]
        exact ⟨a_finite, rfl⟩
      · obtain ⟨_, _, _, _, same, _, above⟩ := far
        cases same
        exact absurd above (not_lt.mpr stands.1.le_greatest)
  exact same (isRounded_unpack finite) (standsAt_height finite)

/-- The sum of a row that begins with a term has a rounding for every further term. -/
theorem accumulates_sum {first : Float} (finite : ∀ y ∈ first :: terms, y.isFinite = true)
    (nonneg : ∀ y ∈ first :: terms, 0 ≤ value y) :
    Accumulates (((first :: terms).map value).sum) terms.length (sum (first :: terms)) := by
  obtain ⟨first_finite, terms_finite⟩ := List.forall_mem_cons.mp finite
  obtain ⟨first_nonneg, terms_nonneg⟩ := List.forall_mem_cons.mp nonneg
  obtain ⟨start_finite, start_eq⟩ := neg_zero_add first_finite
  have start := Accumulates.of_finite start_finite
  rw [start_eq] at start
  have total := start.foldl first_nonneg terms_finite terms_nonneg
  rwa [Nat.zero_add] at total

/-- The last rounding of a sum does not cross what a float can hold, so of the roundings there are
two less to reckon with than there are terms. -/
theorem sum_bounds {row : List Float} {bound : ℚ} (two_le : 2 ≤ row.length)
    (finite : ∀ y ∈ row, y.isFinite = true) (nonneg : ∀ y ∈ row, 0 ≤ value y)
    (dyadic : IsDyadic bound) (near : bound ≤ 0x10000000000000 * greatestPlace)
    (le : (row.map value).sum * (1 + unitError) ^ (row.length - 2) ≤ bound) :
    (sum row).isFinite = true ∧ 0 ≤ value (sum row) ∧ value (sum row) ≤ bound := by
  obtain ⟨first, terms, last, rfl⟩ : ∃ first terms last, row = first :: terms ++ [last] := by
    rcases List.eq_nil_or_concat row with rfl | ⟨_ | ⟨first, terms⟩, last, rfl⟩
    · exact absurd two_le (by decide : ¬ 2 ≤ 0)
    · exact absurd two_le (by decide : ¬ 2 ≤ 1)
    · exact ⟨first, terms, last, List.concat_eq_append⟩
  have roundings : (first :: terms ++ [last]).length - 2 = terms.length := by
    rw [List.length_append]
    rfl
  rw [roundings] at le
  rw [List.forall_mem_append] at finite nonneg
  have last_finite := finite.2 last List.mem_cons_self
  have last_nonneg := nonneg.2 last List.mem_cons_self
  have error_nonneg := unitError_nonneg
  have shrink_nonneg : 0 ≤ 1 - unitError := sub_nonneg.mpr unitError_le_one
  have front := accumulates_sum finite.1 nonneg.1
  have front_sum_nonneg : 0 ≤ ((first :: terms).map value).sum :=
    List.sum_nonneg (List.forall_mem_map.mpr nonneg.1)
  have concat : sum (first :: terms ++ [last]) = sum (first :: terms) + last := by
    rw [sum, List.foldl_append]
    rfl
  rw [List.map_append, List.sum_append, List.map_singleton, List.sum_singleton, add_mul] at le
  have last_le : value last ≤ value last * (1 + unitError) ^ terms.length :=
    le_mul_of_one_le_right last_nonneg (one_le_pow₀ (by linarith))
  have front_finite := front.isFinite (by linarith)
  obtain ⟨_, below, above⟩ := front.resolve_left fun far => by
    rw [far.1] at front_finite
    exact absurd front_finite (by decide)
  have front_nonneg : 0 ≤ value (sum (first :: terms)) := le_trans (by positivity) below
  have computes := computes_add front_finite last_finite
  have number_nonneg := add_nonneg front_nonneg last_nonneg
  have number_le : value (sum (first :: terms)) + value last ≤ bound := by linarith
  have sum_finite := computes.isFinite (by
    rw [abs_of_nonneg number_nonneg]
    exact number_le.trans near)
  rw [concat]
  exact ⟨sum_finite, computes.le_value sum_finite isDyadic_zero number_nonneg,
    computes.value_le sum_finite dyadic number_le⟩

end EvoSearch.Numeric
