/-
# Fitnesses on another scale

Two fitnesses may be different numbers and still be the same to a search. All that it ever looks at
is which of two fitnesses is less, whether one is finite or NaN, and on which side of zero it lies.
A relation that keeps these is kept, in turn, by all that is made of fitnesses: by the hurdle that
the cheap ones put up, by the cells of an archive, and by what a strategy does with a population.
-/

import Mathlib.Data.List.Forall2
import EvoSearch.Engine.Generation
import EvoSearch.Proofs.Elites
import EvoSearch.Proofs.Pairing

namespace EvoSearch

open Numeric Script

/-- Related fitnesses are the same to a search. The relation has no more to say about two fitnesses
that are the same number than about one. -/
structure KeepsOrder (related : Float → Float → Prop) : Prop where
  zero : related 0 0
  isNaN_eq : ∀ x y, related x y → y.isNaN = x.isNaN
  isFinite_eq : ∀ x y, related x y → y.isFinite = x.isFinite
  lt_iff : ∀ x y, related x y → ∀ a b, related a b → (y < b ↔ x < a)
  cross : ∀ x y, related x y → ∀ a b, related a b → SameNumber x a → related x b

namespace KeepsOrder

variable {related : Float → Float → Prop} (keeps : KeepsOrder related) {x y a b : Float}
include keeps

theorem height_lt_iff (first : related x y) (second : related a b) :
    height y < height b ↔ height x < height a :=
  height_lt_iff_of_lt_iff (keeps.isNaN_eq x y first) (keeps.isNaN_eq a b second)
    (keeps.lt_iff x y first a b second)

theorem height_le_iff (first : related x y) (second : related a b) :
    height y ≤ height b ↔ height x ≤ height a := by
  rw [← Int.not_lt, ← Int.not_lt, keeps.height_lt_iff second first]

theorem height_eq_iff (first : related x y) (second : related a b) :
    height y = height b ↔ height x = height a := by
  have le_iff := keeps.height_le_iff first second
  have ge_iff := keeps.height_le_iff second first
  omega

/-- The relation works both ways. -/
theorem symm : KeepsOrder fun y x => related x y where
  zero := keeps.zero
  isNaN_eq y x holds := (keeps.isNaN_eq x y holds).symm
  isFinite_eq y x holds := (keeps.isFinite_eq x y holds).symm
  lt_iff y x first b a second := (keeps.lt_iff x y first a b second).symm
  cross y x first b a second same := by
    rw [sameNumber_iff, keeps.height_eq_iff first second] at same
    exact keeps.cross a b second x y first (sameNumber_iff.mpr same.symm)

theorem ranksAlike : RanksAlike related id id := by
  intro x y first a b second
  rw [Bool.eq_iff_iff]
  exact beats_iff.trans ((keeps.height_lt_iff second first).trans beats_iff.symm)

theorem zero_le_iff (holds : related x y) : 0 ≤ y ↔ 0 ≤ x := by
  rw [Numeric.zero_le_iff, Numeric.zero_le_iff, ← height_zero]
  exact keeps.height_le_iff keeps.zero holds

theorem bne_zero_eq (holds : related x y) : (y != 0) = (x != 0) := by
  rw [bne, bne, Bool.eq_iff_iff, Bool.not_eq_true', Bool.not_eq_true', ← Bool.not_eq_true,
    ← Bool.not_eq_true, beq_iff, beq_iff, keeps.isNaN_eq x y holds,
    keeps.height_eq_iff holds keeps.zero]

end KeepsOrder

/-- A map of fitnesses to another scale, as far as fitnesses arise: it keeps their order, zero, what
is finite and what is NaN. (Asked of all floats at once, this leaves every number where it is.) -/
structure IsGrading (arises : Float → Prop) (grade : Float → Float) : Prop where
  arises_zero : arises 0
  zero : SameNumber (grade 0) 0
  isNaN_eq : ∀ x, arises x → (grade x).isNaN = x.isNaN
  isFinite_eq : ∀ x, arises x → (grade x).isFinite = x.isFinite
  lt_iff : ∀ x, arises x → ∀ a, arises a → (x < a ↔ grade x < grade a)

/-- A fitness, and a number that it is graded as. -/
def GradesTo (grade : Float → Float) (x y : Float) : Prop :=
  SameNumber (grade x) y

/-- The same of a fitness that arises. -/
def ArisesAs (arises : Float → Prop) (grade : Float → Float) (x y : Float) : Prop :=
  arises x ∧ GradesTo grade x y

namespace IsGrading

variable {arises : Float → Prop} {grade : Float → Float} (grading : IsGrading arises grade)
include grading

theorem height_lt_iff {x a : Float} (x_arises : arises x) (a_arises : arises a) :
    height (grade x) < height (grade a) ↔ height x < height a :=
  height_lt_iff_of_lt_iff (grading.isNaN_eq x x_arises) (grading.isNaN_eq a a_arises)
    (grading.lt_iff x x_arises a a_arises).symm

theorem keepsOrder : KeepsOrder (ArisesAs arises grade) := by
  have nan_eq (x y : Float) (holds : ArisesAs arises grade x y) : y.isNaN = x.isNaN := by
    rw [← grading.isNaN_eq x holds.1, Bool.eq_iff_iff, isNaN_iff, isNaN_iff,
      sameNumber_iff.mp holds.2]
  refine ⟨⟨grading.arises_zero, grading.zero⟩, nan_eq, ?_, ?_, ?_⟩
  · intro x y holds
    rw [← grading.isFinite_eq x holds.1, Bool.eq_iff_iff, Numeric.isFinite_iff,
      Numeric.isFinite_iff, sameNumber_iff.mp holds.2]
  · intro x y first a b second
    rw [Numeric.lt_iff, Numeric.lt_iff, nan_eq x y first, nan_eq a b second,
      ← sameNumber_iff.mp first.2, ← sameNumber_iff.mp second.2,
      grading.height_lt_iff first.1 second.1]
  · intro x y first a b second same
    have le := grading.height_lt_iff first.1 second.1
    have ge := grading.height_lt_iff second.1 first.1
    rw [sameNumber_iff] at same
    refine ⟨first.1, sameNumber_iff.mpr ?_⟩
    rw [← sameNumber_iff.mp second.2]
    omega

end IsGrading

/-- All numbers of a row are kept, each of them once, and in ascending order. -/
structure Distills (row kept : List Float) : Prop where
  mem : ∀ x ∈ kept, x ∈ row
  covers : ∀ x ∈ row, ∃ y ∈ kept, height y = height x
  ascending : kept.Pairwise fun x y => height x < height y

theorem distills_dropRepeatsAfter {last : Float} {row : List Float}
    (numbers : ∀ x ∈ last :: row, x.isNaN = false)
    (sorted : (last :: row).Pairwise fun x y => height x ≤ height y) :
    Distills (last :: row) (last :: dropRepeatsAfter last row) := by
  induction row generalizing last with
  | nil =>
    exact ⟨fun _ mem => mem, fun x mem => ⟨x, mem, rfl⟩, List.pairwise_singleton ..⟩
  | cons x rest ih =>
    obtain ⟨last_le, rest_sorted⟩ := List.pairwise_cons.mp sorted
    have last_number := numbers last List.mem_cons_self
    have x_number := numbers x (List.mem_cons_of_mem _ List.mem_cons_self)
    rw [dropRepeatsAfter]
    split
    · next repeated =>
      obtain ⟨_, _, same⟩ := beq_iff.mp repeated
      have shorter : (last :: rest).Sublist (last :: x :: rest) :=
        .cons_cons last (List.sublist_cons_self x rest)
      obtain ⟨mem, covers, ascending⟩ :=
        ih (fun y y_mem => numbers y (shorter.subset y_mem)) (sorted.sublist shorter)
      refine ⟨fun y y_mem => shorter.subset (mem y y_mem), fun y y_mem => ?_, ascending⟩
      rcases List.mem_cons.mp y_mem with rfl | behind
      · exact covers y List.mem_cons_self
      · rcases List.mem_cons.mp behind with rfl | further
        · exact ⟨last, List.mem_cons_self, same.symm⟩
        · exact covers y (List.mem_cons_of_mem _ further)
    · next fresh =>
      have above : height last < height x := by
        have le := last_le x List.mem_cons_self
        have apart : height x ≠ height last :=
          fun same => fresh (beq_iff.mpr ⟨x_number, last_number, same⟩)
        omega
      obtain ⟨mem, covers, ascending⟩ :=
        ih (fun y y_mem => numbers y (List.mem_cons_of_mem _ y_mem)) rest_sorted
      refine ⟨?_, ?_, List.pairwise_cons.mpr ⟨fun y y_mem => ?_, ascending⟩⟩
      · intro y y_mem
        rcases List.mem_cons.mp y_mem with rfl | behind
        · exact List.mem_cons_self
        · exact List.mem_cons_of_mem _ (mem y behind)
      · intro y y_mem
        rcases List.mem_cons.mp y_mem with rfl | behind
        · exact ⟨y, List.mem_cons_self, rfl⟩
        · obtain ⟨z, z_mem, same⟩ := covers y behind
          exact ⟨z, List.mem_cons_of_mem _ z_mem, same⟩
      · rcases List.mem_cons.mp (mem y y_mem) with rfl | behind
        · exact above
        · exact Int.lt_of_lt_of_le above ((List.pairwise_cons.mp rest_sorted).1 y behind)

theorem pairwise_height_of_rank {row : List Float} (numbers : ∀ x ∈ row, x.isNaN = false)
    (sorted : row.Pairwise fun x y => rank x ≤ rank y) :
    row.Pairwise fun x y => height x ≤ height y :=
  sorted.imp_of_mem fun x_mem y_mem le =>
    height_le_of_rank_le (numbers _ x_mem) (numbers _ y_mem) le

theorem pairwise_mergeSort_rank (values : List Float) :
    (values.mergeSort fun x y => rank x ≤ rank y).Pairwise fun x y => rank x ≤ rank y := by
  refine (List.pairwise_mergeSort ?_ ?_ values).imp of_decide_eq_true
  · intro x y z first second
    simp only [decide_eq_true_eq] at *
    exact Int.le_trans first second
  · intro x y
    simp only [Bool.or_eq_true, decide_eq_true_eq]
    exact Int.le_total ..

/-- What goes into a percentile are the finite numbers among some values, each once. -/
theorem distills_distinctFinite (values : List Float) :
    Distills (values.filter Float.isFinite) (distinctFinite values) := by
  rw [distinctFinite]
  have sorted := pairwise_mergeSort_rank (values.filter Float.isFinite)
  have perm := List.mergeSort_perm (values.filter Float.isFinite)
    fun x y => decide (rank x ≤ rank y)
  revert sorted perm
  generalize (values.filter Float.isFinite).mergeSort _ = row
  intro sorted perm
  have numbers (x : Float) (x_mem : x ∈ row) : x.isNaN = false :=
    not_isNaN_of_isFinite (List.mem_filter.mp (perm.mem_iff.mp x_mem)).2
  have heights := pairwise_height_of_rank numbers sorted
  have distills : Distills row (dropRepeats row) := by
    cases row with
    | nil => exact ⟨fun _ mem => mem, fun x mem => ⟨x, mem, rfl⟩, .nil⟩
    | cons first rest => exact distills_dropRepeatsAfter numbers heights
  exact ⟨fun x x_mem => perm.mem_iff.mp (distills.mem x x_mem),
    fun x x_mem => distills.covers x (perm.mem_iff.mpr x_mem), distills.ascending⟩

/-- Two ascending rows of numbers that are related in the same order are related one by one. -/
theorem forall₂_of_ascending {related : Float → Float → Prop}
    (order : ∀ x y, related x y → ∀ a b, related a b → (height y < height b ↔ height x < height a))
    {row others : List Float} (ascending : row.Pairwise fun x y => height x < height y)
    (others_ascending : others.Pairwise fun x y => height x < height y)
    (forth : ∀ x ∈ row, ∃ y ∈ others, related x y) (back : ∀ y ∈ others, ∃ x ∈ row, related x y) :
    List.Forall₂ related row others := by
  induction row generalizing others with
  | nil =>
    cases others with
    | nil => exact .nil
    | cons y others =>
      obtain ⟨_, none, _⟩ := back y List.mem_cons_self
      cases none
  | cons x row ih =>
    obtain ⟨least, row_ascending⟩ := List.pairwise_cons.mp ascending
    obtain ⟨counterpart, counterpart_mem, holds⟩ := forth x List.mem_cons_self
    cases others with
    | nil => cases counterpart_mem
    | cons y others =>
      obtain ⟨other_least, rest_ascending⟩ := List.pairwise_cons.mp others_ascending
      -- what is related to the least number of one row is the least one of the other
      have heads : related x y := by
        rcases List.mem_cons.mp counterpart_mem with rfl | behind
        · exact holds
        · obtain ⟨origin, origin_mem, origin_holds⟩ := back y List.mem_cons_self
          have below := (order _ _ origin_holds _ _ holds).mp (other_least _ behind)
          rcases List.mem_cons.mp origin_mem with rfl | further
          · exact origin_holds
          · have above := least _ further
            omega
      refine .cons heads (ih row_ascending rest_ascending ?_ ?_)
      · intro a a_mem
        obtain ⟨b, b_mem, pair⟩ := forth a (List.mem_cons_of_mem _ a_mem)
        rcases List.mem_cons.mp b_mem with rfl | behind
        · have above := (order _ _ heads _ _ pair).mpr (least a a_mem)
          exact absurd above (Int.lt_irrefl _)
        · exact ⟨b, behind, pair⟩
      · intro b b_mem
        obtain ⟨a, a_mem, pair⟩ := back b (List.mem_cons_of_mem _ b_mem)
        rcases List.mem_cons.mp a_mem with rfl | behind
        · have above := (order _ _ heads _ _ pair).mp (other_least b b_mem)
          exact absurd above (Int.lt_irrefl _)
        · exact ⟨a, behind, pair⟩

namespace KeepsOrder

variable {related : Float → Float → Prop} (keeps : KeepsOrder related) {values others : List Float}
include keeps

theorem exists_distinct (paired : List.Forall₂ related values others) {x : Float}
    (x_mem : x ∈ distinctFinite values) : ∃ y ∈ distinctFinite others, related x y := by
  have filtered : List.Forall₂ related (values.filter Float.isFinite)
      (others.filter Float.isFinite) :=
    List.rel_filter (fun x y holds => by simp only [keeps.isFinite_eq x y holds]) paired
  have turned : List.Forall₂ (fun y x => related x y) (others.filter Float.isFinite)
      (values.filter Float.isFinite) := filtered.flip
  have distills := distills_distinctFinite values
  have others_distill := distills_distinctFinite others
  obtain ⟨counterpart, counterpart_mem, holds⟩ :=
    exists_of_mem_left filtered (distills.mem x x_mem)
  obtain ⟨y, y_mem, same⟩ := others_distill.covers counterpart counterpart_mem
  obtain ⟨origin, _, origin_holds⟩ := exists_of_mem_left turned (others_distill.mem y y_mem)
  refine ⟨y, y_mem, keeps.cross x counterpart holds origin y origin_holds ?_⟩
  exact sameNumber_iff.mpr ((keeps.height_eq_iff holds origin_holds).mp same.symm)

/-- The distinct numbers among related values are related one by one. -/
theorem forall₂_distinctFinite (paired : List.Forall₂ related values others) :
    List.Forall₂ related (distinctFinite values) (distinctFinite others) :=
  forall₂_of_ascending (fun _ _ first _ _ second => keeps.height_lt_iff first second)
    (distills_distinctFinite values).ascending (distills_distinctFinite others).ascending
    (fun _ => keeps.exists_distinct paired)
    (fun _ => keeps.symm.exists_distinct paired.flip)

theorem rel_percentileThreshold (paired : List.Forall₂ related values others) :
    Option.Rel related (percentileThreshold values) (percentileThreshold others) := by
  have distinct := keeps.forall₂_distinctFinite paired
  rw [percentileThreshold, percentileThreshold, ← distinct.length_eq]
  exact forall₂_getElem? distinct _

theorem rel_recompute {hurdle other : Hurdle} (hurdles : related hurdle.value other.value)
    (paired : List.Forall₂ related values others) :
    related (hurdle.recompute values).value (other.recompute others).value := by
  have thresholds := keeps.rel_percentileThreshold paired
  rw [Hurdle.recompute, Hurdle.recompute]
  revert thresholds
  cases percentileThreshold values <;> cases percentileThreshold others <;>
    intro thresholds <;> cases thresholds
  · exact hurdles
  · assumption

end KeepsOrder

/-- Two candidates of the same program, with related fitnesses. -/
def GradedAs (related : Float → Float → Prop) (scored other : Scored) : Prop :=
  other.program = scored.program ∧ related scored.fitness other.fitness

theorem KeepsOrder.ranksAlike_scored {related : Float → Float → Prop} (keeps : KeepsOrder related) :
    RanksAlike (GradedAs related) Scored.fitness Scored.fitness :=
  fun _ _ first _ _ second => keeps.ranksAlike _ _ first.2 _ _ second.2

namespace Archive

variable {related : Float → Float → Prop} {archive other : Archive}

/-- Two archives with the same cells taken, by related candidates. -/
structure Graded (related : Float → Float → Prop) (archive other : Archive) : Prop where
  grid_eq : other.grid = archive.grid
  occupants : ∀ cell,
    Option.Rel (GradedAs related) (archive.occupant? cell) (other.occupant? cell)

theorem graded_ofGrid (grid : Grid) : (ofGrid grid).Graded related (ofGrid grid) := by
  refine ⟨rfl, fun cell => ?_⟩
  cases taken : (ofGrid grid).occupant? cell with
  | none => exact .none
  | some elite => exact absurd ⟨cell, taken⟩ (not_keeps_ofGrid grid elite)

namespace Graded

theorem symm (graded : archive.Graded related other) :
    other.Graded (fun y x => related x y) archive where
  grid_eq := graded.grid_eq.symm
  occupants cell :=
    optionRel_symm (fun _ _ elites => ⟨elites.1.symm, elites.2⟩) (graded.occupants cell)

theorem cellOf_eq (graded : archive.Graded related other) (program : Program) :
    other.cellOf program = archive.cellOf program := by
  rw [cellOf, cellOf, graded.grid_eq]

theorem size_eq (graded : archive.Graded related other) :
    other.cells.size = archive.cells.size := by
  rw [other.size_cells, archive.size_cells, graded.grid_eq]

theorem isSome_occupant?_eq (graded : archive.Graded related other) (cell : Nat) :
    (other.occupant? cell).isSome = (archive.occupant? cell).isSome := by
  have occupants := graded.occupants cell
  revert occupants
  cases archive.occupant? cell <;> cases other.occupant? cell <;> intro occupants <;>
    cases occupants <;> rfl

theorem isEmpty_eq (graded : archive.Graded related other) : other.isEmpty = archive.isEmpty := by
  have vacant_iff (archive : Archive) :
      archive.isEmpty = true ↔ ∀ cell, (archive.occupant? cell).isSome = false := by
    rw [isEmpty_iff]
    simp only [Keeps, not_exists, Option.isSome_eq_false_iff, Option.isNone_iff_eq_none,
      Option.eq_none_iff_forall_ne_some]
    exact forall_comm
  rw [Bool.eq_iff_iff, vacant_iff, vacant_iff]
  simp only [graded.isSome_occupant?_eq]

variable (keeps : KeepsOrder related)
include keeps

theorem accepts_eq (graded : archive.Graded related other) {candidate counterpart : Scored}
    (candidates : GradedAs related candidate counterpart) (cell : Nat) :
    other.accepts cell counterpart = archive.accepts cell candidate := by
  have occupants := graded.occupants cell
  rw [accepts, accepts]
  revert occupants
  cases archive.occupant? cell <;> cases other.occupant? cell <;> intro occupants <;>
    cases occupants
  · exact decide_eq_decide.mpr (keeps.zero_le_iff candidates.2)
  · next elites => exact congrArg not (keeps.ranksAlike_scored _ _ elites _ _ candidates)

theorem offer (graded : archive.Graded related other) {candidate counterpart : Scored}
    (candidates : GradedAs related candidate counterpart) {cell : Nat}
    (within : cell < archive.cells.size) :
    (archive.offer cell candidate).Graded related (other.offer cell counterpart) := by
  refine ⟨graded.grid_eq, fun place => ?_⟩
  rw [occupant?_offer within, occupant?_offer (graded.size_eq ▸ within),
    graded.accepts_eq keeps candidates]
  split
  · exact .some candidates
  · exact graded.occupants place

/-- The same slots are turned down. -/
theorem offerSlots (graded : archive.Graded related other) {slots others : List Slot}
    (paired : List.Forall₂ (fun slot counterpart => GradedAs related slot.scored
      counterpart.scored) slots others) (index : Nat) :
    (archive.offerSlots index slots).1.Graded related (other.offerSlots index others).1 ∧
      (other.offerSlots index others).2 = (archive.offerSlots index slots).2 := by
  induction paired generalizing archive other index with
  | nil => exact ⟨graded, rfl⟩
  | @cons slot counterpart slots others head _ ih =>
    have cell_eq : other.cellOf counterpart.program = archive.cellOf slot.program := by
      rw [graded.cellOf_eq]
      exact congrArg archive.cellOf head.1
    obtain ⟨still_graded, discarded_eq⟩ :=
      ih (graded.offer keeps head (archive.cellOf_lt_size slot.program)) (index + 1)
    rw [Archive.offerSlots, Archive.offerSlots, cell_eq, graded.accepts_eq keeps head]
    refine ⟨still_graded, ?_⟩
    dsimp only
    rw [discarded_eq]

omit keeps in
theorem paired_sampleOccupied (graded : archive.Graded related other) :
    Draw.Paired (Option.Rel (GradedAs related)) archive.sampleOccupied other.sampleOccupied := by
  rw [sampleOccupied, sampleOccupied, graded.isEmpty_eq, graded.size_eq,
    funext graded.isSome_occupant?_eq]
  split
  · exact .done .none
  · apply (Draw.paired_self _).bind
    rintro cell _ rfl
    apply (inStep_ofOption (graded.occupants _) _).bind
    intro elite counterpart elites
    exact .done (.some elites)

variable {slots : Slot → Slot → Prop}

omit keeps in
theorem paired_refill (graded : archive.Graded related other)
    (fresh : ∀ elite counterpart, GradedAs related elite counterpart →
      slots (.fresh elite none) (.fresh counterpart none))
    {population counterparts : Population} (pairs : population.Pairs slots counterparts)
    (update : Update) (discarded : List Nat) :
    Draw.Paired (fun outcome result => outcome.2.Pairs slots result.2)
      (archive.refill update population discarded)
      (other.refill update counterparts discarded) := by
  induction discarded generalizing update population counterparts with
  | nil => exact .done pairs
  | cons index discarded ih =>
    rw [refill, refill]
    apply graded.paired_sampleOccupied.bind
    intro elite counterpart elites
    cases elites with
    | none => exact ih pairs _
    | some elites =>
      apply (inStep_ofOption (pairs.replace? (fresh _ _ elites) index) _).bind
      intro filled filling still_pairs
      exact ih still_pairs _

/-- Populations that are a pair are one when they have passed through archives that are graded. -/
theorem paired_apply (graded : archive.Graded related other)
    (scored : ∀ slot counterpart, slots slot counterpart →
      GradedAs related slot.scored counterpart.scored)
    (fresh : ∀ elite counterpart, GradedAs related elite counterpart →
      slots (.fresh elite none) (.fresh counterpart none))
    {population counterparts : Population} (pairs : population.Pairs slots counterparts) :
    Draw.Paired (fun outcome result => outcome.2.1.Graded related result.2.1 ∧
        outcome.2.2.Pairs slots result.2.2)
      (archive.apply population) (other.apply counterparts) := by
  obtain ⟨still_graded, discarded_eq⟩ :=
    graded.offerSlots keeps (List.Forall₂.imp scored pairs) 0
  rw [Archive.apply, Archive.apply, offerSlots?_eq, offerSlots?_eq, ofOption_some, ofOption_some,
    done_bind, done_bind]
  dsimp only
  rw [discarded_eq, pairs.size_eq]
  apply (still_graded.paired_refill fresh pairs _ _).bind
  rintro ⟨update, filled⟩ ⟨_, filling⟩ still_pairs
  exact .done ⟨still_graded, still_pairs⟩

end Graded

end Archive

end EvoSearch
