/-
# An archive is the history of its offers

What a cell holds is told by the offers to it: nothing if all of them were below zero or NaN, and
else the best of them, the last one where several are equally good. So it does not matter in which
way the offers to different cells are mixed, and a cell that is taken stays taken and gets no worse.

In a run the offers are the slots of all populations that the archive has been shown, each to the
cell of its program.
-/

import EvoSearch.Proofs.Course

namespace EvoSearch

open Numeric Script

/-- The last one of the best in a row, which is not below zero: nothing before it is better, and
everything behind it is worse. -/
def IsLastBest (row : List Scored) (elite : Scored) : Prop :=
  ∃ before after, row = before ++ elite :: after ∧ 0 ≤ elite.fitness ∧
    (∀ other ∈ before, ¬ elite.fitness < other.fitness) ∧
    ∀ other ∈ after, ¬ elite.fitness ≤ other.fitness

namespace IsLastBest

variable {row : List Scored} {elite other candidate : Scored}

theorem zero_le (best : IsLastBest row elite) : 0 ≤ elite.fitness := by
  obtain ⟨_, _, _, zero_le, _⟩ := best
  exact zero_le

theorem mem (best : IsLastBest row elite) : elite ∈ row := by
  obtain ⟨before, after, rfl, _⟩ := best
  simp

/-- Nothing in the row stands higher. -/
theorem height_le (best : IsLastBest row elite) (mem : other ∈ row) :
    height other.fitness ≤ height elite.fitness := by
  obtain ⟨before, after, rfl, zero_le, none_better, all_worse⟩ := best
  have number := number_of_zero_le zero_le
  rcases List.mem_append.mp mem with front | behind
  · exact (not_lt_iff_of_number number).mp (none_better other front)
  · rcases List.mem_cons.mp behind with rfl | later
    · exact Int.le_refl _
    · exact Int.le_of_lt ((not_le_iff_of_number number).mp (all_worse other later))

/-- A worse candidate at the end of the row makes no difference. -/
theorem concat (best : IsLastBest row elite)
    (worse : height candidate.fitness < height elite.fitness) :
    IsLastBest (row ++ [candidate]) elite := by
  obtain ⟨before, after, rfl, zero_le, none_better, all_worse⟩ := best
  refine ⟨before, after ++ [candidate], by simp, zero_le, none_better, ?_⟩
  intro other mem
  rcases List.mem_append.mp mem with early | last
  · exact all_worse other early
  · rw [List.mem_singleton.mp last]
    exact (not_le_iff_of_number (number_of_zero_le zero_le)).mpr worse

/-- A candidate at the end of the row is the last of the best if nothing stands higher. -/
theorem of_last (zero_le : 0 ≤ candidate.fitness)
    (top : ∀ other ∈ row, height other.fitness ≤ height candidate.fitness) :
    IsLastBest (row ++ [candidate]) candidate := by
  refine ⟨row, [], rfl, zero_le, ?_, fun _ none => absurd none List.not_mem_nil⟩
  intro other mem
  exact (not_lt_iff_of_number (number_of_zero_le zero_le)).mpr (top other mem)

/-- There is no second one. -/
theorem unique (best : IsLastBest row elite) (second : IsLastBest row other) : other = elite := by
  obtain ⟨before, after, row_eq, zero_le, none_better, all_worse⟩ := best
  obtain ⟨front, back, other_eq, other_zero_le, none_above, all_below⟩ := second
  have number := number_of_zero_le zero_le
  have other_number := number_of_zero_le other_zero_le
  rcases List.append_eq_append_iff.mp (row_eq.symm.trans other_eq) with
    ⟨gap, front_eq, rest⟩ | ⟨gap, before_eq, rest⟩
  · cases gap with
    | nil => exact ((List.cons.inj rest).1).symm
    | cons head gap =>
      obtain ⟨rfl, after_eq⟩ := List.cons.inj rest
      have later : other ∈ after := by simp [after_eq]
      have earlier : elite ∈ front := by simp [front_eq]
      have below := (not_le_iff_of_number number).mp (all_worse other later)
      have above := (not_lt_iff_of_number other_number).mp (none_above elite earlier)
      exact absurd below (Int.not_lt.mpr above)
  · cases gap with
    | nil => exact (List.cons.inj rest).1
    | cons head gap =>
      obtain ⟨rfl, back_eq⟩ := List.cons.inj rest
      have later : elite ∈ back := by simp [back_eq]
      have earlier : other ∈ before := by simp [before_eq]
      have below := (not_le_iff_of_number other_number).mp (all_below elite later)
      have above := (not_lt_iff_of_number number).mp (none_better other earlier)
      exact absurd below (Int.not_lt.mpr above)

end IsLastBest

/-- An offer of a candidate to a cell. -/
structure Offer where
  cell : Nat
  candidate : Scored

/-- What has been offered to a cell, in order. -/
def offeredTo (cell : Nat) (offers : List Offer) : List Scored :=
  (offers.filter fun offer => offer.cell == cell).map Offer.candidate

theorem offeredTo_append {cell : Nat} {offers more : List Offer} :
    offeredTo cell (offers ++ more) = offeredTo cell offers ++ offeredTo cell more := by
  simp [offeredTo]

theorem mem_offeredTo {cell : Nat} {offers : List Offer} {candidate : Scored} :
    candidate ∈ offeredTo cell offers ↔ { cell, candidate } ∈ offers := by
  simp only [offeredTo, List.mem_map, List.mem_filter, beq_iff_eq]
  constructor
  · rintro ⟨offer, ⟨mem, rfl⟩, rfl⟩
    exact mem
  · intro mem
    exact ⟨_, ⟨mem, rfl⟩, rfl⟩

namespace Archive

/-- Make some offers, one after another. -/
def offerAll (archive : Archive) (offers : List Offer) : Archive :=
  offers.foldl (fun archive offer => archive.offer offer.cell offer.candidate) archive

/-- The occupant of a cell is the last of the best in a row of offers; there is none if none of them
reaches zero. -/
structure Shows (occupant : Option Scored) (row : List Scored) : Prop where
  vacant : occupant = none → ∀ candidate ∈ row, ¬ 0 ≤ candidate.fitness
  taken : ∀ elite, occupant = some elite → IsLastBest row elite

/-- One more candidate takes the cell over, or it is worse than what the cell holds. -/
theorem Shows.concat {occupant : Option Scored} {row : List Scored} (shown : Shows occupant row)
    (candidate : Scored) :
    Shows (if acceptsOver occupant candidate.fitness = true then some candidate else occupant)
      (row ++ [candidate]) := by
  cases occupant with
  | none =>
    have negative := shown.vacant rfl
    split
    · next accepted =>
      have zero_le : 0 ≤ candidate.fitness := of_decide_eq_true accepted
      refine ⟨by rintro ⟨⟩, ?_⟩
      rintro _ ⟨⟩
      apply IsLastBest.of_last zero_le
      intro other mem
      have below : height other.fitness < 0 := by
        rw [← Int.not_le, ← zero_le_iff]
        exact negative other mem
      exact Int.le_of_lt (Int.lt_of_lt_of_le below (zero_le_iff.mp zero_le))
    · next rejected =>
      refine ⟨?_, by rintro _ ⟨⟩⟩
      intro _ other mem
      rcases List.mem_append.mp mem with early | last
      · exact negative other early
      · rw [List.mem_singleton.mp last]
        exact fun zero_le => rejected (decide_eq_true zero_le)
  | some elite =>
    have best := shown.taken elite rfl
    split
    · next accepted =>
      have le : height elite.fitness ≤ height candidate.fitness := by
        rwa [acceptsOver, Bool.not_eq_true', not_beats_iff] at accepted
      refine ⟨by rintro ⟨⟩, ?_⟩
      rintro _ ⟨⟩
      apply IsLastBest.of_last
      · exact zero_le_iff.mpr (Int.le_trans (zero_le_iff.mp best.zero_le) le)
      · exact fun other mem => Int.le_trans (best.height_le mem) le
    · next rejected =>
      have worse : height candidate.fitness < height elite.fitness := by
        rwa [acceptsOver, Bool.not_eq_true', not_beats_iff, Int.not_le] at rejected
      refine ⟨by rintro ⟨⟩, ?_⟩
      rintro _ ⟨⟩
      exact best.concat worse

theorem Shows.eq_none_iff {occupant : Option Scored} {row : List Scored}
    (shown : Shows occupant row) :
    occupant = none ↔ ∀ candidate ∈ row, ¬ 0 ≤ candidate.fitness := by
  constructor
  · exact shown.vacant
  · intro negative
    cases occupant with
    | none => rfl
    | some elite =>
      have best := shown.taken elite rfl
      exact absurd best.zero_le (negative elite best.mem)

theorem Shows.eq_some_iff {occupant : Option Scored} {row : List Scored}
    (shown : Shows occupant row) {elite : Scored} :
    occupant = some elite ↔ IsLastBest row elite := by
  constructor
  · exact shown.taken elite
  · intro best
    cases occupant with
    | none => exact absurd best.zero_le (shown.vacant rfl elite best.mem)
    | some other => exact congrArg some ((shown.taken other rfl).unique best).symm

/-- The more is offered, the better what is shown, and it does not go away. -/
theorem Shows.exists_better {occupant later : Option Scored} {row more : List Scored}
    {elite : Scored} (shown : Shows occupant row) (shown_later : Shows later (row ++ more))
    (found : occupant = some elite) :
    ∃ better, later = some better ∧ elite.fitness ≤ better.fitness := by
  have best := shown.taken elite found
  have mem : elite ∈ row ++ more := List.mem_append_left more best.mem
  cases later with
  | none => exact absurd best.zero_le (shown_later.vacant rfl elite mem)
  | some better =>
    have later_best := shown_later.taken better rfl
    refine ⟨better, rfl, le_iff.mpr ⟨?_, ?_, later_best.height_le mem⟩⟩
    · exact number_of_zero_le best.zero_le
    · exact number_of_zero_le later_best.zero_le

variable {archive : Archive} {offers : List Offer} {cell : Nat} {elite : Scored}

theorem grid_offerAll (archive : Archive) (offers : List Offer) :
    (archive.offerAll offers).grid = archive.grid := by
  induction offers generalizing archive with
  | nil => rfl
  | cons offer offers ih => exact ih _

/-- What an offer makes of any cell. -/
theorem occupant?_offer_eq_ite (offer : Offer) (within : cell < archive.cells.size) :
    (archive.offer offer.cell offer.candidate).occupant? cell =
      if offer.cell = cell ∧
        acceptsOver (archive.occupant? cell) offer.candidate.fitness = true then
          some offer.candidate
      else archive.occupant? cell := by
  by_cases same : offer.cell = cell
  · rw [occupant?_offer (same ▸ within), accepts, same]
  · rw [if_neg fun taken => same taken.1]
    by_cases accepted : archive.accepts offer.cell offer.candidate = true
    · simp [Archive.offer, occupant?, accepted, same]
    · simp [Archive.offer, occupant?, accepted]

/-- Every cell shows what has been offered to it. -/
def Records (archive : Archive) (offers : List Offer) : Prop :=
  ∀ cell < archive.cells.size, Shows (archive.occupant? cell) (offeredTo cell offers)

theorem records_ofGrid (grid : Grid) : (ofGrid grid).Records [] := by
  intro cell _
  refine ⟨fun _ _ none => absurd none List.not_mem_nil, ?_⟩
  intro elite found
  exact absurd ⟨cell, found⟩ (not_keeps_ofGrid grid elite)

theorem Records.offer (records : archive.Records offers) (offer : Offer) :
    (archive.offer offer.cell offer.candidate).Records (offers ++ [offer]) := by
  intro cell within
  have size_eq : (archive.offer offer.cell offer.candidate).cells.size = archive.cells.size :=
    (size_cells _).trans archive.size_cells.symm
  rw [size_eq] at within
  rw [occupant?_offer_eq_ite offer within, offeredTo_append]
  have shown := records cell within
  by_cases same : offer.cell = cell
  · have offered : offeredTo cell [offer] = [offer.candidate] := by simp [offeredTo, same]
    rw [offered]
    simpa [same] using shown.concat offer.candidate
  · have offered : offeredTo cell [offer] = [] := by simp [offeredTo, same]
    rw [offered, List.append_nil, if_neg fun taken => same taken.1]
    exact shown

theorem Records.offerAll (records : archive.Records offers) (more : List Offer) :
    (archive.offerAll more).Records (offers ++ more) := by
  induction more generalizing archive offers with
  | nil => rwa [List.append_nil]
  | cons offer more ih =>
    have rest := ih (records.offer offer)
    rwa [List.append_assoc] at rest

theorem records_offerAll (grid : Grid) (offers : List Offer) :
    ((ofGrid grid).offerAll offers).Records offers := by
  have records := (records_ofGrid grid).offerAll offers
  rwa [List.nil_append] at records

theorem size_cells_offerAll (grid : Grid) (offers : List Offer) :
    ((ofGrid grid).offerAll offers).cells.size = grid.capacity := by
  rw [size_cells, grid_offerAll]
  rfl

theorem lt_size_of_occupant? (found : archive.occupant? cell = some elite) :
    cell < archive.cells.size := by
  rw [occupant?, Option.join_eq_some_iff] at found
  exact (Array.getElem?_eq_some_iff.mp found).1

/-- The offers of some candidates to the cells of their programs. -/
def offersOf (grid : Grid) (candidates : List Scored) : List Offer :=
  candidates.map fun candidate =>
    { cell := grid.cellOf (Features.ofProgram candidate.program), candidate }

theorem offerAll_offersOf_append (archive : Archive) (grid : Grid) (candidates more : List Scored) :
    archive.offerAll (offersOf grid (candidates ++ more)) =
      (archive.offerAll (offersOf grid candidates)).offerAll (offersOf grid more) := by
  rw [offersOf, List.map_append, offerAll, List.foldl_append]
  rfl

/-- What an archive holds of the offers to the cells of their programs is in the cell of its
program. -/
theorem cellOf_of_occupant? {grid : Grid} {candidates : List Scored}
    (found : ((ofGrid grid).offerAll (offersOf grid candidates)).occupant? cell = some elite) :
    grid.cellOf (Features.ofProgram elite.program) = cell := by
  have shown := records_offerAll grid (offersOf grid candidates) cell (lt_size_of_occupant? found)
  have offered := mem_offeredTo.mp (shown.taken elite found).mem
  obtain ⟨candidate, _, same⟩ := List.mem_map.mp offered
  obtain ⟨rfl, rfl⟩ := Offer.mk.inj same
  rfl

theorem offerSlots_eq_offerAll (archive : Archive) (index : Nat) (slots : List Slot) :
    (archive.offerSlots index slots).1 =
      archive.offerAll (offersOf archive.grid (slots.map Slot.scored)) := by
  induction slots generalizing archive index with
  | nil => rfl
  | cons slot slots ih => exact ih (archive.offer _ _) (index + 1)

/-- A population that passes through an archive is offered to it slot by slot. -/
theorem eq_offerAll_of_apply {archive' : Archive} {population population' : Population}
    {update : Update} {talk : List Chance.Line}
    (yields : (archive.apply population).Yields talk (update, archive', population')) :
    archive' = archive.offerAll (offersOf archive.grid population.members) := by
  rw [apply, offerSlots?_eq, ofOption_some, done_bind] at yields
  obtain ⟨_, ⟨_, _⟩, _, _, last, _⟩ := yields_bind_iff.mp yields
  obtain ⟨_, same⟩ := yields_pure_iff.mp last
  rw [Population.members, ← offerSlots_eq_offerAll archive 0]
  exact (Prod.mk.inj (Prod.mk.inj same).2).1

end Archive

namespace Engine

open Archive

variable {γ μ ε : Type} [Generator γ] [Mutator μ] [Evaluator ε] {start engine : Engine γ μ ε}

/-- The members of all populations that the strategies of a run have been shown up to the end of its
seeding or of one of its generations, slot by slot. -/
inductive Offered (start : Engine γ μ ε) : List Scored → Engine γ μ ε → Prop
  | seeding {dialogue : List Surroundings.Line} {engine : Engine γ μ ε} :
      start.seed.Yields dialogue engine → Offered start [] engine
  | generation {first second : List Surroundings.Line} {offered : List Scored}
      {engine bred next : Engine γ μ ε} :
      Offered start offered engine → engine.rear.Yields first bred →
      bred.conclude.Yields second next → Offered start (offered ++ bred.population.members) next

theorem ends_iff_exists_offered : start.Ends engine ↔ ∃ offered, start.Offered offered engine := by
  constructor
  · intro ends
    induction ends with
    | seeding yields => exact ⟨[], .seeding yields⟩
    | generation _ yields ih =>
      obtain ⟨offered, history⟩ := ih
      obtain ⟨bred, _, _, rear_yields, conclude_yields, _⟩ := yields_step_iff.mp yields
      exact ⟨_, history.generation rear_yields conclude_yields⟩
  · rintro ⟨offered, history⟩
    induction history with
    | seeding yields => exact .seeding yields
    | generation _ rear_yields conclude_yields ih =>
      exact ih.generation (yields_step_iff.mpr ⟨_, _, _, rear_yields, conclude_yields, rfl⟩)

/-- The archive of a run has been offered the members of all populations that it has been shown. -/
theorem strategy_of_offered {grid : Grid} {offered : List Scored}
    (strategy_eq : start.strategy = .mapElites (.ofGrid grid))
    (history : start.Offered offered engine) :
    engine.strategy = .mapElites ((ofGrid grid).offerAll (offersOf grid offered)) := by
  induction history with
  | seeding yields => exact (strategy_of_seed yields).trans strategy_eq
  | generation _ rear_yields conclude_yields ih =>
    obtain ⟨_, shaped, _, _, _, shaped_yields, _, rfl⟩ := of_conclude conclude_yields
    rw [applyStrategy, strategy_of_rear rear_yields, ih] at shaped_yields
    obtain ⟨_, ⟨_, archive, _⟩, _, apply_yields, last, _⟩ := yields_bind_iff.mp shaped_yields
    obtain ⟨_, rfl⟩ := yields_pure_iff.mp last
    obtain rfl := eq_offerAll_of_apply apply_yields
    rw [grid_offerAll, offerAll_offersOf_append]
    rfl

/-- An archive is what has been offered to it, in a run as well as elsewhere. A cell is empty
exactly if no offer to it has reached zero, and otherwise it holds the last of the best offers to
it, so that an occupant is a number that is not below zero, and more offers make nothing worse. In a
run, the offers are the members of all populations that the archive has been shown, each to the cell
of its program, where it then stays. -/
theorem archive_of_offers {config : EvolutionConfig} {sizes : List UInt64} {generator : γ}
    {mutator : μ} {evaluator : ε} {time : Nat} (mode_eq : config.mode = .mapElites sizes)
    (made : new config generator mutator evaluator time = .ok start) :
    (∀ (grid : Grid) (offers : List Offer),
      (∀ cell < grid.capacity,
        (((ofGrid grid).offerAll offers).occupant? cell = none ↔
          ∀ candidate ∈ offeredTo cell offers, ¬ 0 ≤ candidate.fitness) ∧
        ∀ elite, ((ofGrid grid).offerAll offers).occupant? cell = some elite ↔
          IsLastBest (offeredTo cell offers) elite) ∧
      ∀ more cell elite, ((ofGrid grid).offerAll offers).occupant? cell = some elite →
        0 ≤ elite.fitness ∧ elite.fitness.isNaN = false ∧
        ∃ better, ((ofGrid grid).offerAll (offers ++ more)).occupant? cell = some better ∧
          elite.fitness ≤ better.fitness) ∧
    ∃ grid, Grid.ofSizes sizes = .ok grid ∧
      (∀ engine, start.Ends engine ↔ ∃ offered, start.Offered offered engine) ∧
      ∀ offered engine, start.Offered offered engine →
        engine.archive? = some ((ofGrid grid).offerAll (offersOf grid offered)) ∧
        ∀ cell elite,
          ((ofGrid grid).offerAll (offersOf grid offered)).occupant? cell = some elite →
          grid.cellOf (Features.ofProgram elite.program) = cell := by
  constructor
  · intro grid offers
    constructor
    · intro cell within
      rw [← size_cells_offerAll grid offers] at within
      have shown := records_offerAll grid offers cell within
      exact ⟨shown.eq_none_iff, fun elite => shown.eq_some_iff⟩
    · intro more cell elite found
      have within := lt_size_of_occupant? found
      have shown := records_offerAll grid offers cell within
      have zero_le := (shown.taken elite found).zero_le
      refine ⟨zero_le, number_of_zero_le zero_le, ?_⟩
      rw [size_cells_offerAll, ← size_cells_offerAll grid (offers ++ more)] at within
      have shown_later := records_offerAll grid (offers ++ more) cell within
      rw [offeredTo_append] at shown_later
      exact shown.exists_better shown_later found
  · obtain ⟨_, strategy, strategy_eq, start_eq⟩ := of_new made
    rw [mode_eq, Strategy.ofMode] at strategy_eq
    cases made_grid : Grid.ofSizes sizes with
    | error reason =>
      rw [made_grid] at strategy_eq
      cases strategy_eq
    | ok grid =>
      rw [made_grid] at strategy_eq
      obtain rfl := Except.ok.inj strategy_eq
      have start_strategy : start.strategy = .mapElites (.ofGrid grid) := by
        rw [start_eq]
      refine ⟨grid, rfl, fun engine => ends_iff_exists_offered, ?_⟩
      intro offered engine history
      refine ⟨?_, fun cell elite found => cellOf_of_occupant? found⟩
      rw [archive?, strategy_of_offered start_strategy history]

/-- Settings of a search with an archive of one cell and two slots. -/
def archiveConfig : EvolutionConfig :=
  { pairConfig 0 .replaceTopHalf with mode := .mapElites [1, 1] }

/-- Two slots are offered in the only generation. -/
theorem archive_of_offers_of_pair : ∃ (start engine : Engine Blank Blank Verdicts)
    (offered : List Scored) (grid : Grid),
    new archiveConfig ⟨⟩ ⟨⟩ ⟨[1, 0, 1]⟩ 0 = .ok start ∧ start.Offered offered engine ∧
      offered.length = 2 ∧ Grid.ofSizes [1, 1] = .ok grid ∧
      engine.archive? = some ((ofGrid grid).offerAll (offersOf grid offered)) := by
  obtain ⟨start, made⟩ : ∃ start : Engine Blank Blank Verdicts,
      new archiveConfig ⟨⟩ ⟨⟩ ⟨[1, 0, 1]⟩ 0 = .ok start := ⟨_, rfl⟩
  have run : ((Script.run (standstill []) start.opening ()).toOption.any fun outcome =>
      outcome.1.2.1.population.members.length == 2) = true := by
    obtain rfl := Except.ok.inj made
    decide +kernel
  obtain ⟨dialogue, ⟨engine, bred, next⟩, yields, members⟩ := exists_yields_of_run
    (fun outcome : Engine Blank Blank Verdicts × Engine Blank Blank Verdicts ×
      Engine Blank Blank Verdicts => outcome.2.1.population.members.length == 2) run
  obtain ⟨_, _, _, seed_yields, rear_yields, conclude_yields⟩ := exists_of_opening yields
  obtain ⟨_, grid, made_grid, _, shows_offered⟩ := archive_of_offers rfl made
  have history := (Offered.seeding seed_yields).generation rear_yields conclude_yields
  exact ⟨start, next, _, grid, made, history, beq_iff_eq.mp members, made_grid,
    (shows_offered _ next history).1⟩

end Engine

end EvoSearch
