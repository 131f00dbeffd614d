/-
# Elitism

A run in which migrants take the place of the worst slots only, or in which there are none, never
loses its best fitness. From the end of the seeding on, the best fitness of the population is the
best so far, and it does not fall from one generation to the next.

The invariant ties three things to one height, the peak of the population: the best so far is at
it, and the archive, in a run that has one, keeps nothing above it and nothing below zero.
-/

import EvoSearch.Proofs.Parts

namespace EvoSearch.Engine

open Numeric Script

variable {γ μ ε : Type} {engine next start : Engine γ μ ε} {peak : Int}

/-- Migrants cannot take the place of the best slot. -/
def SparesBest (config : MigrationConfig) : Prop :=
  config.probability ≤ 0 ∨ config.splice = .replaceWorst

/-- The population has its peak at a height up to which the archive keeps things. -/
structure PeaksAt (engine : Engine γ μ ε) (peak : Int) : Prop where
  peaks : engine.population.Peaks peak
  nonnegative : ∀ elite, engine.Archives elite → 0 ≤ height elite.fitness
  bound : ∀ elite, engine.Archives elite → height elite.fitness ≤ peak

/-- The best so far is at the peak of the population. -/
structure IsTopped (engine : Engine γ μ ε) (peak : Int) : Prop extends engine.PeaksAt peak where
  best : ∃ best, engine.best = some best ∧ height best.fitness = peak

/-- The archive stays below a peak that rises. -/
theorem PeaksAt.mono {risen : Int} (top : engine.PeaksAt peak)
    (peaks : next.population.Peaks risen) (le : peak ≤ risen)
    (strategy_eq : next.strategy = engine.strategy) : next.PeaksAt risen := by
  refine ⟨peaks, ?_, ?_⟩
  · intro elite archived
    exact top.nonnegative elite ((archives_congr strategy_eq).mp archived)
  · intro elite archived
    exact Int.le_trans (top.bound elite ((archives_congr strategy_eq).mp archived)) le

/-- What a strategy makes of a population has the same peak: a slot at the peak is never turned
down, for nothing in the archive is better. -/
theorem PeaksAt.of_reshapes (top : engine.PeaksAt peak) (reshapes : engine.Reshapes next) :
    next.PeaksAt peak := by
  have nonnegative := reshapes.nonnegative top.nonnegative
  have bound (elite : Scored) (archived : next.Archives elite) :
      height elite.fitness ≤ peak := by
    rcases reshapes.elite elite archived with old | ⟨slot, holds, _, rfl⟩
    · exact top.bound elite old
    · exact top.peaks.bound slot holds
  refine ⟨⟨?_, ?_⟩, nonnegative, bound⟩
  · obtain ⟨slot, slot_holds, rfl⟩ := top.peaks.attained
    rcases reshapes.gone nonnegative slot slot_holds with ⟨after, after_holds, alike⟩ |
      ⟨elite, archived, below⟩
    · exact ⟨after, after_holds, by rw [alike.fitness]⟩
    · exact absurd (bound elite archived) (Int.not_le.mpr below)
  · intro after after_holds
    rcases reshapes.slot after after_holds with ⟨before, before_holds, alike⟩ |
      ⟨elite, archived, rfl⟩
    · rw [alike.fitness]
      exact top.peaks.bound before before_holds
    · exact bound elite archived

/-- Up to the chance to migrate the peak can only rise, since the best slot stays in front. -/
theorem PeaksAt.of_rearing [Mutator μ] [Evaluator ε] {dialogue : List Surroundings.Line}
    {moments : List (Engine γ μ ε)} {shaped : Engine γ μ ε} (top : engine.PeaksAt peak)
    (passes : Passes (rearingParts engine.population.size) engine dialogue moments shaped) :
    shaped.config = engine.config ∧ shaped.best = engine.best ∧
      ∃ risen, peak ≤ risen ∧ shaped.PeaksAt risen := by
  obtain ⟨slot, index, promoted, children, bred, _, found, rfl, fills, reshapes, _⟩ :=
    exists_of_rearing passes
  obtain rfl := (Population.peaks_of_best? found).unique top.peaks
  have occupied : 0 < engine.population.size :=
    Nat.zero_lt_of_lt (Population.lt_size_of_slot? (Population.slot?_of_best? found))
  have leads : bred.population.slot? 0 = some slot := by
    rw [fills.outside 0 (.inl Nat.one_pos), Population.slot?_set, if_pos rfl, if_pos occupied]
  obtain ⟨risen, peaks, le⟩ := Population.exists_peaks_of_holds ⟨0, leads⟩
  have bred_top : bred.PeaksAt risen := top.mono peaks le fills.agrees.strategy_eq
  exact ⟨reshapes.config_eq.trans fills.agrees.config_eq,
    reshapes.best_eq.trans fills.agrees.best_eq, risen, le, bred_top.of_reshapes reshapes⟩

/-- Noting the best slot of a population puts the best so far at the peak, unless the best so far
was above it. -/
theorem PeaksAt.of_notes {dialogue : List Surroundings.Line} (top : next.PeaksAt peak)
    (notes : engine.Notes dialogue next)
    (covered : ∀ former, engine.best = some former → height former.fitness ≤ peak) :
    next.IsTopped peak := by
  obtain ⟨slot, index, found, noted⟩ := notes.noted
  obtain rfl := (Population.peaks_of_best? found).unique top.peaks
  obtain ⟨best, best_eq, origin, candidate_le, _⟩ := exists_best_noteBest engine slot.scored
  refine ⟨top, best, noted.trans best_eq, Int.le_antisymm ?_ candidate_le⟩
  rcases origin with rfl | former
  · exact Int.le_refl _
  · exact covered best former

/-- From the chance to migrate on, migrants that spare the best slot do not lower the peak, and the
best so far ends up at it. -/
theorem PeaksAt.of_closing {dialogue : List Surroundings.Line} {moments : List (Engine γ μ ε)}
    (top : engine.PeaksAt peak) (spares : SparesBest engine.config.migration)
    (covered : ∀ former, engine.best = some former → height former.fitness ≤ peak)
    (passes : Passes closingParts engine dialogue moments next) :
    next.config = engine.config ∧ ∃ risen, peak ≤ risen ∧ next.IsTopped risen := by
  obtain ⟨notes, _, exchange⟩ := Engine.of_closing passes
  obtain ⟨survivor, survivor_holds, survivor_height⟩ :
      ∃ slot, next.population.Holds slot ∧ height slot.fitness = peak := by
    rcases exchange with same | ⟨positive, migrants, spliced⟩
    · rw [same]
      exact top.peaks.attained
    · rw [spliced, spares.resolve_left positive]
      exact Population.exists_survivor top.peaks migrants
  obtain ⟨risen, peaks, le⟩ := Population.exists_peaks_of_holds survivor_holds
  rw [survivor_height] at le
  exact ⟨notes.config_eq, risen, le, (top.mono peaks le notes.strategy_eq).of_notes notes
    fun former former_eq => Int.le_trans (covered former former_eq) le⟩

variable [Generator γ] [Mutator μ] [Evaluator ε]

/-- Where a run is after its seeding, and after each of its generations. -/
inductive Ends (start : Engine γ μ ε) : Engine γ μ ε → Prop
  | seeding {dialogue : List Surroundings.Line} {engine : Engine γ μ ε} :
      start.seed.Yields dialogue engine → Ends start engine
  | generation {dialogue : List Surroundings.Line} {engine next : Engine γ μ ε} :
      Ends start engine → engine.step.Yields dialogue next → Ends start next

/-- One engine is so many generations ahead of another. -/
inductive Proceeds (engine : Engine γ μ ε) : (generations : Nat) → Engine γ μ ε → Prop
  | here : Proceeds engine 0 engine
  | step {generations : Nat} {mid next : Engine γ μ ε} {dialogue : List Surroundings.Line} :
      Proceeds engine generations mid → mid.step.Yields dialogue next →
      Proceeds engine (generations + 1) next

section Proceeds

variable {mid : Engine γ μ ε} {dialogue : List Surroundings.Line} {generations : Nat}

theorem Proceeds.ends (proceeds : engine.Proceeds generations next) (ends : start.Ends engine) :
    start.Ends next := by
  induction proceeds with
  | here => exact ends
  | step _ yields ih => exact ih.generation yields

section Loop

omit [Generator γ]

variable (holds : Nat → List Surroundings.Line → Engine γ μ ε → Prop)
  (looks : ∀ count said state time, holds count said state →
    holds count (said ++ [⟨.clock, time⟩]) state)
  (turns : ∀ count said state talk after, holds count said state → state.step.Yields talk after →
    holds (count + 1) (said ++ talk) after)
include looks turns

/-- What a look at the clock and a generation keep, a run keeps. -/
theorem holds_of_continueRun {budget : Budget} {before time fuel completed : Nat}
    {said : List Surroundings.Line} (so_far : holds completed said engine)
    (yields : (engine.continueRun budget before time fuel completed).Yields dialogue
      (generations, next)) : holds generations (said ++ dialogue) next := by
  have stays {engine : Engine γ μ ε} {completed : Nat} {said talk : List Surroundings.Line}
      (so_far : holds completed said engine)
      (yields : (pure (completed, engine) : Act _).Yields talk (generations, next)) :
      holds generations (said ++ talk) next := by
    obtain ⟨rfl, same⟩ := yields_pure_iff.mp yields
    obtain ⟨rfl, rfl⟩ := Prod.mk.inj same
    rwa [List.append_nil]
  induction fuel generalizing completed engine said dialogue with
  | zero => exact stays so_far yields
  | succ fuel ih =>
    rw [continueRun] at yields
    split at yields
    · rw [Act.now, ask_bind] at yields
      obtain ⟨now, rest, rfl, rest_yields⟩ := yields_ask_iff.mp yields
      rw [done_bind] at rest_yields
      have looked := looks completed said engine now so_far
      rw [List.append_cons]
      split at rest_yields
      · obtain ⟨_, mid, _, step_yields, later, rfl⟩ := yields_bind_iff.mp rest_yields
        have turned := turns completed _ engine _ mid looked step_yields
        rw [← List.append_assoc]
        split at later
        · exact ih turned later
        · exact stays turned later
      · exact stays looked rest_yields
    · exact stays so_far yields

theorem holds_of_run {budget : Budget} (said : List Surroundings.Line)
    (so_far : holds 0 said engine)
    (yields : (engine.run budget).Yields dialogue (generations, next)) :
    holds generations (said ++ dialogue) next := by
  rw [run] at yields
  split at yields
  · obtain ⟨time, _, rfl, rest⟩ := yields_ask_iff.mp yields
    rw [List.append_cons]
    exact holds_of_continueRun holds looks turns (looks 0 said engine time so_far) rest
  · exact (not_yields_fault yields).elim

end Loop

omit [Generator γ] in
/-- A run within a budget goes from generation to generation, and counts them. -/
theorem proceeds_of_run {budget : Budget}
    (yields : (engine.run budget).Yields dialogue (generations, next)) :
    engine.Proceeds generations next := by
  apply holds_of_run (fun count _ state => engine.Proceeds count state) ?_ ?_ [] .here yields
  · intro count _ state time so_far
    exact so_far
  · intro count _ state talk after so_far step_yields
    exact so_far.step step_yields

end Proceeds

theorem exists_topped_of_seeding {dialogue : List Surroundings.Line}
    {moments : List (Engine γ μ ε)} (none : start.best = .none)
    (vacant : ∀ elite, ¬ start.Archives elite)
    (passes : Passes (seedingParts start.population.size) start dialogue moments engine) :
    engine.config = start.config ∧ ∃ peak, engine.IsTopped peak := by
  obtain ⟨notes, _⟩ := of_seeding passes
  obtain ⟨slot, index, found, _⟩ := notes.noted
  have engine_vacant (elite : Scored) : ¬ engine.Archives elite :=
    fun archived => vacant elite ((archives_congr notes.strategy_eq).mp archived)
  have top : engine.PeaksAt (height slot.fitness) :=
    ⟨Population.peaks_of_best? found, fun elite archived => (engine_vacant elite archived).elim,
      fun elite archived => (engine_vacant elite archived).elim⟩
  refine ⟨notes.config_eq, _, top.of_notes notes fun former former_eq => ?_⟩
  rw [none] at former_eq
  cases former_eq

omit [Generator γ] in
/-- A generation does not lower the peak, neither by its end nor at the chance to migrate. -/
theorem IsTopped.of_generation {rearing closing : List Surroundings.Line}
    {before behind : List (Engine γ μ ε)} {shaped : Engine γ μ ε} (topped : engine.IsTopped peak)
    (spares : SparesBest engine.config.migration)
    (rearing_passes : Passes (rearingParts engine.population.size) engine rearing before shaped)
    (closing_passes : Passes closingParts shaped closing behind next) :
    next.config = engine.config ∧ ∃ risen, peak ≤ risen ∧ next.IsTopped risen ∧
      ∀ slot, shaped.population.Holds slot → height slot.fitness ≤ risen := by
  obtain ⟨config_eq, best_eq, risen, le, shaped_top⟩ := topped.toPeaksAt.of_rearing rearing_passes
  have covered (former : Scored) (former_eq : shaped.best = some former) :
      height former.fitness ≤ risen := by
    obtain ⟨best, engine_best, rfl⟩ := topped.best
    rw [best_eq, engine_best] at former_eq
    rwa [← Option.some.inj former_eq]
  obtain ⟨next_config, top, risen_le, next_topped⟩ :=
    shaped_top.of_closing (config_eq ▸ spares) covered closing_passes
  exact ⟨next_config.trans config_eq, top, Int.le_trans le risen_le, next_topped,
    fun slot slot_holds => Int.le_trans (shaped_top.peaks.bound slot slot_holds) risen_le⟩

theorem IsTopped.of_step {dialogue : List Surroundings.Line} (topped : engine.IsTopped peak)
    (spares : SparesBest engine.config.migration) (yields : engine.step.Yields dialogue next) :
    next.config = engine.config ∧ ∃ risen, peak ≤ risen ∧ next.IsTopped risen := by
  rw [step_eq_perform, yields_perform_iff] at yields
  obtain ⟨moments, passes⟩ := yields
  obtain ⟨_, _, _, _, _, rearing, closing, _, _⟩ := passes_append_iff.mp passes
  obtain ⟨config_eq, risen, le, next_topped, _⟩ := topped.of_generation spares rearing closing
  exact ⟨config_eq, risen, le, next_topped⟩

theorem exists_topped_of_ends (none : start.best = .none)
    (vacant : ∀ elite, ¬ start.Archives elite) (spares : SparesBest start.config.migration)
    (ends : start.Ends engine) : engine.config = start.config ∧ ∃ peak, engine.IsTopped peak := by
  induction ends with
  | seeding yields =>
    rw [seed_eq_perform, yields_perform_iff] at yields
    obtain ⟨moments, passes⟩ := yields
    exact exists_topped_of_seeding none vacant passes
  | generation ends yields ih =>
    obtain ⟨config_eq, peak, topped⟩ := ih
    obtain ⟨next_config, risen, _, next_topped⟩ := topped.of_step (config_eq ▸ spares) yields
    exact ⟨next_config.trans config_eq, risen, next_topped⟩

/-- A run that spares its best slots from migrants never loses its best fitness: at the end of the
seeding and of every generation the best of the population and the best so far are equally good,
and the best of the population is no better than that of the next generation. -/
theorem best_never_falls {config : EvolutionConfig} {generator : γ} {mutator : μ} {evaluator : ε}
    {time : Nat} (made : new config generator mutator evaluator time = .ok start)
    (spares : SparesBest config.migration) (ends : start.Ends engine) :
    (∃ slot index best, engine.population.best? = some (slot, index) ∧ engine.best = some best ∧
      beats slot.fitness best.fitness = false ∧ beats best.fitness slot.fitness = false) ∧
    ∀ dialogue next, engine.step.Yields dialogue next → ∃ slot index risen place,
      engine.population.best? = some (slot, index) ∧
      next.population.best? = some (risen, place) ∧ beats slot.fitness risen.fitness = false := by
  obtain ⟨start_config, none, vacant⟩ := vacant_of_new made
  obtain ⟨config_eq, peak, topped⟩ := exists_topped_of_ends none vacant (start_config ▸ spares) ends
  obtain ⟨slot, index, found, slot_height⟩ := topped.peaks.exists_best?
  constructor
  · obtain ⟨best, best_eq, best_height⟩ := topped.best
    refine ⟨slot, index, best, found, best_eq, ?_, ?_⟩
    · exact not_beats_iff.mpr (Int.le_of_eq (slot_height.trans best_height.symm))
    · exact not_beats_iff.mpr (Int.le_of_eq (best_height.trans slot_height.symm))
  · intro dialogue next yields
    obtain ⟨_, risen, le, next_topped⟩ := topped.of_step
      (config_eq ▸ start_config ▸ spares) yields
    obtain ⟨top, place, next_found, top_height⟩ := next_topped.peaks.exists_best?
    refine ⟨slot, index, top, place, found, next_found, ?_⟩
    rwa [not_beats_iff, slot_height, top_height]

/-- A judge that has its verdicts ready, one for each expensive evaluation. -/
structure Verdicts where
  ready : List Float

instance : Evaluator Verdicts where
  evaluate _ verdicts := (verdicts.ready.headD 0, ⟨verdicts.ready.tail⟩)
  evaluateEarly _ verdicts := (0, verdicts)
  trainSteps _ := 0

/-- Surroundings in which chance always brings zero, the clock stands still, and the store answers
every call, with the same migrants whenever it is asked for some. -/
def standstill (migrants : List Scored) :
    (effect : Effect) → Unit → Except Fault (effect.Answer × Unit)
  | .chance _, state => .ok ((0 : UInt64), state)
  | .clock, state => .ok ((0 : Nat), state)
  | .store (.withdraw _), state => .ok (.ok (), state)
  | .store (.publish _ members), state => .ok (.ok members.length, state)
  | .store (.sample _ _), state => .ok (.ok migrants, state)
  | .store (.logProgress _), state => .ok (.ok (), state)
  | .store (.logDiversity _), state => .ok (.ok (), state)
  | .store (.logFinal _ _), state => .ok (.ok (), state)
  | .store (.best _), state => .ok (.ok none, state)

/-- Settings of a search with two slots. -/
def pairConfig (probability : Float) (splice : SplicePolicy) : EvolutionConfig where
  populationSize := 2
  tournamentSize := 1
  progressEvery := 1
  mode := .standard
  migration := { probability, run := 0, splice }
  randomSeed := none

/-- A search with two slots whose verdicts are known in advance. -/
def pairEngine (probability : Float) (splice : SplicePolicy) (ready : List Float) :
    Engine Blank Blank Verdicts where
  config := pairConfig probability splice
  generator := ⟨⟩
  mutator := ⟨⟩
  evaluator := ⟨ready⟩
  population := .ofSize 2
  strategy := .standard
  reporter := .ofInterval 1 0
  best := none
  earlyObserved := []
  individuals := 0
  generation := 0
  seeded := false

/-- A leader of fitness one keeps its place before a child of fitness zero. -/
theorem best_never_falls_of_pair : ∃ (engine next : Engine Blank Blank Verdicts)
    (dialogue : List Surroundings.Line),
    (pairEngine 0 .replaceTopHalf [1, -1, 0]).Ends engine ∧ engine.step.Yields dialogue next ∧
      ∃ slot index risen place, engine.population.best? = some (slot, index) ∧
        next.population.best? = some (risen, place) ∧ beats slot.fitness risen.fitness = false := by
  have made : new (pairConfig 0 .replaceTopHalf) ⟨⟩ ⟨⟩ ⟨[1, -1, 0]⟩ 0 =
      .ok (pairEngine 0 .replaceTopHalf [1, -1, 0]) := rfl
  have spares : SparesBest (pairConfig 0 .replaceTopHalf).migration := .inl (by decide)
  have run : ((Script.run (standstill [])
      ((pairEngine 0 .replaceTopHalf [1, -1, 0]).seed >>= step) ()).toOption.any
        fun outcome => outcome.1.generation == 1) = true := by
    decide +kernel
  obtain ⟨dialogue, next, yields, _⟩ := exists_yields_of_run
    (fun next : Engine Blank Blank Verdicts => next.generation == 1) run
  obtain ⟨_, engine, rest, seed_yields, step_yields, _⟩ := yields_bind_iff.mp yields
  exact ⟨engine, next, rest, .seeding seed_yields, step_yields,
    (best_never_falls made spares (.seeding seed_yields)).2 rest next step_yields⟩

end EvoSearch.Engine
