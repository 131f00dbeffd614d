/-
# Searches that go alike

Two searches may keep different fitnesses, and notes of different kinds beside them, and still
choose the same parents, breed the same children and promote the same slots. A likeness says what
the two have in common, and that this is enough: related occupants are ranked alike, and what the
two judges make of one and the same program is related again.

From this the parts of a generation that all modes share are compared once and for all. What is left
to a single likeness is the turn of the strategy, the exchange, and what the surroundings answer.
-/

import EvoSearch.Proofs.Course
import EvoSearch.Proofs.Mirror

namespace EvoSearch

open Script

/-- A seed judged in both tiers. -/
def Evaluation.seed {ε : Type} [Evaluator ε] (program : Program) (evaluator : ε) :
    Evaluation × ε :=
  let (fitness, evaluator) := Evaluator.evaluate program evaluator
  let (early, evaluator) := Evaluator.evaluateEarly program evaluator
  ({ fitness, earlyFitness := some early }, evaluator)

/-- What the parts of two searches are compared by, and under which settings they are. -/
structure Resemblance (ε δ : Type) where
  settings : EvolutionConfig → Prop
  scored : Scored → Scored → Prop
  early : Option Float → Option Float → Prop
  judges : ε → δ → Prop
  strategies : Strategy → Strategy → Prop
  observed : List Float → List Float → Prop

/-- Two judges have come to related verdicts on a program, and are related still. -/
structure Resemblance.Verdict {ε δ : Type} (resemblance : Resemblance ε δ) (program : Program)
    (outcome : Evaluation × ε) (other : Evaluation × δ) : Prop where
  scored : resemblance.scored { program, fitness := outcome.1.fitness }
    { program, fitness := other.1.fitness }
  early : resemblance.early outcome.1.earlyFitness other.1.earlyFitness
  judges : resemblance.judges outcome.2 other.2

/-- A resemblance that is enough for two searches to go alike. -/
structure Likeness (ε δ : Type) [Evaluator ε] [Evaluator δ] extends Resemblance ε δ where
  scored_vacant : scored { program := .empty, fitness := 0 } { program := .empty, fitness := 0 }
  early_none : early none none
  observed_nil : observed [] []
  program_eq : ∀ a b, scored a b → b.program = a.program
  ranksAlike : RanksAlike scored Scored.fitness Scored.fitness
  /-- Tournaments go by fitness alone. -/
  tournamentScore : ∀ strategy other, strategies strategy other →
    strategy.tournamentScore = .fitness ∧ other.tournamentScore = .fitness
  seed : ∀ judge other, judges judge other → ∀ program,
    toResemblance.Verdict program (Evaluation.seed program judge) (Evaluation.seed program other)
  child : ∀ judge other, judges judge other → ∀ strategy counterpart,
    strategies strategy counterpart → ∀ program,
      toResemblance.Verdict program (strategy.evaluate program judge)
        (counterpart.evaluate program other)
  collect : ∀ values others, observed values others → ∀ outcome other, early outcome other →
    observed (values ++ outcome.toList) (others ++ other.toList)
  collectsEarly : ∀ strategy counterpart, strategies strategy counterpart →
    ∀ values others, observed values others → ∀ outcome other, early outcome other →
      observed (if strategy.collectsEarly then values ++ outcome.toList else values)
        (if counterpart.collectsEarly then others ++ other.toList else others)

namespace Engine

variable {γ μ ε δ : Type} [Evaluator ε] [Evaluator δ] {likeness : Likeness ε δ}

/-- Two slots are alike: their occupants and what is noted beside them are related, and they are
equally diverse. -/
structure SlotsAlike (likeness : Likeness ε δ) (slot other : Slot) : Prop where
  scored : likeness.scored slot.scored other.scored
  early : likeness.early slot.earlyFitness other.earlyFitness
  diversity_eq : other.diversity = slot.diversity

/-- Two engines are alike. They may differ in their modes, and in when they were set up. -/
structure Alike (likeness : Likeness ε δ) (engine : Engine γ μ ε) (other : Engine γ μ δ) :
    Prop where
  settings : likeness.settings engine.config
  config_eq : other.config = { engine.config with mode := other.config.mode }
  generator_eq : other.generator = engine.generator
  mutator_eq : other.mutator = engine.mutator
  judges : likeness.judges engine.evaluator other.evaluator
  population : engine.population.Pairs (SlotsAlike likeness) other.population
  strategies : likeness.strategies engine.strategy other.strategy
  reporter_eq : other.reporter = { engine.reporter with start := other.reporter.start }
  best : Option.Rel likeness.scored engine.best other.best
  observed : likeness.observed engine.earlyObserved other.earlyObserved
  individuals_eq : other.individuals = engine.individuals
  generation_eq : other.generation = engine.generation
  seeded_eq : other.seeded = engine.seeded

theorem slotsAlike_fresh {occupant counterpart : Scored} {early other : Option Float}
    (scored : likeness.scored occupant counterpart) (earlies : likeness.early early other) :
    SlotsAlike likeness (.fresh occupant early) (.fresh counterpart other) :=
  ⟨scored, earlies, rfl⟩

theorem ranksAlike_slots (likeness : Likeness ε δ) :
    RanksAlike (SlotsAlike likeness) Slot.fitness Slot.fitness :=
  fun a b first a' b' second => likeness.ranksAlike a.scored b.scored first.scored a'.scored
    b'.scored second.scored

/-- Engines that are made of settings that differ in the mode at most are alike to begin with. -/
theorem alike_of_new {config : EvolutionConfig} {mode : RunMode} {generator : γ} {mutator : μ}
    {evaluator : ε} {judge : δ} {time later : Nat} {engine : Engine γ μ ε} {other : Engine γ μ δ}
    (made : new config generator mutator evaluator time = .ok engine)
    (other_made : new { config with mode } generator mutator judge later = .ok other)
    (settings : likeness.settings config)
    (judges : likeness.judges evaluator judge)
    (strategies : likeness.strategies engine.strategy other.strategy) :
    engine.Alike likeness other := by
  obtain ⟨_, strategy, _, rfl⟩ := of_new made
  obtain ⟨_, counterpart, _, rfl⟩ := of_new other_made
  have vacant := slotsAlike_fresh likeness.scored_vacant likeness.early_none
  exact
    { settings
      config_eq := rfl
      generator_eq := rfl
      mutator_eq := rfl
      judges
      population := Population.pairs_ofSize vacant _
      strategies
      reporter_eq := rfl
      best := .none
      observed := likeness.observed_nil
      individuals_eq := rfl
      generation_eq := rfl
      seeded_eq := rfl }

variable {engine : Engine γ μ ε} {other : Engine γ μ δ}

/-- Related candidates are both noted, or neither is. -/
theorem Alike.noteBest (alike : engine.Alike likeness other) {candidate counterpart : Scored}
    (scored : likeness.scored candidate counterpart) :
    (engine.noteBest candidate).Alike likeness (other.noteBest counterpart) := by
  unfold Engine.noteBest
  have bests := alike.best
  revert bests
  cases engine.best <;> cases other.best <;> intro bests <;> cases bests
  · exact { alike with best := .some scored }
  · next former formers =>
    dsimp only
    rw [likeness.ranksAlike _ _ scored _ _ formers]
    split
    · exact { alike with best := .some scored }
    · exact alike

section Mirrors

variable {σ : Type} {answers : (effect : Effect) → effect.Answer → σ → σ → Prop}
  {like : σ → σ → Prop}

/-- Noting the best slots keeps two engines alike; and a search that has done so has slots. -/
theorem Alike.mirrors_updateBest (alike : engine.Alike likeness other) :
    Mirrors answers like
      (fun next after => next.Alike likeness after ∧ 0 < next.population.size)
      (engine.updateBest : Act _) other.updateBest := by
  rw [updateBest, updateBest, Population.best, Population.best]
  have bests := alike.population.best? (ranksAlike_slots likeness)
  revert bests
  cases found : engine.population.best? <;> cases other.population.best? <;> intro bests <;>
    cases bests
  · rintro _ _ _ _ _ ⟨⟩
  · next best places =>
    refine mirrors_done ⟨alike.noteBest places.1.scored, ?_⟩
    rw [population_noteBest]
    exact Nat.zero_lt_of_lt (Population.lt_size_of_slot? (Population.slot?_of_best? found))

theorem Alike.mirrors_promoteBest (alike : engine.Alike likeness other) :
    Mirrors answers like (Alike likeness) (engine.promoteBest : Act _) other.promoteBest := by
  apply (mirrors_ofOption (alike.population.best? (ranksAlike_slots likeness)) _).bind
  rintro ⟨slot, index⟩ ⟨counterpart, _⟩ ⟨slots, rfl⟩
  dsimp only
  split
  · exact mirrors_done alike
  · apply (mirrors_ofOption (alike.population.replace? slots 0) _).bind
    intro population counterparts populations
    exact mirrors_done { alike with population := populations }

/-- What is left to a likeness: the turn of the strategy, the exchange, and that the surroundings
answer the questions of the two searches in related ways. -/
structure Carries (answers : (effect : Effect) → effect.Answer → σ → σ → Prop)
    (like : σ → σ → Prop) (γ μ : Type) (likeness : Likeness ε δ) : Prop where
  chance : ∀ choice, Act.Repeats answers like (.chance choice)
  clock : Act.Echoes answers like .clock .clock fun _ _ => True
  diversity : ∀ (engine : Engine γ μ ε) (other : Engine γ μ δ), engine.Alike likeness other →
    Act.Echoes answers like
      (.store (.logDiversity (engine.population.diversityRecords engine.config.migration.run
        engine.individuals)))
      (.store (.logDiversity (other.population.diversityRecords engine.config.migration.run
        engine.individuals))) fun _ _ => True
  progress : ∀ (engine : Engine γ μ ε) (other : Engine γ μ δ), engine.Alike likeness other →
    ∀ best place, PlacedAlike (SlotsAlike likeness) best place → ∀ elapsed later,
      Act.Echoes answers like
        (.store (.logProgress (engine.population.progressRecord engine.config.migration.run
          engine.individuals elapsed best
          ((engine.best.map Scored.fitness).getD Numeric.nan))))
        (.store (.logProgress (other.population.progressRecord engine.config.migration.run
          engine.individuals later place
          ((other.best.map Scored.fitness).getD Numeric.nan)))) fun _ _ => True
  strategy : ∀ (engine : Engine γ μ ε) (other : Engine γ μ δ), engine.Alike likeness other →
    Draw.Paired (Alike likeness) engine.applyStrategy other.applyStrategy
  exchange : ∀ (engine : Engine γ μ ε) (other : Engine γ μ δ), engine.Alike likeness other →
    Mirrors answers like (Alike likeness) engine.migrate other.migrate

variable (carries : Carries answers like γ μ likeness)
include carries

theorem Alike.mirrors_report (alike : engine.Alike likeness other) :
    Mirrors answers like (Alike likeness) engine.report other.report := by
  have due_eq : other.reporter.isDue engine.individuals =
      engine.reporter.isDue engine.individuals := by
    rw [alike.reporter_eq]
    rfl
  have run_eq : other.config.migration.run = engine.config.migration.run := by
    rw [alike.config_eq]
  rw [report, report, alike.individuals_eq, run_eq, due_eq]
  split
  · apply (mirrors_ofOption (alike.population.best? (ranksAlike_slots likeness)) _).bind
    intro best place places
    refine mirrors_ask (carries.diversity engine other alike) fun _ _ _ => ?_
    refine mirrors_ask carries.clock fun time later _ => ?_
    refine mirrors_ask (carries.progress engine other alike best place places _ _) fun _ _ _ => ?_
    refine mirrors_done { alike with reporter_eq := ?_, individuals_eq := rfl }
    rw [alike.reporter_eq]
    rfl
  · exact mirrors_done alike

variable [Generator γ] [Mutator μ]

omit carries in
theorem Alike.paired_seedSlot (alike : engine.Alike likeness other) (index : Nat) :
    Draw.Paired (Alike likeness) (engine.seedSlot index) (other.seedSlot index) := by
  rw [seedSlot, seedSlot, alike.generator_eq, alike.mutator_eq]
  apply (Draw.paired_self _).bind
  rintro _ ⟨drawn, generator⟩ rfl
  apply (Draw.paired_self _).bind
  rintro _ ⟨program, mutator⟩ rfl
  have verdict := likeness.seed _ _ alike.judges program
  apply (inStep_ofOption (alike.population.replace?
    (slotsAlike_fresh verdict.scored verdict.early) index) _).bind
  intro population counterparts populations
  exact .done
    { alike with
      generator_eq := rfl
      mutator_eq := rfl
      judges := verdict.judges
      population := populations
      observed := likeness.collectsEarly _ _ alike.strategies _ _ alike.observed _ _ verdict.early
      individuals_eq := congrArg (· + 1) alike.individuals_eq }

omit carries [Generator γ] in
theorem Alike.paired_breedSlot (alike : engine.Alike likeness other) (index : Nat) :
    Draw.Paired (Alike likeness) (engine.breedSlot index) (other.breedSlot index) := by
  have tournament_eq : other.config.tournamentSize = engine.config.tournamentSize := by
    rw [alike.config_eq]
  obtain ⟨score_eq, other_score_eq⟩ := likeness.tournamentScore _ _ alike.strategies
  rw [breedSlot, breedSlot, alike.mutator_eq, tournament_eq, score_eq, other_score_eq]
  have ranked : RanksAlike (SlotsAlike likeness) TournamentScore.fitness.of
      TournamentScore.fitness.of := fun a b first a' b' second =>
    ranksAlike_slots likeness a b first a' b' second
  apply (alike.population.paired_tournament ranked _).bind
  rintro ⟨parent, _⟩ ⟨counterpart, _⟩ ⟨parents, _⟩
  have program_eq : counterpart.program = parent.program :=
    likeness.program_eq _ _ parents.scored
  dsimp only
  rw [program_eq]
  apply (Draw.paired_self _).bind
  rintro _ ⟨child, mutator⟩ rfl
  have verdict := likeness.child _ _ alike.judges _ _ alike.strategies child
  apply (inStep_ofOption (alike.population.replace?
    (slotsAlike_fresh verdict.scored verdict.early) index) _).bind
  intro population counterparts populations
  exact .done
    { alike with
      mutator_eq := rfl
      judges := verdict.judges
      population := populations
      observed := likeness.collect _ _ alike.observed _ _ verdict.early
      individuals_eq := congrArg (· + 1) alike.individuals_eq }

theorem Alike.mirrors_seed (alike : engine.Alike likeness other) :
    Mirrors answers like (Alike likeness) engine.seed other.seed := by
  have filled : Draw.Paired (Alike likeness)
      ((List.range engine.population.size).foldlM seedSlot engine)
      ((List.range other.population.size).foldlM seedSlot other) := by
    rw [alike.population.size_eq]
    apply inStep_foldlM ?_ (List.forall₂_same.mpr fun _ _ => rfl) alike
    rintro index _ rfl state twin states
    exact states.paired_seedSlot index
  apply (filled.mirrors carries.chance).bind
  intro state twin states
  have noted : Alike likeness { state with seeded := true } { twin with seeded := true } :=
    { states with seeded_eq := rfl }
  apply noted.mirrors_updateBest.bind
  rintro next after ⟨nexts, _⟩
  exact nexts.mirrors_report carries

omit [Generator γ] in
theorem Alike.mirrors_step (alike : engine.Alike likeness other) :
    Mirrors answers like (Alike likeness) engine.step other.step := by
  apply alike.mirrors_promoteBest.bind
  intro promoted counterpart promoteds
  have bred : Draw.Paired (Alike likeness) promoted.breed counterpart.breed := by
    rw [breed, breed, promoteds.population.size_eq]
    apply inStep_foldlM ?_ (List.forall₂_same.mpr fun _ _ => rfl) promoteds
    rintro index _ rfl state twin states
    exact states.paired_breedSlot index
  apply (bred.mirrors carries.chance).bind
  intro reared rearing reareds
  apply ((carries.strategy reared rearing reareds).mirrors carries.chance).bind
  intro shaped shaping shapeds
  apply (carries.exchange shaped shaping shapeds).bind
  intro exchanged exchanging exchangeds
  have counted : Alike likeness { exchanged with generation := exchanged.generation + 1 }
      { exchanging with generation := exchanging.generation + 1 } :=
    { exchangeds with generation_eq := congrArg (· + 1) exchangeds.generation_eq }
  apply counted.mirrors_updateBest.bind
  rintro next after ⟨nexts, _⟩
  exact nexts.mirrors_report carries

/-- Searches that are alike go alike, for as many generations as one likes. -/
theorem Alike.mirrors_course (alike : engine.Alike likeness other) (generations : Nat) :
    Mirrors answers like (Alike likeness) (engine.course generations)
      (other.course generations) := by
  induction generations with
  | zero => exact alike.mirrors_seed carries
  | succ generations ih => exact ih.bind fun _ _ reached => reached.mirrors_step carries

end Mirrors

end Engine

end EvoSearch
