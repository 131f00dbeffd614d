/-
# When the cheap tier is exact

Hurdles are there to save expensive evaluations, at the price of cheap fitnesses in their place. If
the cheap tier of a judge is exact there is no such price. A search with hurdles and one without
them then go through the same populations, with the same best so far, draw the same, and exchange
the same with the store, whatever becomes of the hurdle: whether it is set or not, and whether a
candidate clears it, its fitness is what the judge makes of the program.
-/

import EvoSearch.Proofs.Exchange
import EvoSearch.Proofs.Likeness
import EvoSearch.Proofs.Noninterference

namespace EvoSearch

open Script EvoSearch.Random

/-- Both tiers of a judge give a program the same fitness, which depends on the program alone. -/
def IsExact (ε : Type) [Evaluator ε] (value : Program → Float) : Prop :=
  ∀ program (judge : ε), (Evaluator.evaluate program judge).1 = value program ∧
    (Evaluator.evaluateEarly program judge).1 = value program

/-- A strategy with hurdles, or with nothing at all. -/
def Strategy.IsPlain : Strategy → Prop
  | standard => True
  | hurdles _ => True
  | qualityDiversity => False
  | mapElites _ => False

namespace Strategy

variable {ε : Type} [Evaluator ε] {strategy : Strategy} {value : Program → Float}

theorem tournamentScore_of_isPlain (plain : strategy.IsPlain) :
    strategy.tournamentScore = .fitness := by
  cases strategy with
  | standard => rfl
  | hurdles hurdle => rfl
  | qualityDiversity => exact plain.elim
  | mapElites archive => exact plain.elim

/-- Whatever the gate does, a child gets the fitness of its program. -/
theorem fitness_evaluate (tiers : IsExact ε value) (plain : strategy.IsPlain) (program : Program)
    (judge : ε) : (strategy.evaluate program judge).1.fitness = value program := by
  cases strategy with
  | standard => exact (tiers program judge).1
  | qualityDiversity => exact plain.elim
  | mapElites archive => exact plain.elim
  | hurdles hurdle =>
    rw [evaluate, Hurdle.evaluate]
    split
    · dsimp only
      split
      · exact (tiers program _).1
      · exact (tiers program judge).2
    · exact (tiers program judge).1

end Strategy

/-- The likeness of two searches with the same fitnesses, whatever they know of cheap ones. -/
def exactTier {ε : Type} [Evaluator ε] {value : Program → Float} (tiers : IsExact ε value) :
    Likeness ε ε where
  settings _ := True
  scored scored other := other = scored
  early _ _ := True
  judges _ _ := True
  strategies strategy other := strategy.IsPlain ∧ other.IsPlain
  observed _ _ := True
  scored_vacant := rfl
  early_none := trivial
  observed_nil := trivial
  program_eq := by
    rintro scored _ rfl
    rfl
  ranksAlike := by
    rintro a _ rfl b _ rfl
    rfl
  tournamentScore _ _ plain :=
    ⟨Strategy.tournamentScore_of_isPlain plain.1, Strategy.tournamentScore_of_isPlain plain.2⟩
  seed judge other _ program := by
    refine ⟨congrArg (Scored.mk program) ?_, trivial, trivial⟩
    exact (tiers program other).1.trans (tiers program judge).1.symm
  child judge other _ strategy counterpart plain program := by
    refine ⟨congrArg (Scored.mk program) ?_, trivial, trivial⟩
    rw [Strategy.fitness_evaluate tiers plain.1, Strategy.fitness_evaluate tiers plain.2]
  collect _ _ _ _ _ _ := trivial
  collectsEarly _ _ _ _ _ _ _ _ _ := trivial

namespace Population

variable {related : Slot → Slot → Prop} {population other : Population}

/-- The same migrants in the same places keep populations a pair. -/
theorem Pairs.settle (pairs : population.Pairs related other)
    (fresh : ∀ scored, related (.fresh scored none) (.fresh scored none))
    (landings : List (Nat × Scored)) :
    (population.settle landings).Pairs related (other.settle landings) := by
  induction landings generalizing population other with
  | nil => exact pairs
  | cons landing landings ih => exact ih (pairs.set (fresh landing.2) landing.1)

/-- Migrants go to the same places in populations with the same fitnesses. -/
theorem Pairs.splice (pairs : population.Pairs related other)
    (fresh : ∀ scored, related (.fresh scored none) (.fresh scored none))
    (fitness_eq : ∀ slot counterpart, related slot counterpart →
      counterpart.fitness = slot.fitness) (policy : SplicePolicy) (migrants : List Scored) :
    (population.splice policy migrants).Pairs related (other.splice policy migrants) := by
  have fitnesses_eq : other.fitnesses = population.fitnesses := pairs.map_eq fitness_eq
  have landings_eq : policy.landings other migrants = policy.landings population migrants := by
    unfold SplicePolicy.landings SplicePolicy.targets
    rw [fitnesses_eq, pairs.size_eq]
  rw [Population.splice, Population.splice, landings_eq]
  exact pairs.settle fresh _

end Population

/-- An exchange is about the members of a population, and their number. -/
theorem MigrationConfig.exchange_congr (config : MigrationConfig) {population other : Population}
    (members_eq : other.members = population.members) (size_eq : other.size = population.size) :
    config.exchange other = config.exchange population := by
  have published : config.afterPublication other = config.afterPublication population := by
    funext publication
    cases publication with
    | error error => rfl
    | ok _ => rw [afterPublication, afterPublication, size_eq]
  have withdrawn : config.afterWithdrawal other = config.afterWithdrawal population := by
    funext withdrawal
    cases withdrawal with
    | error error => rfl
    | ok _ => rw [afterWithdrawal, afterWithdrawal, members_eq, published]
  rw [exchange_eq, exchange_eq, withdrawn]

namespace Engine

variable {γ μ ε ρ : Type} [Evaluator ε] [WordStream ρ] {value : Program → Float}
  {tiers : IsExact ε value} {engine other : Engine γ μ ε}

omit [WordStream ρ] in
theorem members_eq_of_alike (alike : engine.Alike (exactTier tiers) other) :
    other.population.members = engine.population.members :=
  alike.population.map_eq fun _ _ slots => slots.scored

theorem mirrors_migrate_of_exact {patience : Nat} (alike : engine.Alike (exactTier tiers) other) :
    Mirrors (Act.Hosts patience) (Act.Stage.Like (ρ := ρ)) (Alike (exactTier tiers))
      engine.migrate other.migrate := by
  have migration_eq : other.config.migration = engine.config.migration := by
    rw [alike.config_eq]
  have exchange_eq : engine.config.migration.exchange other.population =
      engine.config.migration.exchange engine.population :=
    engine.config.migration.exchange_congr (members_eq_of_alike alike) alike.population.size_eq
  have migrates : Mirrors (Act.Hosts patience) (Act.Stage.Like (ρ := ρ))
      (fun outcome result => outcome.2.Pairs (SlotsAlike (exactTier tiers)) result.2)
      (engine.config.migration.migrate engine.population)
      (engine.config.migration.migrate other.population) := by
    rw [MigrationConfig.migrate_eq_ite, MigrationConfig.migrate_eq_ite, exchange_eq]
    split
    · exact mirrors_done alike.population
    · apply Mirrors.bind (Draw.probability.steady_act Act.repeats_chance)
      rintro _ drawn rfl
      split
      · exact mirrors_done alike.population
      · apply Mirrors.bind (steady_of_respects (MigrationConfig.exchange_isTimeless _ _)
          fun _ => Act.repeats_of_isTimeless)
        rintro _ (error | migrants) rfl
        · exact mirrors_done alike.population
        · rw [MigrationConfig.settle, MigrationConfig.settle, Population.splice?_eq,
            Population.splice?_eq]
          exact mirrors_done (alike.population.splice (fun _ => slotsAlike_fresh rfl trivial)
            (fun _ _ slots => congrArg Scored.fitness slots.scored) _ migrants)
  rw [migrate, migrate, migration_eq]
  apply migrates.bind
  intro outcome result populations
  exact mirrors_done { alike with population := populations }

omit [Evaluator ε] in
/-- A plain strategy has no say in what becomes of the population. -/
theorem exists_applyStrategy_eq (plain : engine.strategy.IsPlain) :
    ∃ strategy earlyObserved, strategy.IsPlain ∧
      engine.applyStrategy = pure { engine with strategy, earlyObserved } := by
  rw [applyStrategy]
  split
  · exact ⟨engine.strategy, engine.earlyObserved, plain, rfl⟩
  · next strategy_eq =>
    rw [strategy_eq] at plain
    exact plain.elim
  · next strategy_eq =>
    rw [strategy_eq] at plain
    exact plain.elim
  · next hurdle _ =>
    exact ⟨.hurdles (hurdle.recompute engine.earlyObserved), [], trivial, rfl⟩

theorem diversityRecords_eq_of_exact (alike : engine.Alike (exactTier tiers) other) (run : Int64)
    (individuals : Nat) : other.population.diversityRecords run individuals =
      engine.population.diversityRecords run individuals := by
  apply alike.population.map_eq
  intro slot counterpart slots
  have program_eq : counterpart.program = slot.program := congrArg Scored.program slots.scored
  have fitness_eq : counterpart.fitness = slot.fitness := congrArg Scored.fitness slots.scored
  rw [program_eq, fitness_eq, slots.diversity_eq]

theorem progressRecord_like_of_exact (alike : engine.Alike (exactTier tiers) other)
    {best place : Slot × Nat} (places : PlacedAlike (SlotsAlike (exactTier tiers)) best place)
    (run : Int64) (individuals elapsed later : Nat) (overall : Float) :
    (engine.population.progressRecord run individuals elapsed best overall).Like
      (other.population.progressRecord run individuals later place overall) := by
  have fitnesses_eq : other.population.fitnesses = engine.population.fitnesses :=
    alike.population.map_eq fun _ _ slots => congrArg Scored.fitness slots.scored
  have diversities_eq : other.population.slots.toList.map Slot.diversity =
      engine.population.slots.toList.map Slot.diversity :=
    alike.population.map_eq fun _ _ slots => slots.diversity_eq
  have program_eq : place.1.program = best.1.program := congrArg Scored.program places.1.scored
  have fitness_eq : place.1.fitness = best.1.fitness := congrArg Scored.fitness places.1.scored
  rw [ProgressRecord.Like, Population.progressRecord, Population.progressRecord,
    PopulationStats.ofBest, PopulationStats.ofBest, fitnesses_eq, diversities_eq,
    alike.population.size_eq, places.1.diversity_eq, program_eq, fitness_eq, places.2]

theorem best_eq_of_exact (alike : engine.Alike (exactTier tiers) other) :
    other.best = engine.best := by
  have bests := alike.best
  revert bests
  cases engine.best <;> cases other.best <;> intro bests <;> cases bests
  · rfl
  · next scored => exact congrArg some scored

theorem carries_exactTier {patience : Nat} : Carries (Act.Hosts patience)
    (Act.Stage.Like (ρ := ρ)) γ μ (exactTier tiers) where
  chance := Act.repeats_chance
  clock := Act.echoes_clock
  diversity engine other alike := by
    rw [diversityRecords_eq_of_exact alike]
    have timeless : (Effect.store (.logDiversity (engine.population.diversityRecords
      engine.config.migration.run engine.individuals))).IsTimeless := trivial
    exact (Act.repeats_of_isTimeless timeless).mono fun _ _ _ => trivial
  progress engine other alike best place places elapsed later := by
    rw [best_eq_of_exact alike]
    have records := progressRecord_like_of_exact alike places engine.config.migration.run
      engine.individuals elapsed later ((engine.best.map Scored.fitness).getD Numeric.nan)
    exact (Act.echoes_logProgress records).mono fun _ _ _ => trivial
  strategy engine other alike := by
    obtain ⟨plain, other_plain⟩ := alike.strategies
    obtain ⟨strategy, observed, still_plain, applied⟩ := exists_applyStrategy_eq plain
    obtain ⟨counterpart, others, other_still_plain, other_applied⟩ :=
      exists_applyStrategy_eq other_plain
    rw [applied, other_applied]
    exact .done { alike with strategies := ⟨still_plain, other_still_plain⟩, observed := trivial }
  exchange engine other alike := mirrors_migrate_of_exact alike

/-- Two searches are at the same point, but for what concerns hurdles and train steps. -/
structure Coincides (engine other : Engine γ μ ε) : Prop where
  members_eq : other.population.members = engine.population.members
  diversities_eq : other.population.slots.toList.map Slot.diversity =
    engine.population.slots.toList.map Slot.diversity
  best_eq : other.best = engine.best
  individuals_eq : other.individuals = engine.individuals
  generation_eq : other.generation = engine.generation
  generator_eq : other.generator = engine.generator
  mutator_eq : other.mutator = engine.mutator

theorem Alike.coincides (alike : engine.Alike (exactTier tiers) other) :
    engine.Coincides other where
  members_eq := members_eq_of_alike alike
  diversities_eq := alike.population.map_eq fun _ _ slots => slots.diversity_eq
  best_eq := best_eq_of_exact alike
  individuals_eq := alike.individuals_eq
  generation_eq := alike.generation_eq
  generator_eq := alike.generator_eq
  mutator_eq := alike.mutator_eq

omit [Evaluator ε] in
theorem isPlain_of_new {config : EvolutionConfig} {generator : γ} {mutator : μ} {evaluator : ε}
    {time : Nat} (made : new config generator mutator evaluator time = .ok engine)
    (plain : config.mode = .standard ∨ config.mode = .hurdles) : engine.strategy.IsPlain := by
  obtain ⟨_, strategy, strategy_eq, rfl⟩ := of_new made
  rcases plain with mode_eq | mode_eq
  · rw [mode_eq] at strategy_eq
    cases strategy_eq
    trivial
  · rw [mode_eq] at strategy_eq
    cases strategy_eq
    trivial

variable [Generator γ] [Mutator μ]

/-- A judge whose cheap tier is exact makes the gate invisible. Take a search with hurdles and one
without, set up at any time with settings that are the same otherwise, and run on the same words and
the same store. Where one of them has ended its seeding and so many generations, the other one comes
to their end as well. The two then have the same programs, fitnesses and diversities slot by slot
and the same best so far, have evaluated as many individuals and used up the same words; and their
stores hold the same rows, but for the times in the reports. -/
theorem coincides_of_exact {config : EvolutionConfig} {generator : γ} {mutator : μ}
    {evaluator judge : ε} {time later : Nat} (tiers : IsExact ε value)
    (gated : new { config with mode := .hurdles } generator mutator evaluator time = .ok engine)
    (plain : new { config with mode := .standard } generator mutator judge later = .ok other)
    (ρ : Type) [WordStream ρ] (patience : Nat) (stage : Act.Stage Store.Memory ρ)
    (generations : Nat) :
    (∀ reached after, (engine.course generations).EndsIn (Act.Hosts patience) stage reached after →
      (other.course generations).EnsuresIn (Act.Hosts patience) stage fun counterpart last =>
        reached.Coincides counterpart ∧ after.Like last) ∧
    ∀ reached after, (other.course generations).EndsIn (Act.Hosts patience) stage reached after →
      (engine.course generations).EnsuresIn (Act.Hosts patience) stage fun counterpart last =>
        reached.Coincides counterpart ∧ after.Like last := by
  have engine_plain := isPlain_of_new gated (.inr rfl)
  have other_plain := isPlain_of_new plain (.inl rfl)
  have alike : engine.Alike (exactTier tiers) other :=
    alike_of_new gated plain trivial trivial ⟨engine_plain, other_plain⟩
  have alike_back : other.Alike (exactTier tiers) engine :=
    alike_of_new plain gated trivial trivial ⟨other_plain, engine_plain⟩
  constructor
  · intro reached after ends
    apply (alike.mirrors_course carries_exactTier generations stage stage reached after (.refl _)
      ends).mono
    rintro counterpart last ⟨reached_alike, still_like⟩
    exact ⟨reached_alike.coincides, still_like⟩
  · intro reached after ends
    apply (alike_back.mirrors_course carries_exactTier generations stage stage reached after
      (.refl _) ends).mono
    rintro counterpart last ⟨reached_alike, still_like⟩
    exact ⟨reached_alike.coincides, still_like⟩

/-- Two slots, an exchange in every generation, and a hurdle that only one of the searches has for
the child of the second generation. -/
theorem coincides_of_exact_of_pair : ∃ (engine other reached : Engine Blank Blank Tally)
    (after : Act.Stage Store.Memory Tape),
    new { pairConfig 1 .replaceTopHalf with mode := .hurdles } ⟨⟩ ⟨⟩ ⟨0⟩ 0 = .ok engine ∧
    new { pairConfig 1 .replaceTopHalf with mode := .standard } ⟨⟩ ⟨⟩ ⟨0⟩ 5 = .ok other ∧
    (other.course 2).EndsIn (Act.Hosts 1) Act.sharedStage reached after ∧
    (engine.course 2).EnsuresIn (Act.Hosts 1) Act.sharedStage fun counterpart last =>
      reached.Coincides counterpart ∧ after.Like last := by
  obtain ⟨engine, gated⟩ : ∃ engine : Engine Blank Blank Tally,
      new { pairConfig 1 .replaceTopHalf with mode := .hurdles } ⟨⟩ ⟨⟩ ⟨0⟩ 0 = .ok engine :=
    ⟨_, rfl⟩
  obtain ⟨other, plain⟩ : ∃ other : Engine Blank Blank Tally,
      new { pairConfig 1 .replaceTopHalf with mode := .standard } ⟨⟩ ⟨⟩ ⟨0⟩ 5 = .ok other :=
    ⟨_, rfl⟩
  have completes : (Act.run 1 .none 9 (other.course 2) Act.sharedStage).toOption.any
      (fun outcome => outcome.1.generation == 2) = true := by
    obtain rfl := Except.ok.inj plain
    decide +kernel
  obtain ⟨⟨reached, after⟩, run, _⟩ := Act.exists_of_any_toOption completes
  have ends := Act.endsIn_hosts_of_run run
  have tiers : IsExact Tally fun _ => 1 := fun _ _ => ⟨rfl, rfl⟩
  exact ⟨engine, other, reached, after, gated, plain, ends,
    (coincides_of_exact tiers gated plain Tape 1 Act.sharedStage 2).2 reached after ends⟩

end Engine

end EvoSearch
