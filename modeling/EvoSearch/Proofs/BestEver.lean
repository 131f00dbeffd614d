/-
# What the best so far covers

The best so far is taken from populations as they are at the end of the seeding and of each
generation. An account of a run also keeps what has been in between: every fitness that a slot was
ever given, and the populations as they were when the chance to migrate came.

Everything that has been seen is covered by the best so far, or by one of those populations: what is
bred over or turned down by an archive is never better than what stays. So the best so far misses
something if and only if migrants took the place of something better before it could be noted. Where
migrants spare the best slot, nothing is missed.
-/

import EvoSearch.Proofs.Elitism

namespace EvoSearch

open Numeric Script

theorem Population.mem_fitnesses_iff {population : Population} {fitness : Float} :
    fitness ∈ population.fitnesses ↔ ∃ slot, population.Holds slot ∧ slot.fitness = fitness := by
  simp [fitnesses, Holds, slot?, Array.mem_iff_getElem?]

namespace Engine

variable {γ μ ε : Type} [Generator γ] [Mutator μ] [Evaluator ε] {start engine : Engine γ μ ε}
  {seen : List Float} {brought : List Population} {dialogue : List Surroundings.Line}

/-- A run up to the end of its seeding or of a generation, whose dialogue is given as well: all
fitnesses that slots have been given, and the populations that the chance to migrate has met. A part
of a generation gives a fitness to a slot at most once, so all of them stand in a population at the
end of some part. -/
inductive Account (start : Engine γ μ ε) :
    List Float → List Population → List Surroundings.Line → Engine γ μ ε → Prop
  | seeding {dialogue : List Surroundings.Line} {moments : List (Engine γ μ ε)}
      {engine : Engine γ μ ε} :
      Passes (seedingParts start.population.size) start dialogue moments engine →
      Account start engine.population.fitnesses [] dialogue engine
  | generation {seen : List Float} {brought : List Population}
      {dialogue rearing closing : List Surroundings.Line}
      {before behind : List (Engine γ μ ε)} {engine shaped next : Engine γ μ ε} :
      Account start seen brought dialogue engine →
      Passes (rearingParts engine.population.size) engine rearing before shaped →
      Passes closingParts shaped closing behind next →
      Account start
        (seen ++ (before ++ behind).flatMap fun moment => moment.population.fitnesses)
        (brought ++ [shaped.population]) (rearing ++ closing) next

/-- Every run has an account, and every account is one of a run. -/
theorem ends_iff_exists_account :
    start.Ends engine ↔ ∃ seen brought dialogue, Account start seen brought dialogue engine := by
  constructor
  · intro ends
    induction ends with
    | seeding yields =>
      rw [seed_eq_perform, yields_perform_iff] at yields
      obtain ⟨moments, passes⟩ := yields
      exact ⟨_, _, _, .seeding passes⟩
    | generation _ yields ih =>
      obtain ⟨seen, brought, dialogue, account⟩ := ih
      rw [step_eq_perform, yields_perform_iff] at yields
      obtain ⟨moments, passes⟩ := yields
      obtain ⟨_, _, _, _, _, rearing, closing, _, _⟩ := passes_append_iff.mp passes
      exact ⟨_, _, _, account.generation rearing closing⟩
  · rintro ⟨seen, brought, dialogue, account⟩
    induction account with
    | seeding passes =>
      have yields := yields_perform_iff.mpr ⟨_, passes⟩
      rw [← seed_eq_perform] at yields
      exact .seeding yields
    | generation _ rearing closing ih =>
      have passes := passes_append_iff.mpr ⟨_, _, _, _, _, rearing, closing, rfl, rfl⟩
      have yields := yields_perform_iff.mpr ⟨_, passes⟩
      rw [← generationParts, ← step_eq_perform] at yields
      exact ih.generation yields

/-- A height is reached by the best so far, or by a population that the chance to migrate met. -/
def Reached (best : Scored) (brought : List Population) (level : Int) : Prop :=
  level ≤ height best.fitness ∨
    ∃ population ∈ brought, ∃ fitness ∈ population.fitnesses, level ≤ height fitness

theorem Reached.mono {former best : Scored} {more : List Population} {level : Int}
    (reached : Reached former brought level)
    (le : height former.fitness ≤ height best.fitness) :
    Reached best (brought ++ more) level := by
  rcases reached with below | ⟨population, population_mem, fitness, fitness_mem, below⟩
  · exact .inl (Int.le_trans below le)
  · exact .inr ⟨population, List.mem_append_left more population_mem, fitness, fitness_mem, below⟩

/-- What holds of an account at the end of every generation. -/
structure Audited (seen : List Float) (brought : List Population) (engine : Engine γ μ ε)
    (best : Scored) : Prop where
  best_eq : engine.best = some best
  covered : ∀ slot, engine.population.Holds slot → height slot.fitness ≤ height best.fitness
  nonnegative : ∀ elite, engine.Archives elite → 0 ≤ height elite.fitness
  archived : ∀ elite, engine.Archives elite →
    ∃ population ∈ brought, elite.fitness ∈ population.fitnesses
  reached : ∀ fitness ∈ seen, Reached best brought (height fitness)
  listed : ∀ population ∈ brought, ∀ fitness ∈ population.fitnesses, fitness ∈ seen

omit [Generator γ] [Mutator μ] [Evaluator ε] in
/-- After a note the best so far covers the population and the former best. -/
theorem Notes.exists_best {next : Engine γ μ ε} (notes : engine.Notes dialogue next) :
    ∃ best, next.best = some best ∧
      (∀ slot, next.population.Holds slot → height slot.fitness ≤ height best.fitness) ∧
      ∀ former, engine.best = some former → height former.fitness ≤ height best.fitness := by
  obtain ⟨slot, index, found, noted⟩ := notes.noted
  obtain ⟨best, best_eq, _, candidate_le, former_le⟩ := exists_best_noteBest engine slot.scored
  refine ⟨best, noted.trans best_eq, ?_, former_le⟩
  intro other other_holds
  exact Int.le_trans ((Population.peaks_of_best? found).bound other other_holds) candidate_le

omit [Generator γ] in
/-- What stands in a slot at some moment before the chance to migrate was in the population before,
or is not better than what that chance meets. -/
theorem reached_of_rearing {best : Scored} {before : List (Engine γ μ ε)}
    {shaped : Engine γ μ ε} (audited : Audited seen brought engine best)
    (passes : Passes (rearingParts engine.population.size) engine dialogue before shaped) :
    (∀ moment ∈ before, ∀ fitness ∈ moment.population.fitnesses,
      Reached best (brought ++ [shaped.population]) (height fitness)) ∧
    shaped.best = engine.best ∧ shaped.population ∈ before.map Engine.population ∧
    (∀ elite, shaped.Archives elite → 0 ≤ height elite.fitness) ∧
    ∀ elite, shaped.Archives elite →
      ∃ population ∈ brought ++ [shaped.population], elite.fitness ∈ population.fitnesses := by
  obtain ⟨leader, index, promoted, children, bred, rfl, found, rfl, fills, reshapes, _⟩ :=
    exists_of_rearing passes
  have archived_iff (elite : Scored) : bred.Archives elite ↔ engine.Archives elite :=
    archives_congr fills.agrees.strategy_eq
  have nonnegative := reshapes.nonnegative
    fun elite archived => audited.nonnegative elite ((archived_iff elite).mp archived)
  have shaped_mem : shaped.population ∈ brought ++ [shaped.population] :=
    List.mem_append_right brought (List.mem_singleton.mpr rfl)
  have archived (elite : Scored) (elite_archived : shaped.Archives elite) :
      ∃ population ∈ brought ++ [shaped.population], elite.fitness ∈ population.fitnesses := by
    rcases reshapes.elite elite elite_archived with old | ⟨slot, _, stays, rfl⟩
    · obtain ⟨population, population_mem, fitness_mem⟩ :=
        audited.archived elite ((archived_iff elite).mp old)
      exact ⟨population, List.mem_append_left _ population_mem, fitness_mem⟩
    · exact ⟨_, shaped_mem, Population.mem_fitnesses_iff.mpr ⟨slot, stays, rfl⟩⟩
  -- the promoted population holds nothing but slots from before
  have of_promoted (slot : Slot) (place : Nat)
      (slot_at : (engine.population.set 0 leader).slot? place = some slot) :
      Reached best (brought ++ [shaped.population]) (height slot.fitness) := by
    left
    rw [Population.slot?_set] at slot_at
    split at slot_at
    · split at slot_at
      · obtain rfl := Option.some.inj slot_at
        exact audited.covered leader ⟨index, Population.slot?_of_best? found⟩
      · cases slot_at
    · exact audited.covered slot ⟨place, slot_at⟩
  have of_bred (slot : Slot) (slot_holds : bred.population.Holds slot) :
      Reached best (brought ++ [shaped.population]) (height slot.fitness) := by
    rcases reshapes.gone nonnegative slot slot_holds with ⟨after, after_holds, alike⟩ |
      ⟨elite, elite_archived, below⟩
    · exact .inr ⟨_, shaped_mem, after.fitness,
        Population.mem_fitnesses_iff.mpr ⟨after, after_holds, rfl⟩,
        Int.le_of_eq (congrArg height alike.fitness.symm)⟩
    · obtain ⟨population, population_mem, fitness_mem⟩ := archived elite elite_archived
      exact .inr ⟨population, population_mem, elite.fitness, fitness_mem, Int.le_of_lt below⟩
  refine ⟨?_, reshapes.best_eq.trans fills.agrees.best_eq, by simp, nonnegative, archived⟩
  intro moment moment_mem fitness fitness_mem
  obtain ⟨slot, ⟨place, slot_at⟩, rfl⟩ := Population.mem_fitnesses_iff.mp fitness_mem
  rcases List.mem_cons.mp moment_mem with rfl | moment_mem
  · exact of_promoted slot place slot_at
  · rcases List.mem_append.mp moment_mem with child | last
    · rcases fills.between moment child place with same | same
      · exact of_promoted slot place (same ▸ slot_at)
      · exact of_bred slot ⟨place, same ▸ slot_at⟩
    · obtain rfl := List.mem_singleton.mp last
      exact .inr ⟨_, shaped_mem, _, fitness_mem, Int.le_refl _⟩

theorem exists_audited_of_seeding {moments : List (Engine γ μ ε)}
    (vacant : ∀ elite, ¬ start.Archives elite)
    (passes : Passes (seedingParts start.population.size) start dialogue moments engine) :
    ∃ best, Audited engine.population.fitnesses [] engine best := by
  obtain ⟨notes, _⟩ := Engine.of_seeding passes
  obtain ⟨best, best_eq, covered, _⟩ := notes.exists_best
  have engine_vacant (elite : Scored) : ¬ engine.Archives elite :=
    fun archived => vacant elite ((archives_congr notes.strategy_eq).mp archived)
  refine ⟨best, best_eq, covered, fun elite archived => (engine_vacant elite archived).elim,
    fun elite archived => (engine_vacant elite archived).elim, ?_, by rintro _ ⟨⟩⟩
  intro fitness fitness_mem
  obtain ⟨slot, slot_holds, rfl⟩ := Population.mem_fitnesses_iff.mp fitness_mem
  exact .inl (covered slot slot_holds)

omit [Generator γ] in
theorem Audited.of_generation {best : Scored} {rearing closing : List Surroundings.Line}
    {before behind : List (Engine γ μ ε)} {shaped next : Engine γ μ ε}
    (audited : Audited seen brought engine best)
    (rearing_passes : Passes (rearingParts engine.population.size) engine rearing before shaped)
    (closing_passes : Passes closingParts shaped closing behind next) :
    ∃ later, Audited (seen ++ (before ++ behind).flatMap fun moment => moment.population.fitnesses)
      (brought ++ [shaped.population]) next later := by
  obtain ⟨moments_reached, best_eq, shaped_mem, nonnegative, archived⟩ :=
    reached_of_rearing audited rearing_passes
  obtain ⟨notes, unchanged, _⟩ := of_closing closing_passes
  obtain ⟨later, later_eq, covered, former_le⟩ := notes.exists_best
  have le : height best.fitness ≤ height later.fitness :=
    former_le best (best_eq.trans audited.best_eq)
  have archived_iff (elite : Scored) : next.Archives elite ↔ shaped.Archives elite :=
    archives_congr notes.strategy_eq
  refine ⟨later, later_eq, covered,
    fun elite elite_archived => nonnegative elite ((archived_iff elite).mp elite_archived),
    fun elite elite_archived => archived elite ((archived_iff elite).mp elite_archived), ?_, ?_⟩
  · intro fitness fitness_mem
    rcases List.mem_append.mp fitness_mem with old | new
    · exact (audited.reached fitness old).mono le
    · obtain ⟨moment, moment_mem, here⟩ := List.mem_flatMap.mp new
      rcases List.mem_append.mp moment_mem with first | last
      · have reached : Reached later (brought ++ [shaped.population] ++ []) (height fitness) :=
          (moments_reached moment first fitness here).mono le
        rwa [List.append_nil] at reached
      · rw [unchanged moment last] at here
        obtain ⟨slot, slot_holds, rfl⟩ := Population.mem_fitnesses_iff.mp here
        exact .inl (covered slot slot_holds)
  · intro population population_mem fitness fitness_mem
    rcases List.mem_append.mp population_mem with old | new
    · exact List.mem_append_left _ (audited.listed population old fitness fitness_mem)
    · obtain rfl := List.mem_singleton.mp new
      obtain ⟨moment, moment_mem, same⟩ := List.mem_map.mp shaped_mem
      refine List.mem_append_right _ (List.mem_flatMap.mpr ⟨moment, ?_, ?_⟩)
      · exact List.mem_append_left behind moment_mem
      · rwa [same]

theorem Account.exists_audited (vacant : ∀ elite, ¬ start.Archives elite)
    (account : Account start seen brought dialogue engine) :
    ∃ best, Audited seen brought engine best := by
  induction account with
  | seeding passes => exact exists_audited_of_seeding vacant passes
  | generation _ rearing closing ih =>
    obtain ⟨best, audited⟩ := ih
    exact audited.of_generation rearing closing

/-- Where migrants spare the best slot, every population that the chance to migrate met is covered
by the peak of the last one. -/
theorem Account.exists_peak (none : start.best = .none)
    (vacant : ∀ elite, ¬ start.Archives elite) (spares : SparesBest start.config.migration)
    (account : Account start seen brought dialogue engine) :
    engine.config = start.config ∧ ∃ peak, engine.IsTopped peak ∧
      ∀ population ∈ brought, ∀ fitness ∈ population.fitnesses, height fitness ≤ peak := by
  induction account with
  | seeding passes =>
    obtain ⟨config_eq, peak, topped⟩ := exists_topped_of_seeding none vacant passes
    exact ⟨config_eq, peak, topped, by rintro _ ⟨⟩⟩
  | generation _ rearing closing ih =>
    obtain ⟨config_eq, peak, topped, bounded⟩ := ih
    obtain ⟨next_config, risen, le, next_topped, shaped_le⟩ :=
      topped.of_generation (config_eq ▸ spares) rearing closing
    refine ⟨next_config.trans config_eq, risen, next_topped, ?_⟩
    intro population population_mem fitness fitness_mem
    rcases List.mem_append.mp population_mem with old | new
    · exact Int.le_trans (bounded population old fitness fitness_mem) le
    · obtain rfl := List.mem_singleton.mp new
      obtain ⟨slot, slot_holds, rfl⟩ := Population.mem_fitnesses_iff.mp fitness_mem
      exact shaped_le slot slot_holds

omit [Generator γ] [Mutator μ] [Evaluator ε] in
/-- What is reported at the end of the seeding and of every generation is the best so far. -/
theorem Notes.bestOverall_eq {next : Engine γ μ ε} {best : Scored}
    (notes : engine.Notes dialogue next) (best_eq : next.best = some best) (record : ProgressRecord)
    (reply : Except Store.Error Unit)
    (line_mem : (⟨.store (.logProgress record), reply⟩ : Surroundings.Line) ∈ dialogue) :
    record.bestOverall = best.fitness := by
  rw [notes.records record reply line_mem, best_eq]
  rfl

/-- The progress records of the last generation carry the best so far, or those of the seeding. -/
theorem Account.bestOverall_eq {best : Scored}
    (account : Account start seen brought dialogue engine) (best_eq : engine.best = some best)
    (record : ProgressRecord) (reply : Except Store.Error Unit)
    (line_mem : (⟨.store (.logProgress record), reply⟩ : Surroundings.Line) ∈ dialogue) :
    record.bestOverall = best.fitness := by
  cases account with
  | seeding passes =>
    obtain ⟨notes, _⟩ := Engine.of_seeding passes
    exact notes.bestOverall_eq best_eq record reply line_mem
  | generation _ rearing closing =>
    obtain ⟨_, _, _, _, _, _, _, _, _, _, quiet⟩ := exists_of_rearing rearing
    obtain ⟨notes, _⟩ := of_closing closing
    exact notes.bestOverall_eq best_eq record reply
      ((List.mem_append.mp line_mem).resolve_left (quiet record reply))

/-- The best so far, as it is kept, reported and recorded as the result of the run, covers all
fitnesses that slots have been given if and only if it covers the populations that the chance to
migrate has met. It does where migrants spare the best slot. Every run has an account that tells
them, and every account is one of a run. -/
theorem best_covers_iff {config : EvolutionConfig} {generator : γ} {mutator : μ} {evaluator : ε}
    {time : Nat} (made : new config generator mutator evaluator time = .ok start) :
    (∀ engine, start.Ends engine ↔
      ∃ seen brought dialogue, Account start seen brought dialogue engine) ∧
    ∀ seen brought dialogue engine, Account start seen brought dialogue engine →
      ∃ best, engine.best = some best ∧
        engine.recordFinal = Act.call (.logFinal engine.config.migration.run best) ∧
        (∀ record reply, (⟨.store (.logProgress record), reply⟩ : Surroundings.Line) ∈ dialogue →
          record.bestOverall = best.fitness) ∧
        ((∀ fitness ∈ seen, beats fitness best.fitness = false) ↔
          ∀ population ∈ brought, ∀ fitness ∈ population.fitnesses,
            beats fitness best.fitness = false) ∧
        (SparesBest config.migration → ∀ fitness ∈ seen, beats fitness best.fitness = false) := by
  refine ⟨fun engine => ends_iff_exists_account, fun seen brought dialogue engine account => ?_⟩
  obtain ⟨start_config, none, vacant⟩ := vacant_of_new made
  obtain ⟨best, audited⟩ := account.exists_audited vacant
  have covers_iff : (∀ fitness ∈ seen, beats fitness best.fitness = false) ↔
      ∀ population ∈ brought, ∀ fitness ∈ population.fitnesses,
        beats fitness best.fitness = false := by
    constructor
    · intro covers population population_mem fitness fitness_mem
      exact covers fitness (audited.listed population population_mem fitness fitness_mem)
    · intro covers fitness fitness_mem
      rw [not_beats_iff]
      rcases audited.reached fitness fitness_mem with below |
        ⟨population, population_mem, other, other_mem, below⟩
      · exact below
      · have other_le := not_beats_iff.mp (covers population population_mem other other_mem)
        exact Int.le_trans below other_le
  refine ⟨best, audited.best_eq, ?_, account.bestOverall_eq audited.best_eq, covers_iff, ?_⟩
  · rw [recordFinal, audited.best_eq]
  · intro spares
    rw [covers_iff]
    obtain ⟨_, peak, topped, bounded⟩ := account.exists_peak none vacant (start_config ▸ spares)
    obtain ⟨top, best_eq, rfl⟩ := topped.best
    obtain rfl := Option.some.inj (best_eq.symm.trans audited.best_eq)
    intro population population_mem fitness fitness_mem
    exact not_beats_iff.mpr (bounded population population_mem fitness fitness_mem)

/-- Seed the population and go through one generation. Gives the engine as it is when the chance to
migrate comes, and at the end. -/
def firstGeneration (start : Engine γ μ ε) : Act (Engine γ μ ε × Engine γ μ ε) := do
  let engine ← start.seed
  let shaped ← perform (rearingParts engine.population.size) engine
  let next ← perform closingParts shaped
  pure (shaped, next)

theorem exists_account_of_firstGeneration {shaped next : Engine γ μ ε}
    (yields : start.firstGeneration.Yields dialogue (shaped, next)) :
    ∃ seen dialogue, Account start seen [shaped.population] dialogue next ∧
      ∀ fitness ∈ shaped.population.fitnesses, fitness ∈ seen := by
  obtain ⟨_, engine, _, seed_yields, then_rear, _⟩ := yields_bind_iff.mp yields
  obtain ⟨_, _, _, rearing_yields, then_close, _⟩ := yields_bind_iff.mp then_rear
  obtain ⟨_, _, _, closing_yields, last, _⟩ := yields_bind_iff.mp then_close
  obtain ⟨_, same⟩ := yields_pure_iff.mp last
  obtain ⟨rfl, rfl⟩ := Prod.mk.inj same
  rw [seed_eq_perform, yields_perform_iff] at seed_yields
  obtain ⟨_, seeding⟩ := seed_yields
  obtain ⟨before, rearing⟩ := yields_perform_iff.mp rearing_yields
  obtain ⟨behind, closing⟩ := yields_perform_iff.mp closing_yields
  refine ⟨_, _, (Account.seeding seeding).generation rearing closing, ?_⟩
  intro fitness fitness_mem
  obtain ⟨_, _, _, _, _, rfl, _⟩ := exists_of_rearing rearing
  simp [fitness_mem]

/-- Whether something in the population of the first engine beats the best so far of the second. -/
def misses (engines : Engine γ μ ε × Engine γ μ ε) : Bool :=
  engines.1.population.fitnesses.any fun fitness =>
    engines.2.best.any fun best => beats fitness best.fitness

/-- A child of fitness five is in the population when a migrant of fitness zero comes for it, and is
nowhere to be found in the record afterwards: the best so far is still the leader, of fitness one.
-/
theorem exists_missed : ∃ (seen : List Float) (brought : List Population)
    (dialogue : List Surroundings.Line) (engine : Engine Blank Blank Verdicts),
    new (pairConfig 1 .replaceBottomHalf) ⟨⟩ ⟨⟩ ⟨[1, -1, 5]⟩ 0 =
      .ok (pairEngine 1 .replaceBottomHalf [1, -1, 5]) ∧
    (pairEngine 1 .replaceBottomHalf [1, -1, 5]).Ends engine ∧
    Account (pairEngine 1 .replaceBottomHalf [1, -1, 5]) seen brought dialogue engine ∧
    ∃ fitness ∈ seen, ∃ best, engine.best = some best ∧ beats fitness best.fitness = true := by
  have run : ((Script.run (standstill [{ program := .empty, fitness := 0 }])
      (firstGeneration (pairEngine 1 .replaceBottomHalf [1, -1, 5])) ()).toOption.any
        fun outcome => misses outcome.1) = true := by
    decide +kernel
  obtain ⟨_, ⟨shaped, next⟩, yields, missed⟩ := exists_yields_of_run misses run
  obtain ⟨seen, dialogue, account, shaped_seen⟩ := exists_account_of_firstGeneration yields
  obtain ⟨fitness, fitness_mem, wins⟩ := List.any_eq_true.mp missed
  obtain ⟨best, best_eq, wins⟩ := (Option.any_eq_true _ _).mp wins
  have ends := ends_iff_exists_account.mpr ⟨seen, _, dialogue, account⟩
  exact ⟨seen, _, dialogue, next, rfl, ends, account, fitness, shaped_seen fitness fitness_mem,
    best, best_eq, wins⟩

/-- The migrant has come for the leader in front instead, and the child is noted. -/
theorem best_covers_iff_of_pair : ∃ (seen : List Float) (brought : List Population)
    (dialogue : List Surroundings.Line) (engine : Engine Blank Blank Verdicts) (best : Scored),
    (pairEngine 1 .replaceTopHalf [1, -1, 5]).Ends engine ∧
      Account (pairEngine 1 .replaceTopHalf [1, -1, 5]) seen brought dialogue engine ∧
      engine.best = some best ∧
      ((∀ fitness ∈ seen, beats fitness best.fitness = false) ↔
        ∀ population ∈ brought, ∀ fitness ∈ population.fitnesses,
          beats fitness best.fitness = false) := by
  have made : new (pairConfig 1 .replaceTopHalf) ⟨⟩ ⟨⟩ ⟨[1, -1, 5]⟩ 0 =
      .ok (pairEngine 1 .replaceTopHalf [1, -1, 5]) := rfl
  have run : ((Script.run (standstill [{ program := .empty, fitness := 0 }])
      (firstGeneration (pairEngine 1 .replaceTopHalf [1, -1, 5])) ()).toOption.any
        fun outcome => outcome.1.2.generation == 1) = true := by
    decide +kernel
  obtain ⟨_, ⟨shaped, next⟩, yields, _⟩ := exists_yields_of_run
    (fun engines : Engine Blank Blank Verdicts × Engine Blank Blank Verdicts =>
      engines.2.generation == 1) run
  obtain ⟨seen, dialogue, account, _⟩ := exists_account_of_firstGeneration yields
  obtain ⟨ends_iff, covered⟩ := best_covers_iff made
  obtain ⟨best, best_eq, _, _, covers_iff, _⟩ := covered _ _ _ next account
  exact ⟨seen, _, dialogue, next, best, (ends_iff next).mpr ⟨_, _, _, account⟩, account, best_eq,
    covers_iff⟩

end Engine

end EvoSearch
