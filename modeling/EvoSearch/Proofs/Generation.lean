/-
# What each part of a generation does

One lemma for each part that a generation or the seeding is put together from: what becomes of the
engine, whatever the answers. The strategies are brought under one statement, `Reshapes`, so that
nothing else has to tell the modes apart.
-/

import EvoSearch.Engine.Run
import EvoSearch.Proofs.Elites
import EvoSearch.Proofs.Splice

namespace EvoSearch

open Numeric Script

theorem Draw.yields_of_act {α : Type} {draw : Draw α} {dialogue : List Surroundings.Line}
    {value : α} (yields : draw.act.Yields dialogue value) : ∃ talk, draw.Yields talk value :=
  yields.of_lift.1

/-- No progress record is sent. -/
def Quiet (dialogue : List Surroundings.Line) : Prop :=
  ∀ record reply, (⟨.store (.logProgress record), reply⟩ : Surroundings.Line) ∉ dialogue

theorem Quiet.nil : Quiet [] :=
  fun _ _ => List.not_mem_nil

theorem Quiet.append {first rest : List Surroundings.Line} (first_quiet : Quiet first)
    (rest_quiet : Quiet rest) : Quiet (first ++ rest) := by
  intro record reply line_mem
  rcases List.mem_append.mp line_mem with before | behind
  · exact first_quiet record reply before
  · exact rest_quiet record reply behind

theorem Draw.quiet_of_act {α : Type} {draw : Draw α} {dialogue : List Surroundings.Line}
    {value : α} (yields : draw.act.Yields dialogue value) : Quiet dialogue := by
  intro record reply line_mem
  obtain ⟨choice, same⟩ := yields.of_lift.2 _ line_mem
  cases same

/-- An exchange withdraws, publishes and fetches, and asks nothing else. -/
theorem MigrationConfig.exchange_respects {config : MigrationConfig} {population : Population}
    {asks : Effect → Prop} {granted : (effect : Effect) → effect.Answer → Prop}
    (withdraws : asks (.store (.withdraw config.run)))
    (publishes : asks (.store (.publish config.run population.members)))
    (fetches : asks (.store (.sample config.run (population.size / 2)))) :
    (config.exchange population).Respects asks granted fun _ => True := by
  refine ⟨withdraws, fun withdrawal _ => ?_⟩
  cases withdrawal with
  | error _ => trivial
  | ok _ =>
    refine ⟨publishes, fun publication _ => ?_⟩
    cases publication with
    | error _ => trivial
    | ok _ => exact ⟨fetches, fun _ _ => trivial⟩

theorem MigrationConfig.quiet_of_exchange {config : MigrationConfig} {population : Population}
    {dialogue : List Surroundings.Line} {outcome : Except Store.Error (List Scored)}
    (yields : (config.exchange population).Yields dialogue outcome) : Quiet dialogue := by
  intro record reply line_mem
  have respects : (config.exchange population).Respects
      (fun effect : Effect => effect ≠ .store (.logProgress record)) (fun _ _ => True)
      fun _ => True :=
    exchange_respects nofun nofun nofun
  exact Respects.asks_of_mem respects yields _ line_mem rfl

namespace Slot

/-- Two slots agree on all but the diversity. -/
structure Alike (slot other : Slot) : Prop where
  scored : slot.scored = other.scored
  earlyFitness : slot.earlyFitness = other.earlyFitness

theorem Alike.refl (slot : Slot) : slot.Alike slot :=
  ⟨rfl, rfl⟩

theorem Alike.fitness {slot other : Slot} (alike : slot.Alike other) :
    slot.fitness = other.fitness :=
  congrArg Scored.fitness alike.scored

end Slot

namespace Population

variable {population population' : Population} {index : Nat} {slot : Slot}

theorem lt_size_of_slot? (found : population.slot? index = some slot) : index < population.size :=
  (Array.getElem?_eq_some_iff.mp found).1

theorem replace?_eq_some_iff : population.replace? index slot = some population' ↔
    index < population.size ∧ population' = population.set index slot := by
  rw [replace?]
  split
  · next within => simp [within, eq_comm]
  · next without => simp [without]

theorem set_of_slot? (found : population.slot? index = some slot) :
    population.set index slot = population := by
  obtain ⟨within, rfl⟩ := Array.getElem?_eq_some_iff.mp found
  rw [set, Array.setIfInBounds, dif_pos within, Array.set_getElem_self]

theorem length_normalizedDiversity (features : List Features) :
    (normalizedDiversity features).length = features.length := by
  unfold normalizedDiversity rawDiversity
  dsimp only
  split <;> simp

theorem size_scoreDiversity : population.scoreDiversity.size = population.size := by
  simp [scoreDiversity, size, length_normalizedDiversity, features]

/-- Every slot is given the score of its place. -/
theorem slot?_scoreDiversity (found : population.slot? index = some slot) :
    ∃ score, (normalizedDiversity population.features)[index]? = some score ∧
      population.scoreDiversity.slot? index = some { slot with diversity := score } := by
  obtain ⟨within, rfl⟩ := Array.getElem?_eq_some_iff.mp found
  have scored_within : index < (normalizedDiversity population.features).length := by
    simpa [length_normalizedDiversity, features] using within
  refine ⟨(normalizedDiversity population.features)[index], List.getElem?_eq_getElem _, ?_⟩
  rw [slot?, scoreDiversity, List.getElem?_toArray, List.getElem?_zipWith]
  simp [within, scored_within]

/-- Scoring the diversity changes nothing else. -/
theorem exists_alike_of_scoreDiversity (found : population.slot? index = some slot) :
    ∃ scored, population.scoreDiversity.slot? index = some scored ∧ scored.Alike slot := by
  obtain ⟨score, _, scored⟩ := slot?_scoreDiversity found
  exact ⟨_, scored, ⟨rfl, rfl⟩⟩

end Population

theorem Strategy.mode_eq_of_collectsEarly {mode : RunMode} {strategy : Strategy}
    (made : Strategy.ofMode mode = .ok strategy) (collects : strategy.collectsEarly = true) :
    mode = .hurdles := by
  cases mode with
  | hurdles => rfl
  | standard =>
    obtain rfl := Except.ok.inj made
    cases collects
  | qualityDiversity =>
    obtain rfl := Except.ok.inj made
    cases collects
  | mapElites sizes =>
    rw [Strategy.ofMode] at made
    split at made
    · obtain rfl := Except.ok.inj made
      cases collects
    · cases made

namespace Engine

variable {γ μ ε : Type} {engine next : Engine γ μ ε} {dialogue : List Surroundings.Line}

/-- A candidate is in the archive, in a run that has one. -/
def Archives (engine : Engine γ μ ε) (elite : Scored) : Prop :=
  ∃ archive, engine.strategy = .mapElites archive ∧ archive.Keeps elite

theorem archives_congr {elite : Scored} (strategy_eq : next.strategy = engine.strategy) :
    next.Archives elite ↔ engine.Archives elite := by
  rw [Archives, strategy_eq, Archives]

/-- What a search is before its population is seeded. -/
theorem of_new {config : EvolutionConfig} {generator : γ} {mutator : μ} {evaluator : ε}
    {time : Nat}
    (made : new config generator mutator evaluator time = .ok engine) :
    config.validate = .ok () ∧ ∃ strategy, Strategy.ofMode config.mode = .ok strategy ∧
      engine =
        { config, generator, mutator, evaluator, strategy
          population := .ofSize config.populationSize.toNat
          reporter := .ofInterval config.progressEvery.toNat time
          best := none
          earlyObserved := []
          individuals := 0
          generation := 0
          seeded := false } := by
  rw [new] at made
  cases valid : config.validate with
  | error reason =>
    rw [valid] at made
    cases made
  | ok _ =>
    cases mode : Strategy.ofMode config.mode with
    | error reason =>
      rw [valid, mode] at made
      cases made
    | ok strategy =>
      rw [valid, mode] at made
      exact ⟨rfl, strategy, rfl, (Except.ok.inj made).symm⟩

theorem not_archives_of_ofMode {mode : RunMode}
    (made : Strategy.ofMode mode = .ok engine.strategy) (elite : Scored) :
    ¬ engine.Archives elite := by
  rintro ⟨archive, strategy_eq, kept⟩
  rw [strategy_eq] at made
  cases mode with
  | standard => cases made
  | hurdles => cases made
  | qualityDiversity => cases made
  | mapElites sizes =>
    rw [Strategy.ofMode] at made
    split at made
    · next grid _ =>
      obtain rfl := Strategy.mapElites.inj (Except.ok.inj made)
      exact Archive.not_keeps_ofGrid grid elite kept
    · cases made

/-- A new search has nothing to show: no best so far, and nothing in its archive. -/
theorem vacant_of_new {config : EvolutionConfig} {generator : γ} {mutator : μ} {evaluator : ε}
    {time : Nat} (made : new config generator mutator evaluator time = .ok engine) :
    engine.config = config ∧ engine.best = none ∧ ∀ elite, ¬ engine.Archives elite := by
  obtain ⟨_, strategy, strategy_eq, rfl⟩ := of_new made
  exact ⟨rfl, rfl, not_archives_of_ofMode strategy_eq⟩

theorem yields_best {I : Interface} {talk : List I.Line} {population : Population}
    {slot : Slot} {index : Nat}
    (yields : (population.best : Script I _).Yields talk (slot, index)) :
    talk = [] ∧ population.best? = some (slot, index) :=
  yields_ofOption_iff.mp yields

/-- The best slot is in front, and all others are as they were. -/
theorem of_promoteBest (yields : engine.promoteBest.Yields dialogue next) :
    dialogue = [] ∧ ∃ slot index, engine.population.best? = some (slot, index) ∧
      next = { engine with population := engine.population.set 0 slot } := by
  rw [promoteBest] at yields
  obtain ⟨_, ⟨slot, index⟩, _, best_yields, rest, rfl⟩ := yields_bind_iff.mp yields
  obtain ⟨rfl, found⟩ := yields_best best_yields
  dsimp only at rest
  split at rest
  · next front =>
    obtain ⟨rfl, rfl⟩ := yields_pure_iff.mp rest
    refine ⟨rfl, slot, index, found, ?_⟩
    rw [Population.set_of_slot? (front ▸ Population.slot?_of_best? found)]
  · obtain ⟨_, population, _, replace_yields, last, rfl⟩ := yields_bind_iff.mp rest
    obtain ⟨rfl, replaced⟩ := yields_ofOption_iff.mp replace_yields
    obtain ⟨_, rfl⟩ := Population.replace?_eq_some_iff.mp replaced
    obtain ⟨rfl, rfl⟩ := yields_pure_iff.mp last
    exact ⟨rfl, slot, index, found, rfl⟩

/-- Migrants have come, or the population is as it was. -/
theorem of_migrate (yields : engine.migrate.Yields dialogue next) :
    Quiet dialogue ∧ ∃ population, next = { engine with population } ∧
      (population = engine.population ∨ ¬ engine.config.migration.probability ≤ 0 ∧
        ∃ migrants, population =
          engine.population.splice engine.config.migration.splice migrants) := by
  rw [migrate] at yields
  obtain ⟨_, ⟨_, population⟩, _, migrate_yields, last, rfl⟩ := yields_bind_iff.mp yields
  obtain ⟨rfl, rfl⟩ := yields_pure_iff.mp last
  rw [List.append_nil]
  rw [MigrationConfig.migrate] at migrate_yields
  split at migrate_yields
  · obtain ⟨rfl, same⟩ := yields_pure_iff.mp migrate_yields
    obtain ⟨_, rfl⟩ := Prod.mk.inj same
    exact ⟨.nil, _, rfl, .inl rfl⟩
  · next positive =>
    obtain ⟨_, drawn, _, drawn_yields, rest, rfl⟩ := yields_bind_iff.mp migrate_yields
    have drawn_quiet := Draw.quiet_of_act drawn_yields
    split at rest
    · obtain ⟨rfl, same⟩ := yields_pure_iff.mp rest
      obtain ⟨_, rfl⟩ := Prod.mk.inj same
      exact ⟨drawn_quiet.append .nil, _, rfl, .inl rfl⟩
    · obtain ⟨_, outcome, _, exchange_yields, last, rfl⟩ := yields_bind_iff.mp rest
      have exchange_quiet := MigrationConfig.quiet_of_exchange exchange_yields
      cases outcome with
      | error error =>
        obtain ⟨rfl, same⟩ := yields_pure_iff.mp last
        obtain ⟨_, rfl⟩ := Prod.mk.inj same
        exact ⟨drawn_quiet.append (exchange_quiet.append .nil), _, rfl, .inl rfl⟩
      | ok migrants =>
        dsimp only at last
        rw [Population.splice?_eq, ofOption_some, done_bind] at last
        obtain ⟨rfl, same⟩ := yields_pure_iff.mp last
        obtain ⟨_, rfl⟩ := Prod.mk.inj same
        exact ⟨drawn_quiet.append (exchange_quiet.append .nil), _, rfl,
          .inr ⟨positive, migrants, rfl⟩⟩

/-- The best slot is held against the best so far. -/
theorem of_updateBest (yields : (engine.updateBest : Act _).Yields dialogue next) :
    dialogue = [] ∧ ∃ slot index, engine.population.best? = some (slot, index) ∧
      next = engine.noteBest slot.scored := by
  rw [updateBest] at yields
  obtain ⟨_, ⟨slot, index⟩, _, best_yields, last, rfl⟩ := yields_bind_iff.mp yields
  obtain ⟨rfl, found⟩ := yields_best best_yields
  obtain ⟨rfl, rfl⟩ := yields_pure_iff.mp last
  exact ⟨rfl, slot, index, found, rfl⟩

/-- Nothing but the best so far is changed by a note. -/
theorem noteBest_eq (engine : Engine γ μ ε) (candidate : Scored) :
    engine.noteBest candidate = { engine with best := (engine.noteBest candidate).best } := by
  unfold noteBest
  split
  · rfl
  · split <;> rfl

@[simp] theorem config_noteBest (engine : Engine γ μ ε) (candidate : Scored) :
    (engine.noteBest candidate).config = engine.config := by
  rw [noteBest_eq]

@[simp] theorem strategy_noteBest (engine : Engine γ μ ε) (candidate : Scored) :
    (engine.noteBest candidate).strategy = engine.strategy := by
  rw [noteBest_eq]

@[simp] theorem population_noteBest (engine : Engine γ μ ε) (candidate : Scored) :
    (engine.noteBest candidate).population = engine.population := by
  rw [noteBest_eq]

@[simp] theorem seeded_noteBest (engine : Engine γ μ ε) (candidate : Scored) :
    (engine.noteBest candidate).seeded = engine.seeded := by
  rw [noteBest_eq]

/-- What there is to say about the best after a candidate has been held against it. -/
theorem exists_best_noteBest (engine : Engine γ μ ε) (candidate : Scored) :
    ∃ best, (engine.noteBest candidate).best = some best ∧
      (best = candidate ∨ engine.best = some best) ∧
      height candidate.fitness ≤ height best.fitness ∧
      ∀ former, engine.best = some former → height former.fitness ≤ height best.fitness := by
  unfold noteBest
  cases former_eq : engine.best with
  | none => exact ⟨candidate, rfl, .inl rfl, Int.le_refl _, by rintro _ ⟨⟩⟩
  | some former =>
    by_cases wins : beats candidate.fitness former.fitness = true
    · refine ⟨candidate, by simp [wins], .inl rfl, Int.le_refl _, ?_⟩
      rintro _ ⟨⟩
      exact Int.le_of_lt (beats_iff.mp wins)
    · refine ⟨former, by simp [wins, former_eq], .inr rfl, ?_, ?_⟩
      · exact not_beats_iff.mp (Bool.not_eq_true _ ▸ wins)
      · rintro _ ⟨⟩
        exact Int.le_refl _

/-- What becomes of the best depends on the best so far only. -/
theorem best_noteBest_congr (best_eq : next.best = engine.best) (candidate : Scored) :
    (next.noteBest candidate).best = (engine.noteBest candidate).best := by
  unfold noteBest
  rw [best_eq]
  cases best : engine.best with
  | none => rfl
  | some former =>
    dsimp only
    split
    · rfl
    · rw [best_eq, best]

/-- A report changes the schedule of reports only. The records of the population that it sends
carry the best fitness so far. -/
theorem of_report (yields : engine.report.Yields dialogue next) :
    (∃ reporter, next = { engine with reporter }) ∧
      ∀ record reply, (⟨.store (.logProgress record), reply⟩ : Surroundings.Line) ∈ dialogue →
        record.bestOverall = (engine.best.map Scored.fitness).getD nan := by
  rw [report] at yields
  split at yields
  · obtain ⟨_, ⟨slot, index⟩, _, best_yields, from_diversity, rfl⟩ := yields_bind_iff.mp yields
    obtain ⟨rfl, _⟩ := yields_best best_yields
    obtain ⟨_, _, rfl, from_clock⟩ := yields_ask_iff.mp from_diversity
    obtain ⟨time, _, rfl, from_progress⟩ := yields_ask_iff.mp from_clock
    obtain ⟨_, _, rfl, last⟩ := yields_ask_iff.mp from_progress
    obtain ⟨rfl, rfl⟩ := yields_pure_iff.mp last
    refine ⟨⟨_, rfl⟩, ?_⟩
    intro record reply line_mem
    simp only [List.nil_append, List.mem_cons, List.not_mem_nil, or_false] at line_mem
    rcases line_mem with same | same | same
    · cases same
    · cases same
    · injection same with query_eq _
      obtain rfl := Store.Call.logProgress.inj (Effect.store.inj query_eq)
      rfl
  · obtain ⟨rfl, rfl⟩ := yields_pure_iff.mp yields
    exact ⟨⟨_, rfl⟩, by rintro _ _ ⟨⟩⟩

/-- What a strategy makes of an engine, in all modes alike. -/
structure Reshapes (engine next : Engine γ μ ε) : Prop where
  config_eq : next.config = engine.config
  best_eq : next.best = engine.best
  seeded_eq : next.seeded = engine.seeded
  collectsEarly_eq : next.strategy.collectsEarly = engine.strategy.collectsEarly
  size_eq : next.population.size = engine.population.size
  nonnegative : (∀ elite, engine.Archives elite → 0 ≤ height elite.fitness) →
    ∀ elite, next.Archives elite → 0 ≤ height elite.fitness
  /-- An elite has been one before, or it is in a slot that has stayed. -/
  elite : ∀ elite, next.Archives elite → engine.Archives elite ∨
    ∃ slot, engine.population.Holds slot ∧ next.population.Holds slot ∧ slot.scored = elite
  /-- A slot has stayed but for its diversity, or it holds an elite. -/
  slot : ∀ after, next.population.Holds after →
    (∃ before, engine.population.Holds before ∧ after.Alike before) ∨
      ∃ elite, next.Archives elite ∧ after = .fresh elite none
  /-- A slot that has gone stood below an elite. -/
  gone : (∀ elite, next.Archives elite → 0 ≤ height elite.fitness) →
    ∀ before, engine.population.Holds before →
      (∃ after, next.population.Holds after ∧ after.Alike before) ∨
        ∃ elite, next.Archives elite ∧ height before.fitness < height elite.fitness

/-- Without an archive it is enough that all slots stay but for their diversity. -/
theorem Reshapes.of_no_archive (config_eq : next.config = engine.config)
    (best_eq : next.best = engine.best) (seeded_eq : next.seeded = engine.seeded)
    (collectsEarly_eq : next.strategy.collectsEarly = engine.strategy.collectsEarly)
    (size_eq : next.population.size = engine.population.size)
    (none : ∀ elite, ¬ next.Archives elite)
    (stays : ∀ index slot, engine.population.slot? index = some slot →
      ∃ after, next.population.slot? index = some after ∧ after.Alike slot) :
    Reshapes engine next where
  config_eq := config_eq
  best_eq := best_eq
  seeded_eq := seeded_eq
  collectsEarly_eq := collectsEarly_eq
  size_eq := size_eq
  nonnegative _ elite archived := (none elite archived).elim
  elite elite archived := (none elite archived).elim
  slot := by
    rintro after ⟨index, found⟩
    have within := Population.lt_size_of_slot? found
    rw [size_eq] at within
    have before_found : engine.population.slot? index = some engine.population.slots[index] :=
      Array.getElem?_eq_getElem within
    obtain ⟨other, other_found, alike⟩ := stays index _ before_found
    obtain rfl := Option.some.inj (found.symm.trans other_found)
    exact .inl ⟨_, ⟨index, before_found⟩, alike⟩
  gone := by
    rintro _ before ⟨index, found⟩
    obtain ⟨after, after_found, alike⟩ := stays index before found
    exact .inl ⟨after, ⟨index, after_found⟩, alike⟩

theorem Reshapes.of_shapes {archive archive' : Archive} {population' : Population}
    (strategy_eq : engine.strategy = .mapElites archive)
    (shapes : archive.Shapes engine.population archive' population') :
    Reshapes engine { engine with population := population', strategy := .mapElites archive' } := by
  have archives_iff (elite) : Archives { engine with
      population := population', strategy := .mapElites archive' } elite ↔
      archive'.Keeps elite := by
    simp [Archives]
  have archives_of_keeps {elite} (kept : archive.Keeps elite) : engine.Archives elite :=
    ⟨archive, strategy_eq, kept⟩
  refine ⟨rfl, rfl, rfl, by rw [strategy_eq]; rfl, shapes.size_eq, ?_, ?_, ?_, ?_⟩
  · intro nonnegative elite archived
    exact shapes.nonnegative (fun old kept => nonnegative old (archives_of_keeps kept)) elite
      ((archives_iff elite).mp archived)
  · intro elite archived
    rcases shapes.elite elite ((archives_iff elite).mp archived) with old |
      ⟨index, slot, found, stays, same⟩
    · exact .inl (archives_of_keeps old)
    · exact .inr ⟨slot, ⟨index, found⟩, ⟨index, stays⟩, same⟩
  · rintro after ⟨index, found⟩
    rcases shapes.slot index with stays | ⟨elite, kept, filled⟩
    · exact .inl ⟨after, ⟨index, stays ▸ found⟩, .refl after⟩
    · exact .inr ⟨elite, (archives_iff elite).mpr kept, Option.some.inj (found.symm.trans filled)⟩
  · rintro nonnegative before ⟨index, found⟩
    have kept_nonnegative : archive'.IsNonnegative :=
      fun elite kept => nonnegative elite ((archives_iff elite).mpr kept)
    rcases shapes.gone kept_nonnegative index before found with stays | ⟨elite, kept, below⟩
    · exact .inl ⟨before, ⟨index, stays⟩, .refl before⟩
    · exact .inr ⟨elite, (archives_iff elite).mpr kept, below⟩

theorem reshapes_of_applyStrategy {talk : List Chance.Line}
    (yields : engine.applyStrategy.Yields talk next) : engine.Reshapes next := by
  rw [applyStrategy] at yields
  have stays (index : Nat) (slot : Slot) (found : engine.population.slot? index = some slot) :
      ∃ after, engine.population.slot? index = some after ∧ after.Alike slot :=
    ⟨slot, found, .refl slot⟩
  split at yields
  · next strategy_eq =>
    obtain ⟨_, rfl⟩ := yields_pure_iff.mp yields
    exact .of_no_archive rfl rfl rfl rfl rfl (by simp [Archives, strategy_eq]) stays
  · next strategy_eq =>
    obtain ⟨_, rfl⟩ := yields_pure_iff.mp yields
    exact .of_no_archive rfl rfl rfl rfl Population.size_scoreDiversity
      (by simp [Archives, strategy_eq])
      fun _ _ found => Population.exists_alike_of_scoreDiversity found
  · next archive strategy_eq =>
    obtain ⟨_, ⟨_, archive', population'⟩, _, apply_yields, last, _⟩ := yields_bind_iff.mp yields
    obtain ⟨_, rfl⟩ := yields_pure_iff.mp last
    exact .of_shapes strategy_eq (Archive.shapes_of_apply apply_yields)
  · next hurdle strategy_eq =>
    obtain ⟨_, rfl⟩ := yields_pure_iff.mp yields
    exact .of_no_archive rfl rfl rfl (by rw [strategy_eq]; rfl) rfl (by simp [Archives]) stays

variable [Generator γ] [Mutator μ] [Evaluator ε] {talk : List Chance.Line} {index : Nat}

/-- A seed stands in the slot with its two fitnesses. -/
theorem of_seedSlot (yields : (engine.seedSlot index).Yields talk next) :
    index < engine.population.size ∧ ∃ program generator mutator,
      next = { engine with
        generator, mutator
        evaluator := (Evaluator.evaluateEarly program
          (Evaluator.evaluate program engine.evaluator).2).2
        population := engine.population.set index (.fresh
          { program, fitness := (Evaluator.evaluate program engine.evaluator).1 }
          (some (Evaluator.evaluateEarly program
            (Evaluator.evaluate program engine.evaluator).2).1))
        earlyObserved :=
          if engine.strategy.collectsEarly then
            engine.earlyObserved ++ [(Evaluator.evaluateEarly program
              (Evaluator.evaluate program engine.evaluator).2).1]
          else engine.earlyObserved
        individuals := engine.individuals + 1 } := by
  rw [seedSlot] at yields
  obtain ⟨_, ⟨_, generator⟩, _, _, yields, _⟩ := yields_bind_iff.mp yields
  obtain ⟨_, ⟨program, mutator⟩, _, _, yields, _⟩ := yields_bind_iff.mp yields
  obtain ⟨_, population, _, replace_yields, last, _⟩ := yields_bind_iff.mp yields
  obtain ⟨_, replaced⟩ := yields_ofOption_iff.mp replace_yields
  obtain ⟨within, rfl⟩ := Population.replace?_eq_some_iff.mp replaced
  obtain ⟨_, rfl⟩ := yields_pure_iff.mp last
  exact ⟨within, program, generator, mutator, rfl⟩

omit [Generator γ] in
/-- A child stands in the slot with what the strategy found of it. -/
theorem of_breedSlot (yields : (engine.breedSlot index).Yields talk next) :
    index < engine.population.size ∧ ∃ child mutator,
      next = { engine with
        mutator
        evaluator := (engine.strategy.evaluate child engine.evaluator).2
        population := engine.population.set index (.fresh
          { program := child
            fitness := (engine.strategy.evaluate child engine.evaluator).1.fitness }
          (engine.strategy.evaluate child engine.evaluator).1.earlyFitness)
        earlyObserved := engine.earlyObserved ++
          (engine.strategy.evaluate child engine.evaluator).1.earlyFitness.toList
        individuals := engine.individuals + 1 } := by
  rw [breedSlot] at yields
  obtain ⟨_, ⟨parent, _⟩, _, _, yields, _⟩ := yields_bind_iff.mp yields
  obtain ⟨_, ⟨child, mutator⟩, _, _, yields, _⟩ := yields_bind_iff.mp yields
  obtain ⟨_, population, _, replace_yields, last, _⟩ := yields_bind_iff.mp yields
  obtain ⟨_, replaced⟩ := yields_ofOption_iff.mp replace_yields
  obtain ⟨within, rfl⟩ := Population.replace?_eq_some_iff.mp replaced
  obtain ⟨_, rfl⟩ := yields_pure_iff.mp last
  exact ⟨within, child, mutator, rfl⟩

end Engine

end EvoSearch
