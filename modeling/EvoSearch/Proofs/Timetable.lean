/-
# When reports are made

The first report follows the seeding. From then on a report is made at the end of a generation, as
soon as enough individuals have come since the last one. As every generation brings one child for
each slot but the first, the reports are as far apart as the least number of generations that bring
enough: `every ⌈/⌉ (size - 1)` of them, whatever the mode, the migrants and the store, and no matter
how often the run is taken up again. With a single slot nothing is bred, and the first report is the
only one.
-/

import EvoSearch.Proofs.Accounts
import EvoSearch.Proofs.Faultless
import EvoSearch.Proofs.Reports

namespace EvoSearch

open Numeric Script Store

/-- How many generations go by from one report of a search to the next. -/
def EvolutionConfig.reportPeriod (config : EvolutionConfig) : Nat :=
  config.progressEvery.toNat ⌈/⌉ (config.populationSize.toNat - 1)

/-- Since the last report in a multiple of the period, enough children have come if and only if the
next generation is one, too. -/
theorem le_children_iff {every children generation : Nat} (positive : 0 < every) :
    every ≤ children * (generation + 1) -
        children * ((every ⌈/⌉ children) * (generation / (every ⌈/⌉ children))) ↔
      every ⌈/⌉ children ∣ generation + 1 := by
  rw [← Nat.mul_sub]
  rcases Nat.eq_zero_or_pos children with rfl | children_pos
  · simp [Nat.ne_of_gt positive]
  · have split := Nat.div_add_mod generation (every ⌈/⌉ children)
    have period_pos : 0 < every ⌈/⌉ children := by
      apply Nat.pos_of_ne_zero
      intro zero
      have le := (ceilDiv_le_iff_le_mul children_pos).mp (Nat.le_of_eq zero)
      omega
    rw [← ceilDiv_le_iff_le_mul children_pos]
    generalize every ⌈/⌉ children = period at split period_pos
    have rest_lt := Nat.mod_lt generation period_pos
    have since : generation + 1 - period * (generation / period) = generation % period + 1 := by
      omega
    have next_eq : generation + 1 = period * (generation / period) + (generation % period + 1) := by
      omega
    rw [since, next_eq, Nat.dvd_add_right (Nat.dvd_mul_right ..)]
    constructor
    · intro le
      exact dvd_of_eq (Nat.le_antisymm le rest_lt)
    · exact Nat.le_of_dvd (Nat.succ_pos _)

theorem not_beats_trans {a b c : Float} (first : beats a b = false) (second : beats b c = false) :
    beats a c = false := by
  rw [not_beats_iff] at *
  exact Int.le_trans first second

theorem getElem?_append_of_some {α : Type} {front behind : List α} {k : Nat} {x : α}
    (found : front[k]? = some x) : (front ++ behind)[k]? = some x :=
  (List.getElem?_append_left (List.getElem?_eq_some_iff.mp found).1).trans found

namespace Engine

variable {γ μ ε : Type} {engine next ready : Engine γ μ ε} {dialogue : List Surroundings.Line}

/-- An engine has come ahead by so many individuals and generations. The number of its slots and the
schedule of its reports are as they were. -/
structure Advances (engine : Engine γ μ ε) (born turns : Nat) (next : Engine γ μ ε) : Prop where
  size_eq : next.population.size = engine.population.size
  reporter_eq : next.reporter = engine.reporter
  individuals_eq : next.individuals = engine.individuals + born
  generation_eq : next.generation = engine.generation + turns

/-- When it comes to report, the best of the population has been held against the best so far. -/
structure IsReady (engine : Engine γ μ ε) (born turns : Nat) (ready : Engine γ μ ε) : Prop extends
    engine.Advances born turns ready where
  noted : ∃ best, ready.IsNoted best ∧
    ∀ former, engine.best = some former → beats former.fitness best.fitness = false

theorem noted_of_updateBest (yields : (engine.updateBest : Act _).Yields dialogue ready) :
    dialogue = [] ∧ ready = { engine with best := ready.best } ∧ ∃ best, ready.IsNoted best ∧
      ∀ former, engine.best = some former → beats former.fitness best.fitness = false := by
  obtain ⟨rfl, slot, index, found, rfl⟩ := of_updateBest yields
  obtain ⟨best, best_eq, _, candidate_le, former_le⟩ := exists_best_noteBest engine slot.scored
  refine ⟨rfl, noteBest_eq engine slot.scored, best, ⟨best_eq, ?_⟩, ?_⟩
  · intro other other_holds
    rw [population_noteBest] at other_holds
    rw [not_beats_iff]
    exact Int.le_trans ((Population.peaks_of_best? found).bound other other_holds) candidate_le
  · exact fun former former_eq => not_beats_iff.mpr (former_le former former_eq)

theorem migrate_isSilent :
    engine.migrate.Respects Effect.IsSilent (fun _ _ => True) fun _ => True :=
  (engine.config.migration.migrate_isSilent engine.population).bind fun _ _ => trivial

variable [Generator γ] [Mutator μ] [Evaluator ε]

section Filling

variable {state : Engine γ μ ε} {talk : List Chance.Line} {index born : Nat}

theorem Advances.seedSlot (advances : engine.Advances born 0 state)
    (yields : (state.seedSlot index).Yields talk next) :
    engine.Advances (born + 1) 0 next ∧ next.best = state.best := by
  obtain ⟨_, _, _, _, rfl⟩ := of_seedSlot yields
  exact ⟨⟨(Population.size_set ..).trans advances.size_eq, advances.reporter_eq,
    congrArg (· + 1) advances.individuals_eq, advances.generation_eq⟩, rfl⟩

omit [Generator γ] in
theorem Advances.breedSlot (advances : engine.Advances born 0 state)
    (yields : (state.breedSlot index).Yields talk next) :
    engine.Advances (born + 1) 0 next ∧ next.best = state.best := by
  obtain ⟨_, _, _, rfl⟩ := of_breedSlot yields
  exact ⟨⟨(Population.size_set ..).trans advances.size_eq, advances.reporter_eq,
    congrArg (· + 1) advances.individuals_eq, advances.generation_eq⟩, rfl⟩

theorem advances_of_seeds
    (yields : ((List.range' 0 engine.population.size).foldlM seedSlot engine).Yields talk next) :
    engine.Advances engine.population.size 0 next ∧ next.best = engine.best := by
  have filled := holds_of_foldlM
    (fun index state => engine.Advances index 0 state ∧ state.best = engine.best) ?_ yields
    ⟨⟨rfl, rfl, rfl, rfl⟩, rfl⟩
  · rwa [Nat.zero_add] at filled
  · rintro index state talk after _ ⟨advances, best_eq⟩ slot_yields
    obtain ⟨further, same⟩ := advances.seedSlot slot_yields
    exact ⟨further, same.trans best_eq⟩

omit [Generator γ] in
theorem advances_of_breed (yields : engine.breed.Yields talk next) :
    engine.Advances (engine.population.size - 1) 0 next ∧ next.best = engine.best := by
  have filled := holds_of_foldlM
    (fun index state => engine.Advances (index - 1) 0 state ∧ state.best = engine.best) ?_ yields
    ⟨⟨rfl, rfl, rfl, rfl⟩, rfl⟩
  · rwa [Nat.add_sub_cancel_left] at filled
  · rintro index state talk after le ⟨advances, best_eq⟩ slot_yields
    obtain ⟨further, same⟩ := advances.breedSlot slot_yields
    rw [Nat.sub_add_cancel le] at further
    exact ⟨further, same.trans best_eq⟩

end Filling

/-- Up to its report, a seeding fills all slots and reports nothing. -/
theorem exists_report_of_seed (yields : engine.seed.Yields dialogue next) :
    ∃ ready rest, engine.IsReady engine.population.size 0 ready ∧
      ready.report.Yields rest next ∧ reported dialogue = reported rest := by
  obtain ⟨_, filled, _, fill_yields, then_finish, rfl⟩ := yields_bind_iff.mp yields
  obtain ⟨_, ready, rest, finish_yields, report_yields, rfl⟩ := yields_bind_iff.mp then_finish
  obtain ⟨_, filled_yields⟩ := Draw.yields_of_act fill_yields
  rw [List.range_eq_range'] at filled_yields
  obtain ⟨advances, best_eq⟩ := advances_of_seeds filled_yields
  obtain ⟨rfl, ready_eq, noted⟩ := noted_of_updateBest finish_yields
  rw [best_eq] at noted
  refine ⟨ready, rest, ⟨?_, noted⟩, report_yields, ?_⟩
  · rw [ready_eq]
    exact ⟨advances.size_eq, advances.reporter_eq, advances.individuals_eq, advances.generation_eq⟩
  · rw [reported_append, reported_eq_nil (Draw.isSilent _) fill_yields]
    rfl

omit [Generator γ] in
/-- Up to its report, a generation breeds a child for every slot but the first, and reports
nothing. -/
theorem exists_report_of_step (yields : engine.step.Yields dialogue next) :
    ∃ ready rest, engine.IsReady (engine.population.size - 1) 1 ready ∧
      ready.report.Yields rest next ∧ reported dialogue = reported rest := by
  obtain ⟨_, promoted, _, promote_yields, then_breed, rfl⟩ := yields_bind_iff.mp yields
  obtain ⟨_, bred, _, breed_yields, then_shape, rfl⟩ := yields_bind_iff.mp then_breed
  obtain ⟨_, shaped, _, strategy_yields, then_migrate, rfl⟩ := yields_bind_iff.mp then_shape
  obtain ⟨_, exchanged, _, migrate_yields, then_finish, rfl⟩ := yields_bind_iff.mp then_migrate
  obtain ⟨_, ready, rest, finish_yields, report_yields, rfl⟩ := yields_bind_iff.mp then_finish
  obtain ⟨rfl, slot, _, _, rfl⟩ := of_promoteBest promote_yields
  obtain ⟨_, bred_yields⟩ := Draw.yields_of_act breed_yields
  obtain ⟨_, shaped_yields⟩ := Draw.yields_of_act strategy_yields
  obtain ⟨advances, best_eq⟩ := advances_of_breed bred_yields
  rw [Population.size_set] at advances
  have bred_size := advances.size_eq.trans (Population.size_set ..)
  have shaped_size := (reshapes_of_applyStrategy shaped_yields).size_eq
  obtain ⟨_, _, _, rfl⟩ := of_applyStrategy shaped_yields
  obtain ⟨_, population, rfl, exchange⟩ := of_migrate migrate_yields
  obtain ⟨rfl, ready_eq, noted⟩ := noted_of_updateBest finish_yields
  have population_size : population.size = engine.population.size := by
    rcases exchange with rfl | ⟨_, migrants, rfl⟩
    · exact shaped_size.trans bred_size
    · exact (Population.size_splice.trans shaped_size).trans bred_size
  refine ⟨ready, rest, ⟨?_, best_eq ▸ noted⟩, report_yields, ?_⟩
  · rw [ready_eq]
    exact ⟨population_size, advances.reporter_eq, advances.individuals_eq,
      congrArg (· + 1) advances.generation_eq⟩
  · rw [List.nil_append, reported_append, reported_append, reported_append,
      reported_eq_nil (Draw.isSilent _) breed_yields,
      reported_eq_nil (Draw.isSilent _) strategy_yields,
      reported_eq_nil migrate_isSilent migrate_yields]
    rfl

/-- The search as it was behind its seeding and behind each of its generations so far, and all that
it has reported. -/
inductive Chronicle (start : Engine γ μ ε) :
    List (Engine γ μ ε) → List (Call × Bool) → Engine γ μ ε → Prop
  | seeding {dialogue : List Surroundings.Line} {engine : Engine γ μ ε} :
      start.seed.Yields dialogue engine → Chronicle start [engine] (reported dialogue) engine
  | generation {moments : List (Engine γ μ ε)} {calls : List (Call × Bool)}
      {dialogue : List Surroundings.Line} {engine next : Engine γ μ ε} :
      Chronicle start moments calls engine → engine.step.Yields dialogue next →
      Chronicle start (moments ++ [next]) (calls ++ reported dialogue) next

section Sittings

variable {start last : Engine γ μ ε}

theorem exists_chronicle_of_run {budget : Budget} {said : List Surroundings.Line} {count : Nat}
    (so_far : ∃ moments, start.Chronicle moments (reported said) engine)
    (yields : (engine.run budget).Yields dialogue (count, next)) :
    ∃ moments, start.Chronicle moments (reported (said ++ dialogue)) next := by
  apply holds_of_run
    (fun _ said state => ∃ moments, start.Chronicle moments (reported said) state)
    ?_ ?_ said so_far yields
  · intro _ said state time so_far
    rw [reported_append]
    exact (List.append_nil (reported said)).symm ▸ so_far
  · rintro _ said state talk after ⟨moments, chronicle⟩ step_yields
    rw [reported_append]
    exact ⟨_, chronicle.generation step_yields⟩

/-- However often a run is taken up, it goes on from where it was. -/
theorem exists_chronicle_of_sittings {budgets : List Budget}
    (yields : (start.sittings budgets).Yields dialogue last) :
    ∃ moments, start.Chronicle moments (reported dialogue) last := by
  obtain ⟨opening, seeded, rest, seed_yields, rest_yields, rfl⟩ := yields_bind_iff.mp yields
  have so_far : ∃ moments, start.Chronicle moments (reported opening) seeded :=
    ⟨_, .seeding seed_yields⟩
  clear yields seed_yields
  induction budgets generalizing opening seeded rest with
  | nil =>
    obtain ⟨rfl, rfl⟩ := yields_pure_iff.mp rest_yields
    rwa [List.append_nil]
  | cons budget budgets ih =>
    rw [List.foldlM_cons] at rest_yields
    obtain ⟨first, between, behind, run_yields, later, rfl⟩ := yields_bind_iff.mp rest_yields
    obtain ⟨⟨count, between⟩, run_yields, rfl⟩ := yields_map_iff.mp run_yields
    rw [← List.append_assoc]
    exact ih (opening ++ first) between behind later (exists_chronicle_of_run so_far run_yields)

end Sittings

section OnSchedule

variable {config : EvolutionConfig} {moments : List (Engine γ μ ε)} {reports : List Report}

omit [Generator γ] [Mutator μ] [Evaluator ε]

/-- A search with so many slots has evaluated all seeds, and all children of its generations. -/
structure Counts (config : EvolutionConfig) (engine : Engine γ μ ε) : Prop where
  size_eq : engine.population.size = config.populationSize.toNat
  every_eq : engine.reporter.every = config.progressEvery.toNat
  individuals_eq : engine.individuals =
    config.populationSize.toNat + (config.populationSize.toNat - 1) * engine.generation

/-- The reports are on every multiple of the period among the moments of a search. -/
def Covers (config : EvolutionConfig) (moments : List (Engine γ μ ε)) (reports : List Report) :
    Prop :=
  ∀ k report, reports[k]? = some report → ∃ moment : Engine γ μ ε,
    moments[k * config.reportPeriod]? = some moment ∧ moment.Counts config ∧
      moment.generation = k * config.reportPeriod ∧ report.Describes moment

/-- Up to some generation, the reports have been made in every multiple of the period, the last one
is noted in the schedule, and what they tell of the best so far has never fallen. -/
structure OnSchedule (config : EvolutionConfig) (moments : List (Engine γ μ ε))
    (reports : List Report) (engine : Engine γ μ ε) : Prop where
  counts : engine.Counts config
  last_eq : engine.reporter.last =
    some (config.populationSize.toNat + (config.populationSize.toNat - 1) *
      (config.reportPeriod * (engine.generation / config.reportPeriod)))
  moments_length : moments.length = engine.generation + 1
  reports_length : reports.length = engine.generation / config.reportPeriod + 1
  covers : Covers config moments reports
  noted : ∃ best, engine.best = some best ∧
    ∀ report ∈ reports, beats report.progress.bestOverall best.fitness = false
  rises : reports.Pairwise fun earlier later =>
    beats earlier.progress.bestOverall later.progress.bestOverall = false

theorem Counts.of_advances {born turns : Nat} (counts : engine.Counts config)
    (advances : engine.Advances born turns ready)
    (born_eq : born = (config.populationSize.toNat - 1) * turns) : ready.Counts config where
  size_eq := advances.size_eq.trans counts.size_eq
  every_eq := (congrArg Reporter.every advances.reporter_eq).trans counts.every_eq
  individuals_eq := by
    rw [advances.individuals_eq, counts.individuals_eq, advances.generation_eq, born_eq,
      Nat.mul_add, Nat.add_assoc]

/-- A report on a search as it was after so many generations. -/
structure IsReportOf (config : EvolutionConfig) (generation : Nat) (report : Report)
    (moment : Engine γ μ ε) : Prop where
  describes : report.Describes moment
  individuals_eq : report.progress.individuals =
    config.populationSize.toNat + (config.populationSize.toNat - 1) * generation
  diversity_length : report.diversity.length = config.populationSize.toNat
  diversity_individuals : ∀ record ∈ report.diversity,
    record.individuals = report.progress.individuals

theorem Counts.isReportOf {report : Report} {moment : Engine γ μ ε} (counts : moment.Counts config)
    (describes : report.Describes moment) : IsReportOf config moment.generation report moment where
  describes
  individuals_eq := describes.individuals_eq.trans counts.individuals_eq
  diversity_length := by
    rw [describes.diversity_eq, List.length_map, Array.length_toList]
    exact counts.size_eq
  diversity_individuals record mem := by
    rw [describes.diversity_eq] at mem
    obtain ⟨slot, _, rfl⟩ := List.mem_map.mp mem
    exact describes.individuals_eq.symm

theorem Covers.later (covers : Covers config moments reports) :
    Covers config (moments ++ [next]) reports := by
  intro k report found
  obtain ⟨moment, at_moment, there⟩ := covers k report found
  exact ⟨moment, getElem?_append_of_some at_moment, there⟩

/-- A report on the last moment follows those that there are. -/
theorem Covers.concat {report : Report} (covers : Covers config (moments ++ [next]) reports)
    (counts : next.Counts config) (length_eq : moments.length = next.generation)
    (at_next : reports.length * config.reportPeriod = next.generation)
    (describes : report.Describes next) :
    Covers config (moments ++ [next]) (reports ++ [report]) := by
  intro k other found
  rcases Nat.lt_or_ge k reports.length with old | new
  · rw [List.getElem?_append_left old] at found
    exact covers k other found
  · have k_eq : k = reports.length := by
      have inside := (List.getElem?_eq_some_iff.mp found).1
      rw [List.length_append, List.length_singleton] at inside
      omega
    rw [k_eq, List.getElem?_concat_length] at found
    obtain rfl := Option.some.inj found
    rw [k_eq, at_next]
    refine ⟨next, ?_, counts, rfl, describes⟩
    rw [← length_eq, List.getElem?_concat_length]

theorem OnSchedule.isDue_iff (so_far : OnSchedule config moments reports engine)
    (positive : 0 < config.progressEvery.toNat) (ready_counts : ready.Counts config)
    (advances : engine.Advances (config.populationSize.toNat - 1) 1 ready) :
    ready.reporter.isDue ready.individuals = true ↔
      config.reportPeriod ∣ engine.generation + 1 := by
  rw [Reporter.isDue, advances.reporter_eq, so_far.last_eq, so_far.counts.every_eq,
    ready_counts.individuals_eq, advances.generation_eq]
  dsimp only
  rw [Nat.add_sub_add_left, decide_eq_true_iff]
  exact le_children_iff positive

/-- The first report is the one behind the seeding. -/
theorem OnSchedule.first {report : Report} {best : Scored} (counts : engine.Counts config)
    (unbred : engine.generation = 0) (last_eq : engine.reporter.last = some engine.individuals)
    (describes : report.Describes engine) (best_eq : engine.best = some best)
    (overall_eq : report.progress.bestOverall = best.fitness) :
    OnSchedule config [engine] [report] engine where
  counts
  last_eq := by
    rw [last_eq, counts.individuals_eq, unbred, Nat.zero_div, Nat.mul_zero, Nat.mul_zero,
      Nat.mul_zero]
  moments_length := congrArg (· + 1) unbred.symm
  reports_length := by
    rw [unbred, Nat.zero_div]
    rfl
  covers := by
    intro k other found
    obtain ⟨rfl, rfl⟩ : k = 0 ∧ report = other := by
      simpa [List.getElem?_singleton] using found
    rw [Nat.zero_mul]
    exact ⟨engine, rfl, counts, unbred, describes⟩
  noted := by
    refine ⟨best, best_eq, fun other mem => ?_⟩
    rw [List.mem_singleton.mp mem, overall_eq, not_beats_iff]
  rises := List.pairwise_singleton _ _

/-- In a multiple of the period a report is added. -/
theorem OnSchedule.of_due {report : Report} {best : Scored}
    (so_far : OnSchedule config moments reports engine)
    (due : config.reportPeriod ∣ engine.generation + 1) (counts : next.Counts config)
    (generation_eq : next.generation = engine.generation + 1)
    (last_eq : next.reporter.last = some next.individuals) (describes : report.Describes next)
    (best_eq : next.best = some best) (overall_eq : report.progress.bestOverall = best.fitness)
    (best_rises : ∀ former, engine.best = some former →
      beats former.fitness best.fitness = false) :
    OnSchedule config (moments ++ [next]) (reports ++ [report]) next := by
  have quotient : next.generation / config.reportPeriod =
      engine.generation / config.reportPeriod + 1 := by
    rw [generation_eq, Nat.succ_div_of_dvd due]
  have multiple :
      config.reportPeriod * (next.generation / config.reportPeriod) = next.generation := by
    rw [generation_eq, Nat.mul_div_cancel' due]
  obtain ⟨former, former_eq, earlier⟩ := so_far.noted
  have bounded : ∀ report ∈ reports,
      beats report.progress.bestOverall best.fitness = false := fun report mem =>
    not_beats_trans (earlier report mem) (best_rises former former_eq)
  refine ⟨counts, ?_, ?_, ?_, ?_, ⟨best, best_eq, ?_⟩, ?_⟩
  · rw [last_eq, counts.individuals_eq, multiple]
  · rw [List.length_append, so_far.moments_length, generation_eq]
    rfl
  · rw [List.length_append, so_far.reports_length, quotient]
    rfl
  · apply so_far.covers.later.concat counts ?_ ?_ describes
    · rw [so_far.moments_length, generation_eq]
    · rw [so_far.reports_length, ← quotient, Nat.mul_comm, multiple]
  · rintro other mem
    rcases List.mem_append.mp mem with old | new
    · exact bounded other old
    · rw [List.mem_singleton.mp new, overall_eq, not_beats_iff]
  · rw [List.pairwise_append]
    refine ⟨so_far.rises, List.pairwise_singleton _ _, fun other mem later later_mem => ?_⟩
    rw [List.mem_singleton.mp later_mem, overall_eq]
    exact bounded other mem

/-- In all other generations there is none. -/
theorem OnSchedule.of_undue (so_far : OnSchedule config moments reports engine)
    (undue : ¬ config.reportPeriod ∣ engine.generation + 1) (counts : next.Counts config)
    (generation_eq : next.generation = engine.generation + 1)
    (last_eq : next.reporter.last = engine.reporter.last)
    (noted : ∃ best, next.best = some best ∧ ∀ former, engine.best = some former →
      beats former.fitness best.fitness = false) :
    OnSchedule config (moments ++ [next]) reports next := by
  have quotient :
      next.generation / config.reportPeriod = engine.generation / config.reportPeriod := by
    rw [generation_eq, Nat.succ_div_of_not_dvd undue]
  obtain ⟨former, former_eq, earlier⟩ := so_far.noted
  obtain ⟨best, best_eq, best_rises⟩ := noted
  exact
    { counts
      last_eq := by rw [last_eq, so_far.last_eq, quotient]
      moments_length := by
        rw [List.length_append, so_far.moments_length, generation_eq]
        rfl
      reports_length := by rw [so_far.reports_length, quotient]
      covers := so_far.covers.later
      noted := ⟨best, best_eq, fun report mem =>
        not_beats_trans (earlier report mem) (best_rises former former_eq)⟩
      rises := so_far.rises }

end OnSchedule

section Run

variable {config : EvolutionConfig} {moments : List (Engine γ μ ε)} {reports : List Report}

omit [Generator γ] in
theorem OnSchedule.step (so_far : OnSchedule config moments reports engine)
    (positive : 0 < config.progressEvery.toNat) (yields : engine.step.Yields dialogue next) :
    ∃ later, reported dialogue = later.flatMap Report.calls ∧
      OnSchedule config (moments ++ [next]) (reports ++ later) next := by
  obtain ⟨ready, rest, is_ready, report_yields, same⟩ := exists_report_of_step yields
  rw [so_far.counts.size_eq] at is_ready
  have advances := is_ready.toAdvances
  obtain ⟨best, noted, best_rises⟩ := is_ready.noted
  have ready_counts : ready.Counts config :=
    so_far.counts.of_advances advances (Nat.mul_one _).symm
  have due_iff := so_far.isDue_iff positive ready_counts advances
  rw [same]
  by_cases due : config.reportPeriod ∣ engine.generation + 1
  · obtain ⟨report, calls_eq, describes, overall_eq, rfl⟩ :=
      of_report_due noted (due_iff.mpr due) report_yields
    refine ⟨[report], by rw [calls_eq, List.flatMap_singleton], ?_⟩
    have counts : Counts config
        { ready with reporter := ready.reporter.mark ready.individuals } :=
      ⟨ready_counts.size_eq, ready_counts.every_eq, ready_counts.individuals_eq⟩
    exact so_far.of_due due counts advances.generation_eq rfl describes noted.1 overall_eq
      best_rises
  · obtain ⟨calls_eq, rfl⟩ := of_report_undue
      (Bool.eq_false_iff.mpr (mt due_iff.mp due)) report_yields
    refine ⟨[], calls_eq, ?_⟩
    rw [List.append_nil]
    exact so_far.of_undue due ready_counts advances.generation_eq
      (congrArg Reporter.last advances.reporter_eq) ⟨best, noted.1, best_rises⟩

variable {generator : γ} {mutator : μ} {evaluator : ε} {time : Nat} {start last : Engine γ μ ε}
  (made : new config generator mutator evaluator time = .ok start)
include made

/-- The first report follows the seeding, however long the interval is. -/
theorem onSchedule_of_seed (yields : start.seed.Yields dialogue engine) :
    ∃ report : Report, reported dialogue = report.calls ∧
      OnSchedule config [engine] [report] engine := by
  obtain ⟨ready, rest, is_ready, report_yields, same⟩ := exists_report_of_seed yields
  obtain ⟨_, _, _, rfl⟩ := of_new made
  obtain ⟨size_eq, reporter_eq, individuals_eq, generation_eq⟩ := is_ready.toAdvances
  rw [Population.size_ofSize] at size_eq individuals_eq
  obtain ⟨best, noted, _⟩ := is_ready.noted
  have due : ready.reporter.isDue ready.individuals = true := by
    rw [reporter_eq]
    rfl
  obtain ⟨report, calls_eq, describes, overall_eq, rfl⟩ := of_report_due noted due report_yields
  have counts : Counts config
      { ready with reporter := ready.reporter.mark ready.individuals } := by
    refine ⟨size_eq, congrArg Reporter.every reporter_eq, ?_⟩
    rw [individuals_eq, generation_eq, Nat.add_zero, Nat.mul_zero]
    exact Nat.zero_add _
  exact ⟨report, same.trans calls_eq,
    .first counts generation_eq rfl describes noted.1 overall_eq⟩

theorem exists_onSchedule_of_chronicle {calls : List (Call × Bool)}
    (positive : 0 < config.progressEvery.toNat) (chronicle : start.Chronicle moments calls last) :
    ∃ reports : List Report, calls = reports.flatMap Report.calls ∧
      OnSchedule config moments reports last := by
  induction chronicle with
  | seeding yields =>
    obtain ⟨report, calls_eq, on_schedule⟩ := onSchedule_of_seed made yields
    exact ⟨[report], by rw [calls_eq, List.flatMap_singleton], on_schedule⟩
  | generation _ yields ih =>
    obtain ⟨reports, rfl, on_schedule⟩ := ih
    obtain ⟨later, later_eq, still⟩ := on_schedule.step positive yields
    exact ⟨reports ++ later, by rw [later_eq, List.flatMap_append], still⟩

/-- When a search reports, and what. However often it has been taken up by the end of a generation,
one report has been made behind the seeding, and one in every multiple of the period, if anything is
bred at all. Each of them consists of a record for each slot and a record for the population as it
was then, and the best fitness so far never falls from one to the next. Where a call fails, its own
records are all that is not kept. -/
theorem reports_are_on_schedule {budgets : List Budget}
    (yields : (start.sittings budgets).Yields dialogue last) :
    ∃ (moments : List (Engine γ μ ε)) (reports : List Report),
      start.Chronicle moments (reported dialogue) last ∧
      moments.length = last.generation + 1 ∧
      reported dialogue = reports.flatMap Report.calls ∧
      (2 ≤ config.populationSize.toNat →
        reports.length = 1 + last.generation / config.reportPeriod) ∧
      (config.populationSize.toNat = 1 → reports.length = 1) ∧
      (∀ k report, reports[k]? = some report → ∃ moment,
        moments[k * config.reportPeriod]? = some moment ∧
          IsReportOf config (k * config.reportPeriod) report moment) ∧
      (reports.Pairwise fun earlier later =>
        beats earlier.progress.bestOverall later.progress.bestOverall = false) ∧
      Report.AreKept reports dialogue := by
  obtain ⟨valid, _⟩ := of_new made
  have positive := toNat_pos_of_ne_zero (EvolutionConfig.nonzero_of_validate valid).2.2
  obtain ⟨moments, chronicle⟩ := exists_chronicle_of_sittings yields
  obtain ⟨reports, calls_eq, on_schedule⟩ :=
    exists_onSchedule_of_chronicle made positive chronicle
  have length_eq := on_schedule.reports_length
  refine ⟨moments, reports, chronicle, on_schedule.moments_length, calls_eq, ?_, ?_, ?_,
    on_schedule.rises, Report.areKept_of_reported calls_eq⟩
  · intro _
    rw [length_eq, Nat.add_comm]
  · intro single
    have unbounded : config.reportPeriod = 0 := by
      rw [EvolutionConfig.reportPeriod, single, Nat.sub_self, ceilDiv_zero]
    rw [length_eq, unbounded, Nat.div_zero]
  · intro k report found
    obtain ⟨moment, at_moment, counts, generation_eq, describes⟩ :=
      on_schedule.covers k report found
    exact ⟨moment, at_moment, generation_eq ▸ counts.isReportOf describes⟩

end Run

/-- Two slots, a report on every second individual, and three generations in two runs: there is a
report behind the seeding, and one behind the second generation. -/
theorem reports_are_on_schedule_of_pair : ∃ (start last : Engine Blank Blank Tally)
    (dialogue : List Surroundings.Line) (reports : List Report),
    new { pairConfig 1 .replaceTopHalf with progressEvery := 2 } ⟨⟩ ⟨⟩ ⟨0⟩ 0 = .ok start ∧
      (start.sittings [⟨2, none⟩, ⟨1, none⟩]).Yields dialogue last ∧ last.generation = 3 ∧
      reported dialogue = reports.flatMap Report.calls ∧ reports.length = 2 ∧
      ∀ report, reports[1]? = some report → report.progress.individuals = 4 := by
  obtain ⟨start, made⟩ : ∃ start : Engine Blank Blank Tally,
      new { pairConfig 1 .replaceTopHalf with progressEvery := 2 } ⟨⟩ ⟨⟩ ⟨0⟩ 0 = .ok start :=
    ⟨_, rfl⟩
  have run : ((Script.run (standstill []) (start.sittings [⟨2, none⟩, ⟨1, none⟩])
      ()).toOption.any fun outcome => outcome.1.generation == 3) = true := by
    obtain rfl := Except.ok.inj made
    decide +kernel
  obtain ⟨dialogue, last, yields, counted⟩ := exists_yields_of_run
    (fun last : Engine Blank Blank Tally => last.generation == 3) run
  have generation_eq : last.generation = 3 := beq_iff_eq.mp counted
  obtain ⟨_, reports, _, _, calls_eq, length_eq, _, described, _⟩ :=
    reports_are_on_schedule made yields
  refine ⟨start, last, dialogue, reports, made, yields, generation_eq, calls_eq, ?_, ?_⟩
  · rw [length_eq (by decide), generation_eq]
    rfl
  · intro report found
    obtain ⟨_, _, is_report⟩ := described 1 report found
    exact is_report.individuals_eq

end Engine

end EvoSearch
