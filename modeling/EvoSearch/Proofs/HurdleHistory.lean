/-
# The hurdle and what it is made of

The hurdle starts out unset, and is then made of the cheap fitnesses that have been seen since it
was last moved: of those of all seeds at first, and afterwards of those of the children that it held
back or let through. A hurdle of zero is no hurdle. Behind it no child is judged cheaply, so that
there is nothing to make another hurdle of, and it stays at zero for good.

To see what a judge is consulted about, it is watched: a watched judge writes down every program it
is shown, with its verdict. Watching changes nothing, since a search does not look at the state of
its judge.
-/

import EvoSearch.Proofs.Recast
import EvoSearch.Proofs.Turns

namespace EvoSearch

open Numeric Script

/-- A judge whose verdicts are written down, tier by tier, the first ones first. -/
structure Watched (ε : Type) where
  judge : ε
  cheap : List Scored
  expensive : List Scored

namespace Watched

variable {ε : Type} [Evaluator ε]

instance : Evaluator (Watched ε) where
  evaluate program watched :=
    let (fitness, judge) := Evaluator.evaluate program watched.judge
    (fitness, { watched with judge, expensive := watched.expensive ++ [{ program, fitness }] })
  evaluateEarly program watched :=
    let (fitness, judge) := Evaluator.evaluateEarly program watched.judge
    (fitness, { watched with judge, cheap := watched.cheap ++ [{ program, fitness }] })
  trainSteps watched := Evaluator.trainSteps watched.judge

/-- A judge that nothing has been written down of. -/
def start (judge : ε) : Watched ε where
  judge := judge
  cheap := []
  expensive := []

/-- Stop watching a judge. -/
def unwatching : Recasting (Watched ε) ε where
  judge := judge
  evaluate_judge _ _ := rfl
  evaluateEarly_judge _ _ := rfl
  every := id
  reporter := id

end Watched

theorem dropRepeats_eq_nil_iff {values : List Float} : dropRepeats values = [] ↔ values = [] := by
  cases values <;> simp [dropRepeats]

theorem distinctFinite_eq_nil_iff {values : List Float} :
    distinctFinite values = [] ↔ ∀ value ∈ values, value.isFinite = false := by
  rw [distinctFinite, dropRepeats_eq_nil_iff, ← List.length_eq_zero_iff, List.length_mergeSort,
    List.length_eq_zero_iff, List.filter_eq_nil_iff]
  simp only [Bool.not_eq_true]

/-- Values make a threshold unless none of them is finite. -/
theorem percentileThreshold_eq_none_iff {values : List Float} :
    percentileThreshold values = none ↔ ∀ value ∈ values, value.isFinite = false := by
  rw [← distinctFinite_eq_nil_iff, percentileThreshold, List.getElem?_eq_none_iff,
    ← List.length_eq_zero_iff]
  omega

namespace Hurdle

variable {ε : Type} [Evaluator ε] {hurdle : Hurdle}

/-- The hurdle moves to where the values put it, and stays where it is if they do not say. -/
theorem recompute_eq (values : List Float) :
    hurdle.recompute values = ⟨(percentileThreshold values).getD hurdle.value⟩ := by
  rw [recompute]
  cases percentileThreshold values <;> rfl

theorem recompute_nil : hurdle.recompute [] = hurdle := by
  simp [recompute, percentileThreshold, distinctFinite, dropRepeats]

/-- A hurdle has every candidate judged cheaply, whether it clears the hurdle or not. -/
theorem exists_of_isSet (set : hurdle.isSet = true) (program : Program) (watched : Watched ε) :
    ∃ verdict, (hurdle.evaluate program watched).1.earlyFitness = some verdict ∧
      (hurdle.evaluate program watched).2.cheap =
        watched.cheap ++ [{ program, fitness := verdict }] := by
  rw [evaluate, if_pos set]
  dsimp only
  split
  · exact ⟨_, rfl, rfl⟩
  · exact ⟨_, rfl, rfl⟩

/-- Without a hurdle every candidate is judged expensively, and not cheaply. -/
theorem evaluate_of_not_isSet (unset : hurdle.isSet = false) (program : Program)
    (watched : Watched ε) :
    hurdle.evaluate program watched = Evaluation.full program watched :=
  if_neg (Bool.eq_false_iff.mp unset)

end Hurdle

namespace Engine

variable {γ μ ε : Type} [Evaluator ε]

/-- The same search, its judge no longer being watched. -/
def unwatched (engine : Engine γ μ (Watched ε)) : Engine γ μ ε :=
  engine.recast Watched.unwatching

variable {engine bred next : Engine γ μ (Watched ε)} {hurdle : Hurdle} {rated : List Scored}
  {dialogue : List Surroundings.Line}

/-- Each of the slots has been judged cheaply, with these outcomes. -/
def AreRated (slots : List Slot) (rated : List Scored) : Prop :=
  slots.map (fun slot => (slot.program, slot.earlyFitness)) =
    rated.map fun scored => (scored.program, some scored.fitness)

theorem AreRated.length_eq {slots : List Slot} (areRated : AreRated slots rated) :
    rated.length = slots.length := by
  simpa using (congrArg List.length areRated).symm

theorem AreRated.concat {slots : List Slot} {slot : Slot} {verdict : Float}
    (areRated : AreRated slots rated) (early_eq : slot.earlyFitness = some verdict) :
    AreRated (slots ++ [slot]) (rated ++ [{ program := slot.program, fitness := verdict }]) := by
  rw [AreRated, List.map_append, List.map_append, areRated]
  simp [early_eq]

/-- From one engine to another, these candidates have been judged cheaply, and their fitnesses have
been collected. -/
structure Observes (engine : Engine γ μ (Watched ε)) (rated : List Scored)
    (after : Engine γ μ (Watched ε)) : Prop where
  cheap_eq : after.evaluator.cheap = engine.evaluator.cheap ++ rated
  observed_eq : after.earlyObserved = engine.earlyObserved ++ rated.map Scored.fitness

/-- What becomes known of some slots while they are filled behind a hurdle: all of them are rated if
the hurdle is set, and none otherwise. -/
structure Rates (hurdle : Hurdle) (engine : Engine γ μ (Watched ε)) (slots : List Slot)
    (rated : List Scored) (after : Engine γ μ (Watched ε)) : Prop extends
    Observes engine rated after where
  set : hurdle.isSet = true → AreRated slots rated
  unset : hurdle.isSet = false → rated = [] ∧
    after.evaluator.expensive = engine.evaluator.expensive ++ slots.map Slot.scored

/-- What an engine keeps while its slots are filled. -/
structure Behind (hurdle : Hurdle) (engine after : Engine γ μ (Watched ε)) : Prop where
  strategy_eq : after.strategy = .hurdles hurdle
  size_eq : after.population.size = engine.population.size
  generation_eq : after.generation = engine.generation

omit [Evaluator ε] in
theorem observes_nil (evaluator_eq : next.evaluator = engine.evaluator)
    (observed_eq : next.earlyObserved = engine.earlyObserved) : engine.Observes [] next :=
  ⟨by rw [evaluator_eq, List.append_nil], by rw [observed_eq, List.map_nil, List.append_nil]⟩

theorem rates_of_breedSlot [Mutator μ] {index : Nat} {talk : List Chance.Line}
    (behind : Behind hurdle engine bred)
    (rates : Rates hurdle engine (bred.population.span 1 index) rated bred) (le : 1 ≤ index)
    (yields : (bred.breedSlot index).Yields talk next) :
    Behind hurdle engine next ∧
      ∃ more, Rates hurdle engine (next.population.span 1 (index + 1)) more next := by
  obtain ⟨within, child, mutator, rfl⟩ := of_breedSlot yields
  rw [behind.strategy_eq, Strategy.evaluate, Population.span_set le within]
  refine ⟨⟨rfl, (Population.size_set ..).trans behind.size_eq, behind.generation_eq⟩, ?_⟩
  cases held : hurdle.isSet with
  | true =>
    obtain ⟨verdict, early_eq, cheap_eq⟩ := Hurdle.exists_of_isSet held child bred.evaluator
    refine ⟨rated ++ [{ program := child, fitness := verdict }], ⟨?_, ?_⟩, ?_, ?_⟩
    · rw [cheap_eq, rates.cheap_eq, List.append_assoc]
    · rw [early_eq, rates.observed_eq, List.map_append, ← List.append_assoc]
      rfl
    · exact fun _ => (rates.set held).concat early_eq
    · intro unset
      cases held.symm.trans unset
  | false =>
    obtain ⟨rfl, expensive_eq⟩ := rates.unset held
    rw [Hurdle.evaluate_of_not_isSet held]
    refine ⟨[], ⟨rates.cheap_eq, ?_⟩, ?_, ?_⟩
    · rw [rates.observed_eq]
      simp [Evaluation.full]
    · intro set
      cases held.symm.trans set
    · intro _
      refine ⟨rfl, ?_⟩
      rw [List.map_append, ← List.append_assoc, ← expensive_eq]
      rfl

/-- The children of a generation are rated behind the hurdle that the generation begins with. -/
theorem exists_rates_of_rear [Mutator μ] (strategy_eq : engine.strategy = .hurdles hurdle)
    (yields : engine.rear.Yields dialogue bred) :
    Behind hurdle engine bred ∧
      ∃ rated, Rates hurdle engine bred.population.children rated bred := by
  obtain ⟨slot, talk, breed_yields⟩ := of_rear yields
  have initially : Rates hurdle engine ((engine.population.set 0 slot).span 1 1) []
      { engine with population := engine.population.set 0 slot } := by
    rw [Population.span_self]
    exact ⟨observes_nil rfl rfl, fun _ => rfl, fun _ => ⟨rfl, (List.append_nil _).symm⟩⟩
  obtain ⟨behind, rated, rates⟩ := holds_of_foldlM
    (fun index state => Behind hurdle engine state ∧
      ∃ rated, Rates hurdle engine (state.population.span 1 index) rated state)
    (fun index state talk next le held yields =>
      held.2.elim fun rated rates => rates_of_breedSlot held.1 rates le yields)
    breed_yields ⟨⟨strategy_eq, Population.size_set .., rfl⟩, [], initially⟩
  have size_eq : (engine.population.set 0 slot).size = bred.population.size :=
    (Population.size_set ..).trans behind.size_eq.symm
  rw [size_eq, Population.span_eq_children] at rates
  exact ⟨behind, rated, rates⟩

/-- Where a run stands between two generations: before the first one the fitnesses of the seeds have
been collected, and before all others there are none. -/
structure Between (size : Nat) (hurdle : Hurdle) (engine : Engine γ μ (Watched ε)) : Prop where
  strategy_eq : engine.strategy = .hurdles hurdle
  size_eq : engine.population.size = size
  first : engine.generation = 0 → hurdle = .unset ∧
    engine.earlyObserved = engine.evaluator.cheap.map Scored.fitness
  later : engine.generation ≠ 0 → engine.earlyObserved = []

omit [Evaluator ε] in
theorem Between.hurdle?_eq {size : Nat} (between : Between size hurdle engine) :
    engine.hurdle? = some hurdle := by
  rw [hurdle?, between.strategy_eq]

theorem Between.of_generation [Mutator μ] {size : Nat} (between : Between size hurdle engine)
    (seam : engine.HasSeam bred next dialogue) :
    ∃ rated, Rates hurdle engine bred.population.children rated bred ∧
      bred.population.children.length = size - 1 ∧ next.evaluator = bred.evaluator ∧
      Between size (hurdle.recompute (engine.earlyObserved ++ rated.map Scored.fitness)) next := by
  obtain ⟨_, _, rear_yields, conclude_yields, _⟩ := seam
  obtain ⟨behind, rated, rates⟩ := exists_rates_of_rear between.strategy_eq rear_yields
  obtain ⟨_, shaped, population, best, reporter, shaped_yields, size_eq, rfl⟩ :=
    of_conclude conclude_yields
  rw [applyStrategy, behind.strategy_eq] at shaped_yields
  obtain ⟨_, rfl⟩ := yields_pure_iff.mp shaped_yields
  have bred_size : bred.population.size = size := behind.size_eq.trans between.size_eq
  refine ⟨rated, rates, ?_, rfl, ?_⟩
  · rw [Population.length_children, bred_size]
  · rw [← rates.observed_eq]
    exact ⟨rfl, size_eq.trans bred_size, fun first => absurd first (Nat.succ_ne_zero _),
      fun _ => rfl⟩

section Seeding

variable [Generator γ] [Mutator μ]

/-- A seed is rated whatever the hurdle. -/
theorem rated_of_seedSlot {index : Nat} {talk : List Chance.Line}
    (behind : Behind hurdle engine bred) (observes : Observes engine rated bred)
    (areRated : AreRated (bred.population.span 0 index) rated)
    (yields : (bred.seedSlot index).Yields talk next) :
    Behind hurdle engine next ∧ ∃ more, Observes engine more next ∧
      AreRated (next.population.span 0 (index + 1)) more := by
  obtain ⟨within, program, generator, mutator, rfl⟩ := of_seedSlot yields
  rw [behind.strategy_eq, Population.span_set (Nat.zero_le index) within]
  refine ⟨⟨rfl, (Population.size_set ..).trans behind.size_eq, behind.generation_eq⟩, _,
    ⟨?_, ?_⟩, areRated.concat rfl⟩
  · rw [← List.append_assoc, ← observes.cheap_eq]
    rfl
  · rw [List.map_append, ← List.append_assoc, ← observes.observed_eq]
    rfl

/-- The seeds are all rated, and their fitnesses are collected. -/
theorem exists_rated_of_seed (strategy_eq : engine.strategy = .hurdles hurdle)
    (yields : engine.seed.Yields dialogue next) : Behind hurdle engine next ∧
      ∃ rated, Observes engine rated next ∧ AreRated next.population.slots.toList rated := by
  obtain ⟨_, filled, best, reporter, fill_yields, rfl⟩ := of_seed yields
  have initially : AreRated (engine.population.span 0 0) [] := by
    rw [Population.span_self]
    rfl
  obtain ⟨behind, rated, observes, areRated⟩ := holds_of_foldlM
    (fun index state => Behind hurdle engine state ∧ ∃ rated, Observes engine rated state ∧
      AreRated (state.population.span 0 index) rated)
    (fun index state talk next le held yields =>
      held.2.elim fun rated known => rated_of_seedSlot held.1 known.1 known.2 yields)
    fill_yields ⟨⟨strategy_eq, rfl, rfl⟩, [], observes_nil rfl rfl, initially⟩
  rw [Nat.zero_add, ← behind.size_eq, Population.span_zero] at areRated
  exact ⟨⟨behind.strategy_eq, behind.size_eq, behind.generation_eq⟩, rated,
    ⟨observes.cheap_eq, observes.observed_eq⟩, areRated⟩

theorem yields_seed_unwatched_iff {plain : Engine γ μ ε} :
    engine.unwatched.seed.Yields dialogue plain ↔
      ∃ next, engine.seed.Yields dialogue next ∧ plain = next.unwatched := by
  rw [unwatched, recast_seed _ rfl, yields_map_iff]
  rfl

omit [Generator γ] in
theorem yields_step_unwatched_iff {plain : Engine γ μ ε} :
    engine.unwatched.step.Yields dialogue plain ↔
      ∃ next, engine.step.Yields dialogue next ∧ plain = next.unwatched := by
  rw [unwatched, recast_step _ rfl, yields_map_iff]
  rfl

/-- A run whose judge is watched is the run itself, seen without what is written down. -/
theorem ends_unwatched_iff {start : Engine γ μ (Watched ε)} {plain : Engine γ μ ε} :
    start.unwatched.Ends plain ↔ ∃ engine, start.Ends engine ∧ plain = engine.unwatched := by
  constructor
  · intro ends
    induction ends with
    | seeding yields =>
      obtain ⟨engine, seed_yields, same⟩ := yields_seed_unwatched_iff.mp yields
      exact ⟨engine, .seeding seed_yields, same⟩
    | generation _ yields ih =>
      obtain ⟨engine, ends, rfl⟩ := ih
      obtain ⟨next, step_yields, same⟩ := yields_step_unwatched_iff.mp yields
      exact ⟨next, ends.generation step_yields, same⟩
  · rintro ⟨engine, ends, rfl⟩
    induction ends with
    | seeding yields => exact .seeding (yields_seed_unwatched_iff.mpr ⟨_, yields, rfl⟩)
    | generation _ yields ih =>
      exact .generation ih (yields_step_unwatched_iff.mpr ⟨_, yields, rfl⟩)

variable {config : EvolutionConfig} {generator : γ} {mutator : μ} {evaluator : ε} {time : Nat}
  {start : Engine γ μ (Watched ε)}

omit [Evaluator ε] [Generator γ] [Mutator μ] in
/-- A search with hurdles begins without one, and with nothing collected. -/
theorem start_of_new (mode_eq : config.mode = .hurdles)
    (made : new config generator mutator (.start evaluator) time = .ok start) :
    start.strategy = .hurdles .unset ∧ start.population.size = config.populationSize.toNat ∧
      start.generation = 0 ∧ start.earlyObserved = [] ∧ start.evaluator.cheap = [] := by
  obtain ⟨_, strategy, strategy_eq, rfl⟩ := of_new made
  rw [mode_eq] at strategy_eq
  exact ⟨(Except.ok.inj strategy_eq).symm, Population.size_ofSize _, rfl, rfl, rfl⟩

omit [Generator γ] [Mutator μ] in
theorem new_unwatched (made : new config generator mutator (.start evaluator) time = .ok start) :
    new config generator mutator evaluator time = .ok start.unwatched := by
  obtain ⟨valid, strategy, strategy_eq, rfl⟩ := of_new made
  rw [new, valid, strategy_eq]
  rfl

/-- The seeds of a search with hurdles are all that is known of at first. -/
theorem between_of_seed (mode_eq : config.mode = .hurdles)
    (made : new config generator mutator (.start evaluator) time = .ok start)
    (yields : start.seed.Yields dialogue engine) :
    Between config.populationSize.toNat .unset engine ∧ engine.generation = 0 ∧
      AreRated engine.population.slots.toList engine.evaluator.cheap := by
  obtain ⟨strategy_eq, size_eq, generation_eq, observed_none, cheap_none⟩ :=
    start_of_new mode_eq made
  obtain ⟨behind, rated, observes, areRated⟩ := exists_rated_of_seed strategy_eq yields
  have cheap_eq : engine.evaluator.cheap = rated := by
    rw [observes.cheap_eq, cheap_none, List.nil_append]
  have observed_eq : engine.earlyObserved = rated.map Scored.fitness := by
    rw [observes.observed_eq, observed_none, List.nil_append]
  have unbred : engine.generation = 0 := behind.generation_eq.trans generation_eq
  refine ⟨⟨behind.strategy_eq, behind.size_eq.trans size_eq, ?_, ?_⟩, unbred, cheap_eq ▸ areRated⟩
  · intro _
    exact ⟨rfl, cheap_eq ▸ observed_eq⟩
  · intro bred
    exact absurd unbred bred

theorem exists_between_of_ends (mode_eq : config.mode = .hurdles)
    (made : new config generator mutator (.start evaluator) time = .ok start)
    (ends : start.Ends engine) : ∃ hurdle, Between config.populationSize.toNat hurdle engine := by
  induction ends with
  | seeding yields => exact ⟨.unset, (between_of_seed mode_eq made yields).1⟩
  | generation _ yields ih =>
    obtain ⟨hurdle, between⟩ := ih
    obtain ⟨bred, seam⟩ := yields_step_iff.mp yields
    obtain ⟨rated, _, _, _, next_between⟩ := between.of_generation seam
    exact ⟨_, next_between⟩

omit [Generator γ] in
/-- Behind the first generation, a search without a hurdle stays without one. -/
theorem Between.of_unset {size : Nat} (between : Between size hurdle engine)
    (bred_once : engine.generation ≠ 0) (unset : hurdle.isSet = false)
    (seam : engine.HasSeam bred next dialogue) :
    Between size hurdle next ∧ next.evaluator.cheap = engine.evaluator.cheap ∧
      next.evaluator.expensive =
        engine.evaluator.expensive ++ bred.population.children.map Slot.scored := by
  obtain ⟨rated, rates, _, evaluator_eq, next_between⟩ := between.of_generation seam
  obtain ⟨rfl, expensive_eq⟩ := rates.unset unset
  rw [between.later bred_once, List.map_nil, List.append_nil, Hurdle.recompute_nil]
    at next_between
  refine ⟨next_between, ?_, ?_⟩
  · rw [evaluator_eq, rates.cheap_eq, List.append_nil]
  · rw [evaluator_eq, expensive_eq]

omit [Generator γ] in
/-- However many generations there are without a hurdle, all of their children are judged
expensively, and none cheaply. -/
theorem Between.of_proceeds {size generations : Nat} {last : Engine γ μ (Watched ε)}
    (between : Between size hurdle engine) (bred_once : engine.generation ≠ 0)
    (unset : hurdle.isSet = false) (proceeds : engine.Proceeds generations last) :
    Between size hurdle last ∧ last.generation ≠ 0 ∧
      last.evaluator.cheap = engine.evaluator.cheap ∧ ∃ judged,
        judged.length = generations * (size - 1) ∧
        last.evaluator.expensive = engine.evaluator.expensive ++ judged := by
  induction proceeds with
  | here => exact ⟨between, bred_once, rfl, [], by simp, (List.append_nil _).symm⟩
  | step _ yields ih =>
    obtain ⟨mid_between, mid_bred, mid_cheap, judged, length_eq, mid_expensive⟩ := ih
    obtain ⟨bred, seam⟩ := yields_step_iff.mp yields
    obtain ⟨_, _, children_length, _⟩ := mid_between.of_generation seam
    obtain ⟨next_between, cheap_eq, expensive_eq⟩ := mid_between.of_unset mid_bred unset seam
    refine ⟨next_between, ?_, cheap_eq.trans mid_cheap,
      judged ++ bred.population.children.map Slot.scored, ?_, ?_⟩
    · rw [(maintains_of_step yields).2]
      exact Nat.succ_ne_zero _
    · rw [List.length_append, List.length_map, length_eq, children_length, Nat.succ_mul]
    · rw [expensive_eq, mid_expensive, List.append_assoc]

/-- What the hurdle of a run is made of, whatever the judge and the store. The judge is watched, and
every run of a judge that is not is one of a watched judge.

A run within a budget goes from the end of one generation to that of another, so it does not matter
how often it is taken up. The children of a generation are seen at its seam. There is no hurdle when
the seeds stand in their slots, and each seed has been judged cheaply once. The first generation
judges none of its children cheaply, and makes the hurdle of the fitnesses of the seeds, if one of
them is finite. From then on, a generation that begins with a hurdle has each of its children judged
cheaply once, and moves the hurdle to where these fitnesses put it, or leaves it if none is finite;
one that begins without a hurdle has all of its children judged expensively, and none cheaply, and
it ends without a hurdle, as do all generations that follow. -/
theorem hurdle_of_run (mode_eq : config.mode = .hurdles)
    (made : new config generator mutator (.start evaluator) time = .ok start) :
    (new config generator mutator evaluator time = .ok start.unwatched ∧
      ∀ plain, start.unwatched.Ends plain ↔
        ∃ engine, start.Ends engine ∧ plain = engine.unwatched) ∧
    (∀ engine, start.Ends engine → ∀ budget dialogue generations next,
      (engine.run budget).Yields dialogue (generations, next) →
      engine.Proceeds generations next ∧ start.Ends next) ∧
    (∀ values : List Float,
      percentileThreshold values = none ↔ ∀ value ∈ values, value.isFinite = false) ∧
    (∀ (engine next : Engine γ μ (Watched ε)) dialogue,
      engine.step.Yields dialogue next ↔ ∃ bred, engine.HasSeam bred next dialogue) ∧
    (∀ opening engine, start.seed.Yields opening engine →
      engine.hurdle? = some .unset ∧ engine.generation = 0 ∧
      engine.evaluator.cheap.length = config.populationSize.toNat ∧
      AreRated engine.population.slots.toList engine.evaluator.cheap ∧
      ∀ dialogue next, engine.step.Yields dialogue next →
        next.generation = 1 ∧ next.evaluator.cheap = engine.evaluator.cheap ∧
        next.hurdle? = some
          ⟨(percentileThreshold (engine.evaluator.cheap.map Scored.fitness)).getD 0⟩) ∧
    ∀ engine, start.Ends engine → engine.generation ≠ 0 →
      ∃ hurdle, engine.hurdle? = some hurdle ∧
        (∀ dialogue next, engine.step.Yields dialogue next →
          next.generation = engine.generation + 1 ∧
          ∀ bred, engine.HasSeam bred next dialogue →
            bred.population.children.length = config.populationSize.toNat - 1 ∧
            (hurdle.isSet = true → ∃ rated, AreRated bred.population.children rated ∧
              next.evaluator.cheap = engine.evaluator.cheap ++ rated ∧
              next.hurdle? = some
                ⟨(percentileThreshold (rated.map Scored.fitness)).getD hurdle.value⟩) ∧
            (hurdle.isSet = false → next.evaluator.cheap = engine.evaluator.cheap ∧
              next.evaluator.expensive =
                engine.evaluator.expensive ++ bred.population.children.map Slot.scored ∧
              next.hurdle? = some hurdle)) ∧
        (hurdle.isSet = false → ∀ generations last, engine.Proceeds generations last →
          last.hurdle? = some hurdle ∧ last.evaluator.cheap = engine.evaluator.cheap ∧
          ∃ judged, judged.length = generations * (config.populationSize.toNat - 1) ∧
            last.evaluator.expensive = engine.evaluator.expensive ++ judged) := by
  refine ⟨⟨new_unwatched made, fun plain => ends_unwatched_iff⟩, ?_,
    fun values => percentileThreshold_eq_none_iff,
    fun engine next dialogue => yields_step_iff, ?_, ?_⟩
  · intro engine ends budget dialogue generations next yields
    have proceeds := proceeds_of_run yields
    exact ⟨proceeds, proceeds.ends ends⟩
  · intro opening engine yields
    obtain ⟨between, unbred, areRated⟩ := between_of_seed mode_eq made yields
    refine ⟨between.hurdle?_eq, unbred, ?_, areRated, ?_⟩
    · rw [areRated.length_eq, Array.length_toList]
      exact between.size_eq
    · intro dialogue next step_yields
      obtain ⟨bred, seam⟩ := yields_step_iff.mp step_yields
      obtain ⟨rated, rates, _, evaluator_eq, next_between⟩ := between.of_generation seam
      obtain ⟨rfl, _⟩ := rates.unset (by decide)
      rw [(between.first unbred).2, List.map_nil, List.append_nil, Hurdle.recompute_eq]
        at next_between
      refine ⟨by rw [(maintains_of_step step_yields).2, unbred], ?_, next_between.hurdle?_eq⟩
      rw [evaluator_eq, rates.cheap_eq, List.append_nil]
  · intro engine ends bred_once
    obtain ⟨hurdle, between⟩ := exists_between_of_ends mode_eq made ends
    refine ⟨hurdle, between.hurdle?_eq, ?_, ?_⟩
    · intro dialogue next step_yields
      refine ⟨(maintains_of_step step_yields).2, fun bred seam => ?_⟩
      obtain ⟨rated, rates, children_length, evaluator_eq, next_between⟩ :=
        between.of_generation seam
      refine ⟨children_length, ?_, ?_⟩
      · intro set
        rw [between.later bred_once, List.nil_append, Hurdle.recompute_eq] at next_between
        exact ⟨rated, rates.set set, evaluator_eq ▸ rates.cheap_eq, next_between.hurdle?_eq⟩
      · intro unset
        obtain ⟨next_unset, cheap_eq, expensive_eq⟩ := between.of_unset bred_once unset seam
        exact ⟨cheap_eq, expensive_eq, next_unset.hurdle?_eq⟩
    · intro unset generations last proceeds
      obtain ⟨last_between, _, cheap_eq, judged⟩ := between.of_proceeds bred_once unset proceeds
      exact ⟨last_between.hurdle?_eq, cheap_eq, judged⟩

end Seeding

/-- A judge that has its cheap verdicts ready, one for each cheap evaluation. -/
structure Glances where
  ready : List Float

instance : Evaluator Glances where
  evaluate _ glances := (2, glances)
  evaluateEarly _ glances := (glances.ready.headD 0, ⟨glances.ready.tail⟩)
  trainSteps _ := 0

/-- Settings of a search with hurdles and two slots. -/
def hurdlesConfig : EvolutionConfig :=
  { pairConfig 0 .replaceTopHalf with mode := .hurdles }

/-- Two seeds are judged cheaply, and make a hurdle of one, since the other verdict is NaN. The only
child of the first generation has no say in it, and that of the second one moves it. -/
theorem hurdle_of_run_of_pair :
    ∃ (start engine next last : Engine Blank Blank (Watched Glances))
      (first second : List Surroundings.Line),
      new hurdlesConfig ⟨⟩ ⟨⟩ (.start ⟨[nan, 1, 3]⟩) 0 = .ok start ∧ start.Ends engine ∧
      engine.evaluator.cheap.length = 2 ∧ engine.step.Yields first next ∧
      next.evaluator.cheap = engine.evaluator.cheap ∧
      next.hurdle? = some
        ⟨(percentileThreshold (engine.evaluator.cheap.map Scored.fitness)).getD 0⟩ ∧
      next.step.Yields second last ∧
      ∃ hurdle, next.hurdle? = some hurdle ∧ hurdle.isSet = true ∧ ∃ rated, rated.length = 1 ∧
        last.evaluator.cheap = next.evaluator.cheap ++ rated ∧
        last.hurdle? = some
          ⟨(percentileThreshold (rated.map Scored.fitness)).getD hurdle.value⟩ := by
  obtain ⟨start, made⟩ : ∃ start : Engine Blank Blank (Watched Glances),
      new hurdlesConfig ⟨⟩ ⟨⟩ (.start ⟨[nan, 1, 3]⟩) 0 = .ok start := ⟨_, rfl⟩
  have run : ((Script.run (standstill []) (start.course 2) ()).toOption.any fun outcome =>
      outcome.1.hurdle?.any Hurdle.isSet) = true := by
    obtain rfl := Except.ok.inj made
    decide +kernel
  obtain ⟨dialogue, last, yields, last_set⟩ := exists_yields_of_run
    (fun last : Engine Blank Blank (Watched Glances) => last.hurdle?.any Hurdle.isSet) run
  obtain ⟨_, next, second, course_yields, second_yields, _⟩ := yields_bind_iff.mp yields
  obtain ⟨_, engine, first, seed_yields, first_yields, _⟩ := yields_bind_iff.mp course_yields
  obtain ⟨_, _, _, halves, of_seeds, of_generations⟩ := hurdle_of_run rfl made
  obtain ⟨_, _, cheap_length, _, of_first⟩ := of_seeds _ engine seed_yields
  obtain ⟨generation_eq, cheap_eq, hurdle_eq⟩ := of_first first next first_yields
  have ends : start.Ends engine := .seeding seed_yields
  obtain ⟨hurdle, next_hurdle, of_second, _⟩ := of_generations next (ends.generation first_yields)
    (by rw [generation_eq]; decide)
  obtain ⟨bred, seam⟩ := (halves next last second).mp second_yields
  obtain ⟨children_length, behind, without⟩ := (of_second second last second_yields).2 bred seam
  have set : hurdle.isSet = true := by
    cases held : hurdle.isSet with
    | true => rfl
    | false => rwa [(without held).2.2, Option.any_some, held] at last_set
  obtain ⟨rated, areRated, rated_eq, last_hurdle⟩ := behind set
  exact ⟨start, engine, next, last, first, second, made, ends, cheap_length, first_yields, cheap_eq,
    hurdle_eq, second_yields, hurdle, next_hurdle, set, rated,
    areRated.length_eq.trans children_length, rated_eq, last_hurdle⟩

end Engine

end EvoSearch
