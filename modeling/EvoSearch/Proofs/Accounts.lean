/-
# What a run takes, and how long it lasts

With a judge who counts every evaluation as one train step, a run can be drawn up in full. Seeding
takes two steps for each slot. A generation takes one step for each child, and another one for each
child that was held to a hurdle and has cleared it; so it takes between one and two steps for each
of the slots but the first. From this follows how many generations a budget is good for. With a
single slot there is no child, a generation takes nothing, and the run ends behind it.

That a run comes to an end, and does so within as many generations as it may take steps, holds of
every judge.
-/

import Mathlib.Algebra.Order.Floor.Div
import EvoSearch.Proofs.Turns
import EvoSearch.Synthetic.Objective

namespace EvoSearch

open Script

/-- Every evaluation, be it a cheap or an expensive one, is counted as one train step. -/
structure CountsCalls (ε : Type) [Evaluator ε] : Prop where
  evaluate : ∀ program (judge : ε), Evaluator.trainSteps (Evaluator.evaluate program judge).2 =
    Evaluator.trainSteps judge + 1
  evaluateEarly : ∀ program (judge : ε),
    Evaluator.trainSteps (Evaluator.evaluateEarly program judge).2 = Evaluator.trainSteps judge + 1

/-- The built-in objective counts in this way. -/
theorem countsCalls_objective : CountsCalls Synthetic.Objective :=
  ⟨fun _ _ => rfl, fun _ _ => rfl⟩

namespace Strategy

/-- Whether the occupant of a slot was held to a hurdle, and has cleared it. -/
def hasCleared (strategy : Strategy) (slot : Slot) : Bool :=
  match strategy with
  | hurdles hurdle => hurdle.isSet && slot.earlyFitness.any fun early => hurdle.value < early
  | _ => false

theorem hasCleared_eq_false {strategy : Strategy} (plain : strategy.collectsEarly = false)
    (slot : Slot) : strategy.hasCleared slot = false := by
  cases strategy with
  | hurdles hurdle => cases plain
  | standard | qualityDiversity | mapElites => rfl

/-- A child takes one step, and another one if it clears a hurdle. -/
theorem trainSteps_evaluate {ε : Type} [Evaluator ε] (counts : CountsCalls ε) (strategy : Strategy)
    (program : Program) (judge : ε) :
    Evaluator.trainSteps (strategy.evaluate program judge).2 = Evaluator.trainSteps judge + 1 +
      if strategy.hasCleared (.fresh
        { program, fitness := (strategy.evaluate program judge).1.fitness }
        (strategy.evaluate program judge).1.earlyFitness) then 1 else 0 := by
  cases strategy with
  | standard => exact counts.evaluate program judge
  | qualityDiversity => exact counts.evaluate program judge
  | mapElites archive => exact counts.evaluate program judge
  | hurdles hurdle =>
    rw [evaluate, Hurdle.evaluate]
    by_cases set : hurdle.isSet = true
    · rw [if_pos set]
      dsimp only
      split
      · next clears =>
        simp [hasCleared, Slot.fresh, set, clears, counts.evaluate, counts.evaluateEarly]
      · next fails => simp [hasCleared, Slot.fresh, set, fails, counts.evaluateEarly]
    · rw [if_neg set]
      simp [hasCleared, Slot.fresh, set, Evaluation.full, counts.evaluate]

end Strategy

namespace Engine

variable {γ μ ε : Type} [Generator γ] [Mutator μ] [Evaluator ε] {engine bred next : Engine γ μ ε}
  {dialogue : List Surroundings.Line}

/-- The accounts of a seeding that has filled the slots below an index. -/
structure HasSeeded (engine : Engine γ μ ε) (index : Nat) (state : Engine γ μ ε) : Prop where
  size_eq : state.population.size = engine.population.size
  individuals_eq : state.individuals = engine.individuals + index
  trainSteps_eq : state.trainSteps = engine.trainSteps + 2 * index
  generation_eq : state.generation = engine.generation

theorem HasSeeded.slot {index : Nat} {talk : List Chance.Line} {state : Engine γ μ ε}
    (counts : CountsCalls ε) (hasSeeded : engine.HasSeeded index state)
    (yields : (state.seedSlot index).Yields talk next) : engine.HasSeeded (index + 1) next := by
  obtain ⟨_, program, _, _, rfl⟩ := of_seedSlot yields
  have taken : Evaluator.trainSteps (Evaluator.evaluateEarly program
      (Evaluator.evaluate program state.evaluator).2).2 = state.trainSteps + 2 := by
    rw [counts.evaluateEarly, counts.evaluate]
    rfl
  refine ⟨(Population.size_set ..).trans hasSeeded.size_eq,
    congrArg (· + 1) hasSeeded.individuals_eq, ?_, hasSeeded.generation_eq⟩
  rw [trainSteps, taken, hasSeeded.trainSteps_eq]
  rfl

/-- Seeding takes two steps for each slot. -/
theorem hasSeeded_of_seed (counts : CountsCalls ε) (yields : engine.seed.Yields dialogue next) :
    engine.HasSeeded engine.population.size next := by
  obtain ⟨_, filled, _, _, fill_yields, rfl⟩ := of_seed yields
  have hasSeeded := holds_of_foldlM (fun index state => engine.HasSeeded index state)
    (fun _ _ _ _ _ hasSeeded slot_yields => hasSeeded.slot counts slot_yields)
    fill_yields ⟨rfl, rfl, rfl, rfl⟩
  rw [Nat.zero_add] at hasSeeded
  exact ⟨hasSeeded.size_eq, hasSeeded.individuals_eq, hasSeeded.trainSteps_eq,
    hasSeeded.generation_eq⟩

/-- The accounts of a generation that has bred the children up to an index. -/
structure HasBred (engine : Engine γ μ ε) (index : Nat) (state : Engine γ μ ε) : Prop where
  strategy_eq : state.strategy = engine.strategy
  individuals_eq : state.individuals + 1 = engine.individuals + index
  trainSteps_eq : state.trainSteps + 1 = engine.trainSteps + index +
    (state.population.span 1 index).countP engine.strategy.hasCleared

omit [Generator γ] in
theorem HasBred.child {index : Nat} {talk : List Chance.Line} {state : Engine γ μ ε}
    (counts : CountsCalls ε) (hasBred : engine.HasBred index state) (le : 1 ≤ index)
    (yields : (state.breedSlot index).Yields talk next) : engine.HasBred (index + 1) next := by
  obtain ⟨within, child, _, rfl⟩ := of_breedSlot yields
  have taken := state.strategy.trainSteps_evaluate counts child state.evaluator
  rw [hasBred.strategy_eq] at taken
  refine ⟨hasBred.strategy_eq, congrArg (· + 1) hasBred.individuals_eq, ?_⟩
  have before := hasBred.trainSteps_eq
  rw [Population.span_set le within, List.countP_append, List.countP_singleton,
    hasBred.strategy_eq]
  dsimp only [trainSteps] at *
  rw [taken]
  omega

omit [Generator γ] in
/-- A generation takes a step for each child, and another one for each that clears a hurdle. -/
theorem accounts_of_rear (counts : CountsCalls ε) (yields : engine.rear.Yields dialogue bred) :
    bred.individuals = engine.individuals + (engine.population.size - 1) ∧
      bred.trainSteps = engine.trainSteps + (engine.population.size - 1) +
        bred.population.children.countP engine.strategy.hasCleared := by
  obtain ⟨slot, _, breed_yields⟩ := of_rear yields
  have initially : engine.HasBred 1 { engine with population := engine.population.set 0 slot } := by
    refine ⟨rfl, rfl, ?_⟩
    rw [Population.span_self]
    rfl
  have hasBred := holds_of_foldlM (fun index state => engine.HasBred index state)
    (fun _ _ _ _ le hasBred slot_yields => hasBred.child counts le slot_yields)
    breed_yields initially
  have size_eq : (engine.population.set 0 slot).size = bred.population.size :=
    (Population.size_set ..).trans (maintains_of_rear yields).1.size_eq.symm
  have individuals_eq := hasBred.individuals_eq
  have steps_eq := hasBred.trainSteps_eq
  rw [size_eq, Population.span_eq_children] at steps_eq
  rw [size_eq] at individuals_eq
  rw [← (maintains_of_rear yields).1.size_eq]
  omega

omit [Generator γ] in
/-- A generation takes between one and two steps for each child, and one if there are no hurdles. -/
theorem uses_of_step (counts : CountsCalls ε) (yields : engine.step.Yields dialogue next) :
    engine.trainSteps + (engine.population.size - 1) ≤ next.trainSteps ∧
      next.trainSteps ≤ engine.trainSteps + 2 * (engine.population.size - 1) ∧
      (engine.strategy.collectsEarly = false →
        next.trainSteps = engine.trainSteps + (engine.population.size - 1)) := by
  obtain ⟨bred, _, _, rear_yields, conclude_yields, _⟩ := yields_step_iff.mp yields
  obtain ⟨_, steps_eq⟩ := accounts_of_rear counts rear_yields
  obtain ⟨_, evaluator_eq, _⟩ := maintains_of_conclude conclude_yields
  have next_eq : next.trainSteps = bred.trainSteps := congrArg Evaluator.trainSteps evaluator_eq
  have most : bred.population.children.countP engine.strategy.hasCleared ≤
      bred.population.children.length := List.countP_le_length
  rw [Population.length_children, (maintains_of_rear rear_yields).1.size_eq] at most
  refine ⟨by omega, by omega, fun plain => ?_⟩
  have none : bred.population.children.countP engine.strategy.hasCleared = 0 := by
    rw [List.countP_eq_zero]
    intro slot _
    rw [Strategy.hasCleared_eq_false plain]
    exact Bool.false_ne_true
  omega

section Counting

omit [Generator γ] [Mutator μ] [Evaluator ε] in
theorem hurdle?_eq_none_iff : engine.hurdle? = none ↔ engine.strategy.collectsEarly = false := by
  rw [hurdle?]
  cases engine.strategy <;> simp [Strategy.collectsEarly]

omit [Generator γ]

variable {σ : Type} {answers : (effect : Effect) → effect.Answer → σ → σ → Prop}
  {before after : Engine γ μ ε × σ}

/-- What a turn of a run takes, from any point that the run has come to. -/
theorem uses_of_turn (counts : CountsCalls ε) (so_far : engine.Maintains before.1)
    (turns : Turns answers before after) :
    engine.Maintains after.1 ∧
      before.1.trainSteps + (engine.population.size - 1) ≤ after.1.trainSteps ∧
      after.1.trainSteps ≤ before.1.trainSteps + 2 * (engine.population.size - 1) ∧
      (engine.hurdle? = none →
        after.1.trainSteps = before.1.trainSteps + (engine.population.size - 1)) := by
  obtain ⟨_, _, _, ends⟩ := turns
  obtain ⟨_, yields⟩ := exists_yields_of_endsIn ends
  rw [hurdle?_eq_none_iff, ← so_far.size_eq, ← so_far.collectsEarly_eq]
  exact ⟨so_far.trans (maintains_of_step yields).1, uses_of_step counts yields⟩

theorem le_ceilDiv_of_mul_lt {steps size count : Nat} (positive : 0 < size)
    (last : count * size < steps + size) : count ≤ steps ⌈/⌉ size := by
  rw [Nat.ceilDiv_eq_add_pred_div, Nat.le_div_iff_mul_le positive]
  omega

section Spends

variable {steps count : Nat} {start last : σ} (counts : CountsCalls ε)
  (spends : Spends (Turns answers) (fun point => point.1.trainSteps) (engine.trainSteps + steps)
    (engine, start) count (next, last))
include counts spends

/-- Without hurdles, all generations take the same number of steps. -/
theorem count_of_unhurdled (unhurdled : engine.hurdle? = none)
    (slots : 2 ≤ engine.population.size) :
    count = steps ⌈/⌉ (engine.population.size - 1) := by
  have children : 0 < engine.population.size - 1 := by omega
  obtain ⟨reached, upper, others⟩ := spends.bounds children
    (fun _ _ so_far turns => (uses_of_turn counts so_far turns).1)
    (fun point behind so_far turns => by
      have taken := (uses_of_turn counts so_far turns).2.2.2 unhurdled
      exact ⟨Nat.le_of_eq taken.symm, Nat.le_of_eq taken⟩)
    (show engine.Maintains engine from ⟨rfl, rfl, rfl⟩)
  dsimp only at reached upper others
  apply Nat.le_antisymm
  · rcases Nat.eq_zero_or_pos steps with rfl | positive
    · rw [(spends.of_spent (Nat.le_refl _)).1]
      exact Nat.zero_le _
    · exact le_ceilDiv_of_mul_lt children (by omega)
  · apply (ceilDiv_le_iff_le_mul children).mpr
    rw [Nat.mul_comm]
    omega

/-- A single slot is never bred. -/
theorem count_of_single (single : engine.population.size = 1) :
    count = if 0 < steps then 1 else 0 := by
  have idles (point behind : Engine γ μ ε × σ) (so_far : engine.Maintains point.1)
      (turns : Turns answers point behind) : behind.1.trainSteps = point.1.trainSteps := by
    obtain ⟨_, least, most, _⟩ := uses_of_turn counts so_far turns
    rw [single] at least most
    omega
  rw [spends.count_eq_of_idle idles ⟨rfl, rfl, rfl⟩]
  simp

/-- With hurdles, a generation takes between one and two steps for each child. -/
theorem bounds_of_hurdled (slots : 2 ≤ engine.population.size) (positive : 0 < steps) :
    ∃ taken, next.trainSteps = engine.trainSteps + taken ∧
      steps ≤ taken ∧ taken < steps + 2 * (engine.population.size - 1) ∧
      steps ⌈/⌉ (2 * (engine.population.size - 1)) ≤ count ∧
      count ≤ steps ⌈/⌉ (engine.population.size - 1) := by
  have children : 0 < engine.population.size - 1 := by omega
  obtain ⟨reached, upper, others⟩ := spends.bounds children
    (fun _ _ so_far turns => (uses_of_turn counts so_far turns).1)
    (fun point behind so_far turns => by
      obtain ⟨_, least, most, _⟩ := uses_of_turn counts so_far turns
      exact ⟨least, most⟩)
    (show engine.Maintains engine from ⟨rfl, rfl, rfl⟩)
  dsimp only at reached upper others
  obtain ⟨overshoot, last_turn⟩ := others (by omega)
  refine ⟨next.trainSteps - engine.trainSteps, by omega, by omega, by omega, ?_, ?_⟩
  · apply (ceilDiv_le_iff_le_mul (Nat.mul_pos two_pos children)).mpr
    rw [Nat.mul_comm]
    omega
  · apply le_ceilDiv_of_mul_lt children
    omega

end Spends

/-- How many generations a run goes through that may take so many steps. -/
structure Lasts (steps count : Nat) (engine next : Engine γ μ ε) : Prop where
  unhurdled : engine.hurdle? = none → 2 ≤ engine.population.size →
    count = steps ⌈/⌉ (engine.population.size - 1)
  single : engine.population.size = 1 → count = if 0 < steps then 1 else 0
  hurdled : 2 ≤ engine.population.size → 0 < steps → ∃ taken,
    next.trainSteps = engine.trainSteps + taken ∧
      steps ≤ taken ∧ taken < steps + 2 * (engine.population.size - 1) ∧
      steps ⌈/⌉ (2 * (engine.population.size - 1)) ≤ count ∧
      count ≤ steps ⌈/⌉ (engine.population.size - 1)

theorem lasts_of_run (counts : CountsCalls ε) {steps count : Nat}
    (yields : (engine.run ⟨steps, none⟩).Yields dialogue (count, next)) :
    engine.Lasts steps count next := by
  obtain ⟨_, _, _, _, spends⟩ := endsIn_run_iff.mp (endsIn_recites_of_yields yields)
  exact
    { unhurdled := count_of_unhurdled counts spends
      single := count_of_single counts spends
      hurdled := bounds_of_hurdled counts spends }

/-- If every generation comes to an end, so does a run, and within as many generations as it may
take steps. -/
theorem ensuresIn_run_of_step {holds : Engine γ μ ε → σ → Prop}
    (asks : ∀ engine state, holds engine state →
      Act.now.EnsuresIn answers state fun _ mid => holds engine mid)
    (returns : ∀ engine state, holds engine state → engine.step.EnsuresIn answers state holds)
    {state : σ} (initially : holds engine state) (seeded : engine.seeded = true) (budget : Budget) :
    (engine.run budget).EnsuresIn answers state fun outcome after =>
      outcome.1 ≤ budget.steps ∧ holds outcome.2 after := by
  have loop {before start fuel completed : Nat} {engine : Engine γ μ ε} {state : σ}
      (so_far : holds engine state) :
      (engine.continueRun budget before start fuel completed).EnsuresIn answers state
        fun outcome after => outcome.1 ≤ completed + fuel ∧ holds outcome.2 after := by
    induction fuel generalizing engine completed state with
    | zero => exact ⟨Nat.le_refl _, so_far⟩
    | succ fuel ih =>
      have room : completed + 1 + fuel = completed + (fuel + 1) := by omega
      rw [continueRun]
      split
      · apply (asks engine state so_far).bind
        intro time mid still_so
        split
        · apply (returns engine mid still_so).bind
          intro next after next_holds
          split
          · rw [← room]
            exact ih next_holds
          · exact ⟨room ▸ Nat.le_add_right .., next_holds⟩
        · exact ⟨Nat.le_add_right .., still_so⟩
      · exact ⟨Nat.le_add_right .., so_far⟩
  rw [run, if_pos seeded]
  apply (asks engine state initially).bind
  intro time mid still_so
  have ended := @loop engine.trainSteps time budget.steps 0 engine mid still_so
  rwa [Nat.zero_add] at ended

/-- A run that may take so many steps would not go on if it were given more turns than that. -/
theorem continueRun_eq_of_enough {budget : Budget} {before start fuel more completed : Nat}
    (le : before ≤ engine.trainSteps) (enough : before + budget.steps ≤ engine.trainSteps + fuel)
    (fuel_le : fuel ≤ more) : engine.continueRun budget before start more completed =
      engine.continueRun budget before start fuel completed := by
  induction fuel generalizing engine more completed with
  | zero =>
    have reached : ¬ engine.trainSteps - before < budget.steps := by omega
    cases more with
    | zero => rfl
    | succ more => exact if_neg reached
  | succ fuel ih =>
    obtain ⟨more, rfl⟩ := Nat.exists_eq_add_one_of_ne_zero (Nat.ne_zero_of_lt fuel_le)
    rw [continueRun, continueRun]
    split
    · refine congrArg (_ >>= ·) (funext fun time => ?_)
      split
      · refine congrArg (_ >>= ·) (funext fun next => ?_)
        split
        · exact ih (by omega) (by omega) (by omega)
        · rfl
      · rfl
    · rfl

end Counting

section Ledger

variable {start : Engine γ μ ε} {cleared : Nat}

/-- Where a run is after its seeding and after each of its generations, with the number of children
so far that were held to a hurdle and have cleared it. -/
inductive Clears (start : Engine γ μ ε) : Nat → Engine γ μ ε → Prop
  | seeding {opening : List Surroundings.Line} {engine : Engine γ μ ε} :
      start.seed.Yields opening engine → Clears start 0 engine
  | generation {cleared : Nat} {first second : List Surroundings.Line}
      {engine bred next : Engine γ μ ε} : Clears start cleared engine →
      engine.rear.Yields first bred → bred.conclude.Yields second next →
      Clears start (cleared + bred.population.children.countP engine.strategy.hasCleared) next

theorem exists_clears_of_ends (ends : start.Ends engine) :
    ∃ cleared, start.Clears cleared engine := by
  induction ends with
  | seeding yields => exact ⟨0, .seeding yields⟩
  | generation _ yields ih =>
    obtain ⟨cleared, clears⟩ := ih
    obtain ⟨_, _, _, rear_yields, conclude_yields, _⟩ := yields_step_iff.mp yields
    exact ⟨_, clears.generation rear_yields conclude_yields⟩

theorem collectsEarly_of_ends (ends : start.Ends engine) :
    engine.strategy.collectsEarly = start.strategy.collectsEarly := by
  induction ends with
  | seeding yields => rw [strategy_of_seed yields]
  | generation _ yields ih => exact (maintains_of_step yields).1.collectsEarly_eq.trans ih

omit [Generator γ] in
/-- A run goes through as many generations as it says. -/
theorem generation_of_proceeds {generations : Nat} (proceeds : engine.Proceeds generations next) :
    next.generation = engine.generation + generations := by
  induction proceeds with
  | here => rfl
  | step _ yields ih => rw [(maintains_of_step yields).2, ih, Nat.add_assoc]

/-- The accounts of a search with so many slots, whose judge had taken `steps` before. -/
structure Balances (size steps cleared : Nat) (engine : Engine γ μ ε) : Prop where
  size_eq : engine.population.size = size
  individuals_eq : engine.individuals = size + (size - 1) * engine.generation
  trainSteps_eq :
    engine.trainSteps = steps + 2 * size + (size - 1) * engine.generation + cleared

theorem balances_of_clears (counts : CountsCalls ε) (fresh : start.individuals = 0)
    (first : start.generation = 0) (clears : start.Clears cleared engine) :
    engine.Balances start.population.size start.trainSteps cleared := by
  induction clears with
  | seeding yields =>
    have hasSeeded := hasSeeded_of_seed counts yields
    have unbred := hasSeeded.generation_eq.trans first
    refine ⟨hasSeeded.size_eq, ?_, ?_⟩
    · rw [hasSeeded.individuals_eq, fresh, unbred, Nat.zero_add, Nat.mul_zero, Nat.add_zero]
    · rw [hasSeeded.trainSteps_eq, unbred, Nat.mul_zero]
      rfl
  | @generation cleared _ _ engine bred next _ rear_yields conclude_yields ih =>
    obtain ⟨bred_individuals, bred_steps⟩ := accounts_of_rear counts rear_yields
    obtain ⟨reared, bred_generation⟩ := maintains_of_rear rear_yields
    obtain ⟨concluded, evaluator_eq, individuals_eq, generation_eq⟩ :=
      maintains_of_conclude conclude_yields
    have steps_eq : next.trainSteps = bred.trainSteps := congrArg Evaluator.trainSteps evaluator_eq
    rw [ih.size_eq] at bred_individuals bred_steps
    refine ⟨(reared.trans concluded).size_eq.trans ih.size_eq, ?_, ?_⟩
    · rw [individuals_eq, bred_individuals, ih.individuals_eq, generation_eq, bred_generation,
        Nat.mul_succ, Nat.add_assoc]
    · rw [steps_eq, bred_steps, ih.trainSteps_eq, generation_eq, bred_generation, Nat.mul_succ]
      omega

theorem seeded_of_ends (ends : start.Ends engine) : engine.seeded = true := by
  induction ends with
  | seeding yields =>
    obtain ⟨_, _, _, _, _, rfl⟩ := of_seed yields
    rfl
  | generation _ yields ih => exact (maintains_of_step yields).1.seeded_eq.trans ih

/-- How long runs last, and what they take.

A run without a limit of time ends if each of its generations does, and then within as many
generations as it may take steps. What ends it is never that it has been given so many turns only.

With a judge who counts every evaluation as one step, what a run takes and how often it goes on is
as `Lasts` says; and wherever a search is after its seeding and after its generations, in however
many runs it has gone there, its accounts are as `Balances` says. -/
theorem accounts_of_run :
    (∀ (σ : Type) (answers : (effect : Effect) → effect.Answer → σ → σ → Prop)
        (holds : Engine γ μ ε → σ → Prop),
      (∀ engine state, holds engine state →
        Act.now.EnsuresIn answers state fun _ mid => holds engine mid) →
      (∀ engine state, holds engine state → engine.step.EnsuresIn answers state holds) →
      ∀ engine state steps, engine.seeded = true → holds engine state →
        ((engine.run ⟨steps, none⟩).EnsuresIn answers state fun outcome after =>
          outcome.1 ≤ steps ∧ holds outcome.2 after) ∧
        ∀ time enough, steps ≤ enough →
          engine.continueRun ⟨steps, none⟩ engine.trainSteps time enough 0 =
            engine.continueRun ⟨steps, none⟩ engine.trainSteps time steps 0) ∧
    (CountsCalls ε →
      (∀ (engine next : Engine γ μ ε) steps dialogue count,
        (engine.run ⟨steps, none⟩).Yields dialogue (count, next) →
          engine.Lasts steps count next) ∧
      ∀ (config : EvolutionConfig) (generator : γ) (mutator : μ) (evaluator : ε) time start,
        new config generator mutator evaluator time = .ok start →
        (∀ opening engine, start.seed.Yields opening engine →
          start.Ends engine ∧ engine.generation = 0) ∧
        ∀ engine, start.Ends engine →
          engine.seeded = true ∧ (config.mode ≠ .hurdles → engine.hurdle? = none) ∧
          (∀ budget dialogue count next, (engine.run budget).Yields dialogue (count, next) →
            start.Ends next ∧ next.generation = engine.generation + count) ∧
          (∃ cleared, start.Clears cleared engine) ∧
          ∀ cleared, start.Clears cleared engine →
            engine.Balances config.populationSize.toNat (Evaluator.trainSteps evaluator)
              cleared) := by
  refine ⟨?_, fun counts => ⟨?_, ?_⟩⟩
  · intro σ answers holds asks returns engine state steps seeded initially
    refine ⟨ensuresIn_run_of_step asks returns initially seeded _, ?_⟩
    intro time enough le
    exact continueRun_eq_of_enough (Nat.le_refl _) (Nat.le_refl _) le
  · intro engine next steps dialogue count yields
    exact lasts_of_run counts yields
  · intro config generator mutator evaluator time start made
    refine ⟨fun opening engine yields => ⟨.seeding yields, ?_⟩, fun engine ends => ?_⟩
    · obtain ⟨_, _, _, rfl⟩ := of_new made
      exact (hasSeeded_of_seed counts yields).generation_eq
    refine ⟨seeded_of_ends ends, ?_, ?_, exists_clears_of_ends ends, fun cleared clears => ?_⟩
    · intro other_mode
      obtain ⟨_, strategy, strategy_eq, rfl⟩ := of_new made
      rw [hurdle?_eq_none_iff, collectsEarly_of_ends ends, Bool.eq_false_iff]
      intro collects
      exact other_mode (Strategy.mode_eq_of_collectsEarly strategy_eq collects)
    · intro budget dialogue count next yields
      have proceeds := proceeds_of_run yields
      exact ⟨proceeds.ends ends, generation_of_proceeds proceeds⟩
    · obtain ⟨_, _, _, rfl⟩ := of_new made
      have balances := balances_of_clears counts rfl rfl clears
      rwa [Population.size_ofSize] at balances

end Ledger

/-- A search with a single slot, some generations behind its seeding. -/
def lone (generation : Nat) : Engine Blank Blank Tally where
  config := { pairConfig 0 .replaceTopHalf with populationSize := 1 }
  generator := ⟨⟩
  mutator := ⟨⟩
  evaluator := ⟨2⟩
  population := ⟨#[.fresh { program := .empty, fitness := 1 } (some 1)]⟩
  strategy := .standard
  reporter := ⟨1, some 1, 0⟩
  best := some { program := .empty, fitness := 1 }
  earlyObserved := []
  individuals := 1
  generation
  seeded := true

/-- Nothing is bred, drawn or reported, and another generation is counted. -/
theorem step_lone (generation : Nat) : (lone generation).step = pure (lone (generation + 1)) := by
  have stays : (lone generation).config.migration.probability ≤ 0 := by
    change (0 : Float) ≤ 0
    decide +kernel
  have unbeaten : ¬ beats 1 1 = true := by decide +kernel
  have migrated : (lone generation).migrate = pure (lone generation) := by
    rw [migrate, MigrationConfig.migrate, if_pos stays]
    rfl
  have noted : (lone (generation + 1)).noteBest { program := .empty, fitness := 1 } =
      lone (generation + 1) := by
    rw [noteBest]
    exact if_neg unbeaten
  calc (lone generation).step
    _ = (lone generation).migrate >>= fun engine =>
        { engine with generation := engine.generation + 1 }.updateBest >>= report := rfl
    _ = ((pure ((lone (generation + 1)).noteBest { program := .empty, fitness := 1 }) : Act _) >>=
        report) := by rw [migrated]; rfl
    _ = pure (lone (generation + 1)) := by rw [noted]; rfl

/-- The built-in objective, before any evaluation. -/
def freshObjective : Synthetic.Objective where
  target := Synthetic.sharesOf ⟨1, 0, 0, 0, 0⟩
  steps := 0

/-- A search with two slots and the built-in objective goes through three generations on three
steps, and one with a single slot stops by itself. -/
theorem accounts_of_run_of_pair : ∃ start engine next : Engine Blank Blank Synthetic.Objective,
    new (pairConfig 1 .replaceTopHalf) ⟨⟩ ⟨⟩ freshObjective 0 = .ok start ∧ start.Ends engine ∧
      engine.Lasts 3 3 next ∧ next.generation = 3 ∧
      (∃ cleared, start.Clears cleared next ∧ next.Balances 2 0 cleared) ∧
      ((lone 0).run ⟨5, none⟩).EnsuresIn (fun _ _ _ _ => True) () fun outcome _ =>
        outcome.1 ≤ 5 ∧ ∃ generation, outcome.2 = lone generation := by
  obtain ⟨start, made⟩ : ∃ start : Engine Blank Blank Synthetic.Objective,
      new (pairConfig 1 .replaceTopHalf) ⟨⟩ ⟨⟩ freshObjective 0 = .ok start := ⟨_, rfl⟩
  have run : ((Script.run (standstill [])
      (start.seed >>= fun engine => Prod.mk engine <$> engine.run ⟨3, none⟩) ()).toOption.any
        fun outcome => outcome.1.2.1 == 3) = true := by
    obtain rfl := Except.ok.inj made
    decide +kernel
  obtain ⟨_, ⟨engine, count, next⟩, yields, counted⟩ := exists_yields_of_run
    (fun outcome : Engine Blank Blank Synthetic.Objective × Nat ×
        Engine Blank Blank Synthetic.Objective => outcome.2.1 == 3) run
  obtain ⟨_, _, _, seed_yields, rest, _⟩ := yields_bind_iff.mp yields
  obtain ⟨_, run_yields, same⟩ := yields_map_iff.mp rest
  cases same
  obtain rfl : count = 3 := beq_iff_eq.mp counted
  obtain ⟨_, accounts_of⟩ := accounts_of_run (γ := Blank) (μ := Blank) (ε := Synthetic.Objective)
  obtain ⟨lasts, ledger⟩ := accounts_of countsCalls_objective
  obtain ⟨seeds, goes_on⟩ := ledger _ _ _ _ _ _ made
  obtain ⟨ends, unbred⟩ := seeds _ engine seed_yields
  obtain ⟨_, _, adds, _⟩ := goes_on engine ends
  obtain ⟨next_ends, generation_eq⟩ := adds _ _ _ _ run_yields
  rw [unbred, Nat.zero_add] at generation_eq
  obtain ⟨_, _, _, ⟨cleared, clears⟩, balances⟩ := goes_on next next_ends
  refine ⟨start, engine, next, made, ends, lasts _ _ _ _ _ run_yields, generation_eq,
    ⟨cleared, clears, balances cleared clears⟩, ?_⟩
  obtain ⟨ends_of, _⟩ := accounts_of_run (γ := Blank) (μ := Blank) (ε := Tally)
  refine (ends_of Unit _ (fun engine _ => ∃ generation, engine = lone generation) ?_ ?_ (lone 0) ()
    5 rfl ⟨0, rfl⟩).1
  · intro engine _ is_lone
    exact ⟨⟨(0 : Nat), (), trivial⟩, fun _ _ _ => is_lone⟩
  · rintro _ _ ⟨generation, rfl⟩
    rw [step_lone]
    exact ⟨generation + 1, rfl⟩

end Engine

end EvoSearch
