/-
# Runs that are taken up again

A run may be left at any time that its budget allows, and be taken up again with another one. As
long as every evaluation takes train steps, this changes nothing but where the search may stop: two
runs one after the other are one run with as many steps as the first one has really taken and the
second one may take. Above all, what a generation leaves for the next one is all in the engine, and
the engine does not know of budgets.

Which of these runs comes to an end is a matter of the same words and the same store, at clocks that
may show anything.
-/

import EvoSearch.Proofs.Mirror
import EvoSearch.Proofs.Noninterference
import EvoSearch.Proofs.Turns

namespace EvoSearch

open Script EvoSearch.Random

/-- Every evaluation takes train steps, be it a cheap or an expensive one. -/
structure Grows (ε : Type) [Evaluator ε] : Prop where
  evaluate : ∀ program (judge : ε),
    Evaluator.trainSteps judge < Evaluator.trainSteps (Evaluator.evaluate program judge).2
  evaluateEarly : ∀ program (judge : ε),
    Evaluator.trainSteps judge < Evaluator.trainSteps (Evaluator.evaluateEarly program judge).2

/-- However a strategy judges a child, it takes train steps. -/
theorem Grows.strategy {ε : Type} [Evaluator ε] (grows : Grows ε) (strategy : Strategy)
    (program : Program) (judge : ε) : Evaluator.trainSteps judge <
      Evaluator.trainSteps (strategy.evaluate program judge).2 := by
  cases strategy with
  | standard => exact grows.evaluate program judge
  | qualityDiversity => exact grows.evaluate program judge
  | mapElites archive => exact grows.evaluate program judge
  | hurdles hurdle =>
    rw [Strategy.evaluate, Hurdle.evaluate]
    split
    · dsimp only
      split
      · exact Nat.lt_trans (grows.evaluateEarly program judge) (grows.evaluate program _)
      · exact grows.evaluateEarly program judge
    · exact grows.evaluate program judge

theorem Effect.isTimeless_of_isChance {effect : Effect} (chance : effect.IsChance) :
    effect.IsTimeless := by
  cases effect with
  | chance choice => trivial
  | store call => exact chance.elim
  | clock => exact chance.elim

namespace MigrationConfig

variable {ρ : Type} [WordStream ρ] {patience : Nat}

theorem steady_migrate (config : MigrationConfig) (population : Population) :
    Steady (Act.Hosts patience) (Act.Stage.Like (ρ := ρ)) (config.migrate population) := by
  rw [migrate_eq_ite]
  split
  · exact mirrors_done rfl
  · apply (Draw.probability.steady_act Act.repeats_chance).bind
    intro drawn
    split
    · exact mirrors_done rfl
    · apply (steady_of_respects (config.exchange_isTimeless population)
        fun _ => Act.repeats_of_isTimeless).bind
      rintro (error | migrants)
      · exact mirrors_done rfl
      · rw [settle, Population.splice?_eq]
        exact mirrors_done rfl

end MigrationConfig

namespace Engine

variable {γ μ ε ρ : Type} [WordStream ρ] {patience : Nat}

/-- A report notes another time at most, and the engine does not keep the time. -/
theorem steady_report (engine : Engine γ μ ε) :
    Steady (Act.Hosts patience) (Act.Stage.Like (ρ := ρ)) engine.report := by
  rw [report]
  split
  · apply Steady.bind (steady_ofOption _ engine.population.best?)
    intro place
    have timeless : (Effect.store (.logDiversity (engine.population.diversityRecords
      engine.config.migration.run engine.individuals))).IsTimeless := trivial
    refine mirrors_ask (Act.repeats_of_isTimeless timeless) fun _ _ _ => ?_
    refine mirrors_ask Act.echoes_clock fun time later _ => ?_
    exact mirrors_ask (Act.echoes_logProgress rfl) fun _ _ _ => mirrors_done rfl
  · exact mirrors_done rfl

theorem steady_updateBest (engine : Engine γ μ ε) :
    Steady (Act.Hosts patience) (Act.Stage.Like (ρ := ρ)) (engine.updateBest : Act _) :=
  Steady.bind (steady_ofOption _ engine.population.best?) fun _ => mirrors_done rfl

variable [Mutator μ] [Evaluator ε]

/-- A generation does not depend on the time. -/
theorem steady_step (engine : Engine γ μ ε) :
    Steady (Act.Hosts patience) (Act.Stage.Like (ρ := ρ)) engine.step := by
  have promotes : Steady (Act.Hosts patience) (Act.Stage.Like (ρ := ρ))
      (engine.promoteBest : Act _) :=
    steady_of_respects respects_promoteBest fun _ chance =>
      Act.repeats_of_isTimeless (Effect.isTimeless_of_isChance chance)
  apply promotes.bind
  intro promoted
  apply (promoted.breed.steady_act Act.repeats_chance).bind
  intro bred
  apply (bred.applyStrategy.steady_act Act.repeats_chance).bind
  intro shaped
  have migrates : Steady (Act.Hosts patience) (Act.Stage.Like (ρ := ρ)) shaped.migrate :=
    (shaped.config.migration.steady_migrate shaped.population).bind fun _ => mirrors_done rfl
  apply migrates.bind
  intro exchanged
  exact (steady_updateBest _).bind steady_report

/-- Without a limit of time it does not matter when a run was started. -/
theorem mirrors_continueRun (engine : Engine γ μ ε)
    (steps before start later fuel completed : Nat) :
    Mirrors (Act.Hosts patience) (Act.Stage.Like (ρ := ρ)) (fun outcome other => other = outcome)
      (engine.continueRun ⟨steps, none⟩ before start fuel completed)
      (engine.continueRun ⟨steps, none⟩ before later fuel completed) := by
  induction fuel generalizing engine completed with
  | zero => exact mirrors_done rfl
  | succ fuel ih =>
    rw [continueRun, continueRun]
    split
    · refine mirrors_ask Act.echoes_clock fun _ _ _ => ?_
      simp only [Option.all_none, if_true]
      apply Mirrors.bind engine.steady_step
      rintro _ next rfl
      split
      · exact ih next (completed + 1)
      · exact mirrors_done rfl
    · exact mirrors_done rfl

theorem steady_run (engine : Engine γ μ ε) (steps : Nat) :
    Steady (Act.Hosts patience) (Act.Stage.Like (ρ := ρ)) (engine.run ⟨steps, none⟩) := by
  rw [run]
  split
  · refine mirrors_ask Act.echoes_clock fun time later _ => ?_
    exact engine.mirrors_continueRun steps engine.trainSteps time later steps 0
  · rintro _ _ _ _ _ ⟨⟩

variable {engine next : Engine γ μ ε}

/-- A generation takes at least one train step for each child. -/
theorem trainSteps_le_of_step {dialogue : List Surroundings.Line} (grows : Grows ε)
    (yields : engine.step.Yields dialogue next) :
    engine.trainSteps + (engine.population.size - 1) ≤ next.trainSteps := by
  obtain ⟨bred, _, _, rear_yields, conclude_yields, _⟩ := yields_step_iff.mp yields
  obtain ⟨slot, _, breed_yields⟩ := of_rear rear_yields
  have bred_steps : engine.trainSteps + (1 + (engine.population.size - 1)) ≤
      bred.trainSteps + 1 := by
    have size_eq : (engine.population.set 0 slot).size = engine.population.size :=
      Population.size_set ..
    rw [← size_eq]
    apply holds_of_foldlM (fun index state => engine.trainSteps + index ≤ state.trainSteps + 1) ?_
      breed_yields (Nat.le_refl _)
    intro index state talk next _ so_far slot_yields
    obtain ⟨_, child, _, rfl⟩ := of_breedSlot slot_yields
    have taken : state.trainSteps < Evaluator.trainSteps
        (state.strategy.evaluate child state.evaluator).2 := grows.strategy _ _ _
    dsimp only [trainSteps] at *
    omega
  obtain ⟨_, evaluator_eq, _⟩ := maintains_of_conclude conclude_yields
  have same : next.trainSteps = bred.trainSteps := congrArg Evaluator.trainSteps evaluator_eq
  omega

/-- A turn of a search with at least two slots takes train steps, and keeps the slots. -/
theorem grows_of_turn (grows : Grows ε) {σ : Type}
    {answers : (effect : Effect) → effect.Answer → σ → σ → Prop} {before after : Engine γ μ ε × σ}
    (slots : 2 ≤ before.1.population.size) (turns : Turns answers before after) :
    2 ≤ after.1.population.size ∧ before.1.trainSteps < after.1.trainSteps := by
  obtain ⟨_, _, _, ends⟩ := turns
  obtain ⟨dialogue, yields⟩ := exists_yields_of_endsIn ends
  have grown := trainSteps_le_of_step grows yields
  obtain ⟨maintains, _⟩ := maintains_of_step yields
  exact ⟨maintains.size_eq ▸ slots, by omega⟩

theorem seeded_of_spends {σ : Type}
    {answers : (effect : Effect) → effect.Answer → σ → σ → Prop} {limit count : Nat}
    {before after : Engine γ μ ε × σ}
    (spends : Spends (Turns answers) (fun point => point.1.trainSteps) limit before count after)
    (seeded : before.1.seeded = true) : after.1.seeded = true := by
  have kept (point behind : Engine γ μ ε × σ) (holds : point.1.seeded = true)
      (turns : Turns answers point behind) : behind.1.seeded = true := by
    obtain ⟨_, _, _, ends⟩ := turns
    obtain ⟨_, yields⟩ := exists_yields_of_endsIn ends
    exact (maintains_of_step yields).1.seeded_eq.trans holds
  have still_seeded := spends.keeps kept seeded
  exact still_seeded

/-- Budgets compose. Take a search with at least two slots and a judge who takes train steps for
every evaluation, and a run of it without a limit of time. A second run that takes it up again ends
exactly where a single one does that may take as many steps as the first run has taken and the
second run may take, from the same words and the same rows in the store: in the same engine, with
the same words used up and the same rows written, but for the times in the reports, and the
generations of the two runs add up to those of the single one. Where one of the two ways comes to an
end, the other one does as well. -/
theorem run_eq_of_resumed (grows : Grows ε) (slots : 2 ≤ engine.population.size) (ρ : Type)
    [WordStream ρ] (patience : Nat) {stage twin between : Act.Stage Store.Memory ρ}
    (alike : stage.Like twin) {a b first : Nat} {mid : Engine γ μ ε}
    (front : (engine.run ⟨a, none⟩).EndsIn (Act.Hosts patience) stage (first, mid) between) :
    (∀ second last after,
      (mid.run ⟨b, none⟩).EndsIn (Act.Hosts patience) between (second, last) after →
      (engine.run ⟨mid.trainSteps - engine.trainSteps + b, none⟩).EnsuresIn (Act.Hosts patience)
        twin fun outcome final => outcome = (first + second, last) ∧ after.Like final) ∧
    ∀ total last after,
      (engine.run ⟨mid.trainSteps - engine.trainSteps + b, none⟩).EndsIn (Act.Hosts patience) twin
        (total, last) after →
      (mid.run ⟨b, none⟩).EnsuresIn (Act.Hosts patience) between
        fun outcome final => (first + outcome.1, outcome.2) = (total, last) ∧ after.Like final := by
  have kept (point next : Engine γ μ ε × Act.Stage Store.Memory ρ)
      (enough : 2 ≤ point.1.population.size) (turns : Turns (Act.Hosts patience) point next) :=
    (grows_of_turn grows enough turns).1
  have taken (point next : Engine γ μ ε × Act.Stage Store.Memory ρ)
      (enough : 2 ≤ point.1.population.size) (turns : Turns (Act.Hosts patience) point next) :=
    (grows_of_turn grows enough turns).2
  obtain ⟨seeded, _, _, told, front_spends⟩ := endsIn_run_iff.mp front
  obtain rfl := Act.hosts_clock_iff.mp told
  have mid_seeded : mid.seeded = true := seeded_of_spends front_spends seeded
  obtain ⟨reached, le⟩ := front_spends.reaches kept taken slots
  have limit_eq : engine.trainSteps + (mid.trainSteps - engine.trainSteps + b) =
      mid.trainSteps + b := by
    dsimp only at le
    omega
  have further : engine.trainSteps + a ≤ mid.trainSteps + b := by
    dsimp only at reached
    omega
  constructor
  · intro second last after back
    obtain ⟨_, time, _, told, back_spends⟩ := endsIn_run_iff.mp back
    obtain rfl := Act.hosts_clock_iff.mp told
    have spends := front_spends.append kept taken slots further back_spends
    rw [← limit_eq] at spends
    have ends := endsIn_run_iff.mpr ⟨seeded, time, _, Act.hosts_clock_iff.mpr rfl, spends⟩
    exact steady_run engine _ _ _ _ _ alike ends
  · intro total last after ends
    obtain ⟨_, time, _, told, spends⟩ := endsIn_run_iff.mp ends
    obtain rfl := Act.hosts_clock_iff.mp told
    rw [limit_eq] at spends
    obtain ⟨count, ⟨passed, passing⟩, others, head, tail, rfl⟩ :=
      spends.split kept taken slots further
    have head_ends := endsIn_run_iff.mpr ⟨seeded, time, _, Act.hosts_clock_iff.mpr rfl, head⟩
    -- the single run passes through the very engine that the first of the two runs has ended in
    obtain ⟨same, passing_alike⟩ :=
      (steady_run engine a _ _ _ _ alike.symm head_ends).of_endsIn front
    obtain ⟨rfl, rfl⟩ := Prod.mk.inj same
    have tail_ends := endsIn_run_iff.mpr
      ⟨mid_seeded, time, _, Act.hosts_clock_iff.mpr rfl, tail⟩
    apply (steady_run _ b _ _ _ _ passing_alike tail_ends).mono
    rintro _ final ⟨rfl, still_alike⟩
    exact ⟨rfl, still_alike⟩

/-- A seeding, and two runs one after the other. -/
def twoSittings [Generator γ] (start : Engine γ μ ε) (a b : Nat) :
    Act (Engine γ μ ε × (Nat × Engine γ μ ε) × Nat × Engine γ μ ε) := do
  let engine ← start.seed
  let first ← engine.run ⟨a, none⟩
  let second ← first.2.run ⟨b, none⟩
  pure (engine, first, second)

theorem exists_of_twoSittings [Generator γ] {σ : Type}
    {answers : (effect : Effect) → effect.Answer → σ → σ → Prop} {start : Engine γ μ ε} {a b : Nat}
    {first second : Nat × Engine γ μ ε} {state after : σ}
    (ends : (start.twoSittings a b).EndsIn answers state (engine, first, second) after) :
    ∃ stage between, start.seed.EndsIn answers state engine stage ∧
      (engine.run ⟨a, none⟩).EndsIn answers stage first between ∧
      (first.2.run ⟨b, none⟩).EndsIn answers between second after := by
  obtain ⟨_, stage, seeding, rest⟩ := endsIn_bind_iff.mp ends
  obtain ⟨_, between, front, rest⟩ := endsIn_bind_iff.mp rest
  obtain ⟨_, _, back, last⟩ := endsIn_bind_iff.mp rest
  obtain ⟨same, rfl⟩ := endsIn_pure_iff.mp last
  cases same
  exact ⟨stage, between, seeding, front, back⟩

/-- Two slots, an exchange in every generation, and a run of one generation that is taken up again
for two more. -/
theorem run_eq_of_resumed_of_pair : ∃ (engine mid last : Engine Blank Blank Tally)
    (stage between after : Act.Stage Store.Memory Tape) (first second : Nat),
    (engine.run ⟨1, none⟩).EndsIn (Act.Hosts 1) stage (first, mid) between ∧
    (mid.run ⟨2, none⟩).EndsIn (Act.Hosts 1) between (second, last) after ∧ second = 2 ∧
    (engine.run ⟨mid.trainSteps - engine.trainSteps + 2, none⟩).EnsuresIn (Act.Hosts 1) stage
      fun outcome final => outcome = (first + second, last) ∧ after.Like final := by
  obtain ⟨start, made⟩ : ∃ start : Engine Blank Blank Tally,
      new (pairConfig 1 .replaceTopHalf) ⟨⟩ ⟨⟩ ⟨0⟩ 0 = .ok start := ⟨_, rfl⟩
  have completes : (Act.run 1 .none 9 (start.twoSittings 1 2) Act.sharedStage).toOption.any
      (fun outcome => outcome.1.1.population.size == 2 && outcome.1.2.2.1 == 2) = true := by
    obtain rfl := Except.ok.inj made
    decide +kernel
  obtain ⟨⟨⟨engine, ⟨first, mid⟩, second, last⟩, after⟩, run, seen⟩ :=
    Act.exists_of_any_toOption completes
  obtain ⟨size_eq, second_eq⟩ := Bool.and_eq_true_iff.mp seen
  obtain ⟨stage, between, _, front, back⟩ :=
    exists_of_twoSittings (Act.endsIn_hosts_of_run run)
  have grows : Grows Tally := ⟨fun _ _ => Nat.lt_succ_self _, fun _ _ => Nat.lt_succ_self _⟩
  have slots : 2 ≤ engine.population.size := Nat.le_of_eq (beq_iff_eq.mp size_eq).symm
  exact ⟨engine, mid, last, stage, between, after, first, second, front, back,
    beq_iff_eq.mp second_eq,
    (run_eq_of_resumed grows slots Tape 1 (.refl stage) front).1 second last after back⟩

end Engine

end EvoSearch
