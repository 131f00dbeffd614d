/-
# What the store cannot change

Reports, and exchanges that bring no migrants, leave no trace in a search. Take two runs that start
from the same words, with settings that differ in the schedule of reports at most, and let all calls
of theirs fail or succeed in any pattern, as long as none brings a migrant. Then they go through the
same populations with the same best so far, and use up the same words.

Both runs ask chance the same questions in the same order, and this is what keeps them in lockstep;
calls to the store and looks at the clock are for each of them alone.
-/

import EvoSearch.Proofs.Course
import EvoSearch.Proofs.Faultless
import EvoSearch.Proofs.Lockstep
import EvoSearch.Proofs.Recast

namespace EvoSearch

open Script EvoSearch.Random

/-- A question to chance. -/
def Effect.IsChance : Effect → Prop
  | chance _ => True
  | store _ => False
  | clock => False

/-- An answer that brings no migrant: any but a sample with something in it. -/
def Effect.IsBarren : (effect : Effect) → effect.Answer → Prop
  | chance _, _ => True
  | store (.sample _ _), reply => ∀ migrants, reply = .ok migrants → migrants = []
  | store _, _ => True
  | clock, _ => True

/-- Chance is answered from the words, and all else by something that brings no migrant. -/
def Act.Barren {ρ : Type} [WordStream ρ] (patience : Nat) :
    (effect : Effect) → effect.Answer → ρ → ρ → Prop
  | .chance choice, answer, words, after => choice.serve patience words = .ok (answer, after)
  | .store call, reply, words, after => Effect.IsBarren (.store call) reply ∧ after = words
  | .clock, _, words, after => after = words

namespace Act

variable {α β ρ : Type} [WordStream ρ] {patience : Nat}

/-- Two acts draw together, each of them on its own with the store and the clock, as long as no
migrant comes. -/
abbrev Together (post : α → β → Prop) : Act α → Act β → Prop :=
  InStep Effect.IsChance Effect.IsBarren post

theorem exists_barren (effect : Effect) (words : ρ) (apart : ¬ effect.IsChance) :
    ∃ answer after, Barren patience effect answer words after := by
  cases effect with
  | chance choice => exact (apart trivial).elim
  | clock => exact ⟨(0 : Nat), words, rfl⟩
  | store call =>
    refine ⟨.error .poisoned, words, ?_, rfl⟩
    cases call with
    | sample run count => rintro _ ⟨⟩
    | withdraw | publish | logProgress | logDiversity | logFinal | best => trivial

/-- Acts in lockstep that are run on the same words, and get no migrants, use up the same words. -/
theorem Together.ensuresIn {post : α → β → Prop} {act : Act α} {other : Act β}
    (together : Together post act other) {words last : ρ} {value : α}
    (ends : act.EndsIn (Barren patience) words value last) :
    other.EnsuresIn (Barren patience) words fun result after =>
      post value result ∧ last = after := by
  apply InStep.ensuresIn ?_ ?_ exists_barren together ends
  · intro effect answer given state after last chance told told_other
    cases effect with
    | chance choice =>
      have same := told.symm.trans told_other
      obtain ⟨rfl, rfl⟩ := Prod.mk.inj (Except.ok.inj same)
      exact ⟨rfl, rfl⟩
    | store call => exact chance.elim
    | clock => exact chance.elim
  · intro effect answer state after apart told
    cases effect with
    | chance choice => exact (apart trivial).elim
    | store call => exact told
    | clock => exact ⟨trivial, told⟩

end Act

/-- A run on words and in a world that brings no migrants. -/
theorem Act.endsIn_of_run {α σ ρ : Type} [WordStream ρ] {patience : Nat} {act : Act α}
    {world : Act.World σ} {words after : ρ} {state last : σ} {value : α}
    (barren : ∀ call state, Effect.IsBarren (.store call) (world.reply call state).1)
    (run : Script.run (Act.serveIn patience world) act (words, state) =
      .ok (value, after, last)) : act.EndsIn (Act.Barren patience) words value after := by
  have faithful (effect : Effect) (before : ρ × σ) (answer : effect.Answer) (after : ρ × σ)
      (served : Act.serveIn patience world effect before = .ok (answer, after)) :
      Act.Barren patience effect answer before.1 after.1 := by
    cases effect with
    | chance choice =>
      rw [Act.serveIn] at served
      split at served
      · cases served
      · next drawn =>
        cases served
        exact drawn
    | store call =>
      cases served
      exact ⟨barren call before.2, rfl⟩
    | clock =>
      cases served
      exact rfl
  exact Script.endsIn_of_run faithful run

theorem Draw.respects_isChance {α : Type} (draw : Draw α) :
    draw.act.Respects Effect.IsChance (fun _ _ => True) fun _ => True :=
  Respects.lift (fun _ => trivial) fun _ _ _ => trivial

theorem Draw.together {α : Type} (draw : Draw α) :
    Act.Together (fun value result => result = value) draw.act draw.act := by
  have together : Act.Together (fun value result => result = id value) draw.act (id <$> draw.act) :=
    inStep_map id draw.respects_isChance
  rwa [id_map] at together

namespace MigrationConfig

variable (config : MigrationConfig) (population : Population)

theorem respects_exchange : (config.exchange population).Respects
    (fun effect : Effect => ¬ effect.IsChance) Effect.IsBarren
    fun outcome => ∀ migrants, outcome = .ok migrants → migrants = [] := by
  refine ⟨id, fun withdrawal _ => ?_⟩
  cases withdrawal with
  | error error => rintro _ ⟨⟩
  | ok _ =>
    refine ⟨id, fun publication _ => ?_⟩
    cases publication with
    | error error => rintro _ ⟨⟩
    | ok _ => exact ⟨id, fun sample barren => barren⟩

/-- What is made of the outcome of an exchange. -/
def settle : Except Store.Error (List Scored) → Act (MigrationOutcome × Population)
  | .error _ => pure (.failed, population)
  | .ok migrants => do
    let spliced ← ofOption .outOfRange (population.splice? config.splice migrants)
    pure (.migrated (config.splice.landings population migrants).length, spliced)

theorem migrate_eq_ite : config.migrate population =
    if config.probability ≤ 0 then pure (.skipped, population)
    else Draw.probability.act >>= fun drawn =>
      if config.probability ≤ drawn then pure (.skipped, population)
      else config.exchange population >>= config.settle population := by
  rw [migrate]
  rfl

/-- Without migrants the population stays as it is. -/
theorem exists_settle_eq {outcome : Except Store.Error (List Scored)}
    (none : ∀ migrants, outcome = .ok migrants → migrants = []) :
    ∃ report, config.settle population outcome = pure (report, population) := by
  cases outcome with
  | error _ => exact ⟨_, rfl⟩
  | ok migrants =>
    obtain rfl := none migrants rfl
    refine ⟨.migrated 0, ?_⟩
    rw [settle, Population.splice?_eq, ofOption_some, done_bind, Population.splice,
      SplicePolicy.landings, List.zip_nil_right, List.take_nil]
    rfl

/-- Whatever becomes of the exchange, the population is as it was. -/
theorem together_migrate : Act.Together
    (fun outcome other => outcome.2 = population ∧ other.2 = population)
    (config.migrate population) (config.migrate population) := by
  rw [migrate_eq_ite]
  split
  · exact .done ⟨rfl, rfl⟩
  · apply Draw.probability.together.bind
    rintro drawn _ rfl
    split
    · exact .done ⟨rfl, rfl⟩
    · have apart := config.respects_exchange population
      apply (InStep.of_apart apart apart (config.ensures_exchange population)).bind
      rintro outcome other ⟨none, other_none⟩
      obtain ⟨_, settled⟩ := config.exists_settle_eq population none
      obtain ⟨_, other_settled⟩ := config.exists_settle_eq population other_none
      rw [settled, other_settled]
      exact .done ⟨rfl, rfl⟩

end MigrationConfig

namespace Engine

variable {γ μ ε : Type} [Evaluator ε] {engine other : Engine γ μ ε}

/-- The schedule of reports put in place of another one. -/
def rescheduling (every : UInt64) (reporter : Reporter) : Recasting ε ε where
  judge := id
  evaluate_judge _ _ := rfl
  evaluateEarly_judge _ _ := rfl
  every _ := every
  reporter _ := reporter

/-- Two engines agree in all but the schedule of reports. -/
structure Matches (engine other : Engine γ μ ε) : Prop where
  config_eq : other.config =
    { engine.config with progressEvery := other.config.progressEvery }
  generator_eq : other.generator = engine.generator
  mutator_eq : other.mutator = engine.mutator
  evaluator_eq : other.evaluator = engine.evaluator
  population_eq : other.population = engine.population
  strategy_eq : other.strategy = engine.strategy
  best_eq : other.best = engine.best
  earlyObserved_eq : other.earlyObserved = engine.earlyObserved
  individuals_eq : other.individuals = engine.individuals
  generation_eq : other.generation = engine.generation
  seeded_eq : other.seeded = engine.seeded

theorem matches_recast (engine : Engine γ μ ε) (every : UInt64) (reporter : Reporter) :
    engine.Matches (engine.recast (rescheduling every reporter)) := by
  constructor <;> rfl

theorem Matches.exists_eq_recast (matched : engine.Matches other) :
    ∃ every reporter, other = engine.recast (rescheduling every reporter) := by
  refine ⟨other.config.progressEvery, other.reporter, ?_⟩
  cases other
  obtain ⟨config_eq, rfl, rfl, rfl, rfl, rfl, rfl, rfl, rfl, rfl, rfl⟩ := matched
  simp only at config_eq
  rw [config_eq]
  rfl

/-- What a recast engine does in terms of the engine itself is done together, if it only draws. -/
theorem together_recast {recasting : Recasting ε ε} {act other : Act (Engine γ μ ε)}
    (shares : act.Respects Effect.IsChance (fun _ _ => True) fun _ => True)
    (same : other = recast recasting <$> act) :
    Act.Together (fun next after => after = next.recast recasting) act other := by
  rw [same]
  exact inStep_map _ shares

omit [Evaluator ε] in
theorem respects_promoteBest :
    (engine.promoteBest : Act _).Respects Effect.IsChance (fun _ _ => True) fun _ => True := by
  apply respects_ofOption.bind
  rintro ⟨slot, index⟩ _
  dsimp only
  split
  · trivial
  · apply respects_ofOption.bind
    exact fun _ _ => trivial

/-- A search that has noted its best slot has slots. -/
theorem together_updateBest (engine : Engine γ μ ε) {recasting : Recasting ε ε} : Act.Together
    (fun next after => after = next.recast recasting ∧ 0 < next.population.size)
    engine.updateBest (engine.recast recasting).updateBest := by
  rw [recast_updateBest, updateBest, Population.best]
  cases found : engine.population.best? with
  | none => exact .stuck _ _
  | some best =>
    refine .done ⟨rfl, ?_⟩
    rw [population_noteBest]
    exact Nat.zero_lt_of_lt (Population.lt_size_of_slot? (Population.slot?_of_best? found))

omit [Evaluator ε] in
theorem respects_report : engine.report.Respects (fun effect : Effect => ¬ effect.IsChance)
    Effect.IsBarren fun next => ∃ reporter, next = { engine with reporter } := by
  rw [report]
  split
  · apply respects_ofOption.bind
    intro best _
    exact ⟨id, fun _ _ => ⟨id, fun _ _ => ⟨id, fun _ _ => ⟨_, rfl⟩⟩⟩⟩
  · exact ⟨_, rfl⟩

theorem Matches.together_report (matched : engine.Matches other)
    (occupied : 0 < engine.population.size) :
    Act.Together Matches engine.report other.report := by
  obtain ⟨every, reporter, rfl⟩ := matched.exists_eq_recast
  have other_occupied : 0 < (engine.recast (rescheduling every reporter)).population.size :=
    occupied
  apply (InStep.of_apart respects_report respects_report (ensures_report other_occupied)).mono
  rintro _ _ ⟨⟨schedule, rfl⟩, other_schedule, rfl⟩
  exact matches_recast { engine with reporter := schedule } every other_schedule

theorem together_migrate {recasting : Recasting ε ε} : Act.Together
    (fun next after => after = next.recast recasting)
    engine.migrate (engine.recast recasting).migrate := by
  apply (engine.config.migration.together_migrate engine.population).bind
  rintro ⟨_, population⟩ ⟨_, other⟩ ⟨rfl, rfl⟩
  exact .done rfl

variable [Generator γ] [Mutator μ]

theorem Matches.together_seed (matched : engine.Matches other) :
    Act.Together Matches engine.seed other.seed := by
  obtain ⟨every, reporter, rfl⟩ := matched.exists_eq_recast
  apply (together_recast (Draw.respects_isChance _) ?_).bind
  · rintro filled _ rfl
    apply (together_updateBest { filled with seeded := true }).bind
    rintro noted _ ⟨rfl, occupied⟩
    exact (matches_recast noted every reporter).together_report occupied
  · rw [← Draw.act_map, ← recast_foldlM_seedSlot]
    rfl

omit [Generator γ] in
theorem Matches.together_step (matched : engine.Matches other) :
    Act.Together Matches engine.step other.step := by
  obtain ⟨every, reporter, rfl⟩ := matched.exists_eq_recast
  apply (together_recast respects_promoteBest engine.recast_promoteBest).bind
  rintro promoted _ rfl
  apply (together_recast (Draw.respects_isChance _) (by
    rw [recast_breed, Draw.act_map])).bind
  rintro bred _ rfl
  apply (together_recast (Draw.respects_isChance _) (by
    rw [recast_applyStrategy, Draw.act_map])).bind
  rintro shaped _ rfl
  apply together_migrate.bind
  rintro exchanged _ rfl
  apply (together_updateBest { exchanged with generation := exchanged.generation + 1 }).bind
  rintro noted _ ⟨rfl, occupied⟩
  exact (matches_recast noted every reporter).together_report occupied

theorem Matches.together_course (matched : engine.Matches other) (generations : Nat) :
    Act.Together Matches (engine.course generations) (other.course generations) := by
  induction generations with
  | zero => exact matched.together_seed
  | succ generations ih => exact ih.bind fun _ _ reached => reached.together_step

omit [Evaluator ε] [Generator γ] [Mutator μ] in
/-- Settings that differ in the schedule of reports make searches that do. -/
theorem matches_of_new {config : EvolutionConfig} {every : UInt64} {generator : γ} {mutator : μ}
    {evaluator : ε} {time later : Nat}
    (made : new config generator mutator evaluator time = .ok engine)
    (other_made : new { config with progressEvery := every } generator mutator evaluator later =
      .ok other) : engine.Matches other := by
  obtain ⟨_, strategy, strategy_eq, rfl⟩ := of_new made
  obtain ⟨_, other_strategy, other_strategy_eq, rfl⟩ := of_new other_made
  obtain rfl := Except.ok.inj (other_strategy_eq.symm.trans strategy_eq)
  constructor <;> rfl

/-- Two searches whose settings differ in the schedule of reports at most, on the same words, and
with no migrants in either: where the first one has ended its seeding and some generations, the
second one comes to their end as well, agrees with the first in all but the schedule, and has used
up the same words. Above all, an exchange that fails at any of its calls leaves the population as it
was, and draws what one that finds nobody draws. -/
theorem matches_of_barren {config : EvolutionConfig} {every : UInt64} {generator : γ} {mutator : μ}
    {evaluator : ε} {time later : Nat}
    (made : new config generator mutator evaluator time = .ok engine)
    (other_made : new { config with progressEvery := every } generator mutator evaluator later =
      .ok other) (ρ : Type) [WordStream ρ] (patience : Nat) (words : ρ) :
    (∀ generations reached after,
      (engine.course generations).EndsIn (Act.Barren patience) words reached after →
      (other.course generations).EnsuresIn (Act.Barren patience) words fun counterpart last =>
        reached.Matches counterpart ∧ after = last) ∧
    ∀ (migration : MigrationConfig) (population : Population) outcome after,
      (migration.migrate population).EndsIn (Act.Barren patience) words outcome after →
      outcome.2 = population ∧
        (migration.migrate population).EnsuresIn (Act.Barren patience) words
          fun counterpart last => counterpart.2 = population ∧ after = last := by
  constructor
  · intro generations reached after ends
    exact ((matches_of_new made other_made).together_course generations).ensuresIn ends
  · intro migration population outcome after ends
    have together := (migration.together_migrate population).ensuresIn ends
    exact ⟨(together.of_endsIn ends).1.1, together.mono fun _ _ holds => ⟨holds.1.2, holds.2⟩⟩

/-- A store that is never out of order, and never has any members of other runs. -/
def emptyHanded : Act.World Unit where
  reply
    | .withdraw _, state => (.ok (), state)
    | .publish _ members, state => (.ok members.length, state)
    | .sample _ _, state => (.ok [], state)
    | .logProgress _, state => (.ok (), state)
    | .logDiversity _, state => (.ok (), state)
    | .logFinal _ _, state => (.ok (), state)
    | .best _, state => (.ok none, state)
  time state := (0, state)

/-- Two runs of the same search, one of which reports after every individual, the other one after
every nine. -/
theorem matches_of_barren_of_pair : ∃ (other reached : Engine Blank Blank Verdicts) (after : Tape),
    other.config.progressEvery = 9 ∧
    ((pairEngine 1 .replaceTopHalf [1, -1, 0]).course 1).EndsIn (Act.Barren 1) ⟨fun _ => 0, 0⟩
      reached after ∧
    (other.course 1).EnsuresIn (Act.Barren 1) ⟨fun _ => 0, 0⟩ fun counterpart last =>
      reached.Matches counterpart ∧ after = last := by
  have made : new (pairConfig 1 .replaceTopHalf) ⟨⟩ ⟨⟩ ⟨[1, -1, 0]⟩ 0 =
      .ok (pairEngine 1 .replaceTopHalf [1, -1, 0]) := rfl
  obtain ⟨other, other_made⟩ : ∃ other : Engine Blank Blank Verdicts,
      new { pairConfig 1 .replaceTopHalf with progressEvery := 9 } ⟨⟩ ⟨⟩ ⟨[1, -1, 0]⟩ 5 =
        .ok other := ⟨_, rfl⟩
  have barren (call : Store.Call) (state : Unit) :
      Effect.IsBarren (.store call) (emptyHanded.reply call state).1 := by
    cases call with
    | sample run count => exact fun migrants same => (Except.ok.inj same).symm
    | withdraw | publish | logProgress | logDiversity | logFinal | best => trivial
  have completes : (Script.run (Act.serveIn 1 emptyHanded)
      ((pairEngine 1 .replaceTopHalf [1, -1, 0]).course 1)
      ((⟨fun _ => 0, 0⟩ : Tape), ())).toOption.isSome = true := by
    decide +kernel
  cases run : Script.run (Act.serveIn 1 emptyHanded)
      ((pairEngine 1 .replaceTopHalf [1, -1, 0]).course 1) ((⟨fun _ => 0, 0⟩ : Tape), ()) with
  | error reason =>
    rw [run] at completes
    cases completes
  | ok outcome =>
    obtain ⟨reached, after, last⟩ := outcome
    have ends := Act.endsIn_of_run barren run
    refine ⟨other, reached, after, ?_, ends, ?_⟩
    · obtain ⟨_, _, _, rfl⟩ := of_new other_made
      rfl
    · exact (matches_of_barren made other_made Tape 1 ⟨fun _ => 0, 0⟩).1 1 reached after ends

end Engine

end EvoSearch
