/-
# No fault is reached

A search with settings that are not refused, and with the built-in objective, goes on without a
fault for as long as one likes: whatever chance brings within its ranges, whatever the store
answers, and however often the run is taken up again. The population is there in full all the time.

What a part of a generation needs is little: settings that are sound, as many slots as they say, and
a maker and a changer of programs that can be relied upon. `Stands` says so of an engine, and every
part keeps it. Nothing is required of the programs in the slots, since migrants may be any.
-/

import EvoSearch.Proofs.Elitism
import EvoSearch.Proofs.Synthesis
import EvoSearch.Synthetic.Objective

namespace EvoSearch

open Script

/-- Settings of a search under which there are slots, and contestants in a tournament. -/
structure EvolutionConfig.IsSound (config : EvolutionConfig) : Prop where
  slots : 0 < config.populationSize.toNat
  contestants : 0 < config.tournamentSize.toNat

theorem EvolutionConfig.nonzero_of_validate {config : EvolutionConfig}
    (valid : config.validate = .ok ()) :
    config.populationSize ≠ 0 ∧ config.tournamentSize ≠ 0 ∧ config.progressEvery ≠ 0 := by
  rw [validate] at valid
  by_cases slotless : config.populationSize = 0
  · rw [if_pos slotless] at valid
    cases valid
  by_cases empty : config.tournamentSize = 0
  · rw [if_neg slotless, if_pos empty] at valid
    cases valid
  by_cases silent : config.progressEvery = 0
  · rw [if_neg slotless, if_neg empty, if_pos silent] at valid
    cases valid
  exact ⟨slotless, empty, silent⟩

/-- Settings that are not refused are sound, and there is a strategy for their mode. -/
theorem EvolutionConfig.of_validate {config : EvolutionConfig}
    (valid : config.validate = .ok ()) :
    config.IsSound ∧ ∃ strategy, Strategy.ofMode config.mode = .ok strategy := by
  obtain ⟨slotless, empty, silent⟩ := nonzero_of_validate valid
  rw [validate, if_neg slotless, if_neg empty, if_neg silent] at valid
  refine ⟨⟨toNat_pos_of_ne_zero slotless, toNat_pos_of_ne_zero empty⟩, ?_⟩
  cases mode : config.mode with
  | standard => exact ⟨_, rfl⟩
  | hurdles => exact ⟨_, rfl⟩
  | qualityDiversity => exact ⟨_, rfl⟩
  | mapElites sizes =>
    cases grid : Grid.ofSizes sizes with
    | ok grid => exact ⟨_, by rw [Strategy.ofMode, grid]⟩
    | error reason =>
      rw [mode] at valid
      dsimp only at valid
      rw [grid] at valid
      cases valid

namespace Population

variable {population : Population}

theorem ensures_best {I : Interface} {allowed : (q : I.Query) → I.Answer q → Prop}
    (occupied : 0 < population.size) :
    (population.best : Script I _).Ensures allowed fun found => population.best? = some found := by
  obtain ⟨slot, index, found⟩ := exists_best? occupied
  exact ensures_ofOption found found

theorem ensures_drawSlot (occupied : 0 < population.size) :
    population.drawSlot.Ensures Choice.Admits fun _ => True := by
  apply (Draw.ensures_index occupied).bind
  intro index index_lt
  rw [slot?, Array.getElem?_eq_getElem index_lt, ofOption_some, done_bind]
  trivial

theorem ensures_tournament {contestants : Nat} {score : TournamentScore}
    (occupied : 0 < population.size) (positive : 0 < contestants) :
    (population.tournament contestants score).Ensures Choice.Admits fun _ => True := by
  apply (ensures_replicate (ensures_drawSlot occupied) contestants).bind
  rintro drawn ⟨length_eq, _⟩
  cases drawn with
  | nil => exact absurd length_eq (Nat.ne_of_lt positive)
  | cons first row => trivial

theorem ensures_replace? {I : Interface} {allowed : (q : I.Query) → I.Answer q → Prop}
    {index : Nat} {slot : Slot} (within : index < population.size) :
    (ofOption .outOfRange (population.replace? index slot) : Script I _).Ensures allowed
      fun next => next = population.set index slot :=
  ensures_ofOption (if_pos within) rfl

end Population

namespace Archive

theorem ensures_sampleOccupied (archive : Archive) :
    archive.sampleOccupied.Ensures Choice.Admits fun _ => True := by
  rw [sampleOccupied]
  split
  · trivial
  · have cells : 0 < archive.cells.size := archive.size_cells ▸ archive.grid.capacity_pos
    apply (Draw.ensures_indexUntil cells).bind
    rintro cell ⟨_, taken⟩
    obtain ⟨elite, found⟩ := Option.isSome_iff_exists.mp taken
    rw [found, ofOption_some, done_bind]
    trivial

theorem ensures_refill {archive : Archive} {discarded : List Nat} {update : Update}
    {population : Population} (within : ∀ index ∈ discarded, index < population.size) :
    (archive.refill update population discarded).Ensures Choice.Admits fun _ => True := by
  induction discarded generalizing update population with
  | nil => trivial
  | cons index discarded ih =>
    rw [refill]
    apply archive.ensures_sampleOccupied.bind
    intro sampled _
    have behind (other : Nat) (mem : other ∈ discarded) : other < population.size :=
      within other (List.mem_cons_of_mem index mem)
    cases sampled with
    | none => exact ih behind
    | some elite =>
      apply (Population.ensures_replace? (within index List.mem_cons_self)).bind
      rintro filled rfl
      apply ih
      simpa using behind

/-- Only slots of the population are turned down, so that all of them can be filled anew. -/
theorem ensures_apply (archive : Archive) (population : Population) :
    (archive.apply population).Ensures Choice.Admits fun _ => True := by
  rw [apply, offerSlots?_eq, ofOption_some, done_bind]
  apply (ensures_refill ?_).bind
  · exact fun _ _ => trivial
  · intro index discarded
    obtain ⟨place, rfl, place_lt⟩ := exists_of_mem_discarded discarded
    rw [Nat.zero_add]
    exact place_lt

end Archive

namespace MigrationConfig

variable (config : MigrationConfig) (population : Population)

/-- Whichever call fails, an exchange comes to an end. -/
theorem ensures_exchange {allowed : (effect : Effect) → effect.Answer → Prop} :
    (config.exchange population).Ensures allowed fun _ => True := by
  intro withdrawal _
  cases withdrawal with
  | error _ => trivial
  | ok _ =>
    intro publication _
    cases publication with
    | error _ => trivial
    | ok _ =>
      intro sample _
      trivial

/-- Any migrants at all find a place. -/
theorem ensures_migrate :
    (config.migrate population).Ensures Effect.Admits
      fun outcome => outcome.2.size = population.size := by
  rw [migrate]
  split
  · exact rfl
  · have drawn : Draw.probability.Ensures Choice.Admits fun _ => True := fun _ _ => trivial
    apply (Draw.ensures_act drawn).bind
    intro drawn _
    split
    · exact rfl
    · apply (config.ensures_exchange population).bind
      intro outcome _
      cases outcome with
      | error _ => exact rfl
      | ok migrants =>
        dsimp only
        rw [Population.splice?_eq, ofOption_some, done_bind]
        exact Population.size_splice

end MigrationConfig

/-- The built-in maker and changer of programs follow the given settings. -/
structure Synthetic.KeepTo (config : SyntheticConfig) (generator : RandomPrograms)
    (mutator : InstructionEdits) : Prop where
  generator_eq : generator = ⟨config⟩
  mutator_eq : mutator = ⟨config⟩

namespace Engine

variable {γ μ ε : Type} {config : EvolutionConfig} {engine : Engine γ μ ε}
  {trusted : γ → μ → Prop} {seeded : Bool}

/-- What a part of a generation needs of an engine, and leaves of it. -/
structure Stands (trusted : γ → μ → Prop) (config : EvolutionConfig) (seeded : Bool)
    (engine : Engine γ μ ε) : Prop where
  config_eq : engine.config = config
  size_eq : engine.population.size = config.populationSize.toNat
  trusted : trusted engine.generator engine.mutator
  seeded_eq : engine.seeded = seeded

theorem Stands.occupied (stands : engine.Stands trusted config seeded) (sound : config.IsSound) :
    0 < engine.population.size := by
  rw [stands.size_eq]
  exact sound.slots

theorem Stands.noteBest (stands : engine.Stands trusted config seeded) (candidate : Scored) :
    (engine.noteBest candidate).Stands trusted config seeded := by
  rw [noteBest_eq]
  exact ⟨stands.config_eq, stands.size_eq, stands.trusted, stands.seeded_eq⟩

theorem ensures_promoteBest (sound : config.IsSound)
    (stands : engine.Stands trusted config seeded) :
    (engine.promoteBest : Act _).Ensures Effect.Admits fun next =>
      next.Stands trusted config seeded := by
  apply (Population.ensures_best (stands.occupied sound)).bind
  rintro ⟨slot, index⟩ _
  dsimp only
  split
  · exact stands
  · apply (Population.ensures_replace? (stands.occupied sound)).bind
    rintro population rfl
    exact ⟨stands.config_eq, (Population.size_set ..).trans stands.size_eq, stands.trusted,
      stands.seeded_eq⟩

theorem ensures_applyStrategy (stands : engine.Stands trusted config seeded) :
    engine.applyStrategy.Ensures Choice.Admits fun next =>
      next.Stands trusted config seeded := by
  rw [applyStrategy]
  split
  · exact stands
  · exact ⟨stands.config_eq, Population.size_scoreDiversity.trans stands.size_eq, stands.trusted,
      stands.seeded_eq⟩
  · next archive _ =>
    have keeps_size : (archive.apply engine.population).Ensures Choice.Admits fun result =>
        result.2.2.size = engine.population.size :=
      (archive.ensures_apply engine.population).of_yields
        fun _ _ yields => (Archive.shapes_of_apply yields).size_eq
    apply keeps_size.bind
    rintro ⟨update, archive', population⟩ size_eq
    exact ⟨stands.config_eq, size_eq.trans stands.size_eq, stands.trusted, stands.seeded_eq⟩
  · exact ⟨stands.config_eq, stands.size_eq, stands.trusted, stands.seeded_eq⟩

theorem ensures_migrate (stands : engine.Stands trusted config seeded) :
    engine.migrate.Ensures Effect.Admits fun next => next.Stands trusted config seeded := by
  apply (engine.config.migration.ensures_migrate engine.population).bind
  rintro ⟨outcome, population⟩ size_eq
  exact ⟨stands.config_eq, size_eq.trans stands.size_eq, stands.trusted, stands.seeded_eq⟩

theorem ensures_updateBest (sound : config.IsSound)
    (stands : engine.Stands trusted config seeded) :
    (engine.updateBest : Act _).Ensures Effect.Admits fun next =>
      next.Stands trusted config seeded := by
  apply (Population.ensures_best (stands.occupied sound)).bind
  rintro ⟨slot, index⟩ _
  exact stands.noteBest slot.scored

/-- Whichever call fails, a report comes to an end. -/
theorem ensures_report {allowed : (effect : Effect) → effect.Answer → Prop}
    (occupied : 0 < engine.population.size) :
    engine.report.Ensures allowed fun next => ∃ reporter, next = { engine with reporter } := by
  rw [report]
  split
  · apply (Population.ensures_best occupied).bind
    intro best _ diversity_reply _ time _ progress_reply _
    exact ⟨_, rfl⟩
  · exact ⟨_, rfl⟩

theorem Stands.ensures_report (stands : engine.Stands trusted config seeded)
    (sound : config.IsSound) :
    engine.report.Ensures Effect.Admits fun next => next.Stands trusted config seeded := by
  apply (Engine.ensures_report (stands.occupied sound)).mono
  rintro _ ⟨reporter, rfl⟩
  exact ⟨stands.config_eq, stands.size_eq, stands.trusted, stands.seeded_eq⟩

variable [Generator γ] [Mutator μ]

/-- A maker and a changer of programs that never fault, and stay so for good. -/
structure Reliable (trusted : γ → μ → Prop) : Prop where
  generate : ∀ generator mutator, trusted generator mutator →
    (Generator.generate generator).Ensures Choice.Admits fun made => trusted made.2 mutator
  mutate : ∀ intensity program generator mutator, trusted generator mutator →
    (Mutator.mutate intensity program mutator).Ensures Choice.Admits
      fun made => trusted generator made.2

variable [Evaluator ε] (reliable : Reliable trusted) (sound : config.IsSound)
include reliable

theorem ensures_seedSlot {index : Nat} (stands : engine.Stands trusted config seeded)
    (within : index < engine.population.size) :
    (engine.seedSlot index).Ensures Choice.Admits fun next =>
      next.Stands trusted config seeded := by
  apply (reliable.generate engine.generator engine.mutator stands.trusted).bind
  rintro ⟨drawn, generator⟩ trusted_generator
  apply (reliable.mutate .neutral drawn generator engine.mutator trusted_generator).bind
  rintro ⟨program, mutator⟩ trusted_both
  apply (Population.ensures_replace? within).bind
  rintro population rfl
  exact ⟨stands.config_eq, (Population.size_set ..).trans stands.size_eq, trusted_both,
    stands.seeded_eq⟩

include sound

theorem ensures_breedSlot {index : Nat} (stands : engine.Stands trusted config seeded)
    (within : index < engine.population.size) :
    (engine.breedSlot index).Ensures Choice.Admits fun next =>
      next.Stands trusted config seeded := by
  have contestants : 0 < engine.config.tournamentSize.toNat := by
    rw [stands.config_eq]
    exact sound.contestants
  apply (Population.ensures_tournament (stands.occupied sound) contestants).bind
  rintro ⟨parent, _⟩ _
  apply (reliable.mutate .full parent.program engine.generator engine.mutator stands.trusted).bind
  rintro ⟨child, mutator⟩ trusted_both
  apply (Population.ensures_replace? within).bind
  rintro population rfl
  exact ⟨stands.config_eq, (Population.size_set ..).trans stands.size_eq, trusted_both,
    stands.seeded_eq⟩

theorem ensures_breed (stands : engine.Stands trusted config seeded) :
    engine.breed.Ensures Choice.Admits fun next => next.Stands trusted config seeded := by
  apply ensures_foldlM ?_ stands
  intro index listed state state_stands
  have within : index < state.population.size := by
    have between := List.mem_range'_1.mp listed
    rw [state_stands.size_eq, ← stands.size_eq]
    omega
  exact ensures_breedSlot reliable sound state_stands within

theorem ensures_seed (stands : engine.Stands trusted config seeded) :
    engine.seed.Ensures Effect.Admits fun next => next.Stands trusted config true := by
  have filled : ((List.range engine.population.size).foldlM seedSlot engine : Draw _).Ensures
      Choice.Admits fun next => next.Stands trusted config seeded := by
    apply ensures_foldlM ?_ stands
    intro index listed state state_stands
    have within : index < state.population.size := by
      rw [state_stands.size_eq, ← stands.size_eq]
      exact List.mem_range.mp listed
    exact ensures_seedSlot reliable state_stands within
  apply (Draw.ensures_act filled).bind
  intro filled filled_stands
  have noted : Stands trusted config true { filled with seeded := true } :=
    ⟨filled_stands.config_eq, filled_stands.size_eq, filled_stands.trusted, rfl⟩
  apply (ensures_updateBest sound noted).bind
  intro next next_stands
  exact next_stands.ensures_report sound

theorem ensures_step (stands : engine.Stands trusted config seeded) :
    engine.step.Ensures Effect.Admits fun next => next.Stands trusted config seeded := by
  apply (ensures_promoteBest sound stands).bind
  intro promoted promoted_stands
  apply (Draw.ensures_act (ensures_breed reliable sound promoted_stands)).bind
  intro bred bred_stands
  apply (Draw.ensures_act (ensures_applyStrategy bred_stands)).bind
  intro shaped shaped_stands
  apply (ensures_migrate shaped_stands).bind
  intro exchanged exchanged_stands
  have counted : Stands trusted config seeded
      { exchanged with generation := exchanged.generation + 1 } :=
    ⟨exchanged_stands.config_eq, exchanged_stands.size_eq, exchanged_stands.trusted,
      exchanged_stands.seeded_eq⟩
  apply (ensures_updateBest sound counted).bind
  intro noted noted_stands
  exact noted_stands.ensures_report sound

theorem ensures_continueRun {budget : Budget} {before time fuel completed : Nat}
    (stands : engine.Stands trusted config seeded) :
    (engine.continueRun budget before time fuel completed).Ensures Effect.Admits
      fun outcome => outcome.2.Stands trusted config seeded := by
  induction fuel generalizing engine completed with
  | zero => exact stands
  | succ fuel ih =>
    rw [continueRun]
    split
    · apply Act.ensures_now.bind
      intro now _
      split
      · apply (ensures_step reliable sound stands).bind
        intro next next_stands
        split
        · exact ih next_stands
        · exact next_stands
      · exact stands
    · exact stands

theorem ensures_run {budget : Budget} (stands : engine.Stands trusted config true) :
    (engine.run budget).Ensures Effect.Admits
      fun outcome => outcome.2.Stands trusted config true := by
  rw [run, if_pos stands.seeded_eq]
  apply Act.ensures_now.bind
  intro time _
  exact ensures_continueRun reliable sound stands

omit reliable sound

/-- Seed the population, and take the run up as often as there are budgets. -/
def sittings (budgets : List Budget) (engine : Engine γ μ ε) : Act (Engine γ μ ε) := do
  let engine ← engine.seed
  budgets.foldlM (fun engine budget => Prod.snd <$> engine.run budget) engine

include reliable sound in
theorem ensures_sittings (stands : engine.Stands trusted config seeded) (budgets : List Budget) :
    (engine.sittings budgets).Ensures Effect.Admits
      fun last => last.Stands trusted config true := by
  apply (ensures_seed reliable sound stands).bind
  intro seeded seeded_stands
  apply ensures_foldlM ?_ seeded_stands
  intro budget _ state state_stands
  rw [map_eq_pure_bind]
  apply (ensures_run reliable sound state_stands).bind
  rintro ⟨generations, next⟩ next_stands
  exact next_stands

/-- No part of a run adds slots to the population, or takes any away. -/
theorem size_eq_of_ends {start : Engine γ μ ε} (ends : start.Ends engine) :
    engine.population.size = start.population.size := by
  induction ends with
  | seeding yields =>
    rw [seed_eq_perform, yields_perform_iff] at yields
    obtain ⟨moments, passes⟩ := yields
    obtain ⟨_, _, _, _, _, fills, _, last_population⟩ := of_seeding passes
    rw [last_population, fills.agrees.size_eq]
  | generation ends yields ih =>
    rw [step_eq_perform, yields_perform_iff] at yields
    obtain ⟨moments, passes⟩ := yields
    obtain ⟨_, _, shaped, _, _, rearing, closing, _, _⟩ := passes_append_iff.mp passes
    obtain ⟨_, _, promoted, _, bred, _, _, rfl, fills, reshapes, _⟩ := exists_of_rearing rearing
    obtain ⟨_, _, exchange⟩ := of_closing closing
    have shaped_size : shaped.population.size = start.population.size := by
      rw [reshapes.size_eq, fills.agrees.size_eq, Population.size_set, ih]
    rcases exchange with same | ⟨_, migrants, spliced⟩
    · rw [same, shaped_size]
    · rw [spliced, Population.size_splice, shaped_size]

/-- What the built-in maker and changer of programs need is that their settings stay as they are. -/
theorem reliable_keepTo {synthetic : SyntheticConfig} (sound : synthetic.IsSound)
    (room : synthetic.HasRoom) : Reliable (Synthetic.KeepTo synthetic) where
  generate := by
    rintro _ _ ⟨rfl, rfl⟩
    exact (Synthetic.ensures_generate sound room).mono fun _ same => ⟨same, rfl⟩
  mutate := by
    rintro intensity program _ _ ⟨rfl, rfl⟩
    exact (Synthetic.ensures_mutate sound intensity program).mono fun _ same => ⟨rfl, same⟩

omit [Generator γ] [Mutator μ] [Evaluator ε] in
/-- Settings that are not refused make a search, where there is room for it. -/
theorem exists_of_validate {generator : γ} {mutator : μ} (evaluator : ε) (time : Nat)
    (valid : config.validate = .ok ()) (fits : Engine.fits config = true)
    (trusts : trusted generator mutator) :
    ∃ start, allocate config generator mutator evaluator time = .ok (.ok start) ∧
      start.Stands trusted config false := by
  obtain ⟨_, strategy, strategy_eq⟩ := EvolutionConfig.of_validate valid
  obtain ⟨start, made⟩ : ∃ start, new config generator mutator evaluator time = .ok start := by
    rw [new, valid, strategy_eq]
    exact ⟨_, rfl⟩
  refine ⟨start, ?_, ?_⟩
  · rw [allocate, valid, ← made]
    exact if_pos fits
  · obtain ⟨_, _, _, rfl⟩ := of_new made
    exact ⟨rfl, Population.size_ofSize _, trusts, rfl⟩

open Synthetic in
/-- With settings that are not refused, and room for what they ask for, there is a search with the
built-in objective. It always has as many slots as it should, and it reaches no fault: neither with
any answers that chance can give and the store and the clock care to give, nor on any stream of
words and in any world, unless a redraw loop there does not come to an end. -/
theorem never_faults {config : EvolutionConfig} {synthetic : SyntheticConfig}
    (valid : config.validate = .ok ()) (fits : Engine.fits config = true)
    (synthetic_valid : synthetic.validate = .ok ()) (room : synthetic.HasRoom) (time : Nat) :
    ∃ start, allocate config (RandomPrograms.mk synthetic) (InstructionEdits.mk synthetic)
        (Objective.ofConfig synthetic) time = .ok (.ok start) ∧
      (∀ engine, start.Ends engine → engine.population.size = config.populationSize.toNat) ∧
      ∀ budgets,
        ((start.sittings budgets).Ensures Effect.Admits fun last =>
          last.population.size = config.populationSize.toNat) ∧
        ∀ (σ ρ : Type) [Random.WordStream ρ] (patience : Nat) (world : Act.World σ)
          (state : ρ × σ) (reason : Fault),
          Script.run (Act.serveIn patience world) (start.sittings budgets) state = .error reason →
            reason = .stalled := by
  obtain ⟨sound, _⟩ := EvolutionConfig.of_validate valid
  have reliable := reliable_keepTo (SyntheticConfig.isSound_of_validate synthetic_valid) room
  have keepTo : KeepTo synthetic (RandomPrograms.mk synthetic) (InstructionEdits.mk synthetic) :=
    ⟨rfl, rfl⟩
  obtain ⟨start, made, stands⟩ :=
    exists_of_validate (Objective.ofConfig synthetic) time valid fits keepTo
  refine ⟨start, made, ?_, ?_⟩
  · intro engine ends
    rw [size_eq_of_ends ends, stands.size_eq]
  · intro budgets
    have ensures := ensures_sittings reliable sound stands budgets
    constructor
    · exact ensures.mono fun last last_stands => last_stands.size_eq
    · intro σ ρ _ patience world state reason
      exact Act.stalled_of_run ensures

/-- Settings of the built-in objective for short programs over a single variable of every kind. -/
def shortPrograms : SyntheticConfig where
  setupSize := ⟨0, 1⟩
  predictSize := ⟨1, 2⟩
  learnSize := ⟨0, 2⟩
  addresses := 1
  targetMix := ⟨1, 0, 0, 0, 0⟩

open Synthetic in
/-- Two slots, an exchange in every generation, and a run that is taken up a second time. -/
theorem never_faults_of_pair :
    ∃ start, allocate (pairConfig 1 .replaceTopHalf) (RandomPrograms.mk shortPrograms)
        (InstructionEdits.mk shortPrograms) (Objective.ofConfig shortPrograms) 0 =
          .ok (.ok start) ∧
      (start.sittings [⟨6, none⟩, ⟨4, some 1⟩]).Ensures Effect.Admits fun last =>
        last.population.size = 2 := by
  have room : shortPrograms.HasRoom := by
    intro part
    cases part <;> decide
  obtain ⟨start, made, _, safe⟩ :=
    @never_faults (pairConfig 1 .replaceTopHalf) shortPrograms rfl (by decide) rfl room 0
  exact ⟨start, made, (safe [⟨6, none⟩, ⟨4, some 1⟩]).1⟩

end Engine

end EvoSearch
